import MessageCatalog.Catalog.Session
import MessageCatalog.Proofs.Catalog.Build
import MessageCatalog.Proofs.Catalog.Registry
import MessageCatalog.Proofs.Traversal

namespace MessageCatalog

open Traversal

namespace Registry

variable {r r' : Registry} {m : Catalog} {config : Config} {h : Nat} {raw : RawMessages} {d : Directory}
  {report : LoadReport}

theorem createChild_eq_ok_iff :
    r.createChild config h = .ok r' ↔
      r.depth h < config.maxDepth ∧ r' = r.add ⟨.new config, some h⟩ := by
  simp only [createChild]
  split
  case isTrue hd => exact iff_of_false nofun fun hr => by omega
  case isFalse hd =>
    rw [Except.ok.injEq, eq_comm, iff_and_self]
    intro
    omega

theorem load_eq_ok_iff :
    r.load h m raw = .ok (r', report) ↔
      ∃ t skipped, Table.compile m.config.mode raw = .ok (t, skipped) ∧
        r' = r.publish h t ∧ report = ⟨t.keyCounts, skipped⟩ := by
  rw [load, bind_eq_ok_iff, Prod.exists]
  apply exists_congr
  intro t
  apply exists_congr
  intro skipped
  rw [mapError_eq_ok_iff]
  apply and_congr_right
  intro
  constructor
  · intro hr
    cases hr
    exact ⟨rfl, rfl⟩
  · rintro ⟨rfl, rfl⟩
    rfl

theorem loadBundle_eq_ok_iff {loaded : Registry × LoadReport} :
    r.loadBundle h m d = .ok loaded ↔ ∃ raw, Bundle.load d = .ok raw ∧ r.load h m raw = .ok loaded := by
  simp only [loadBundle, bind_eq_ok_iff, mapError_eq_ok_iff]

end Registry

namespace Session

variable {s s' : Session} {q : Request} {h : Nat} {m : Catalog}

inductive Adds (s : Session) : Request → String → Entry → Prop where
  | root (name : String) (config : Config) : Adds s (.change (.create name config)) name ⟨.new config, none⟩
  | identity (name : String) : Adds s (.change (.createIdentity name)) name ⟨.identity, none⟩
  | child {parent : String} {config : Config} {p : Nat} (name : String)
      (hp : s.handles.get? parent = some p) (hd : s.registry.depth p < config.maxDepth) :
      Adds s (.change (.createChild name parent config)) name ⟨.new config, some p⟩

inductive Loads (h : Nat) (s : Session) : Request → RawMessages → Prop where
  | raw {name : String} {raw : RawMessages} {report : LoadReport} (hn : s.handles.get? name = some h)
      (hs : (s.step (.change (.load name raw))).2 = .ok (.loaded report)) :
      Loads h s (.change (.load name raw)) raw
  | bundle {name : String} {d : Directory} {raw : RawMessages} {report : LoadReport}
      (hn : s.handles.get? name = some h) (hd : Bundle.load d = .ok raw)
      (hs : (s.step (.change (.loadBundle name d))).2 = .ok (.loaded report)) :
      Loads h s (.change (.loadBundle name d)) raw

inductive Keeps (kept : String) (s : Session) : Request → Table → Prop where
  | snapshot {name : String} {h : Nat} {m : Catalog} (hn : s.handles.get? name = some h)
      (hm : s.registry.catalog? h = some m) : Keeps kept s (.change (.snapshot name kept)) m.table

theorem handle_eq_ok_iff {name : String} : s.handle name = .ok h ↔ s.handles.get? name = some h := by
  rw [handle]
  cases s.handles.get? name <;> simp

theorem catalog_eq_ok_iff {name : String} :
    s.catalog name = .ok m ↔ ∃ h, s.handles.get? name = some h ∧ s.registry.catalog? h = some m := by
  simp only [catalog, bind_eq_ok_iff, handle_eq_ok_iff]
  apply exists_congr
  intro h
  apply and_congr_right
  intro
  cases s.registry.catalog? h <;> simp [pure, Except.pure]

section Apply

variable {name : String} {raw : RawMessages} {d : Directory} {report : Option LoadReport}

theorem apply_createChild_eq_ok_iff {parent : String} {config : Config} :
    s.apply (.createChild name parent config) = .ok (s', report) ↔
      ∃ p, s.handles.get? parent = some p ∧ s.registry.depth p < config.maxDepth ∧
        s' = s.named name (s.registry.add ⟨.new config, some p⟩) ∧ report = none := by
  simp only [apply, bind_eq_ok_iff, handle_eq_ok_iff, mapError_eq_ok_iff, Registry.createChild_eq_ok_iff]
  constructor
  · rintro ⟨p, hp, r, ⟨hd, rfl⟩, hs⟩
    cases hs
    exact ⟨p, hp, hd, rfl, rfl⟩
  · rintro ⟨p, hp, hd, rfl, rfl⟩
    exact ⟨p, hp, _, ⟨hd, rfl⟩, rfl⟩

theorem apply_load_eq_ok_iff :
    s.apply (.load name raw) = .ok (s', report) ↔
      ∃ h m loaded, s.handles.get? name = some h ∧ s.registry.catalog? h = some m ∧
        s.registry.load h m raw = .ok loaded ∧ s' = { s with registry := loaded.1 } ∧
        report = some loaded.2 := by
  simp only [apply, bind_eq_ok_iff, handle_eq_ok_iff, catalog_eq_ok_iff, mapError_eq_ok_iff]
  constructor
  · rintro ⟨h, hn, m, ⟨k, hk, hm⟩, loaded, hload, hs⟩
    cases hn.symm.trans hk
    cases hs
    exact ⟨h, m, loaded, hn, hm, hload, rfl, rfl⟩
  · rintro ⟨h, m, loaded, hn, hm, hload, rfl, rfl⟩
    exact ⟨h, hn, m, ⟨h, hn, hm⟩, loaded, hload, rfl⟩

theorem apply_loadBundle_eq_ok_iff :
    s.apply (.loadBundle name d) = .ok (s', report) ↔
      ∃ raw, Bundle.load d = .ok raw ∧ s.apply (.load name raw) = .ok (s', report) := by
  simp only [apply, bind_eq_ok_iff, mapError_eq_ok_iff, Registry.loadBundle_eq_ok_iff]
  constructor
  · rintro ⟨h, hn, m, hm, loaded, ⟨raw, hraw, hload⟩, hs⟩
    exact ⟨raw, hraw, h, hn, m, hm, loaded, hload, hs⟩
  · rintro ⟨raw, hraw, h, hn, m, hm, loaded, hload, hs⟩
    exact ⟨h, hn, m, hm, loaded, ⟨raw, hraw, hload⟩, hs⟩

theorem apply_snapshot_eq_ok_iff {kept : String} :
    s.apply (.snapshot name kept) = .ok (s', report) ↔
      ∃ h m, s.handles.get? name = some h ∧ s.registry.catalog? h = some m ∧
        s' = { s with snapshots := s.snapshots.insert kept m.table } ∧ report = none := by
  simp only [apply, bind_eq_ok_iff, catalog_eq_ok_iff]
  constructor
  · rintro ⟨m, ⟨h, hn, hm⟩, hs⟩
    cases hs
    exact ⟨h, m, hn, hm, rfl, rfl⟩
  · rintro ⟨h, m, hn, hm, rfl, rfl⟩
    exact ⟨m, ⟨h, hn, hm⟩, rfl⟩

end Apply

theorem step_of_apply {o : Operation} {report : Option LoadReport} (ho : s.apply o = .ok (s', report)) :
    s.step (.change o) = (s', .ok ((report.map .loaded).getD .done)) := by
  rw [step, ho]

theorem apply_of_reply {o : Operation} {reply : Reply} (ho : (s.step (.change o)).2 = .ok reply) :
    ∃ report, s.apply o = .ok ((s.step (.change o)).1, report) := by
  rw [step] at ho ⊢
  cases ha : s.apply o with
  | error problem =>
    rw [ha] at ho
    cases ho
  | ok changed => exact ⟨changed.2, rfl⟩

theorem step_of_error {p : SessionProblem} (hp : (s.step q).2 = .error p) : (s.step q).1 = s := by
  cases q with
  | ask query => rfl
  | change o =>
    rw [step] at hp ⊢
    cases ha : s.apply o with
    | error problem => rfl
    | ok changed =>
      rw [ha] at hp
      cases hp

theorem Adds.step_eq {name : String} {e : Entry} (ha : Adds s q name e) :
    s.step q = (s.named name (s.registry.add e), .ok .done) := by
  cases ha with
  | root | identity => rfl
  | child name hp hd => exact step_of_apply (apply_createChild_eq_ok_iff.mpr ⟨_, hp, hd, rfl, rfl⟩)

theorem Keeps.step_eq {kept : String} {t : Table} (hk : Keeps kept s q t) :
    s.step q = ({ s with snapshots := s.snapshots.insert kept t }, .ok .done) := by
  cases hk with
  | snapshot hn hm => exact step_of_apply (apply_snapshot_eq_ok_iff.mpr ⟨_, _, hn, hm, rfl, rfl⟩)

theorem publish_of_apply_load {name : String} {raw : RawMessages} {report : Option LoadReport}
    (hn : s.handles.get? name = some h) (ha : s.apply (.load name raw) = .ok (s', report)) :
    ∃ m t skipped, s.registry.catalog? h = some m ∧
      Table.compile m.config.mode raw = .ok (t, skipped) ∧
      s' = { s with registry := s.registry.publish h t } := by
  obtain ⟨k, m, ⟨r, report⟩, hk, hm, hload, rfl, -⟩ := apply_load_eq_ok_iff.mp ha
  cases hn.symm.trans hk
  obtain ⟨t, skipped, ht, rfl, -⟩ := Registry.load_eq_ok_iff.mp hload
  exact ⟨m, t, skipped, hm, ht, rfl⟩

theorem Loads.step_eq {raw : RawMessages} (hl : Loads h s q raw) :
    ∃ m t skipped, s.registry.catalog? h = some m ∧
      Table.compile m.config.mode raw = .ok (t, skipped) ∧
      (s.step q).1 = { s with registry := s.registry.publish h t } := by
  cases hl with
  | raw hn hs =>
    obtain ⟨report, ha⟩ := apply_of_reply hs
    exact publish_of_apply_load hn ha
  | bundle hn hd hs =>
    obtain ⟨report, ha⟩ := apply_of_reply hs
    obtain ⟨raw, hraw, ha⟩ := apply_loadBundle_eq_ok_iff.mp ha
    cases hd.symm.trans hraw
    exact publish_of_apply_load hn ha

theorem does_of_apply {o : Operation} {report : Option LoadReport} (ho : s.apply o = .ok (s', report)) :
    (∃ name e, Adds s (.change o) name e) ∨ (∃ h raw, Loads h s (.change o) raw) ∨
      ∃ kept t, Keeps kept s (.change o) t := by
  have hstep := congrArg Prod.snd (step_of_apply ho)
  cases o with
  | create name config => exact .inl ⟨_, _, .root name config⟩
  | createIdentity name => exact .inl ⟨_, _, .identity name⟩
  | createChild name parent config =>
    obtain ⟨p, hp, hd, -, -⟩ := apply_createChild_eq_ok_iff.mp ho
    exact .inl ⟨_, _, .child name hp hd⟩
  | load name raw =>
    obtain ⟨h, m, loaded, hn, -, -, -, rfl⟩ := apply_load_eq_ok_iff.mp ho
    exact .inr (.inl ⟨h, raw, .raw hn hstep⟩)
  | loadBundle name d =>
    obtain ⟨raw, hraw, ha⟩ := apply_loadBundle_eq_ok_iff.mp ho
    obtain ⟨h, m, loaded, hn, -, -, -, rfl⟩ := apply_load_eq_ok_iff.mp ha
    exact .inr (.inl ⟨h, raw, .bundle hn hraw hstep⟩)
  | snapshot name kept =>
    obtain ⟨h, m, hn, hm, -, -⟩ := apply_snapshot_eq_ok_iff.mp ho
    exact .inr (.inr ⟨kept, m.table, .snapshot hn hm⟩)

inductive Effect (s : Session) (q : Request) : Session → Prop where
  | unchanged : Effect s q s
  | added {name : String} {e : Entry} (ha : Adds s q name e) :
      Effect s q (s.named name (s.registry.add e))
  | loaded {h : Nat} {raw : RawMessages} (t : Table) (hl : Loads h s q raw) :
      Effect s q { s with registry := s.registry.publish h t }
  | kept {kept : String} {t : Table} (hk : Keeps kept s q t) :
      Effect s q { s with snapshots := s.snapshots.insert kept t }

theorem effect_step (s : Session) (q : Request) : Effect s q (s.step q).1 := by
  cases q with
  | ask query => exact .unchanged
  | change o =>
    cases ho : s.apply o with
    | error problem =>
      rw [step, ho]
      exact .unchanged
    | ok changed =>
      obtain ⟨name, e, ha⟩ | ⟨h, raw, hl⟩ | ⟨kept, t, hk⟩ := does_of_apply ho
      · rw [ha.step_eq]
        exact .added ha
      · obtain ⟨m, t, skipped, -, -, hstep⟩ := hl.step_eq
        rw [hstep]
        exact .loaded t hl
      · rw [hk.step_eq]
        exact .kept hk

section Failures

variable {name : String} {raw : RawMessages} {d : Directory}

theorem fails_iff {o : Operation} :
    (∃ p, (s.step (.change o)).2 = .error p) ↔ ¬∃ changed, s.apply o = .ok changed := by
  rw [step]
  cases s.apply o <;> simp

theorem applies_load_iff (hn : s.handles.get? name = some h) (hm : s.registry.catalog? h = some m) :
    (∃ changed, s.apply (.load name raw) = .ok changed) ↔
      ∃ built, Table.compile m.config.mode raw = .ok built := by
  constructor
  · rintro ⟨⟨s', report⟩, ha⟩
    obtain ⟨n, t, skipped, hn, ht, -⟩ := publish_of_apply_load hn ha
    cases hm.symm.trans hn
    exact ⟨_, ht⟩
  · rintro ⟨⟨t, skipped⟩, ht⟩
    have hload : s.registry.load h m raw = .ok (s.registry.publish h t, ⟨t.keyCounts, skipped⟩) :=
      Registry.load_eq_ok_iff.mpr ⟨t, skipped, ht, rfl, rfl⟩
    exact ⟨_, apply_load_eq_ok_iff.mpr ⟨h, m, _, hn, hm, hload, rfl, rfl⟩⟩

theorem applies_loadBundle_iff :
    (∃ changed, s.apply (.loadBundle name d) = .ok changed) ↔
      ∃ raw, Bundle.load d = .ok raw ∧ ∃ changed, s.apply (.load name raw) = .ok changed := by
  constructor
  · rintro ⟨⟨s', report⟩, ha⟩
    obtain ⟨raw, hraw, ha⟩ := apply_loadBundle_eq_ok_iff.mp ha
    exact ⟨raw, hraw, _, ha⟩
  · rintro ⟨raw, hraw, ⟨s', report⟩, ha⟩
    exact ⟨_, apply_loadBundle_eq_ok_iff.mpr ⟨raw, hraw, ha⟩⟩

theorem load_fails_iff (hn : s.handles.get? name = some h) (hm : s.registry.catalog? h = some m) :
    (∃ p, (s.step (.change (.load name raw))).2 = .error p) ↔
      m.config.mode = .strict ∧ ∃ l key t problem,
        raw.text? l key = some t ∧ MessagePattern.compile t l = .error problem := by
  rw [fails_iff, applies_load_iff hn hm, ← Table.exists_compile_error_iff]
  cases Table.compile m.config.mode raw <;> simp

theorem loadBundle_fails_iff (hn : s.handles.get? name = some h) (hm : s.registry.catalog? h = some m) :
    (∃ p, (s.step (.change (.loadBundle name d))).2 = .error p) ↔
      (∃ problem, Bundle.load d = .error problem) ∨
        ∃ raw, Bundle.load d = .ok raw ∧ m.config.mode = .strict ∧ ∃ l key t problem,
          raw.text? l key = some t ∧ MessagePattern.compile t l = .error problem := by
  rw [fails_iff, applies_loadBundle_iff]
  cases hd : Bundle.load d with
  | error problem => simp
  | ok raw =>
    have hload : (∃ p, (s.step (.change (.load name raw))).2 = .error p) ↔ _ := load_fails_iff hn hm
    rw [fails_iff] at hload
    constructor
    · intro hnot
      exact .inr ⟨raw, rfl, hload.mp fun hc => hnot ⟨raw, rfl, hc⟩⟩
    · rintro (⟨problem, hp⟩ | ⟨raw', hraw, hbad⟩) ⟨raw'', hraw', hc⟩
      · cases hp
      · cases hraw
        cases hraw'
        exact hload.mpr hbad hc

end Failures

end Session

end MessageCatalog
