import Mathlib.Data.List.Induction
import MessageCatalog.Proofs.Catalog.Build
import MessageCatalog.Proofs.Catalog.Queries

/-!
Tables over runs. Whatever was requested, a catalog has the table that was made of the last raw messages it
loaded, a table that was kept stays, and a chain goes on with the tables its ancestors have now.
-/

namespace MessageCatalog

namespace Catalog

def IsBuiltOf (m : Catalog) : Option RawMessages → Prop
  | none => m.table = .empty
  | some raw => ∃ skipped, Table.compile m.config.mode raw = .ok (m.table, skipped)

end Catalog

namespace Session

variable {s s' : Session} {q : Request} {requests before after : List Request} {name : String} {h : Nat}
  {e : Entry} {m : Catalog}

theorem run_append_singleton : run (requests ++ [q]) = ((run requests).step q).1 := by
  rw [run, runFrom, List.foldl_append]
  rfl

theorem run_append : run (before ++ after) = runFrom (run before) after :=
  List.foldl_append

section Soundness

structure IsSound (s : Session) : Prop where
  ordered : s.registry.IsOrdered
  bound : ∀ name h, s.handles.get? name = some h → h < s.registry.next

theorem isSound_empty : IsSound empty where
  ordered := nofun
  bound := nofun

theorem Adds.parent_lt (hs : s.IsSound) (ha : Adds s q name e) :
    ∀ p, e.parent = some p → p < s.registry.next := by
  cases ha with
  | root | identity => exact nofun
  | child name hp hd =>
    intro p he
    cases he
    exact hs.bound _ _ hp

theorem IsSound.effect (hs : s.IsSound) (he : Effect s q s') : s'.IsSound := by
  cases he with
  | unchanged => exact hs
  | @added name e ha =>
    refine ⟨hs.ordered.add (ha.parent_lt hs), fun other h hh => ?_⟩
    rw [named, SortedMap.get?_insert] at hh
    rw [named, Registry.next_add]
    split at hh
    case isTrue =>
      cases hh
      exact Nat.lt_succ_self _
    case isFalse => exact Nat.lt_succ_of_lt (hs.bound other h hh)
  | @loaded k raw t hl =>
    refine ⟨hs.ordered.publish k t, fun other h hh => ?_⟩
    rw [Registry.next_publish]
    exact hs.bound other h hh
  | kept hk => exact ⟨hs.ordered, hs.bound⟩

theorem isSound_run (requests : List Request) : IsSound (run requests) := by
  induction requests using List.reverseRecOn with
  | nil => exact isSound_empty
  | append_singleton requests q ih =>
    rw [run_append_singleton]
    exact ih.effect (effect_step _ q)

theorem Effect.isKeptIn (he : Effect s q s') : s.registry.IsKeptIn s'.registry := by
  cases he with
  | unchanged | kept => exact .refl _
  | added => exact Registry.isKeptIn_add _ _
  | loaded => exact Registry.isKeptIn_publish _ _ _

theorem isKeptIn_runFrom (s : Session) (requests : List Request) :
    s.registry.IsKeptIn (s.runFrom requests).registry := by
  induction requests generalizing s with
  | nil => exact .refl _
  | cons q requests ih => exact (effect_step s q).isKeptIn.trans (ih _)

end Soundness

inductive Last {α : Type} (Does : Session → Request → α → Prop) : List Request → Option α → Prop where
  | none : Last Does [] none
  | done {requests : List Request} {q : Request} {a : α} (hd : Does (run requests) q a) :
      Last Does (requests ++ [q]) (some a)
  | other {requests : List Request} {q : Request} {last : Option α} (hn : ∀ a, ¬Does (run requests) q a)
      (hl : Last Does requests last) : Last Does (requests ++ [q]) last

theorem exists_last {α : Type} (Does : Session → Request → α → Prop) (requests : List Request) :
    ∃ last, Last Does requests last := by
  induction requests using List.reverseRecOn with
  | nil => exact ⟨none, .none⟩
  | append_singleton requests q ih =>
    by_cases hd : ∃ a, Does (run requests) q a
    · obtain ⟨a, ha⟩ := hd
      exact ⟨some a, .done ha⟩
    · obtain ⟨last, hl⟩ := ih
      exact ⟨last, .other (not_exists.mp hd) hl⟩

section Tables

variable {last : Option RawMessages}

theorem Adds.table_eq (ha : Adds s q name e) : e.catalog.table = .empty := by
  cases ha <;> rfl

theorem Effect.catalog? (he : Effect s q s') (hn : ∀ raw, ¬Loads h s q raw) :
    s'.registry.catalog? h = s.registry.catalog? h ∨
      s.registry.catalog? h = none ∧ ∃ m, s'.registry.catalog? h = some m ∧ m.table = .empty := by
  cases he with
  | unchanged | kept => exact .inl rfl
  | @added name e ha =>
    rw [named, Registry.catalog?_add]
    split
    case isTrue hh =>
      rw [hh, Registry.catalog?_eq, Registry.get?_next]
      exact .inr ⟨rfl, e.catalog, rfl, ha.table_eq⟩
    case isFalse => exact .inl rfl
  | @loaded k raw t hl =>
    apply Or.inl
    apply Registry.catalog?_publish_of_ne
    rintro rfl
    exact hn raw hl

theorem isBuiltOf_last (hl : Last (Loads h) requests last) :
    (run requests).registry.catalog? h = none ∧ last = none ∨
      ∃ m, (run requests).registry.catalog? h = some m ∧ m.IsBuiltOf last := by
  induction hl with
  | none => exact .inl ⟨rfl, rfl⟩
  | done hd =>
    obtain ⟨m, t, skipped, hm, ht, hstep⟩ := hd.step_eq
    refine .inr ⟨{ m with table := t }, ?_, skipped, ht⟩
    rw [run_append_singleton, hstep, Registry.catalog?_publish_self, hm]
    rfl
  | @other requests q last hn hl ih =>
    rw [run_append_singleton]
    obtain he | ⟨hnone, m, hm, ht⟩ := (effect_step (run requests) q).catalog? hn
    · rw [he]
      exact ih
    · obtain ⟨-, rfl⟩ | ⟨n, hn, -⟩ := ih
      · exact .inr ⟨m, hm, ht⟩
      · cases hnone.symm.trans hn

theorem catalog?_of_loads {raw : RawMessages} (hl : Loads h s q raw) {k : Nat} (hk : k ≠ h) :
    (s.step q).1.registry.catalog? k = s.registry.catalog? k := by
  obtain ⟨m, t, skipped, -, -, hstep⟩ := hl.step_eq
  rw [hstep]
  exact Registry.catalog?_publish_of_ne hk

theorem get?_snapshots_last {kept : String} {last : Option Table} (hl : Last (Keeps kept) requests last) :
    (run requests).snapshots.get? kept = last := by
  induction hl with
  | none => rfl
  | done hd =>
    rw [run_append_singleton, hd.step_eq, SortedMap.get?_insert, if_pos rfl]
  | @other requests q last hn hl ih =>
    rw [run_append_singleton, ← ih]
    have he := effect_step (run requests) q
    generalize ((run requests).step q).1 = s' at he ⊢
    cases he with
    | unchanged | added | loaded => rfl
    | @kept other t hk =>
      rw [SortedMap.get?_insert, if_neg]
      rintro rfl
      exact hn t hk

end Tables

section Names

def Names (name : String) (s : Session) (q : Request) (h : Nat) : Prop :=
  h = s.registry.next ∧ ∃ e, Adds s q name e

theorem get?_handles_last {last : Option Nat} (hl : Last (Names name) requests last) :
    (run requests).handles.get? name = last := by
  induction hl with
  | none => rfl
  | done hd =>
    obtain ⟨rfl, e, ha⟩ := hd
    rw [run_append_singleton, ha.step_eq, named, SortedMap.get?_insert, if_pos rfl]
  | @other requests q last hn hl ih =>
    rw [run_append_singleton, ← ih]
    have he := effect_step (run requests) q
    generalize ((run requests).step q).1 = s' at he ⊢
    cases he with
    | unchanged | loaded | kept => rfl
    | @added other e ha =>
      rw [named, SortedMap.get?_insert, if_neg]
      rintro rfl
      exact hn _ ⟨rfl, e, ha⟩

theorem exists_answer {query : Query} (hh : (run requests).handles.get? query.name = some h) :
    ∃ m answer, (run requests).registry.catalog? h = some m ∧
      Answers m ((run requests).registry.chain h) query answer ∧
      ((run requests).step (.ask query)).2 = .ok (.answered answer) := by
  obtain ⟨e, he⟩ := Registry.exists_entry ((isSound_run requests).bound _ h hh)
  have hm := Registry.catalog?_eq_some.mpr ⟨e, he, rfl⟩
  obtain ⟨answer, hanswer, hask⟩ := exists_ask hh hm
  exact ⟨e.catalog, answer, hm, hanswer, step_ask hask⟩

end Names

section Children

variable {p : Nat} {n : Catalog}

theorem Adds.entry_run (ha : Adds (run before) q name e) (after : List Request) :
    ∃ t, (run (before ++ q :: after)).registry.get? (run before).registry.next = some (e.withTable t) := by
  have hadded : ((run before).step q).1.registry.get? (run before).registry.next = some e := by
    rw [ha.step_eq, named, Registry.get?_add, if_pos rfl]
  rw [run_append]
  exact isKeptIn_runFrom _ after _ _ hadded

theorem follows_of_child {parent : String} {config : Config} (after : List Request)
    (hp : (run before).handles.get? parent = some p) (hd : (run before).registry.depth p < config.maxDepth) :
    ∃ m n, m.config = config ∧
      Follows (run (before ++ .change (.createChild name parent config) :: after))
        (run before).registry.next p m n := by
  obtain ⟨t, hchild⟩ := (Adds.child name hp hd).entry_run after
  obtain ⟨e, he⟩ := Registry.exists_entry ((isSound_run before).bound parent p hp)
  obtain ⟨u, hparent⟩ :
      ∃ u, (run (before ++ .change (.createChild name parent config) :: after)).registry.get? p =
        some (e.withTable u) := by
    rw [run_append]
    exact isKeptIn_runFrom _ _ _ _ he
  have hm := Registry.catalog?_eq_some.mpr ⟨_, hchild, rfl⟩
  have hn := Registry.catalog?_eq_some.mpr ⟨_, hparent, rfl⟩
  have hchain := Registry.chain_eq (isSound_run _).ordered hchild
  exact ⟨_, _, rfl, follows_of_chain hm hn rfl hchain⟩

end Children

structure Publishes (requests : List Request) (s : Session) : Prop where
  loads : ∀ h, ∃ last, Last (Loads h) requests last
  built : ∀ h m last, s.registry.catalog? h = some m → Last (Loads h) requests last → m.IsBuiltOf last
  keeps : ∀ kept, ∃ last, Last (Keeps kept) requests last
  kept : ∀ kept last, Last (Keeps kept) requests last → s.snapshots.get? kept = last
  failed : ∀ q p, (s.step q).2 = .error p → (s.step q).1 = s
  loadFails : ∀ name h m raw, s.handles.get? name = some h → s.registry.catalog? h = some m →
    ((∃ p, (s.step (.change (.load name raw))).2 = .error p) ↔
      m.config.mode = .strict ∧ ∃ l key t problem,
        raw.text? l key = some t ∧ MessagePattern.compile t l = .error problem)
  bundleFails : ∀ name h m d, s.handles.get? name = some h → s.registry.catalog? h = some m →
    ((∃ p, (s.step (.change (.loadBundle name d))).2 = .error p) ↔
      (∃ problem, Bundle.load d = .error problem) ∨
        ∃ raw, Bundle.load d = .ok raw ∧ m.config.mode = .strict ∧ ∃ l key t problem,
          raw.text? l key = some t ∧ MessagePattern.compile t l = .error problem)
  others : ∀ q h raw, Loads h s q raw → ∀ k, k ≠ h →
    (s.step q).1.registry.catalog? k = s.registry.catalog? k
  names : ∀ name, ∃ last, Last (Names name) requests last
  named : ∀ name last, Last (Names name) requests last → s.handles.get? name = last
  asked : ∀ query, (s.step (.ask query)).1 = s
  answered : ∀ query h, s.handles.get? query.name = some h →
    ∃ m answer, s.registry.catalog? h = some m ∧ Answers m (s.registry.chain h) query answer ∧
      (s.step (.ask query)).2 = .ok (.answered answer)
  unanswered : ∀ query, s.handles.get? query.name = none → (s.step (.ask query)).2 = .error .noCatalog
  settings : ∀ before q after name e, requests = before ++ q :: after → Adds (run before) q name e →
    ∃ t, s.registry.get? (run before).registry.next = some (e.withTable t)
  children : ∀ before name parent config after,
    requests = before ++ .change (.createChild name parent config) :: after →
    ((run before).step (.change (.createChild name parent config))).2 = .ok .done →
    ∃ p m n, (run before).handles.get? parent = some p ∧ m.config = config ∧
      Follows s (run before).registry.next p m n

theorem publishes_run (requests : List Request) : Publishes requests (run requests) where
  loads h := exists_last (Loads h) requests
  built h m last hm hl := by
    obtain ⟨hnone, -⟩ | ⟨n, hn, hbuilt⟩ := isBuiltOf_last hl
    · cases hnone.symm.trans hm
    · cases hn.symm.trans hm
      exact hbuilt
  keeps kept := exists_last (Keeps kept) requests
  kept _ _ hl := get?_snapshots_last hl
  failed _ _ hp := step_of_error hp
  loadFails _ _ _ _ hn hm := load_fails_iff hn hm
  bundleFails _ _ _ _ hn hm := loadBundle_fails_iff hn hm
  others _ _ _ hl _ hk := catalog?_of_loads hl hk
  names name := exists_last (Names name) requests
  named _ _ hl := get?_handles_last hl
  asked _ := rfl
  answered _ _ hh := exists_answer hh
  unanswered _ hh := step_ask_of_none hh
  settings before q after name e hr ha := by
    subst hr
    exact ha.entry_run after
  children before name parent config after hr hreply := by
    subst hr
    obtain ⟨report, ha⟩ := apply_of_reply hreply
    obtain ⟨p, hp, hd, -, -⟩ := apply_createChild_eq_ok_iff.mp ha
    obtain ⟨m, n, hm, hfollows⟩ := follows_of_child after hp hd
    exact ⟨p, m, n, hp, hm, hfollows⟩

-- the parent is loaded after the child was made
example :
    let raw : RawMessages := .ofList [(.germany, .ofList [("greeting", "Hallo")])]
    let s := run [.change (.create "parent" {}), .change (.createChild "child" "parent" {}),
      .change (.load "parent" raw)]
    (s.step (.ask (.message "child" .germany "greeting" []))).2 = .ok (.answered (.message "Hallo")) := by
  rfl

end Session

end MessageCatalog
