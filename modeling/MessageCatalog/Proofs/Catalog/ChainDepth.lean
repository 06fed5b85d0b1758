import Mathlib.Logic.Relation
import MessageCatalog.Proofs.Catalog.History

/-!
Depths of chains over runs. A child is one deeper than its parent and was let in only up to the most depth of
its settings, so chains are bounded. Depths stay as they are, no catalog is its own ancestor, and an identity
ends every chain it is in.
-/

namespace MessageCatalog

namespace Registry

variable {r r' : Registry} {e : Entry} {h p : Nat} {m : Catalog} {front back : List Catalog}

def HasParent (r : Registry) (child parent : Nat) : Prop :=
  ∃ e, r.get? child = some e ∧ e.parent = some parent

def HasAncestor (r : Registry) : Nat → Nat → Prop :=
  Relation.TransGen r.HasParent

theorem IsOrdered.lt_of_hasAncestor (ho : r.IsOrdered) (ha : r.HasAncestor h p) : p < h := by
  induction ha with
  | single hp =>
    obtain ⟨e, he, hp⟩ := hp
    exact ho _ e _ he hp
  | tail _ hp ih =>
    obtain ⟨e, he, hp⟩ := hp
    exact Nat.lt_trans (ho _ e _ he hp) ih

theorem IsOrdered.exists_parent (ho : r.IsOrdered) (he : r.get? h = some e) (hp : e.parent = some p) :
    ∃ f, r.get? p = some f :=
  exists_entry (Nat.lt_trans (ho h e p he hp) (lt_next_of_entry he))

theorem depth_root (ho : r.IsOrdered) (he : r.get? h = some e) (hp : e.parent = none) : r.depth h = 1 := by
  rw [depth, chain_eq ho he, hp]
  rfl

theorem depth_child (ho : r.IsOrdered) (he : r.get? h = some e) (hp : e.parent = some p) :
    r.depth h = r.depth p + 1 := by
  rw [depth, chain_eq ho he, hp]
  rfl

theorem IsKeptIn.depth_eq (hk : r.IsKeptIn r') (ho : r.IsOrdered) (ho' : r'.IsOrdered)
    (he : r.get? h = some e) : r'.depth h = r.depth h := by
  induction h using Nat.strongRecOn generalizing e with
  | ind h ih =>
    obtain ⟨t, he'⟩ := hk h e he
    cases hp : e.parent with
    | none => rw [depth_root ho he hp, depth_root ho' he' hp]
    | some p =>
      obtain ⟨f, hf⟩ := ho.exists_parent he hp
      rw [depth_child ho he hp, depth_child ho' he' hp, ih p (ho h e p he hp) hf]

structure IsBounded (r : Registry) : Prop where
  ordered : r.IsOrdered
  most : ∀ h e p, r.get? h = some e → e.parent = some p → r.depth h ≤ e.catalog.config.maxDepth
  identity : ∀ h e, r.get? h = some e → e.catalog.isIdentity = true → e.parent = none

theorem IsBounded.add (hr : r.IsBounded) (hlt : ∀ p, e.parent = some p → p < r.next)
    (hmost : ∀ p, e.parent = some p → r.depth p < e.catalog.config.maxDepth)
    (hidentity : e.catalog.isIdentity = true → e.parent = none) : (r.add e).IsBounded := by
  have ho := hr.ordered.add hlt
  have hdepth : ∀ k < r.next, (r.add e).depth k = r.depth k := by
    intro k hk
    obtain ⟨f, hf⟩ := exists_entry hk
    exact (isKeptIn_add r e).depth_eq hr.ordered ho hf
  refine ⟨ho, fun h f p hf hp => ?_, fun h f hf hi => ?_⟩
  · by_cases hh : h = r.next
    · have hnew : e = f := by rwa [get?_add, if_pos hh, Option.some.injEq] at hf
      subst hnew
      rw [depth_child ho hf hp, hdepth p (hlt p hp)]
      exact hmost p hp
    · rw [get?_add, if_neg hh] at hf
      rw [hdepth h (lt_next_of_entry hf)]
      exact hr.most h f p hf hp
  · rw [get?_add] at hf
    split at hf
    case isTrue =>
      cases hf
      exact hidentity hi
    case isFalse => exact hr.identity h f hf hi

theorem IsBounded.publish (hr : r.IsBounded) (k : Nat) (t : Table) : (r.publish k t).IsBounded := by
  have ho := hr.ordered.publish k t
  -- a published table changes neither the settings nor the parent of an entry
  have hsame : ∀ h f, (r.publish k t).get? h = some f → ∃ e, r.get? h = some e ∧
      f.parent = e.parent ∧ f.catalog.config = e.catalog.config ∧
      f.catalog.isIdentity = e.catalog.isIdentity := by
    intro h f hf
    rw [get?_publish, Option.map_eq_some_iff] at hf
    obtain ⟨e, he, rfl⟩ := hf
    refine ⟨e, he, ?_⟩
    split <;> exact ⟨rfl, rfl, rfl⟩
  refine ⟨ho, fun h f p hf hp => ?_, fun h f hf hi => ?_⟩
  · obtain ⟨e, he, hparent, hconfig, -⟩ := hsame h f hf
    rw [(isKeptIn_publish r k t).depth_eq hr.ordered ho he, hconfig]
    exact hr.most h e p he (hparent.symm.trans hp)
  · obtain ⟨e, he, hparent, -, hidentity⟩ := hsame h f hf
    exact hparent.trans (hr.identity h e he (hidentity.symm.trans hi))

theorem IsBounded.eq_nil_of_identity (hr : r.IsBounded) (hc : r.chain h = front ++ m :: back)
    (hm : m.isIdentity = true) : back = [] := by
  induction front generalizing h with
  | nil =>
    obtain ⟨e, he, rfl⟩ := catalog?_eq_some.mp (show r.catalog? h = some m by rw [catalog?, hc]; rfl)
    rw [chain_eq hr.ordered he, hr.identity h e he hm] at hc
    cases hc
    rfl
  | cons n front ih =>
    obtain ⟨e, he, rfl⟩ := catalog?_eq_some.mp (show r.catalog? h = some n by rw [catalog?, hc]; rfl)
    rw [chain_eq hr.ordered he, List.cons_append, List.cons.injEq] at hc
    cases hp : e.parent with
    | none =>
      rw [hp] at hc
      exact absurd hc.2.symm (by simp)
    | some p =>
      rw [hp] at hc
      exact ih hc.2

end Registry

namespace Session

variable {s s' : Session} {q : Request} {name parent : String} {config : Config} {e : Entry} {h p : Nat}

theorem Adds.depth_lt (ha : Adds s q name e) :
    ∀ p, e.parent = some p → s.registry.depth p < e.catalog.config.maxDepth := by
  cases ha with
  | root | identity => exact nofun
  | child name hp hd =>
    intro p he
    cases he
    exact hd

theorem Adds.parent_of_identity (ha : Adds s q name e) : e.catalog.isIdentity = true → e.parent = none := by
  cases ha with
  | root | identity => exact fun _ => rfl
  | child => exact nofun

theorem isBounded_effect (hs : s.IsSound) (hb : s.registry.IsBounded) (he : Effect s q s') :
    s'.registry.IsBounded := by
  cases he with
  | unchanged | kept => exact hb
  | added ha => exact hb.add (ha.parent_lt hs) ha.depth_lt ha.parent_of_identity
  | loaded t => exact hb.publish _ t

theorem isBounded_run (requests : List Request) : (run requests).registry.IsBounded := by
  induction requests using List.reverseRecOn with
  | nil => exact ⟨nofun, nofun, nofun⟩
  | append_singleton requests q ih =>
    rw [run_append_singleton]
    exact isBounded_effect (isSound_run requests) ih (effect_step _ q)

theorem step_createChild_of_tooDeep (hp : s.handles.get? parent = some p)
    (hd : config.maxDepth < s.registry.depth p + 1) :
    s.step (.change (.createChild name parent config)) =
      (s, .error (.tooDeep ⟨s.registry.depth p + 1, config.maxDepth⟩)) := by
  have ha : s.apply (.createChild name parent config) =
      .error (.tooDeep ⟨s.registry.depth p + 1, config.maxDepth⟩) := by
    simp only [apply, handle_eq_ok_iff.mpr hp, Registry.createChild, if_pos hd, bind, Except.bind,
      Except.mapError]
  rw [step, ha]

/-- The chains of the session that requests lead to, whatever is requested later. -/
structure BoundsChains (requests : List Request) (s : Session) : Prop where
  named : ∀ name h, s.handles.get? name = some h → ∃ e, s.registry.get? h = some e
  root : ∀ h e, s.registry.get? h = some e → e.parent = none →
    s.registry.chain h = [e.catalog] ∧ s.registry.depth h = 1
  child : ∀ h e p, s.registry.get? h = some e → e.parent = some p →
    s.registry.chain h = e.catalog :: s.registry.chain p ∧ s.registry.depth h = s.registry.depth p + 1
  stays : ∀ h e later, s.registry.get? h = some e →
    (∃ t, (run (requests ++ later)).registry.get? h = some (e.withTable t)) ∧
      (run (requests ++ later)).registry.depth h = s.registry.depth h
  added : ∀ name parent config p, s.handles.get? parent = some p →
    s.registry.depth p + 1 ≤ config.maxDepth →
    ∃ s', s.step (.change (.createChild name parent config)) = (s', .ok .done) ∧
      s'.handles.get? name = some s.registry.next ∧
      s'.registry.get? s.registry.next = some ⟨.new config, some p⟩
  refused : ∀ name parent config p, s.handles.get? parent = some p →
    ¬s.registry.depth p + 1 ≤ config.maxDepth →
    s.step (.change (.createChild name parent config)) =
      (s, .error (.tooDeep ⟨s.registry.depth p + 1, config.maxDepth⟩))
  most : ∀ h e p, s.registry.get? h = some e → e.parent = some p →
    s.registry.depth h ≤ e.catalog.config.maxDepth
  acyclic : ∀ h, ¬s.registry.HasAncestor h h
  identity : ∀ h front m back, s.registry.chain h = front ++ m :: back → m.isIdentity = true → back = []

theorem boundsChains_run (requests : List Request) : BoundsChains requests (run requests) where
  named name h hn := Registry.exists_entry ((isSound_run requests).bound name h hn)
  root h e he hp := by
    have ho := (isSound_run requests).ordered
    refine ⟨?_, Registry.depth_root ho he hp⟩
    rw [Registry.chain_eq ho he, hp]
    rfl
  child h e p he hp := by
    have ho := (isSound_run requests).ordered
    refine ⟨?_, Registry.depth_child ho he hp⟩
    rw [Registry.chain_eq ho he, hp]
    rfl
  stays h e later he := by
    have hk : (run requests).registry.IsKeptIn (run (requests ++ later)).registry := by
      rw [run_append]
      exact isKeptIn_runFrom _ later
    exact ⟨hk h e he, hk.depth_eq (isSound_run _).ordered (isSound_run _).ordered he⟩
  added name parent config p hp hd := by
    have ha : Adds (run requests) (.change (.createChild name parent config)) name ⟨.new config, some p⟩ :=
      .child name hp hd
    refine ⟨_, ha.step_eq, ?_, ?_⟩
    · rw [Session.named, SortedMap.get?_insert, if_pos rfl]
    · rw [Session.named, Registry.get?_add, if_pos rfl]
  refused name parent config p hp hd := step_createChild_of_tooDeep hp (Nat.lt_of_not_le hd)
  most := (isBounded_run requests).most
  acyclic h ha := Nat.lt_irrefl h ((isBounded_run requests).ordered.lt_of_hasAncestor ha)
  identity _ _ _ _ hc hm := (isBounded_run requests).eq_nil_of_identity hc hm

-- a limit of two lets a child of a root in, and no grandchild, also after the root is loaded
example :
    let config : Config := { maxDepth := 2 }
    let s := run [.change (.create "root" {}), .change (.createChild "child" "root" config),
      .change (.load "root" .empty)]
    (s.step (.change (.createChild "grandchild" "child" config))).2 = .error (.tooDeep ⟨3, 2⟩) := by
  rfl

end Session

end MessageCatalog
