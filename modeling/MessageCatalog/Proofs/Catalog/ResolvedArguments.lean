import MessageCatalog.Catalog.Chain

namespace MessageCatalog

namespace Value

def part? (v : Value) : List Nat → Option Value
  | [] => some v
  | i :: place => (v.items?.bind (·[i]?)).bind fun w => w.part? place

def HoldsDeferred (v : Value) : Prop :=
  ∃ place label target, v.part? place = some (.deferred label target)

variable {v w : Value} {items : List Value} {i : Nat} {place back : List Nat}

theorem part?_cons_eq_some_iff : v.part? (i :: place) = some w ↔
    ∃ items u, v = .sequence items ∧ items[i]? = some u ∧ u.part? place = some w := by
  rw [part?]
  cases v <;> simp [items?, Option.bind_eq_some_iff]

theorem part?_sequence_cons (h : items[i]? = some v) :
    (sequence items).part? (i :: place) = v.part? place := by
  rw [part?, items?, Option.bind_some, h, Option.bind_some]

theorem part?_append (h : v.part? place = some w) : v.part? (place ++ back) = w.part? back := by
  induction place generalizing v with
  | nil =>
    cases h
    rfl
  | cons i place ih =>
    obtain ⟨items, u, rfl, hu, hw⟩ := part?_cons_eq_some_iff.mp h
    rw [List.cons_append, part?_sequence_cons hu, ih hw]

theorem anyPending_of_mem {vs : List Value} (hv : v ∈ vs) (h : v.isPending = true) :
    anyPending vs = true := by
  induction hv with
  | head vs => rw [anyPending, h, Bool.true_or]
  | tail w _ ih => rw [anyPending, ih, Bool.or_true]

theorem isPending_of_part? {label : String} {target : Deferred}
    (h : v.part? place = some (.deferred label target)) : v.isPending = true := by
  induction place generalizing v with
  | nil =>
    cases h
    rfl
  | cons i place ih =>
    obtain ⟨items, u, rfl, hu, hw⟩ := part?_cons_eq_some_iff.mp h
    exact anyPending_of_mem (List.mem_of_getElem? hu) (ih hw)

mutual

theorem holdsDeferred_of_isPending : ∀ v : Value, v.isPending = true → v.HoldsDeferred
  | .deferred label target, _ => ⟨[], label, target, rfl⟩
  | .sequence items, h => holdsDeferred_of_anyPending items h

theorem holdsDeferred_of_anyPending :
    ∀ vs : List Value, anyPending vs = true → (sequence vs).HoldsDeferred
  | v :: vs, h => by
    rcases Bool.or_eq_true_iff.mp h with hv | hvs
    · obtain ⟨place, label, target, hp⟩ := holdsDeferred_of_isPending v hv
      exact ⟨0 :: place, label, target, hp⟩
    · obtain ⟨place, label, target, hp⟩ := holdsDeferred_of_anyPending vs hvs
      match place, hp with
      | i :: place, hp => exact ⟨(i + 1) :: place, label, target, hp⟩

end

theorem isPending_iff_holdsDeferred : v.isPending = true ↔ v.HoldsDeferred :=
  ⟨holdsDeferred_of_isPending v, fun ⟨_, _, _, h⟩ => isPending_of_part? h⟩

end Value

/-- What a deferred value stands for, by the asked locale and the owner of the pattern it is an argument of. -/
inductive Deferred.StandsFor (l : Locale) (owner : Chain) : Deferred → Value → Prop
  | message (key : String) (arguments : List Value) :
    StandsFor l owner (.message key arguments) (.text (owner.message l key arguments))
  | localeText : StandsFor l owner .localeText (.text l.text)
  | value (v : Value) : StandsFor l owner (.value v) v

namespace Chain

variable {l : Locale} {owner : Chain} {v w : Value} {vs : List Value} {place : List Nat}

theorem standsFor_resolveTarget (target : Deferred) :
    target.StandsFor l owner (resolveTarget l owner target) := by
  cases target with
  | message key arguments =>
    rw [resolveTarget]
    exact .message key arguments
  | localeText => exact .localeText
  | value v => exact .value v

theorem resolveTarget_eq_of_standsFor {target : Deferred} (h : target.StandsFor l owner v) :
    resolveTarget l owner target = v := by
  cases h with
  | message key arguments =>
    rw [resolveTarget]
    rfl
  | localeText => rfl
  | value => rfl

theorem resolveAll_eq_map (vs : List Value) : resolveAll l owner vs = vs.map (resolve l owner) := by
  induction vs with
  | nil => rfl
  | cons v vs ih => rw [resolveAll, ih, List.map_cons]

theorem resolve_sequence (items : List Value) :
    resolve l owner (.sequence items) = .sequence (items.map (resolve l owner)) := by
  rw [resolve, resolveAll_eq_map]

theorem resolve_deferred (label : String) (target : Deferred) :
    resolve l owner (.deferred label target) = resolveTarget l owner target := by
  rw [resolve]

theorem resolve_of_kind (hs : v.kind ≠ .sequence) (hd : v.kind ≠ .deferred) :
    resolve l owner v = v := by
  cases v with
  | sequence => exact absurd rfl hs
  | deferred => exact absurd rfl hd
  | _ => rfl

mutual

theorem resolve_of_not_pending : ∀ v : Value, v.isPending = false → resolve l owner v = v
  | .sequence items, h => by
    rw [resolve, resolveAll_of_not_pending items h]
  | .null, _ | .text _, _ | .integer _, _ | .double _, _ | .moment _, _ | .shown _, _ => rfl

theorem resolveAll_of_not_pending :
    ∀ vs : List Value, Value.anyPending vs = false → resolveAll l owner vs = vs
  | [], _ => rfl
  | v :: vs, h => by
    obtain ⟨hv, hvs⟩ := Bool.or_eq_false_iff.mp h
    rw [resolveAll, resolve_of_not_pending v hv, resolveAll_of_not_pending vs hvs]

end

theorem resolveArguments_eq_map (arguments : List Value) :
    resolveArguments l arguments owner = arguments.map (resolve l owner) := by
  rw [← resolveAll_eq_map, resolveArguments]
  split
  case isTrue => rfl
  case isFalse h => exact (resolveAll_of_not_pending arguments (Bool.eq_false_iff.mpr h)).symm

theorem part?_resolve (h : v.part? place = some w) :
    (resolve l owner v).part? place = some (resolve l owner w) := by
  induction place generalizing v with
  | nil =>
    cases h
    rfl
  | cons i place ih =>
    obtain ⟨items, u, rfl, hu, hw⟩ := Value.part?_cons_eq_some_iff.mp h
    have hu' : (items.map (resolve l owner))[i]? = some (resolve l owner u) := by
      rw [List.getElem?_map, hu, Option.map_some]
    rw [resolve_sequence, Value.part?_sequence_cons hu', ih hw]

theorem part?_of_part?_resolve (h : (resolve l owner v).part? place = some w) :
    (∃ u, v.part? place = some u) ∨ ∃ front back label target,
      place = front ++ back ∧ v.part? front = some (.deferred label target) := by
  induction place generalizing v with
  | nil => exact .inl ⟨v, rfl⟩
  | cons i place ih =>
    cases v with
    | deferred label target => exact .inr ⟨[], i :: place, label, target, rfl, rfl⟩
    | sequence items =>
      rw [resolve_sequence] at h
      obtain ⟨items', u, heq, hu, hw⟩ := Value.part?_cons_eq_some_iff.mp h
      cases heq
      rw [List.getElem?_map] at hu
      obtain ⟨u', hu', rfl⟩ := Option.map_eq_some_iff.mp hu
      rcases ih hw with ⟨t, ht⟩ | ⟨front, back, label, target, rfl, ht⟩
      · exact .inl ⟨t, by rw [Value.part?_sequence_cons hu', ht]⟩
      · exact .inr ⟨i :: front, back, label, target, rfl, by rw [Value.part?_sequence_cons hu', ht]⟩
    | _ => cases h

/-- The second value has the parts of the first one, each at its place. A sequence has as many items as
before, and in the place of a deferred value is what it stands for. -/
structure IsResolved (l : Locale) (owner : Chain) (before after : Value) : Prop where
  sequences : ∀ place items, before.part? place = some (.sequence items) →
    ∃ items', after.part? place = some (.sequence items') ∧ items'.length = items.length
  others : ∀ place v, before.part? place = some v → v.kind ≠ .sequence → v.kind ≠ .deferred →
    after.part? place = some v
  deferred : ∀ place label target v, before.part? place = some (.deferred label target) →
    target.StandsFor l owner v → after.part? place = some v
  nothingElse : ∀ place v, after.part? place = some v → (∃ u, before.part? place = some u) ∨
    ∃ front back label target, place = front ++ back ∧ before.part? front = some (.deferred label target)

theorem isResolved_resolve (v : Value) : IsResolved l owner v (resolve l owner v) where
  sequences place items h := by
    have hp : (resolve l owner v).part? place = _ := part?_resolve h
    rw [resolve_sequence] at hp
    exact ⟨_, hp, List.length_map _⟩
  others place w h hs hd := by
    rw [part?_resolve h, resolve_of_kind hs hd]
  deferred place label target w h hw := by
    rw [part?_resolve h, resolve_deferred, resolveTarget_eq_of_standsFor hw]
  nothingElse place w h := part?_of_part?_resolve h

theorem IsResolved.item {items items' : List Value} {i : Nat}
    (h : IsResolved l owner (.sequence items) (.sequence items')) (hv : items[i]? = some v)
    (hw : items'[i]? = some w) : IsResolved l owner v w where
  sequences place items hp := by
    rw [← Value.part?_sequence_cons hw]
    exact h.sequences (i :: place) items ((Value.part?_sequence_cons hv).trans hp)
  others place u hp := by
    rw [← Value.part?_sequence_cons hw]
    exact h.others (i :: place) u ((Value.part?_sequence_cons hv).trans hp)
  deferred place label target u hp := by
    rw [← Value.part?_sequence_cons hw]
    exact h.deferred (i :: place) label target u ((Value.part?_sequence_cons hv).trans hp)
  nothingElse place u hp := by
    rcases h.nothingElse (i :: place) u ((Value.part?_sequence_cons hw).trans hp) with
      ⟨t, ht⟩ | ⟨front, back, label, target, hplace, hfront⟩
    · exact .inl ⟨t, (Value.part?_sequence_cons hv).symm.trans ht⟩
    · cases front with
      | nil => cases hfront
      | cons j front =>
        cases hplace
        exact .inr ⟨front, back, label, target, rfl, (Value.part?_sequence_cons hv).symm.trans hfront⟩

mutual

theorem eq_resolve : ∀ v : Value, ∀ w, IsResolved l owner v w → w = resolve l owner v
  | .deferred label target, w, h => by
    have hw := h.deferred [] label target _ rfl (standsFor_resolveTarget target)
    rw [resolve_deferred]
    exact Option.some_inj.mp hw
  | .sequence items, w, h => by
    obtain ⟨items', hw, hlength⟩ := h.sequences [] items rfl
    cases hw
    rw [resolve_sequence]
    refine congrArg Value.sequence (List.ext_getElem? fun i => ?_)
    rw [List.getElem?_map]
    cases hv : items[i]? with
    | none =>
      rw [List.getElem?_eq_none_iff] at hv
      exact List.getElem?_eq_none (hlength ▸ hv)
    | some v =>
      obtain ⟨hi, -⟩ := List.getElem?_eq_some_iff.mp hv
      have hw := List.getElem?_eq_getElem (hlength.symm ▸ hi)
      rw [hw, forall_eq_resolve items v (List.mem_of_getElem? hv) _ (h.item hv hw), Option.map_some]
  | .null, w, h | .text _, w, h | .integer _, w, h | .double _, w, h | .moment _, w, h | .shown _, w, h => by
    have hw := h.others [] _ rfl nofun nofun
    exact Option.some_inj.mp hw

theorem forall_eq_resolve :
    ∀ vs : List Value, ∀ v ∈ vs, ∀ w, IsResolved l owner v w → w = resolve l owner v
  | v :: vs, u, hu, w, h => by
    rcases List.mem_cons.mp hu with hu | hu
    · rw [hu] at h ⊢
      exact eq_resolve v w h
    · exact forall_eq_resolve vs u hu w h

end

theorem IsResolved.not_holdsDeferred {before after : Value} (h : IsResolved l owner before after)
    (hv : ∀ place label target v, before.part? place = some (.deferred label target) →
      target.StandsFor l owner v → ¬v.HoldsDeferred) : ¬after.HoldsDeferred := by
  rintro ⟨place, label, target, hp⟩
  rcases h.nothingElse place _ hp with ⟨u, hu⟩ | ⟨front, back, label', target', rfl, hfront⟩
  · cases u with
    | deferred label' target' =>
      have hstands : target'.StandsFor l owner _ := standsFor_resolveTarget target'
      have hafter := h.deferred place label' target' _ hu hstands
      rw [hp] at hafter
      exact hv place label' target' _ hu hstands ⟨[], label, target, hafter.symm⟩
    | sequence items =>
      obtain ⟨items', hafter, -⟩ := h.sequences place items hu
      rw [hp] at hafter
      cases hafter
    | _ =>
      have hafter := h.others place _ hu nofun nofun
      rw [hp] at hafter
      cases hafter
  · have hstands : target'.StandsFor l owner _ := standsFor_resolveTarget target'
    have hafter := h.deferred front label' target' _ hfront hstands
    rw [Value.part?_append hafter] at hp
    exact hv front label' target' _ hfront hstands ⟨back, label, target, hp⟩

theorem isResolved_resolveArguments (arguments : List Value) :
    IsResolved l owner (.sequence arguments) (.sequence (resolveArguments l arguments owner)) := by
  have h : IsResolved l owner _ _ := isResolved_resolve (.sequence arguments)
  rw [resolve_sequence, ← resolveArguments_eq_map] at h
  exact h

theorem IsResolved.eq_resolveArguments {arguments resolved : List Value}
    (h : IsResolved l owner (.sequence arguments) (.sequence resolved)) :
    resolved = resolveArguments l arguments owner := by
  have heq := eq_resolve _ _ h
  rw [resolve_sequence, ← resolveArguments_eq_map] at heq
  exact Value.sequence.inj heq

theorem resolveArguments_replaces (l : Locale) (arguments : List Value) (owner : Chain) :
    resolveArguments l arguments owner = arguments.map (resolve l owner) ∧
    IsResolved l owner (.sequence arguments) (.sequence (resolveArguments l arguments owner)) ∧
    ((∀ place label target v, (Value.sequence arguments).part? place = some (.deferred label target) →
        target.StandsFor l owner v → ¬v.HoldsDeferred) →
      ¬(Value.sequence (resolveArguments l arguments owner)).HoldsDeferred) := by
  have hresolved : IsResolved l owner _ _ := isResolved_resolveArguments arguments
  exact ⟨resolveArguments_eq_map arguments, hresolved, hresolved.not_holdsDeferred⟩

def departures : List Value :=
  [.text "Linz", .sequence [.text "Wels", .sequence [.deferred "asked" .localeText]],
    .deferred "next" (.message "next" [.null])]

theorem resolveArguments_replaces_departures :
    (∀ place label target v, (Value.sequence departures).part? place = some (.deferred label target) →
        target.StandsFor .germany [.identity] v → ¬v.HoldsDeferred) ∧
      ¬(Value.sequence (resolveArguments .germany departures [.identity])).HoldsDeferred := by
  have htext : ∀ t, ¬(Value.text t).HoldsDeferred := fun t => by
    rw [← Value.isPending_iff_holdsDeferred]
    exact Bool.false_ne_true
  have hv : ∀ place label target v,
      (Value.sequence departures).part? place = some (.deferred label target) →
        target.StandsFor .germany [.identity] v → ¬v.HoldsDeferred := by
    intro place label target v hp hv
    cases hv with
    | message => exact htext _
    | localeText => exact htext _
    | value =>
      -- neither of the two stands for a given value
      match place, hp with
      | 0 :: place, hp => exact absurd ⟨place, label, _, hp⟩ (htext "Linz")
      | 1 :: 0 :: place, hp => exact absurd ⟨place, label, _, hp⟩ (htext "Wels")
      | [1, 1, 0], hp => cases hp
      | [2], hp => cases hp
  exact ⟨hv, (resolveArguments_replaces .germany departures [.identity]).2.2 hv⟩

end Chain

end MessageCatalog
