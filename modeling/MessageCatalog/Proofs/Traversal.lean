import Mathlib.Data.List.Forall2

namespace MessageCatalog.Traversal

variable {α β ε : Type} {f : α → Except ε β}

theorem bind_eq_ok_iff {x : Except ε α} {b : β} : x >>= f = .ok b ↔ ∃ a, x = .ok a ∧ f a = .ok b := by
  cases x <;> simp [bind, Except.bind]

theorem bind_eq_error_iff {x : Except ε α} {e : ε} :
    x >>= f = .error e ↔ x = .error e ∨ ∃ a, x = .ok a ∧ f a = .error e := by
  cases x <;> simp [bind, Except.bind]

theorem exists_eq_ok_iff {x : Except ε α} : (∃ a, x = .ok a) ↔ ∀ e, x ≠ .error e := by
  cases x <;> simp

theorem exists_ok_of_toOption {g : α → β} {x : Except ε α} {b : β} (h : x.toOption.map g = some b) :
    ∃ a, x = .ok a ∧ g a = b := by
  cases x with
  | error e => cases h
  | ok a => exact ⟨a, rfl, Option.some_inj.mp h⟩

theorem map_eq_ok_iff {g : α → β} {x : Except ε α} {b : β} : x.map g = .ok b ↔ ∃ a, x = .ok a ∧ g a = b := by
  cases x <;> simp [Except.map]

theorem map_eq_error_iff {g : α → β} {x : Except ε α} {e : ε} : x.map g = .error e ↔ x = .error e := by
  cases x <;> simp [Except.map]

theorem mapError_eq_ok_iff {ε' : Type} {g : ε → ε'} {x : Except ε α} {a : α} :
    x.mapError g = .ok a ↔ x = .ok a := by
  cases x <;> simp [Except.mapError]

theorem mapError_eq_error_iff {ε' : Type} {g : ε → ε'} {x : Except ε α} {e : ε'} :
    x.mapError g = .error e ↔ ∃ e', x = .error e' ∧ g e' = e := by
  cases x <;> simp [Except.mapError]

theorem mapM_cons_ok {x : α} {y : β} (h : f x = .ok y) (xs : List α) :
    (x :: xs).mapM f = (xs.mapM f).map (y :: ·) := by
  rw [List.mapM_cons, h]
  cases xs.mapM f <;> rfl

theorem mapM_cons_error {x : α} {e : ε} (h : f x = .error e) (xs : List α) :
    (x :: xs).mapM f = .error e := by
  rw [List.mapM_cons, h]
  rfl

theorem mapM_ok {g : α → β} {xs : List α} (h : ∀ x ∈ xs, f x = .ok (g x)) :
    xs.mapM f = .ok (xs.map g) := by
  induction xs with
  | nil => rfl
  | cons x xs ih =>
    rw [mapM_cons_ok (h x List.mem_cons_self), ih fun y hy => h y (List.mem_cons_of_mem _ hy)]
    rfl

theorem mapM_some {f : α → Option β} {g : α → β} {xs : List α} (h : ∀ x ∈ xs, f x = some (g x)) :
    xs.mapM f = some (xs.map g) := by
  induction xs with
  | nil => rfl
  | cons x xs ih =>
    obtain ⟨hx, hxs⟩ := List.forall_mem_cons.mp h
    rw [List.mapM_cons, hx, ih hxs]
    rfl

theorem mapM_error {before : List α} {x : α} {e : ε} (hb : ∀ y ∈ before, ∃ z, f y = .ok z)
    (hx : f x = .error e) (after : List α) : (before ++ x :: after).mapM f = .error e := by
  induction before with
  | nil => exact mapM_cons_error hx after
  | cons y before ih =>
    obtain ⟨z, hz⟩ := hb y List.mem_cons_self
    rw [List.cons_append, mapM_cons_ok hz, ih fun w hw => hb w (List.mem_cons_of_mem _ hw)]
    rfl

theorem append_eq_around {xs ys before after : List α} {x : α} (h : xs ++ ys = before ++ x :: after) :
    (∃ between, xs = before ++ x :: between ∧ after = between ++ ys) ∨
      ∃ between, before = xs ++ between ∧ ys = between ++ x :: after := by
  rcases List.append_eq_append_iff.mp h with ⟨between, hbefore, hys⟩ | ⟨between, hxs, hafter⟩
  · exact .inr ⟨between, hbefore, hys⟩
  · cases between with
    | nil => exact .inr ⟨[], by simpa using hxs.symm, hafter.symm⟩
    | cons y between =>
      cases hafter
      exact .inl ⟨between, hxs, rfl⟩

/-- An element fails, and none before it does. -/
def FailsFirst (fails : α → ε → Prop) (xs : List α) (e : ε) : Prop :=
  ∃ before x after, xs = before ++ x :: after ∧ (∀ y ∈ before, ∀ e', ¬fails y e') ∧ fails x e

section

variable {fails : α → ε → Prop} {e : ε}

theorem failsFirst_nil : ¬FailsFirst fails [] e := by
  rintro ⟨before, x, after, h, -⟩
  cases before <;> cases h

theorem failsFirst_cons {x : α} {xs : List α} :
    FailsFirst fails (x :: xs) e ↔ fails x e ∨ (∀ e', ¬fails x e') ∧ FailsFirst fails xs e := by
  constructor
  · rintro ⟨before, y, after, h, hbefore, hy⟩
    cases before with
    | nil =>
      cases h
      exact .inl hy
    | cons z before =>
      cases h
      exact .inr ⟨hbefore x List.mem_cons_self, before, y, after, rfl,
        fun w hw => hbefore w (List.mem_cons_of_mem _ hw), hy⟩
  · rintro (hx | ⟨hx, before, y, after, rfl, hbefore, hy⟩)
    · exact ⟨[], x, xs, rfl, nofun, hx⟩
    · exact ⟨x :: before, y, after, rfl, List.forall_mem_cons.mpr ⟨hx, hbefore⟩, hy⟩

theorem failsFirst_append {xs ys : List α} :
    FailsFirst fails (xs ++ ys) e ↔
      FailsFirst fails xs e ∨ (∀ x ∈ xs, ∀ e', ¬fails x e') ∧ FailsFirst fails ys e := by
  induction xs with
  | nil => simp [failsFirst_nil]
  | cons x xs ih =>
    rw [List.cons_append, failsFirst_cons, failsFirst_cons, ih, List.forall_mem_cons]
    tauto

theorem failsFirst_congr {fails' : α → ε → Prop} (h : ∀ x e, fails x e ↔ fails' x e) (xs : List α)
    (e : ε) : FailsFirst fails xs e ↔ FailsFirst fails' xs e := by
  have heq : fails = fails' := funext fun x => funext fun e => propext (h x e)
  rw [heq]

theorem exists_failsFirst_iff {xs : List α} :
    (∃ e, FailsFirst fails xs e) ↔ ∃ x ∈ xs, ∃ e, fails x e := by
  induction xs with
  | nil => simp [failsFirst_nil]
  | cons x xs ih =>
    simp only [failsFirst_cons, List.mem_cons, exists_eq_or_imp, ← ih]
    by_cases hx : ∃ e, fails x e
    · obtain ⟨e, he⟩ := hx
      exact ⟨fun _ => .inl ⟨e, he⟩, fun _ => ⟨e, .inl he⟩⟩
    · have hx' : ∀ e, ¬fails x e := fun e he => hx ⟨e, he⟩
      simp [hx']

theorem failsFirst_flatMap {g : β → List α} {ys : List β} :
    FailsFirst fails (ys.flatMap g) e ↔ FailsFirst (fun y e => FailsFirst fails (g y) e) ys e := by
  induction ys with
  | nil => simp [failsFirst_nil]
  | cons y ys ih =>
    have hnone : (∀ x ∈ g y, ∀ e', ¬fails x e') ↔ ∀ e', ¬FailsFirst fails (g y) e' := by
      rw [← not_exists, exists_failsFirst_iff]
      simp
    rw [List.flatMap_cons, failsFirst_append, failsFirst_cons, ih, hnone]

end

theorem mapM_eq_error_iff {xs : List α} {e : ε} :
    xs.mapM f = .error e ↔ FailsFirst (fun x e => f x = .error e) xs e := by
  induction xs with
  | nil =>
    simp only [failsFirst_nil, iff_false]
    exact nofun
  | cons x xs ih =>
    rw [failsFirst_cons, ← ih]
    cases hx : f x with
    | error e' => simp [mapM_cons_error hx]
    | ok y =>
      rw [mapM_cons_ok hx]
      cases xs.mapM f <;> simp [Except.map]

theorem mapM_eq_ok_iff {xs : List α} {ys : List β} :
    xs.mapM f = .ok ys ↔ List.Forall₂ (fun x y => f x = .ok y) xs ys := by
  induction xs generalizing ys with
  | nil => cases ys <;> simp [List.mapM_nil, pure, Except.pure]
  | cons x xs ih =>
    cases hx : f x with
    | error e => cases ys <;> simp [mapM_cons_error hx, hx]
    | ok y =>
      rw [mapM_cons_ok hx]
      cases ys with
      | nil => cases xs.mapM f <;> simp [Except.map]
      | cons z zs =>
        rw [List.forall₂_cons, hx, ← ih]
        cases xs.mapM f <;> simp [Except.map]

theorem exists_of_forall₂_append {R : α → β → Prop} {xs ys : List α} {zs : List β}
    (h : List.Forall₂ R (xs ++ ys) zs) :
    ∃ us vs, zs = us ++ vs ∧ List.Forall₂ R xs us ∧ List.Forall₂ R ys vs := by
  induction xs generalizing zs with
  | nil => exact ⟨[], zs, rfl, .nil, h⟩
  | cons x xs ih =>
    obtain ⟨z, zs, hx, htail, rfl⟩ := List.forall₂_cons_left_iff.mp h
    obtain ⟨us, vs, rfl, hus, hvs⟩ := ih htail
    exact ⟨z :: us, vs, rfl, .cons hx hus, hvs⟩

theorem exists_of_mem_mapM {xs : List α} {ys : List β} (h : xs.mapM f = .ok ys) {y : β} (hy : y ∈ ys) :
    ∃ x ∈ xs, f x = .ok y := by
  have hread := mapM_eq_ok_iff.mp h
  induction hread with
  | nil => cases hy
  | @cons x z xs zs hx hzs ih =>
    rcases List.mem_cons.mp hy with rfl | hy
    · exact ⟨x, List.mem_cons_self, hx⟩
    · obtain ⟨w, hw, hwy⟩ := ih (mapM_eq_ok_iff.mpr hzs) hy
      exact ⟨w, List.mem_cons_of_mem _ hw, hwy⟩

end MessageCatalog.Traversal
