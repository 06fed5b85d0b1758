import MessageCatalog.Catalog.Registry

namespace MessageCatalog

def Entry.withTable (e : Entry) (t : Table) : Entry :=
  { e with catalog := { e.catalog with table := t } }

namespace Registry

def getIn : List Entry → Nat → Option Entry
  | [], _ => none
  | e :: before, handle => if handle = before.length then some e else getIn before handle

def get? (r : Registry) (handle : Nat) : Option Entry :=
  getIn r.entries handle

def IsOrdered (r : Registry) : Prop :=
  ∀ h e p, r.get? h = some e → e.parent = some p → p < h

section Lists

variable {e x : Entry} {es : List Entry} {h : Nat}

theorem lt_of_getIn (he : getIn es h = some e) : h < es.length := by
  induction es with
  | nil => cases he
  | cons x es ih =>
    rw [getIn] at he
    rw [List.length_cons]
    split at he
    case isTrue hh => omega
    case isFalse => exact Nat.lt_succ_of_lt (ih he)

theorem exists_getIn (hh : h < es.length) : ∃ e, getIn es h = some e := by
  induction es with
  | nil => cases hh
  | cons x es ih =>
    rw [List.length_cons] at hh
    rw [getIn]
    split
    case isTrue => exact ⟨x, rfl⟩
    case isFalse hne => exact ih (by omega)

theorem getIn_cons_of_lt (hh : h < es.length) : getIn (x :: es) h = getIn es h :=
  if_neg (Nat.ne_of_lt hh)

theorem chainIn_cons_of_lt (hh : h < es.length) : chainIn (x :: es) h = chainIn es h := by
  rw [chainIn, if_neg (Nat.ne_of_lt hh)]

theorem head?_chainIn : (chainIn es h).head? = (getIn es h).map Entry.catalog := by
  induction es with
  | nil => rfl
  | cons x es ih =>
    rw [chainIn, getIn]
    by_cases hh : h = es.length
    · rw [if_pos hh, if_pos hh]
      rfl
    · rw [if_neg hh, if_neg hh]
      exact ih

theorem length_publishIn (t : Table) : (publishIn t es h).length = es.length := by
  induction es with
  | nil => rfl
  | cons x es ih =>
    rw [publishIn]
    split
    case isTrue => rfl
    case isFalse => rw [List.length_cons, ih, List.length_cons]

theorem getIn_publishIn (t : Table) (k : Nat) :
    getIn (publishIn t es h) k =
      (getIn es k).map fun e => if k = h then e.withTable t else e := by
  induction es with
  | nil => rfl
  | cons x es ih =>
    rw [publishIn, getIn]
    by_cases hh : h = es.length
    · subst hh
      rw [if_pos rfl, getIn]
      by_cases hk : k = es.length
      · rw [if_pos hk, if_pos hk, Option.map_some, if_pos hk]
        rfl
      · simp [hk]
    · rw [if_neg hh, getIn, length_publishIn, ih]
      by_cases hk : k = es.length
      · rw [if_pos hk, if_pos hk, Option.map_some, if_neg (fun he => hh (he.symm.trans hk))]
      · rw [if_neg hk, if_neg hk]

theorem chainIn_of_getIn (ho : ∀ h e p, getIn es h = some e → e.parent = some p → p < h)
    (he : getIn es h = some e) : chainIn es h = e.catalog :: e.parent.elim [] (chainIn es) := by
  induction es with
  | nil => cases he
  | cons x es ih =>
    have hchain : ∀ p, e.parent = some p → chainIn (x :: es) p = chainIn es p := by
      intro p hp
      have hlt := ho h e p he hp
      have hlength := lt_of_getIn he
      rw [List.length_cons] at hlength
      exact chainIn_cons_of_lt (by omega)
    have hparent : e.parent.elim [] (chainIn (x :: es)) = e.parent.elim [] (chainIn es) := by
      cases hp : e.parent with
      | none => rfl
      | some p => exact hchain p hp
    rw [hparent]
    rw [getIn] at he
    split at he
    case isTrue hh =>
      cases he
      rw [chainIn, if_pos hh]
      cases e.parent <;> rfl
    case isFalse hh =>
      have hold : ∀ h e p, getIn es h = some e → e.parent = some p → p < h := by
        intro k f p hf hp
        exact ho k f p ((getIn_cons_of_lt (lt_of_getIn hf)).trans hf) hp
      rw [chainIn, if_neg hh]
      exact ih hold he

end Lists

variable {r : Registry} {e : Entry} {h k : Nat} {t : Table}

theorem lt_next_of_entry (he : r.get? h = some e) : h < r.next :=
  lt_of_getIn he

theorem exists_entry (hh : h < r.next) : ∃ e, r.get? h = some e :=
  exists_getIn hh

theorem get?_next : r.get? r.next = none := by
  cases he : r.get? r.next with
  | none => rfl
  | some e => exact absurd (lt_next_of_entry he) (Nat.lt_irrefl _)

@[simp]
theorem next_add : (r.add e).next = r.next + 1 :=
  rfl

theorem get?_add : (r.add e).get? h = if h = r.next then some e else r.get? h :=
  rfl

@[simp]
theorem next_publish : (r.publish k t).next = r.next :=
  length_publishIn t

theorem get?_publish :
    (r.publish k t).get? h = (r.get? h).map fun e => if h = k then e.withTable t else e :=
  getIn_publishIn t h

theorem catalog?_eq : r.catalog? h = (r.get? h).map Entry.catalog :=
  head?_chainIn

theorem catalog?_eq_some {m : Catalog} :
    r.catalog? h = some m ↔ ∃ e, r.get? h = some e ∧ e.catalog = m := by
  rw [catalog?_eq, Option.map_eq_some_iff]

theorem catalog?_add : (r.add e).catalog? h = if h = r.next then some e.catalog else r.catalog? h := by
  rw [catalog?_eq, catalog?_eq, get?_add]
  split <;> rfl

theorem catalog?_publish_self :
    (r.publish h t).catalog? h = (r.catalog? h).map fun m => { m with table := t } := by
  simp only [catalog?_eq, get?_publish, Option.map_map, Function.comp_def, if_true]
  rfl

theorem catalog?_publish_of_ne (hk : h ≠ k) : (r.publish k t).catalog? h = r.catalog? h := by
  simp only [catalog?_eq, get?_publish, if_neg hk, Option.map_id']

theorem chain_eq (ho : r.IsOrdered) (he : r.get? h = some e) :
    r.chain h = e.catalog :: e.parent.elim [] r.chain :=
  chainIn_of_getIn ho he

theorem IsOrdered.add (ho : r.IsOrdered) (hp : ∀ p, e.parent = some p → p < r.next) :
    (r.add e).IsOrdered := by
  intro h f p hf hfp
  rw [get?_add] at hf
  split at hf
  case isTrue hh =>
    cases hf
    rw [hh]
    exact hp p hfp
  case isFalse => exact ho h f p hf hfp

theorem IsOrdered.publish (ho : r.IsOrdered) (k : Nat) (t : Table) : (r.publish k t).IsOrdered := by
  intro h f p hf hfp
  rw [get?_publish, Option.map_eq_some_iff] at hf
  obtain ⟨e, he, rfl⟩ := hf
  apply ho h e p he
  split at hfp <;> exact hfp

def IsKeptIn (r r' : Registry) : Prop :=
  ∀ h e, r.get? h = some e → ∃ t, r'.get? h = some (e.withTable t)

theorem IsKeptIn.refl (r : Registry) : r.IsKeptIn r :=
  fun _ e he => ⟨e.catalog.table, he⟩

theorem IsKeptIn.trans {r₁ r₂ r₃ : Registry} (h₁ : r₁.IsKeptIn r₂) (h₂ : r₂.IsKeptIn r₃) :
    r₁.IsKeptIn r₃ := by
  intro h e he
  obtain ⟨t, ht⟩ := h₁ h e he
  exact h₂ h (e.withTable t) ht

theorem isKeptIn_add (r : Registry) (e : Entry) : r.IsKeptIn (r.add e) := by
  intro h f hf
  refine ⟨f.catalog.table, ?_⟩
  rw [get?_add, if_neg (Nat.ne_of_lt (lt_next_of_entry hf))]
  exact hf

theorem isKeptIn_publish (r : Registry) (k : Nat) (t : Table) : r.IsKeptIn (r.publish k t) := by
  intro h e he
  rw [get?_publish, he, Option.map_some]
  split
  case isTrue => exact ⟨t, rfl⟩
  case isFalse => exact ⟨e.catalog.table, rfl⟩

end Registry

end MessageCatalog
