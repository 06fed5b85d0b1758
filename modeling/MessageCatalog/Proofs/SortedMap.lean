import Mathlib.Data.List.Induction
import Mathlib.Data.List.Nodup
import MessageCatalog.SortedMap

namespace MessageCatalog.SortedMap

open KeyOrder

variable {κ α β : Type} [KeyOrder κ] {m : SortedMap κ α}

theorem eq_of_entries {n : SortedMap κ α} (h : m.entries = n.entries) : m = n := by
  cases m
  cases n
  cases h
  rfl

theorem nodup_entries (m : SortedMap κ α) : m.entries.Nodup := by
  refine m.sorted.imp fun {a b} h heq => ?_
  rw [heq, KeyOrder.irrefl] at h
  cases h

theorem nodup_keys (m : SortedMap κ α) : m.keys.Nodup := by
  refine List.pairwise_map.mpr (m.sorted.imp fun {a b} h heq => ?_)
  rw [heq, KeyOrder.irrefl] at h
  cases h

theorem keys_map (f : κ → α → β) : (m.map f).keys = m.keys := by
  simp only [keys, map, List.map_map]
  rfl

theorem put_of_forall_precedes {k : κ} {es : List (κ × α)} (h : ∀ e ∈ es, precedes e.1 k = true)
    (a : α) : put k a es = es ++ [(k, a)] := by
  induction es with
  | nil => rfl
  | cons e es ih =>
    have he := h e List.mem_cons_self
    have hk : precedes k e.1 = false := by
      cases hk : precedes k e.1 with
      | false => rfl
      | true => exact absurd (KeyOrder.trans hk he) (by simp [KeyOrder.irrefl])
    rw [put, if_neg (by simp [hk]), if_pos he, ih fun x hx => h x (List.mem_cons_of_mem _ hx)]
    rfl

def Before (m : SortedMap κ α) (es : List (κ × β)) : Prop :=
  ∀ x ∈ m.entries, ∀ y ∈ es, precedes x.1 y.1 = true

theorem before_empty (es : List (κ × β)) : (empty : SortedMap κ α).Before es :=
  nofun

section

variable {e : κ × β} {es : List (κ × β)}

theorem Before.tail (h : m.Before (e :: es)) : m.Before es :=
  fun x hx y hy => h x hx y (List.mem_cons_of_mem _ hy)

theorem Before.entries_insert (h : m.Before (e :: es)) (a : α) :
    (m.insert e.1 a).entries = m.entries ++ [(e.1, a)] :=
  put_of_forall_precedes (fun x hx => h x hx e List.mem_cons_self) a

theorem Before.insert (h : m.Before (e :: es)) (he : ∀ y ∈ es, precedes e.1 y.1 = true) (a : α) :
    (m.insert e.1 a).Before es := by
  intro x hx y hy
  rw [h.entries_insert a] at hx
  rcases List.mem_append.mp hx with hx | hx
  · exact h.tail x hx y hy
  · cases List.mem_singleton.mp hx
    exact he y hy

end

variable [DecidableEq κ] {k : κ}

theorem find?_of_mem {es : List (κ × α)} (hs : es.Pairwise fun a b => precedes a.1 b.1 = true)
    {e : κ × α} (h : e ∈ es) : es.find? (fun x => x.1 = e.1) = some e := by
  induction es with
  | nil => cases h
  | cons x es ih =>
    obtain ⟨hx, hes⟩ := List.pairwise_cons.mp hs
    rcases List.mem_cons.mp h with rfl | h
    · rw [List.find?_cons_of_pos (by simp)]
    · have hne : x.1 ≠ e.1 := by
        intro heq
        have hprecedes := hx e h
        rw [heq, KeyOrder.irrefl] at hprecedes
        cases hprecedes
      rw [List.find?_cons_of_neg (by simpa using hne), ih hes h]

theorem get?_eq_some_iff {a : α} : m.get? k = some a ↔ (k, a) ∈ m.entries := by
  constructor
  · intro h
    obtain ⟨e, he, rfl⟩ := Option.map_eq_some_iff.mp h
    have hk : e.1 = k := by simpa using List.find?_some he
    rw [← hk]
    exact List.mem_of_find?_eq_some he
  · intro h
    rw [get?, find?_of_mem m.sorted h]
    rfl

theorem get?_eq_none_iff : m.get? k = none ↔ k ∉ m.keys := by
  rw [← get?_isSome_iff, Bool.not_eq_true, Option.isSome_eq_false_iff, Option.isNone_iff_eq_none]

theorem find?_put_self (a : α) (es : List (κ × α)) :
    (put k a es).find? (fun x => x.1 = k) = some (k, a) := by
  induction es with
  | nil => simp [put]
  | cons e es ih =>
    rw [put]
    split
    case isTrue => simp
    case isFalse =>
      split
      case isTrue he =>
        have hne : e.1 ≠ k := by
          intro heq
          rw [heq, KeyOrder.irrefl] at he
          cases he
        rw [List.find?_cons_of_neg (by simpa using hne), ih]
      case isFalse => simp

theorem find?_put_of_ne {j : κ} (hj : k ≠ j) (a : α) (es : List (κ × α)) :
    (put k a es).find? (fun x => x.1 = j) = es.find? fun x => x.1 = j := by
  induction es with
  | nil => simp [put, hj]
  | cons e es ih =>
    rw [put]
    split
    case isTrue => simp [hj]
    case isFalse hk =>
      split
      case isTrue => rw [List.find?_cons, List.find?_cons, ih]
      case isFalse he =>
        -- the entry that is replaced has the key
        have hke : k = e.1 := KeyOrder.total (by simpa using hk) (by simpa using he)
        rw [List.find?_cons_of_neg (by simpa using hj), List.find?_cons_of_neg (by simpa [← hke] using hj)]

theorem get?_insert {j : κ} (a : α) :
    (m.insert k a).get? j = if j = k then some a else m.get? j := by
  rw [get?, insert]
  by_cases hj : j = k
  · rw [hj, find?_put_self, if_pos rfl]
    rfl
  · rw [find?_put_of_ne (Ne.symm hj), if_neg hj]
    rfl

theorem mem_keys_insert {j : κ} (a : α) : j ∈ (m.insert k a).keys ↔ j = k ∨ j ∈ m.keys := by
  rw [← get?_isSome_iff, ← get?_isSome_iff, get?_insert]
  by_cases hj : j = k <;> simp [hj]

theorem ext_get? {n : SortedMap κ α} (h : ∀ k, m.get? k = n.get? k) : m = n := by
  have hmem : ∀ e, e ∈ m.entries ↔ e ∈ n.entries := by
    intro e
    rw [← get?_eq_some_iff, ← get?_eq_some_iff, h]
  have hperm : m.entries.Perm n.entries :=
    (List.perm_ext_iff_of_nodup m.nodup_entries n.nodup_entries).mpr hmem
  refine eq_of_entries (List.Perm.eq_of_pairwise (fun a b _ _ hab hba => ?_) m.sorted n.sorted hperm)
  have hloop := KeyOrder.trans hab hba
  rw [KeyOrder.irrefl] at hloop
  cases hloop

def lastValue? (k : κ) (es : List (κ × α)) : Option α :=
  ((es.filter fun e => e.1 = k).getLast?).map (·.2)

omit [KeyOrder κ] in
theorem lastValue?_append (k : κ) (es fs : List (κ × α)) :
    lastValue? k (es ++ fs) = (lastValue? k fs).or (lastValue? k es) := by
  rw [lastValue?, List.filter_append, List.getLast?_append, Option.map_or]
  rfl

omit [KeyOrder κ] in
theorem isSome_lastValue? (k : κ) (es : List (κ × α)) :
    (lastValue? k es).isSome = true ↔ k ∈ es.map (·.1) := by
  simp [lastValue?]

theorem get?_insertAll (es : List (κ × α)) : (m.insertAll es).get? k = (lastValue? k es).or (m.get? k) := by
  induction es using List.reverseRecOn with
  | nil => rfl
  | append_singleton es e ih =>
    have hstep : m.insertAll (es ++ [e]) = (m.insertAll es).insert e.1 e.2 := by
      simp [insertAll]
    rw [hstep, get?_insert, ih, lastValue?_append, Option.or_assoc]
    by_cases he : k = e.1
    · simp [lastValue?, he]
    · simp [lastValue?, he, Ne.symm he]

theorem get?_map (f : κ → α → β) : (m.map f).get? k = (m.get? k).map (f k) := by
  apply Option.ext
  intro b
  rw [get?_eq_some_iff, map, List.mem_map, Option.map_eq_some_iff]
  constructor
  · rintro ⟨⟨k', a⟩, ha, heq⟩
    cases heq
    exact ⟨a, get?_eq_some_iff.mpr ha, rfl⟩
  · rintro ⟨a, ha, rfl⟩
    exact ⟨(k, a), get?_eq_some_iff.mp ha, rfl⟩

theorem get?_filterMap (f : κ → α → Option β) : (m.filterMap f).get? k = (m.get? k).bind (f k) := by
  apply Option.ext
  intro b
  rw [get?_eq_some_iff, filterMap, List.mem_filterMap, Option.bind_eq_some_iff]
  constructor
  · rintro ⟨⟨k', a⟩, ha, heq⟩
    obtain ⟨c, hc, heq⟩ := Option.map_eq_some_iff.mp heq
    cases heq
    exact ⟨a, get?_eq_some_iff.mpr ha, hc⟩
  · rintro ⟨a, ha, hb⟩
    exact ⟨(k, a), get?_eq_some_iff.mp ha, by rw [hb]; rfl⟩

end MessageCatalog.SortedMap
