namespace MessageCatalog

class KeyOrder (κ : Type) where
  precedes : κ → κ → Bool
  irrefl : ∀ a, precedes a a = false
  trans : ∀ {a b c}, precedes a b = true → precedes b c = true → precedes a c = true
  total : ∀ {a b}, precedes a b = false → precedes b a = false → a = b

instance : KeyOrder String where
  precedes a b := a < b
  irrefl a := by simp
  trans h₁ h₂ := by
    simp only [decide_eq_true_eq] at *
    exact String.lt_trans h₁ h₂
  total h₁ h₂ := by
    simp only [decide_eq_false_iff_not] at h₁ h₂
    exact String.le_antisymm h₂ h₁

structure SortedMap (κ α : Type) [KeyOrder κ] where
  entries : List (κ × α)
  sorted : entries.Pairwise fun a b => KeyOrder.precedes a.1 b.1 = true

namespace SortedMap

open KeyOrder

variable {κ α β : Type} [KeyOrder κ]

def empty : SortedMap κ α :=
  ⟨[], .nil⟩

def put (k : κ) (a : α) : List (κ × α) → List (κ × α)
  | [] => [(k, a)]
  | e :: rest =>
    if precedes k e.1 then (k, a) :: e :: rest
    else if precedes e.1 k then e :: put k a rest
    else (k, a) :: rest

theorem mem_put {k : κ} {a : α} {es : List (κ × α)} {x : κ × α} (h : x ∈ put k a es) :
    x = (k, a) ∨ x ∈ es := by
  induction es with
  | nil => simpa [put] using h
  | cons e rest ih =>
    simp only [put] at h
    split at h
    · simpa using h
    · split at h
      · rcases List.mem_cons.mp h with h | h
        · exact .inr (h ▸ List.mem_cons_self)
        · exact (ih h).imp_right (List.mem_cons_of_mem _)
      · rcases List.mem_cons.mp h with h | h
        · exact .inl h
        · exact .inr (List.mem_cons_of_mem _ h)

theorem sorted_put (k : κ) (a : α) {es : List (κ × α)}
    (h : es.Pairwise fun a b => precedes a.1 b.1 = true) :
    (put k a es).Pairwise fun a b => precedes a.1 b.1 = true := by
  induction es with
  | nil => simp [put]
  | cons e rest ih =>
    obtain ⟨he, hr⟩ := List.pairwise_cons.mp h
    simp only [put]
    split
    case isTrue hk =>
      refine List.pairwise_cons.mpr ⟨fun x hx => ?_, h⟩
      rcases List.mem_cons.mp hx with rfl | hx
      · exact hk
      · exact trans hk (he x hx)
    case isFalse hk =>
      split
      case isTrue hek =>
        refine List.pairwise_cons.mpr ⟨fun x hx => ?_, ih hr⟩
        rcases mem_put hx with rfl | hx
        · exact hek
        · exact he x hx
      case isFalse hek =>
        have hs : k = e.1 := total (by simpa using hk) (by simpa using hek)
        subst hs
        exact List.pairwise_cons.mpr ⟨he, hr⟩

def insert (m : SortedMap κ α) (k : κ) (a : α) : SortedMap κ α :=
  ⟨put k a m.entries, sorted_put k a m.sorted⟩

def insertAll (m : SortedMap κ α) (es : List (κ × α)) : SortedMap κ α :=
  es.foldl (fun m e => m.insert e.1 e.2) m

def ofList (es : List (κ × α)) : SortedMap κ α :=
  empty.insertAll es

def keys (m : SortedMap κ α) : List κ :=
  m.entries.map (·.1)

def size (m : SortedMap κ α) : Nat :=
  m.entries.length

def isEmpty (m : SortedMap κ α) : Bool :=
  m.entries.isEmpty

def get? [DecidableEq κ] (m : SortedMap κ α) (k : κ) : Option α :=
  (m.entries.find? fun e => e.1 = k).map (·.2)

def contains [DecidableEq κ] (m : SortedMap κ α) (k : κ) : Bool :=
  m.keys.contains k

theorem get?_isSome_iff [DecidableEq κ] {m : SortedMap κ α} {k : κ} :
    (m.get? k).isSome = true ↔ k ∈ m.keys := by
  simp [get?, keys]

def map (f : κ → α → β) (m : SortedMap κ α) : SortedMap κ β where
  entries := m.entries.map fun e => (e.1, f e.1 e.2)
  sorted := List.pairwise_map.mpr m.sorted

def filterMap (f : κ → α → Option β) (m : SortedMap κ α) : SortedMap κ β where
  entries := m.entries.filterMap fun e => (f e.1 e.2).map fun b => (e.1, b)
  sorted := by
    refine List.pairwise_filterMap.mpr (m.sorted.imp fun h x hx y hy => ?_)
    simp only [Option.map_eq_some_iff] at hx hy
    obtain ⟨_, _, rfl⟩ := hx
    obtain ⟨_, _, rfl⟩ := hy
    exact h

end SortedMap

end MessageCatalog
