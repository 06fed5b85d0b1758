import MessageCatalog.Locale.Currency
import Mathlib.Data.List.Chain

namespace MessageCatalog.SortedTable

variable {α : Type} {table : SortedTable α} {key : String} {a : α}

def Ascends (table : SortedTable α) : Prop :=
  (table.toList.map Prod.fst).IsChain (· < ·)

instance (table : SortedTable α) : Decidable table.Ascends :=
  inferInstanceAs (Decidable (List.IsChain _ _))

theorem Ascends.pairwise (h : table.Ascends) : table.toList.Pairwise fun r s => r.1 < s.1 :=
  List.pairwise_map.mp (List.isChain_iff_pairwise.mp h)

theorem Ascends.lt_of_lt (h : table.Ascends) {i j : Nat} {r s : String × α} (hi : table[i]? = some r)
    (hj : table[j]? = some s) (hij : i < j) : r.1 < s.1 := by
  rw [← Array.getElem?_toList, List.getElem?_eq_some_iff] at hi hj
  obtain ⟨hi, rfl⟩ := hi
  obtain ⟨hj, rfl⟩ := hj
  exact List.pairwise_iff_getElem.mp h.pairwise i j hi hj hij

theorem Ascends.lt_iff (h : table.Ascends) {i j : Nat} {r s : String × α} (hi : table[i]? = some r)
    (hj : table[j]? = some s) : r.1 < s.1 ↔ i < j := by
  refine ⟨fun hrs => ?_, h.lt_of_lt hi hj⟩
  rcases Nat.lt_trichotomy i j with hij | rfl | hji
  · exact hij
  · rw [hi, Option.some.injEq] at hj
    rw [hj] at hrs
    exact absurd hrs (String.lt_irrefl _)
  · exact absurd hrs (String.lt_asymm (h.lt_of_lt hj hi hji))

theorem searchBetween_eq_some_iff (h : table.Ascends) {low high : Nat} (hhigh : high ≤ table.size) :
    table.searchBetween key low high = some a ↔
      ∃ i, low ≤ i ∧ i < high ∧ table[i]? = some (key, a) := by
  fun_induction searchBetween table key low high with
  | case1 low high hlt middle hnone =>
    have hmiddle := Array.getElem?_eq_none_iff.mp hnone
    omega
  | case2 low high hlt middle k b hrow hless ih =>
    rw [ih (by omega)]
    constructor
    · rintro ⟨i, hlow, hi, hfound⟩
      exact ⟨i, hlow, by omega, hfound⟩
    · rintro ⟨i, hlow, hi, hfound⟩
      exact ⟨i, hlow, (h.lt_iff hfound hrow).mp hless, hfound⟩
  | case3 low high hlt middle k b hrow hge hless ih =>
    rw [ih hhigh]
    constructor
    · rintro ⟨i, hlow, hi, hfound⟩
      exact ⟨i, by omega, hi, hfound⟩
    · rintro ⟨i, hlow, hi, hfound⟩
      exact ⟨i, (h.lt_iff hrow hfound).mp hless, hi, hfound⟩
  | case4 low high hlt middle k b hrow hge hle =>
    obtain rfl : k = key := String.le_antisymm hge hle
    constructor
    · rintro ⟨⟩
      exact ⟨middle, by omega, by omega, hrow⟩
    · rintro ⟨i, hlow, hi, hfound⟩
      have hleft := mt (h.lt_iff hfound hrow).mpr (String.lt_irrefl _)
      have hright := mt (h.lt_iff hrow hfound).mpr (String.lt_irrefl _)
      obtain rfl : i = middle := by omega
      rw [hrow] at hfound
      cases hfound
      rfl
  | case5 low high hle =>
    simp only [reduceCtorEq, false_iff]
    rintro ⟨i, hlow, hi, -⟩
    omega

theorem search_eq_some_iff (h : table.Ascends) :
    table.search key = some a ↔ (key, a) ∈ table.toList := by
  rw [search, searchBetween_eq_some_iff h le_rfl, List.mem_iff_getElem?]
  simp only [Array.getElem?_toList]
  constructor
  · rintro ⟨i, -, -, hi⟩
    exact ⟨i, hi⟩
  · rintro ⟨i, hi⟩
    obtain ⟨hlt, -⟩ := Array.getElem?_eq_some_iff.mp hi
    exact ⟨i, Nat.zero_le i, hlt, hi⟩

theorem search_eq_lookup (h : table.Ascends) (key : String) :
    table.search key = table.toList.lookup key := by
  apply Option.ext
  intro a
  rw [search_eq_some_iff h, List.lookup_eq_some_iff]
  constructor
  · intro hmem
    obtain ⟨before, after, heq⟩ := List.append_of_mem hmem
    refine ⟨before, after, heq, fun r hr => ?_⟩
    have hpairwise := h.pairwise
    rw [heq, List.pairwise_append] at hpairwise
    have hlt := hpairwise.2.2 r hr _ List.mem_cons_self
    exact bne_iff_ne.mpr (String.ne_of_lt hlt).symm
  · rintro ⟨before, after, heq, -⟩
    rw [heq]
    exact List.mem_append_right _ List.mem_cons_self

end MessageCatalog.SortedTable

namespace MessageCatalog.Currency

theorem ascends_regionCodes : regionCodes.Ascends := by
  decide +kernel

theorem ascends_symbols : symbols.Ascends := by
  decide +kernel

def scannedCode (code : String) : Currency :=
  ⟨(symbols.toList.lookup code).getD code, minorDigits code⟩

def scanned (l : Locale) : Currency :=
  match l.regionCode.bind fun region => regionCodes.toList.lookup region with
  | some code => scannedCode code
  | none => generic

theorem ofCode_eq_scannedCode (code : String) : ofCode code = scannedCode code := by
  rw [ofCode, scannedCode, SortedTable.search_eq_lookup ascends_symbols]

theorem ofLocale_eq_scanned (l : Locale) : ofLocale l = scanned l := by
  have hsearch : regionCodes.search = fun region => regionCodes.toList.lookup region :=
    funext (SortedTable.search_eq_lookup ascends_regionCodes)
  rw [ofLocale, scanned, hsearch]
  cases l.regionCode.bind fun region => regionCodes.toList.lookup region with
  | none => rfl
  | some code => exact ofCode_eq_scannedCode code

def spellings : List String :=
  generic.symbol :: symbols.toList.map Prod.snd ++ regionCodes.toList.map Prod.snd

theorem symbol_mem_spellings (l : Locale) : (ofLocale l).symbol ∈ spellings := by
  rw [spellings, ofLocale]
  split
  case h_1 code hcode =>
    obtain ⟨region, -, hregion⟩ := Option.bind_eq_some_iff.mp hcode
    rw [ofCode]
    cases hsymbol : symbols.search code with
    | some symbol =>
      have hrow := (SortedTable.search_eq_some_iff ascends_symbols).mp hsymbol
      exact List.mem_append_left _ (List.mem_cons_of_mem _ (List.mem_map_of_mem hrow))
    | none =>
      have hrow := (SortedTable.search_eq_some_iff ascends_regionCodes).mp hregion
      exact List.mem_append_right _ (List.mem_map_of_mem hrow)
  case h_2 => exact List.mem_cons_self

end MessageCatalog.Currency
