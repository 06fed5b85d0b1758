import Mathlib.Data.List.Induction
import MessageCatalog.Proofs.Catalog.NearestKeys

namespace MessageCatalog

variable {n : Nat} {a b : List Char}

theorem Edit.length_le (h : Edit a b) : b.length ≤ a.length + 1 := by
  cases h <;> simp +arith

theorem Edits.length_le (h : Edits n a b) : b.length ≤ a.length + n := by
  induction h with
  | none a => exact Nat.le_refl _
  | next _ e ih =>
    have hstep := e.length_le
    omega

theorem edits_append (a b : List Char) : Edits b.length a (a ++ b) := by
  induction b using List.reverseRecOn with
  | nil =>
    rw [List.append_nil]
    exact .none a
  | append_singleton b c ih =>
    have hinsert := Edit.insert (a ++ b) c []
    rw [List.append_nil, List.append_assoc] at hinsert
    rw [List.length_append]
    exact ih.next hinsert

theorem levenshtein_append (a b : List Char) : levenshtein a (a ++ b) = b.length := by
  have hmost := editDistance_le (edits_append a b)
  have hleast := (edits_editDistance a (a ++ b)).length_le
  rw [List.length_append] at hleast
  rw [← editDistance_eq_levenshtein]
  omega

namespace Suggestion

variable {key s : String} {candidates : List String}

theorem mem_atDistance : s ∈ atDistance key candidates n ↔ s ∈ candidates ∧ distance key s = n := by
  simp [atDistance, distance, editDistance_eq_levenshtein]

theorem forKey_of_le (h : key.utf8ByteSize ≤ 3) (candidates : List String) :
    forKey key candidates = (atDistance key candidates 1).take 3 := by
  simp [forKey, mostEdits, h, List.range_succ]

theorem forKey_of_lt (h : ¬key.utf8ByteSize ≤ 3) (candidates : List String) :
    forKey key candidates = (atDistance key candidates 1).take 3 ++
      (atDistance key candidates 2).take (3 - (atDistance key candidates 1).length) := by
  simp [forKey, mostEdits, h, List.range_succ, List.take_append]

theorem distance_of_mem_forKey (h : s ∈ forKey key candidates) :
    distance key s = 1 ∨ distance key s = 2 := by
  by_cases hkey : key.utf8ByteSize ≤ 3
  · rw [forKey_of_le hkey] at h
    exact .inl (mem_atDistance.mp (List.mem_of_mem_take h)).2
  · rw [forKey_of_lt hkey] at h
    exact (List.mem_append.mp h).imp (fun h => (mem_atDistance.mp (List.mem_of_mem_take h)).2)
      fun h => (mem_atDistance.mp (List.mem_of_mem_take h)).2

theorem atDistance_eq_nil_iff : atDistance key candidates n = [] ↔ ∀ s ∈ candidates, distance key s ≠ n := by
  rw [List.eq_nil_iff_forall_not_mem]
  simp only [mem_atDistance, not_and, ne_eq]

theorem forall_one_of_lt_iff (h : ¬key.utf8ByteSize ≤ 3) :
    (∀ s ∈ forKey key candidates, distance key s = 1) ↔
      (∀ s ∈ candidates, distance key s ≠ 2) ∨ 3 ≤ (atDistance key candidates 1).length := by
  rw [forKey_of_lt h, ← atDistance_eq_nil_iff]
  constructor
  · intro hall
    have hnone : (atDistance key candidates 2).take (3 - (atDistance key candidates 1).length) = [] := by
      rw [List.eq_nil_iff_forall_not_mem]
      intro s hs
      have hone := hall s (List.mem_append_right _ hs)
      have htwo := (mem_atDistance.mp (List.mem_of_mem_take hs)).2
      omega
    rcases List.take_eq_nil_iff.mp hnone with hlength | hnil
    · exact .inr (Nat.sub_eq_zero_iff_le.mp hlength)
    · exact .inl hnil
  · intro hnone s hs
    have htake : (atDistance key candidates 2).take (3 - (atDistance key candidates 1).length) = [] := by
      rw [List.take_eq_nil_iff, Nat.sub_eq_zero_iff_le]
      exact hnone.symm
    rw [htake, List.append_nil] at hs
    exact (mem_atDistance.mp (List.mem_of_mem_take hs)).2

theorem distance_append_two (key : String) (c d : Char) :
    distance key (key ++ String.ofList [c, d]) = 2 := by
  rw [distance, String.toList_append, levenshtein_append, String.toList_ofList]
  rfl

/-- What is suggested is one or two edits away. It is always one edit away exactly if the key has at most three
bytes or, of the candidates, none is two edits away or three are one edit away. So only keys of at most three
bytes are safe from all candidates. -/
theorem forKey_oneEdit_iff (key : String) :
    (∀ candidates, (∀ s ∈ forKey key candidates, distance key s = 1 ∨ distance key s = 2) ∧
      ((∀ s ∈ forKey key candidates, distance key s = 1) ↔
        key.utf8ByteSize ≤ 3 ∨ (∀ s ∈ candidates, distance key s ≠ 2) ∨
          3 ≤ candidates.countP fun s => distance key s = 1)) ∧
    ((∀ candidates, ∀ s ∈ forKey key candidates, distance key s = 1) ↔ key.utf8ByteSize ≤ 3) := by
  have hone : key.utf8ByteSize ≤ 3 → ∀ candidates, ∀ s ∈ forKey key candidates, distance key s = 1 := by
    intro h candidates s hs
    rw [forKey_of_le h] at hs
    exact (mem_atDistance.mp (List.mem_of_mem_take hs)).2
  refine ⟨fun candidates => ⟨fun s => distance_of_mem_forKey, ?_⟩, ?_, hone⟩
  · by_cases h : key.utf8ByteSize ≤ 3
    · exact iff_of_true (hone h candidates) (.inl h)
    · have hcount : candidates.countP (fun s => distance key s = 1) =
          (atDistance key candidates 1).length := by
        rw [List.countP_eq_length_filter, atDistance]
        refine congrArg List.length (List.filter_congr fun s _ => ?_)
        rw [decide_eq_decide, editDistance_eq_levenshtein, distance]
      rw [forall_one_of_lt_iff h, hcount, or_iff_right h]
  · intro hall
    by_contra h
    have htwo := distance_append_two key 'a' 'a'
    rcases (forall_one_of_lt_iff h).mp (hall [key ++ String.ofList ['a', 'a']]) with hnone | hthree
    · exact hnone _ List.mem_cons_self htwo
    · have hmost : (atDistance key [key ++ String.ofList ['a', 'a']] 1).length ≤ 1 := List.length_filter_le _ _
      omega

/-- Two umlauts are two characters and four bytes, and what replaces both of them is suggested. -/
theorem forKey_not_always_oneEdit :
    ¬∀ (key : String) (candidates : List String), ∀ s ∈ forKey key candidates,
      (key.length ≤ 3 → distance key s = 1) ∧ (3 < key.length → distance key s = 1 ∨ distance key s = 2) := by
  intro h
  have hmem : "ab" ∈ forKey "äö" ["ab"] := by decide +kernel
  have hone := (h "äö" ["ab"] "ab" hmem).1 (by decide +kernel)
  have htwo : editDistance "äö".toList "ab".toList = 2 := by decide +kernel
  rw [distance, ← editDistance_eq_levenshtein, htwo] at hone
  cases hone

end Suggestion

end MessageCatalog
