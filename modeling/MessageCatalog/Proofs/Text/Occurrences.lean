import Mathlib.Data.List.Infix
import Mathlib.Data.List.Count

namespace MessageCatalog.Text

def occurrences (needle cs : List Char) : Nat :=
  cs.tails.countP needle.isPrefixOf

theorem occurrences_cons (needle : List Char) (c : Char) (cs : List Char) :
    occurrences needle (c :: cs) =
      occurrences needle cs + if needle.isPrefixOf (c :: cs) then 1 else 0 := by
  rw [occurrences, List.tails, List.countP_cons]
  rfl

theorem occurrences_le_count {needle : List Char} {z : Char} (h : z ∈ needle) (cs : List Char) :
    occurrences needle cs ≤ cs.count z := by
  obtain ⟨before, after, rfl⟩ := List.append_of_mem h
  -- the character of an occurrence stands behind the part before it
  have hbehind : occurrences (before ++ z :: after) cs ≤ (cs.drop before.length).count z := by
    induction cs with
    | nil => simp [occurrences]
    | cons c cs ih =>
      have hdrop : (c :: cs).drop (before.length + 1) = cs.drop before.length := List.drop_succ_cons
      rw [occurrences_cons]
      split
      case isTrue hfound =>
        obtain ⟨rest, hrest⟩ := List.isPrefixOf_iff_prefix.mp hfound
        rw [List.append_assoc, List.cons_append] at hrest
        have hhere : (c :: cs).drop before.length = z :: (after ++ rest) := by
          rw [← hrest, List.drop_left]
        have hlater : cs.drop before.length = after ++ rest := by
          rw [← hdrop, ← List.drop_drop, hhere]
          rfl
        rw [hlater] at ih
        rw [hhere, List.count_cons_self]
        omega
      case isFalse =>
        have hmore := (List.drop_sublist_drop_left (c :: cs) (Nat.le_succ before.length)).count_le z
        rw [hdrop] at hmore
        omega
  exact Nat.le_trans hbehind ((List.drop_sublist _ _).count_le z)

theorem occurrences_pos {needle : List Char} (h : needle ≠ []) (front back : List Char) :
    0 < occurrences needle (front ++ needle ++ back) := by
  induction front with
  | nil =>
    obtain ⟨c, cs, rfl⟩ := List.exists_cons_of_ne_nil h
    have hfound : (c :: cs).isPrefixOf (c :: (cs ++ back)) = true :=
      List.isPrefixOf_iff_prefix.mpr (List.prefix_append _ _)
    rw [List.nil_append, List.cons_append, occurrences_cons, if_pos hfound]
    omega
  | cons c front ih =>
    rw [List.cons_append, List.cons_append, occurrences_cons]
    omega

theorem occurrences_eq_zero {needle cs : List Char} {z : Char} (hz : z ∈ needle) (hcs : z ∉ cs) :
    occurrences needle cs = 0 := by
  have := occurrences_le_count hz cs
  rw [List.count_eq_zero_of_not_mem hcs] at this
  omega

theorem occurrences_eq_one {needle front back : List Char} {z : Char} (hz : needle.count z = 1)
    (hfront : z ∉ front) (hback : z ∉ back) : occurrences needle (front ++ needle ++ back) = 1 := by
  have hmem : z ∈ needle := List.count_pos_iff.mp (by omega)
  have hle := occurrences_le_count hmem (front ++ needle ++ back)
  have hpos := occurrences_pos (List.ne_nil_of_mem hmem) front back
  rw [List.count_append, List.count_append, hz, List.count_eq_zero_of_not_mem hfront,
    List.count_eq_zero_of_not_mem hback] at hle
  omega

end MessageCatalog.Text
