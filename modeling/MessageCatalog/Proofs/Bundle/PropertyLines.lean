import MessageCatalog.Bundle.Properties
import MessageCatalog.Proofs.Text.Split

namespace MessageCatalog.Properties

theorem ended_cons (line : List Char) {rest : List (List Char)} (h : rest ≠ []) :
    ended (line :: rest) = dropReturn line :: ended rest := by
  obtain ⟨next, later, rfl⟩ := List.exists_cons_of_ne_nil h
  rw [ended]
  exact List.cons_ne_nil _ _

theorem physicalLines_append {line : List Char} (h : '\n' ∉ line) (rest : List Char) :
    physicalLines (line ++ '\n' :: rest) = dropReturn line :: physicalLines rest := by
  rw [physicalLines, Text.split_append h, ended_cons _ (Text.split_ne_nil _ _)]
  rfl

theorem dropReturn_of_not_mem {line : List Char} (h : '\r' ∉ line) : dropReturn line = line := by
  rw [dropReturn, if_neg fun hl => h (List.mem_of_getLast? hl)]

theorem dropReturn_concat (line : List Char) : dropReturn (line ++ ['\r']) = line := by
  rw [dropReturn, List.getLast?_concat, if_pos rfl, List.dropLast_concat]

theorem continues_concat {c : Char} (hc : c ≠ '\\') (line : List Char) :
    continues (line ++ [c]) = false := by
  simp [continues, hc]

theorem continues_append_backslashes (line : List Char) :
    continues (line ++ ['\\', '\\']) = continues line := by
  simp only [continues, List.reverse_append, List.reverse_cons, List.reverse_nil, List.nil_append,
    List.cons_append, List.takeWhile_cons, beq_self_eq_true, if_true, List.length_cons]
  rw [Nat.add_assoc, Nat.add_mod_right]

structure IsSingleLine (line : List Char) : Prop where
  nonempty : line ≠ []
  unpadded : ∀ c, line.head? = some c → isPad c = false
  no_comment : isComment line = false
  closed : continues line = false

theorem join_singleLine {line : List Char} (h : IsSingleLine line) (number : Nat)
    (rest : List (List Char)) :
    join number none (line :: rest) = ⟨number, line⟩ :: join (number + 1) none rest := by
  have hdrop : line.dropWhile isPad = line := by
    obtain ⟨c, cs, rfl⟩ := List.exists_cons_of_ne_nil h.nonempty
    rw [List.dropWhile_cons, h.unpadded c rfl, if_neg Bool.false_ne_true]
  have hempty : line.isEmpty = false := by simpa using h.nonempty
  simp [join, hdrop, hempty, h.no_comment, h.closed]

end MessageCatalog.Properties
