import MessageCatalog.Message.ArgumentFormat
import MessageCatalog.Proofs.Calendar.StandardForm
import MessageCatalog.Proofs.Message.RangeScan
import MessageCatalog.Proofs.Number.Tokens

namespace MessageCatalog

open Text (Mark)
open Traversal

namespace FieldPattern

def plainMark (c : Char) : Mark Char :=
  if isLetter c then .item c else .char c

theorem marks_of_not_mem {cs : List Char} (h : '\'' ∉ cs) : marks false cs = (cs.map plainMark, true) := by
  induction cs with
  | nil => rfl
  | cons c cs ih =>
    obtain ⟨hc, hcs⟩ := List.ne_and_not_mem_of_not_mem_cons h
    rw [marks_char hc.symm, ih hcs]
    cases hletter : isLetter c <;> simp [plainMark, hletter]

theorem standardField_ne_unterminated (last : Option Char) (before : String) (f : Field) :
    standardField last before f ≠ .error .unterminatedQuote := by
  intro h
  rw [standardField] at h
  split at h
  case isTrue => split at h <;> cases h
  case isFalse => split at h <;> cases h

theorem standardRuns_ne_unterminated (last : Option Char) (before : String) (rs : List (Text.Run Field)) :
    standardRuns last before rs ≠ .error .unterminatedQuote := by
  induction rs generalizing last before with
  | nil => exact nofun
  | cons r rest ih =>
    cases r with
    | text t => exact ih last (before ++ t)
    | item f =>
      intro h
      rcases bind_eq_error_iff.mp h with hnow | ⟨now, -, h⟩
      · exact standardField_ne_unterminated last before f hnow
      rcases bind_eq_error_iff.mp h with hlater | ⟨later, -, h⟩
      · exact ih (some f.letter) "" hlater
      · cases h

theorem standardize_ne_unterminated {cs : List Char} (h : '\'' ∉ cs) :
    standardize cs ≠ .error .unterminatedQuote := by
  have hclosed : (read cs).2 = true := by
    rw [read, marks_of_not_mem h]
    rfl
  intro hform
  rcases bind_eq_error_iff.mp hform with hruns | ⟨form, -, hform⟩
  · exact standardRuns_ne_unterminated none "" _ hruns
  · split at hform
    case isTrue => cases hform
    case isFalse hopen => exact hopen hclosed

end FieldPattern

theorem DatePattern.parse_ne_unterminated {pattern : String} (h : '\'' ∉ pattern.toList) :
    parse pattern ≠ .error .unterminatedQuote := by
  intro hparse
  rcases bind_eq_error_iff.mp hparse with hform | ⟨form, -, hparse⟩
  · exact FieldPattern.standardize_ne_unterminated h hform
  · dsimp only at hparse
    split at hparse
    case isTrue => cases hparse
    case isFalse => split at hparse <;> cases hparse

def RangeScan.isQuoted : RangeScan → Bool
  | .text quoted => quoted
  | .block _ _ quoted => quoted

namespace RangePattern

theorem isQuoted_scan {s : RangeScan} {cs : List Char} (hs : s.isQuoted = false) (h : '\'' ∉ cs) :
    (scan s cs).2.isQuoted = false := by
  induction cs generalizing s with
  | nil =>
    rw [scan]
    exact hs
  | cons c cs ih =>
    obtain ⟨hc, hcs⟩ := List.ne_and_not_mem_of_not_mem_cons h
    cases s with
    | text quoted =>
      obtain rfl : quoted = false := hs
      by_cases hb : c = '\x7b'
      · rw [hb, scan_text_brace]
        exact ih (s := .block .start .empty false) rfl hcs
      · rw [scan_text_char hc.symm fun h => absurd h hb]
        exact ih (s := .text false) rfl hcs
    | block part b quoted =>
      obtain rfl : quoted = false := hs
      rw [scan_block_cons, if_neg hc.symm, if_neg Bool.false_ne_true]
      split
      case isTrue => exact ih (s := .text false) rfl hcs
      case isFalse =>
        split
        case h_1 next _ => exact ih (s := .block next b false) rfl hcs
        case h_2 => exact ih (s := .block part (b.add c part) false) rfl hcs

end RangePattern

structure IsUnquoted (modifier : String) : Prop where
  number : NumberPattern.tokens false modifier.toList = modifier.toList.map NumberPattern.Token.plain
  date : FieldPattern.marks false modifier.toList = (modifier.toList.map FieldPattern.plainMark, true)
  range : ∀ n, (RangePattern.scan (.text false) (modifier.toList.take n)).2.isQuoted = false

theorem isUnquoted_of_not_mem {modifier : String} (h : '\'' ∉ modifier.toList) : IsUnquoted modifier where
  number := NumberPattern.tokens_of_not_mem h
  date := FieldPattern.marks_of_not_mem h
  range _ := RangePattern.isQuoted_scan (s := .text false) rfl fun hc => h (List.mem_of_mem_take hc)

namespace PatternProblem

def carried? : PatternProblem → Option String
  | unknownType keyword => some keyword
  | invalidNumber pattern _ | invalidDate pattern _ | invalidChoice pattern _ | invalidRange pattern _ =>
    some pattern
  | unmatchedBraces | invalidIndex _ | negativeIndex _ => none

def IsUnterminated : PatternProblem → Prop
  | invalidNumber _ problem => problem = .unterminatedQuote
  | invalidDate _ problem => problem = .unterminatedQuote
  | _ => False

end PatternProblem

theorem NumberStyle.ofModifier_ne_unterminated {modifier : String} (h : '\'' ∉ modifier.toList) :
    ofModifier modifier ≠ .error .unterminatedQuote := by
  rw [ofModifier]
  split
  case h_1 => exact nofun
  case h_2 => exact fun he => NumberPattern.parse_ne_unterminated h (map_eq_error_iff.mp he)

theorem DateStyle.ofModifier_ne_unterminated {modifier : String} (h : '\'' ∉ modifier.toList) :
    ofModifier modifier ≠ .error .unterminatedQuote := by
  rw [ofModifier]
  split
  case h_1 => exact nofun
  case h_2 => exact fun he => DatePattern.parse_ne_unterminated h (map_eq_error_iff.mp he)

namespace ArgumentFormat

variable {keyword modifier : String} {problem : PatternProblem}

theorem map_mapError_eq_error_iff {α ε : Type} {x : Except ε α} {wrap : ε → PatternProblem}
    {g : α → ArgumentFormat} :
    (x.mapError wrap).map g = .error problem ↔ ∃ e, x = .error e ∧ wrap e = problem := by
  rw [map_eq_error_iff, mapError_eq_error_iff]

theorem carried_of_ofParts (h : ofParts keyword modifier = .error problem) :
    problem.carried? = some keyword ∨ problem.carried? = some modifier := by
  rw [ofParts] at h
  split at h
  case h_1 =>
    cases h
    exact .inl rfl
  case h_2 => cases h
  all_goals
    obtain ⟨e, -, rfl⟩ := map_mapError_eq_error_iff.mp h
    exact .inr rfl

theorem not_unterminated_of_ofParts (hm : '\'' ∉ modifier.toList)
    (h : ofParts keyword modifier = .error problem) : ¬problem.IsUnterminated := by
  rw [ofParts] at h
  split at h
  case h_1 =>
    cases h
    exact id
  case h_2 => cases h
  case h_3 =>
    obtain ⟨e, he, rfl⟩ := map_mapError_eq_error_iff.mp h
    rintro rfl
    exact NumberStyle.ofModifier_ne_unterminated hm he
  case h_6 | h_7 =>
    obtain ⟨e, he, rfl⟩ := map_mapError_eq_error_iff.mp h
    exact id
  all_goals
    obtain ⟨e, he, rfl⟩ := map_mapError_eq_error_iff.mp h
    rintro rfl
    exact DateStyle.ofModifier_ne_unterminated hm he

end ArgumentFormat

end MessageCatalog
