import MessageCatalog.Calendar.Pattern
import MessageCatalog.Proofs.Text.Runs

namespace MessageCatalog.FieldPattern

open Text (Mark Run)

variable {quoted : Bool} {c letter : Char} {cs rest : List Char} {ms : List (Mark Char)}

theorem marks_doubled :
    marks quoted ('\'' :: '\'' :: cs) = (marks quoted cs).map (.char '\'' :: ·) id := by
  rw [marks]

theorem marks_apostrophe (h : cs.head? ≠ some '\'') : marks quoted ('\'' :: cs) = marks (!quoted) cs := by
  rw [marks]
  rintro rest rfl
  exact h rfl

theorem marks_char (hc : c ≠ '\'') :
    marks quoted (c :: cs) =
      (marks quoted cs).map ((if quoted || !isLetter c then .char c else .item c) :: ·) id := by
  rw [marks]
  · exact fun rest h => absurd h hc
  · exact hc

theorem ne_apostrophe_of_isLetter (h : isLetter letter = true) : letter ≠ '\'' := by
  rintro rfl
  exact absurd h (by decide)

theorem marks_letters (h : isLetter letter = true) (width : Nat) :
    marks false (List.replicate width letter ++ rest) =
      (marks false rest).map (List.replicate width (.item letter) ++ ·) id := by
  induction width with
  | zero => rfl
  | succ width ih =>
    rw [List.replicate_succ, List.cons_append, marks_char (ne_apostrophe_of_isLetter h), ih]
    simp only [h, Bool.not_true, Bool.or_self, Bool.false_eq_true, if_false]
    rfl

def AreSeparate : List (Mark Field) → Prop
  | [] => True
  | .char _ :: ms => AreSeparate ms
  | .item f :: ms => 0 < f.width ∧ (∀ g, ms.head? = some (.item g) → g.letter ≠ f.letter) ∧ AreSeparate ms

theorem areSeparate_fields (ms : List (Mark Char)) : AreSeparate (fields ms) := by
  induction ms with
  | nil => trivial
  | cons m ms ih =>
    cases m with
    | char c => exact ih
    | item letter =>
      rw [fields]
      split
      case h_1 f rest hfields =>
        rw [hfields] at ih
        split
        case isTrue hsame => exact ⟨Nat.succ_pos _, fun g hg => hsame ▸ ih.2.1 g hg, ih.2.2⟩
        case isFalse hother =>
          refine ⟨Nat.one_pos, fun g hg => ?_, ih⟩
          cases hg
          exact hother
      case h_2 hother =>
        refine ⟨Nat.one_pos, fun g hg => ?_, ih⟩
        obtain ⟨rest, hrest⟩ := List.head?_eq_some_iff.mp hg
        exact absurd hrest (hother g rest)

theorem areSeparate_chars {ms : List (Mark Field)} :
    AreSeparate (cs.map Mark.char ++ ms) ↔ AreSeparate ms := by
  induction cs with
  | nil => rfl
  | cons c cs ih => exact ih

theorem fields_chars : fields (cs.map Mark.char ++ ms) = cs.map Mark.char ++ fields ms := by
  induction cs with
  | nil => rfl
  | cons c cs ih => simp only [List.map_cons, List.cons_append, fields, ih]

theorem fields_letters {width : Nat} (h : ∀ g, (fields ms).head? = some (.item g) → g.letter ≠ letter) :
    fields (List.replicate (width + 1) (.item letter) ++ ms) = .item ⟨letter, width + 1⟩ :: fields ms := by
  induction width with
  | zero =>
    simp only [List.replicate_succ, List.replicate_zero, List.singleton_append, fields]
    split
    case h_1 f rest hfields => rw [if_neg (h f (by rw [hfields]; rfl)), hfields]
    case h_2 => rfl
  | succ width ih =>
    rw [List.replicate_succ, List.cons_append, fields, ih]
    exact if_pos rfl

def letters : List (Run Field) → List (Mark Char)
  | [] => []
  | .text t :: rest => t.toList.map Mark.char ++ letters rest
  | .item f :: rest => List.replicate f.width (.item f.letter) ++ letters rest

theorem fields_letters_of_areSeparate {rs : List (Run Field)} (h : AreSeparate (Run.marks rs)) :
    fields (letters rs) = Run.marks rs := by
  induction rs with
  | nil => rfl
  | cons r rest ih =>
    cases r with
    | text t => rw [letters, Run.marks, fields_chars, ih (areSeparate_chars.mp h)]
    | item f =>
      obtain ⟨hwidth, hother, hrest⟩ := h
      have hsucc : f.width = f.width - 1 + 1 := (Nat.succ_pred_eq_of_pos hwidth).symm
      rw [letters, hsucc, fields_letters, ih hrest, ← hsucc]
      · rfl
      · rwa [ih hrest]

theorem areSeparate_read (cs : List Char) : AreSeparate (Run.marks (read cs).1) := by
  change AreSeparate (Run.marks (Run.ofMarks (fields (marks false cs).1)))
  rw [Run.marks_ofMarks]
  exact areSeparate_fields _

theorem normal_read (cs : List Char) : Run.Normal (read cs).1 :=
  Run.normal_ofMarks _

theorem read_of_marks {rs : List (Run Field)} {closed : Bool} (hn : Run.Normal rs)
    (hs : AreSeparate (Run.marks rs)) (h : marks false cs = (letters rs, closed)) :
    read cs = (rs, closed) := by
  rw [read, h]
  change (Run.ofMarks (fields (letters rs)), closed) = _
  rw [fields_letters_of_areSeparate hs, Run.ofMarks_marks hn]

end MessageCatalog.FieldPattern
