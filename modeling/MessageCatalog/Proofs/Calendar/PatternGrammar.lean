import MessageCatalog.Proofs.Calendar.StandardForm

namespace MessageCatalog.FieldPattern

open Text (Mark Run)

/-- A text, its characters and its runs of letters from left to right, and whether every quotation ends. -/
inductive Reads : List Char → List (Mark Field) → Bool → Prop
  | nil : Reads [] [] true
  | apostrophe {cs : List Char} {ms : List (Mark Field)} {closed : Bool} (h : Reads cs ms closed) :
    Reads ('\'' :: '\'' :: cs) (.char '\'' :: ms) closed
  | char {c : Char} {cs : List Char} {ms : List (Mark Field)} {closed : Bool} (hc : c ≠ '\'')
      (hletter : isLetter c = false) (h : Reads cs ms closed) : Reads (c :: cs) (.char c :: ms) closed
  | run {letter : Char} {cs : List Char} {ms : List (Mark Field)} {closed : Bool} (width : Nat)
      (hletter : isLetter letter = true) (hnext : cs.head? ≠ some letter) (h : Reads cs ms closed) :
    Reads (List.replicate (width + 1) letter ++ cs) (.item ⟨letter, width + 1⟩ :: ms) closed
  | quotation {c : Char} (t : List Char) {cs : List Char} {ms : List (Mark Field)} {closed : Bool}
      (hc : c ≠ '\'') (hnext : cs.head? ≠ some '\'') (h : Reads cs ms closed) :
    Reads ('\'' :: (doubled (c :: t) ++ '\'' :: cs)) ((c :: t).map Mark.char ++ ms) closed
  | unclosed (t : List Char) (ht : t.head? ≠ some '\'') : Reads ('\'' :: doubled t) (t.map Mark.char) false

variable {cs t rest : List Char} {ms : List (Mark Field)} {closed : Bool}

theorem head?_doubled (t : List Char) : (doubled t).head? = t.head? := by
  cases t with
  | nil => rfl
  | cons c t => by_cases hc : c = '\'' <;> simp [doubled, hc]

theorem marks_unclosed (t : List Char) : marks true (doubled t) = (t.map Mark.char, false) := by
  induction t with
  | nil => rfl
  | cons c t ih =>
    by_cases hc : c = '\''
    · have hd : doubled (c :: t) = '\'' :: '\'' :: doubled t := by simp [doubled, hc]
      rw [hd, marks_doubled, ih, hc]
      rfl
    · have hd : doubled (c :: t) = c :: doubled t := by simp [doubled, hc]
      rw [hd, marks_char hc, ih]
      rfl

theorem Reads.head? (h : Reads cs ms closed) {f : Field} (hf : ms.head? = some (.item f)) :
    cs.head? = some f.letter := by
  cases h with
  | run width =>
    cases hf
    rfl
  | unclosed t => cases t <;> cases hf
  | _ => cases hf

theorem Reads.fields_marks (h : Reads cs ms closed) :
    fields (marks false cs).1 = ms ∧ (marks false cs).2 = closed := by
  induction h with
  | nil => exact ⟨rfl, rfl⟩
  | apostrophe _ ih =>
    rw [marks_doubled]
    simpa [fields] using ih
  | @char c _ _ _ hc hletter _ ih =>
    rw [marks_char hc, hletter]
    simpa [fields] using ih
  | @run letter cs ms closed width hletter hnext h ih =>
    have hother : ∀ g, (fields (marks false cs).1).head? = some (.item g) → g.letter ≠ letter := by
      rw [ih.1]
      rintro g hg rfl
      exact hnext (h.head? hg)
    rw [marks_letters hletter]
    exact ⟨(fields_letters hother).trans (congrArg _ ih.1), ih.2⟩
  | @quotation c t cs ms closed hc hnext _ ih =>
    have hall : ¬IsApostrophes (c :: t) := fun h => hc (isApostrophes_cons.mp h).1
    rw [marks_quotation hnext, if_neg hall, List.append_nil]
    exact ⟨fields_chars.trans (congrArg _ ih.1), ih.2⟩
  | unclosed t ht =>
    have hchars : fields (t.map Mark.char ++ []) = t.map Mark.char ++ fields [] := fields_chars
    rw [marks_apostrophe (by rwa [head?_doubled]), Bool.not_false, marks_unclosed]
    simpa [fields] using hchars

theorem exists_quotation (cs : List Char) :
    (∃ t rest, cs = doubled t ++ '\'' :: rest ∧ rest.head? ≠ some '\'') ∨ ∃ t, cs = doubled t := by
  induction hn : cs.length using Nat.strongRecOn generalizing cs with
  | ind n ih =>
    cases cs with
    | nil => exact .inr ⟨[], rfl⟩
    | cons c cs =>
      have hlt (rest : List Char) (h : rest.length ≤ cs.length) : rest.length < n := by
        rw [← hn, List.length_cons]
        omega
      by_cases hc : c = '\''
      · by_cases hd : cs.head? = some '\''
        · obtain ⟨cs, rfl⟩ := List.head?_eq_some_iff.mp hd
          rcases ih _ (hlt cs (by simp)) cs rfl with ⟨t, rest, rfl, hrest⟩ | ⟨t, rfl⟩
          · exact .inl ⟨'\'' :: t, rest, by simp [doubled, hc], hrest⟩
          · exact .inr ⟨'\'' :: t, by simp [doubled, hc]⟩
        · exact .inl ⟨[], cs, by simp [doubled, hc], hd⟩
      · rcases ih _ (hlt cs (Nat.le_refl _)) cs rfl with ⟨t, rest, rfl, hrest⟩ | ⟨t, rfl⟩
        · exact .inl ⟨c :: t, rest, by simp [doubled, hc], hrest⟩
        · exact .inr ⟨c :: t, by simp [doubled, hc]⟩

theorem exists_run (letter : Char) (cs : List Char) :
    ∃ width rest, cs = List.replicate width letter ++ rest ∧ rest.head? ≠ some letter := by
  induction cs with
  | nil => exact ⟨0, [], rfl, nofun⟩
  | cons c cs ih =>
    by_cases hc : c = letter
    · obtain ⟨width, rest, rfl, hrest⟩ := ih
      exact ⟨width + 1, rest, by rw [hc]; rfl, hrest⟩
    · exact ⟨0, c :: cs, rfl, fun h => hc (Option.some.inj h)⟩

theorem exists_reads (cs : List Char) : ∃ ms closed, Reads cs ms closed := by
  -- a run of letters or a quotation takes many characters at a time
  induction hn : cs.length using Nat.strongRecOn generalizing cs with
  | ind n ih =>
    cases cs with
    | nil => exact ⟨_, _, .nil⟩
    | cons c cs =>
      have hlt (rest : List Char) (h : rest.length ≤ cs.length) : rest.length < n := by
        rw [← hn, List.length_cons]
        omega
      by_cases hc : c = '\''
      · subst hc
        by_cases hd : cs.head? = some '\''
        · obtain ⟨rest, rfl⟩ := List.head?_eq_some_iff.mp hd
          obtain ⟨ms, closed, h⟩ := ih _ (hlt rest (by simp)) rest rfl
          exact ⟨_, _, .apostrophe h⟩
        · rcases exists_quotation cs with ⟨t, rest, rfl, hrest⟩ | ⟨t, rfl⟩
          · cases t with
            | nil => exact absurd rfl hd
            | cons c t =>
              have hc : c ≠ '\'' := by
                rintro rfl
                exact hd rfl
              obtain ⟨ms, closed, h⟩ := ih _ (hlt rest (by simp; omega)) rest rfl
              exact ⟨_, _, .quotation t hc hrest h⟩
          · exact ⟨_, _, .unclosed t (by rwa [head?_doubled] at hd)⟩
      · cases hletter : isLetter c with
        | false =>
          obtain ⟨ms, closed, h⟩ := ih _ (hlt cs (Nat.le_refl _)) cs rfl
          exact ⟨_, _, .char hc hletter h⟩
        | true =>
          obtain ⟨width, rest, rfl, hrest⟩ := exists_run c cs
          obtain ⟨ms, closed, h⟩ := ih _ (hlt rest (by simp)) rest rfl
          exact ⟨_, _, .run width hletter hrest h⟩

theorem reads_iff : Reads cs ms closed ↔ ms = fields (marks false cs).1 ∧ closed = (marks false cs).2 := by
  constructor
  · intro h
    exact ⟨h.fields_marks.1.symm, h.fields_marks.2.symm⟩
  · rintro ⟨rfl, rfl⟩
    obtain ⟨ms, closed, h⟩ := exists_reads cs
    rwa [h.fields_marks.1, h.fields_marks.2]

theorem reads_read (cs : List Char) : Reads cs (Run.marks (read cs).1) (read cs).2 := by
  rw [reads_iff, read]
  exact ⟨Run.marks_ofMarks _, rfl⟩

end MessageCatalog.FieldPattern
