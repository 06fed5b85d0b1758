import MessageCatalog.Proofs.Calendar.FieldReading
import MessageCatalog.Proofs.Traversal

namespace MessageCatalog.FieldPattern

open Text (Mark Run)

def standard (f : Field) : Field :=
  (standard? f).getD f

def IsApostrophes (cs : List Char) : Prop :=
  ∀ c ∈ cs, c = '\''

-- along the list, and not for every character that there is
instance (cs : List Char) : Decidable (IsApostrophes cs) :=
  List.decidableBAll (· = '\'') cs

def requoted (t : String) : String :=
  if IsApostrophes t.toList then t ++ "'" else t

def readBack : Run Field → Run Field
  | .text t => .text (requoted t)
  | .item f => .item (standard f)

def IsKnown (f : Field) : Prop :=
  f.letter = 'S' ∨ (standard? f).isSome = true

def behind (before : String) (rs : List (Run Field)) : List (Run Field) :=
  if before = "" then rs else .text before :: rs

def doubled (cs : List Char) : List Char :=
  cs.flatMap fun c => if c = '\'' then ['\'', '\''] else [c]

variable {f g : Field} {t before : String} {last : Option Char} {rs : List (Run Field)}
  {cs form rest : List Char}

theorem standard?_eq_some (h : standard? f = some g) :
    (g.letter = if f.letter = 'z' then 'O' else f.letter) ∧ f.letter ≠ 'O' ∧ f.letter ≠ 'S' ∧
      isLetter g.letter = true ∧ (0 < f.width → 0 < g.width) := by
  rw [standard?.eq_def] at h
  split at h
  case h_18 => cases h
  case h_17 hz =>
    cases h
    rw [hz]
    refine ⟨rfl, by decide, by decide, rfl, fun _ => ?_⟩
    dsimp only
    split <;> decide
  all_goals
    rename_i hletter
    cases h
    simp only [hletter]
    exact ⟨rfl, by decide, by decide, by decide, fun hw => by omega⟩

theorem standard_of_fraction (h : f.letter = 'S') : standard f = f := by
  simp [standard, standard?, h]

theorem standard_of_some (h : standard? f = some g) : standard f = g := by
  rw [standard, h, Option.getD_some]

theorem standardField_cases (h : standardField last before f = .ok form) :
    (f.letter = 'S' ∧ before = "." ∧ form = '.' :: List.replicate f.width 'S') ∨
      ∃ g, standard? f = some g ∧ form = quote before ++ List.replicate g.width g.letter := by
  rw [standardField] at h
  split at h
  case isTrue hs =>
    split at h
    case isTrue hp =>
      cases h
      exact .inl ⟨hs, hp.2, rfl⟩
    case isFalse => cases h
  case isFalse =>
    split at h
    case h_1 g hg =>
      cases h
      exact .inr ⟨g, hg, rfl⟩
    case h_2 => cases h

theorem isApostrophes_cons {c : Char} : IsApostrophes (c :: cs) ↔ c = '\'' ∧ IsApostrophes cs :=
  List.forall_mem_cons

theorem toList_requoted :
    (requoted t).toList = t.toList ++ if IsApostrophes t.toList then ['\''] else [] := by
  rw [requoted]
  split <;> simp

theorem requoted_ne_empty (t : String) : requoted t ≠ "" := by
  intro he
  have hempty := congrArg String.toList he
  rw [toList_requoted] at hempty
  obtain ⟨ht, hlast⟩ := List.append_eq_nil_iff.mp hempty
  have hall : IsApostrophes t.toList := by
    intro c hc
    rw [ht] at hc
    cases hc
  rw [if_pos hall] at hlast
  cases hlast

theorem marks_quotation_rest (h : rest.head? ≠ some '\'') :
    marks true (doubled cs ++ '\'' :: rest) = (marks false rest).map (cs.map Mark.char ++ ·) id := by
  induction cs with
  | nil => exact marks_apostrophe h
  | cons c cs ih =>
    by_cases hc : c = '\''
    · have hd : doubled (c :: cs) ++ '\'' :: rest = '\'' :: '\'' :: (doubled cs ++ '\'' :: rest) := by
        simp [doubled, hc]
      rw [hd, marks_doubled, ih, hc]
      rfl
    · have hd : doubled (c :: cs) ++ '\'' :: rest = c :: (doubled cs ++ '\'' :: rest) := by
        simp [doubled, hc]
      rw [hd, marks_char hc, ih, Bool.true_or, if_pos rfl]
      rfl

/-- The apostrophe that starts the quotation and those after it are read in pairs. Only a text of nothing
else keeps the first one from starting a quotation, and then the last two make a pair more. -/
theorem marks_quotation (h : rest.head? ≠ some '\'') (cs : List Char) :
    marks false ('\'' :: (doubled cs ++ '\'' :: rest)) =
      (marks false rest).map
        ((cs ++ if IsApostrophes cs then ['\''] else []).map Mark.char ++ ·) id := by
  induction cs with
  | nil => exact marks_doubled
  | cons c cs ih =>
    by_cases hc : c = '\''
    · have hd : doubled (c :: cs) ++ '\'' :: rest = '\'' :: '\'' :: (doubled cs ++ '\'' :: rest) := by
        simp [doubled, hc]
      rw [hd, marks_doubled, ih]
      simp only [isApostrophes_cons, hc, true_and]
      rfl
    · have hhead : (doubled (c :: cs) ++ '\'' :: rest).head? ≠ some '\'' := by simp [doubled, hc]
      rw [marks_apostrophe hhead, Bool.not_false, marks_quotation_rest h]
      simp [isApostrophes_cons, hc]

theorem marks_quote (ht : t ≠ "") (h : rest.head? ≠ some '\'') :
    marks false (quote t ++ rest) =
      (marks false rest).map ((requoted t).toList.map Mark.char ++ ·) id := by
  have hquote : quote t ++ rest = '\'' :: (doubled t.toList ++ '\'' :: rest) := by
    simp [quote, doubled, ht]
  rw [hquote, marks_quotation h, toList_requoted]

theorem behind_empty : behind "" rs = rs :=
  if_pos rfl

theorem behind_of_ne (h : before ≠ "") : behind before rs = .text before :: rs :=
  if_neg h

theorem head?_letters (h : isLetter g.letter = true) (hw : 0 < g.width) :
    (List.replicate g.width g.letter ++ rest).head? ≠ some '\'' := by
  obtain ⟨n, hn⟩ : ∃ n, g.width = n + 1 := ⟨g.width - 1, by omega⟩
  rw [hn, List.replicate_succ, List.cons_append, List.head?_cons, ne_eq, Option.some.injEq]
  exact ne_apostrophe_of_isLetter h

theorem marks_standardField {now later : List Char} (hw : 0 < f.width)
    (h : standardField last before f = .ok now) :
    marks false (now ++ later) =
      (marks false later).map (letters ((behind before [.item f]).map readBack) ++ ·) id := by
  obtain ⟨hs, rfl, rfl⟩ | ⟨g, hg, rfl⟩ := standardField_cases h
  · have hpoint : requoted "." = "." := by decide
    rw [List.cons_append, marks_char (by decide), marks_letters (by decide)]
    simp [behind, readBack, letters, hpoint, standard_of_fraction hs, hs, isLetter]
    rfl
  · obtain ⟨-, -, -, hletter, hwidth⟩ := standard?_eq_some hg
    have hletters : marks false (List.replicate g.width g.letter ++ later) = _ :=
      marks_letters hletter g.width
    rw [List.append_assoc]
    by_cases hb : before = ""
    · subst hb
      rw [behind_empty, quote, if_pos (by decide), List.nil_append, hletters]
      simp [readBack, letters, standard_of_some hg]
    · rw [behind_of_ne hb, marks_quote hb (head?_letters hletter (hwidth hw)), hletters]
      simp [readBack, letters, standard_of_some hg]
      rfl

theorem letters_append (rs ss : List (Run Field)) : letters (rs ++ ss) = letters rs ++ letters ss := by
  induction rs with
  | nil => rfl
  | cons r rest ih => cases r <;> simp [letters, ih]

theorem behind_item (before : String) (f : Field) (rs : List (Run Field)) :
    behind before (.item f :: rs) = behind before [.item f] ++ rs := by
  by_cases hb : before = "" <;> simp [behind, hb]

theorem normal_of_behind_item (h : Run.Normal (behind before (.item f :: rs))) : Run.Normal rs := by
  by_cases hb : before = ""
  · subst hb
    exact h
  · rw [behind_of_ne hb] at h
    exact h.2.2

theorem empty_of_behind_text (h : Run.Normal (behind before (.text t :: rs))) : before = "" := by
  by_cases hb : before = ""
  · exact hb
  · rw [behind_of_ne hb] at h
    exact absurd h.2.1 Bool.false_ne_true

theorem marks_standardRuns (hn : Run.Normal (behind before rs)) (hw : ∀ f ∈ Run.items rs, 0 < f.width)
    (h : standardRuns last before rs = .ok form) :
    marks false form = (letters ((behind before rs).map readBack), true) := by
  induction rs generalizing last before form with
  | nil =>
    cases h
    by_cases hb : before = ""
    · subst hb
      rfl
    · have hquote : marks false (quote before ++ []) = _ := marks_quote hb nofun
      rw [List.append_nil] at hquote
      rw [hquote, behind_of_ne hb]
      simp [marks, letters, readBack]
  | cons r rest ih =>
    cases r with
    | text t =>
      have hb := empty_of_behind_text hn
      subst hb
      rw [standardRuns, String.empty_append] at h
      rw [behind_empty] at hn ⊢
      have hbehind : behind t rest = .text t :: rest := behind_of_ne hn.1
      rw [← hbehind] at hn ⊢
      exact ih hn hw h
    | item f =>
      obtain ⟨now, hnow, h⟩ := Traversal.bind_eq_ok_iff.mp h
      obtain ⟨later, hlater, h⟩ := Traversal.bind_eq_ok_iff.mp h
      cases h
      obtain ⟨hf, hrest⟩ := List.forall_mem_cons.mp hw
      have hnormal : Run.Normal (behind "" rest) := normal_of_behind_item hn
      have hbehind := behind_item before f rest
      rw [marks_standardField hf hnow, ih hnormal hrest hlater, hbehind, List.map_append, letters_append]
      rfl

theorem isKnown_of_standardRuns (h : standardRuns last before rs = .ok form) :
    ∀ f ∈ Run.items rs, IsKnown f := by
  induction rs generalizing last before form with
  | nil => exact nofun
  | cons r rest ih =>
    cases r with
    | text t => exact ih h
    | item f =>
      obtain ⟨now, hnow, h⟩ := Traversal.bind_eq_ok_iff.mp h
      obtain ⟨later, hlater, -⟩ := Traversal.bind_eq_ok_iff.mp h
      refine List.forall_mem_cons.mpr ⟨?_, ih hlater⟩
      obtain ⟨hs, -, -⟩ | ⟨g, hg, -⟩ := standardField_cases hnow
      · exact .inl hs
      · exact .inr (hg ▸ rfl)

theorem standard_letter (h : IsKnown f) :
    ((standard f).letter = if f.letter = 'z' then 'O' else f.letter) ∧ f.letter ≠ 'O' := by
  rcases h with hs | hsome
  · rw [standard_of_fraction hs, hs]
    decide
  · obtain ⟨g, hg⟩ := Option.isSome_iff_exists.mp hsome
    obtain ⟨hletter, ho, -⟩ := standard?_eq_some hg
    exact ⟨standard_of_some hg ▸ hletter, ho⟩

theorem standard_letter_ne (hf : IsKnown f) (hg : IsKnown g) (h : g.letter ≠ f.letter) :
    (standard g).letter ≠ (standard f).letter := by
  obtain ⟨hf, hfo⟩ := standard_letter hf
  obtain ⟨hg, hgo⟩ := standard_letter hg
  rw [hf, hg]
  split
  case isTrue hgz =>
    rw [if_neg fun hfz => h (hgz.trans hfz.symm)]
    exact hfo.symm
  case isFalse =>
    split
    · exact hgo
    · exact h

theorem standard_width (hf : IsKnown f) (hw : 0 < f.width) : 0 < (standard f).width := by
  obtain hs | hsome := hf
  · rwa [standard_of_fraction hs]
  · obtain ⟨g, hg⟩ := Option.isSome_iff_exists.mp hsome
    rw [standard_of_some hg]
    exact (standard?_eq_some hg).2.2.2.2 hw

theorem head?_marks_readBack (h : (Run.marks (rs.map readBack)).head? = some (.item g)) :
    ∃ f, (Run.marks rs).head? = some (.item f) ∧ g = standard f := by
  match rs, h with
  | .item f :: rest, h =>
    cases h
    exact ⟨f, rfl, rfl⟩
  | .text t :: rest, h =>
    have hne : (requoted t).toList ≠ [] := fun he => requoted_ne_empty t (String.toList_eq_nil_iff.mp he)
    obtain ⟨c, cs, hcs⟩ := List.exists_cons_of_ne_nil hne
    rw [List.map_cons, readBack, Run.marks, hcs] at h
    cases h

theorem areSeparate_readBack (hk : ∀ f ∈ Run.items rs, IsKnown f) (h : AreSeparate (Run.marks rs)) :
    AreSeparate (Run.marks (rs.map readBack)) := by
  induction rs with
  | nil => trivial
  | cons r rest ih =>
    cases r with
    | text t => exact areSeparate_chars.mpr (ih hk (areSeparate_chars.mp h))
    | item f =>
      obtain ⟨hf, hrest⟩ := List.forall_mem_cons.mp hk
      obtain ⟨hw, hother, hseparate⟩ := h
      refine ⟨standard_width hf hw, fun g hg => ?_, ih hrest hseparate⟩
      obtain ⟨g', hg', rfl⟩ := head?_marks_readBack hg
      have hknown := hrest g' (Run.mem_marks.mp (List.mem_of_head? hg'))
      exact standard_letter_ne hf hknown (hother g' hg')

theorem normal_readBack (h : Run.Normal rs) : Run.Normal (rs.map readBack) := by
  induction rs with
  | nil => trivial
  | cons r rest ih =>
    cases r with
    | item f => exact ih h
    | text t =>
      obtain ⟨-, hhead, hnormal⟩ := h
      refine ⟨requoted_ne_empty t, ?_, ih hnormal⟩
      match rest, hhead with
      | [], _ => rfl
      | .item f :: rest, _ => rfl

theorem width_pos_of_areSeparate (h : AreSeparate (Run.marks rs)) : ∀ f ∈ Run.items rs, 0 < f.width := by
  induction rs with
  | nil => exact nofun
  | cons r rest ih =>
    cases r with
    | text t => exact ih (areSeparate_chars.mp h)
    | item f => exact List.forall_mem_cons.mpr ⟨h.1, ih h.2.2⟩

theorem standardize_eq_ok_iff :
    standardize cs = .ok form ↔ standardRuns none "" (read cs).1 = .ok form ∧ (read cs).2 = true := by
  rw [standardize, Traversal.bind_eq_ok_iff]
  constructor
  · rintro ⟨form', hform, h⟩
    split at h
    case isTrue hclosed =>
      cases h
      exact ⟨hform, hclosed⟩
    case isFalse => cases h
  · rintro ⟨hform, hclosed⟩
    exact ⟨form, hform, if_pos hclosed⟩

theorem read_standardize_eq (h : standardize cs = .ok form) :
    read form = ((read cs).1.map readBack, true) := by
  obtain ⟨hruns, -⟩ := standardize_eq_ok_iff.mp h
  have hseparate := areSeparate_read cs
  have hnormal : Run.Normal (behind "" (read cs).1) := normal_read cs
  have hmarks := marks_standardRuns hnormal (width_pos_of_areSeparate hseparate) hruns
  exact read_of_marks (normal_readBack (normal_read cs))
    (areSeparate_readBack (isKnown_of_standardRuns hruns) hseparate) hmarks

theorem requoted_eq_iff : requoted t = t ↔ ¬IsApostrophes t.toList := by
  rw [requoted]
  split
  case isTrue h =>
    refine iff_of_false (fun he => ?_) (not_not_intro h)
    have hlength := congrArg String.length he
    rw [String.length_append] at hlength
    exact absurd hlength (by simp)
  case isFalse h => exact iff_of_true rfl h

theorem map_readBack_eq_iff :
    rs.map readBack = rs.map (Run.map standard) ↔ ∀ t, .text t ∈ rs → ¬IsApostrophes t.toList := by
  induction rs with
  | nil => simp
  | cons r rest ih =>
    cases r with
    | item f => simp [readBack, Run.map, ih]
    | text t =>
      simp only [List.map_cons, readBack, Run.map, List.cons.injEq, Run.text.injEq, requoted_eq_iff, ih,
        List.mem_cons, or_imp, forall_and, forall_eq]

/-- The standard form is read as the fields in standard form. The texts between them are the same exactly
if none is of apostrophes alone; such a text gains one. -/
theorem read_standardize (cs form : List Char) (h : standardize cs = .ok form) :
    read form = ((read cs).1.map readBack, true) ∧
      (read form = ((read cs).1.map (Run.map standard), true) ↔
        ∀ t, .text t ∈ (read cs).1 → ¬IsApostrophes t.toList) := by
  have hread := read_standardize_eq h
  refine ⟨hread, ?_⟩
  rw [hread, ← map_readBack_eq_iff, Prod.mk.injEq]
  exact and_iff_left rfl

theorem read_standardize_oclock :
    standardize "hhh 'o''clock' ss.SSS'''zz'z".toList = .ok "hh' o''clock 'ss.SSS'''zz'O".toList ∧
      read "hh' o''clock 'ss.SSS'''zz'O".toList =
        ([.item ⟨'h', 2⟩, .text " o'clock ", .item ⟨'s', 2⟩, .text ".", .item ⟨'S', 3⟩, .text "'zz",
          .item ⟨'O', 1⟩], true) := by
  have hform : standardize "hhh 'o''clock' ss.SSS'''zz'z".toList =
      .ok "hh' o''clock 'ss.SSS'''zz'O".toList := by decide +kernel
  refine ⟨hform, (read_standardize _ _ hform).1.trans ?_⟩
  decide +kernel

theorem standardize_not_always_faithful :
    ¬∀ cs form, standardize cs = .ok form → read form = ((read cs).1.map (Run.map standard), true) := by
  intro h
  have hform : standardize "H''m".toList = .ok "H''''m".toList := by decide +kernel
  have hread := h _ _ hform
  revert hread
  decide +kernel

end MessageCatalog.FieldPattern
