import MessageCatalog.Proofs.Calendar.PatternGrammar

namespace MessageCatalog.FieldPattern

open Text (Mark Run)
open Traversal

def supported : List Char :=
  ['G', 'y', 'M', 'L', 'd', 'D', 'F', 'E', 'a', 'H', 'h', 'K', 'm', 's', 'z', 'Z', 'X', 'S']

/-- A fraction stands behind seconds and a point, with nothing else between the two runs. -/
def IsPlaced (before : List (Mark Field)) (f : Field) : Prop :=
  f.letter = 'S' → ∃ earlier width, before = earlier ++ [.item ⟨'s', width⟩, .char '.']

def IsAccepted (ms : List (Mark Field)) : Prop :=
  ∀ before f after, ms = before ++ .item f :: after → f.letter ∈ supported ∧ IsPlaced before f

inductive Offends (before : List (Mark Field)) (f : Field) : DatePatternProblem → Prop
  | unsupported (h : f.letter ∉ supported) : Offends before f (.unsupportedField f.letter)
  | misplaced (h : ¬IsPlaced before f) : Offends before f .misplacedFraction

def IsFirstProblem (ms : List (Mark Field)) (e : DatePatternProblem) : Prop :=
  ∃ before f after, ms = before ++ .item f :: after ∧ IsAccepted before ∧ Offends before f e

def widest : List (Char × Nat) :=
  [('G', 4), ('y', 4), ('M', 4), ('L', 4), ('d', 2), ('D', 3), ('F', 1), ('E', 4), ('a', 1), ('H', 2),
    ('h', 2), ('K', 2), ('m', 2), ('s', 2), ('Z', 1), ('X', 3)]

inductive IsCapped : Field → Field → Prop
  | fraction (width : Nat) : IsCapped ⟨'S', width⟩ ⟨'S', width⟩
  | zone (width : Nat) : IsCapped ⟨'z', width⟩ ⟨'O', if 4 ≤ width then 4 else 1⟩
  | letter {c : Char} {most : Nat} (width : Nat) (h : (c, most) ∈ widest) :
    IsCapped ⟨c, width⟩ ⟨c, min width most⟩

inductive Waits : List (Mark Field) → Option Char → String → Prop
  | start (t : String) : Waits (t.toList.map Mark.char) none t
  | behind (earlier : List (Mark Field)) (f : Field) (t : String) :
    Waits (earlier ++ .item f :: t.toList.map Mark.char) (some f.letter) t

variable {f g : Field} {before done : List (Mark Field)} {last : Option Char} {waiting : String}
  {rs : List (Run Field)} {e : DatePatternProblem} {cs form : List Char}

theorem isKnown_iff : IsKnown f ↔ f.letter ∈ supported := by
  constructor
  · rintro (h | h)
    · rw [h]
      decide
    · rw [standard?.eq_def] at h
      split at h
      case h_18 => cases h
      all_goals
        rename_i hletter
        rw [hletter]
        decide
  · have hall : ∀ c ∈ supported, IsKnown ⟨c, f.width⟩ := by simp [supported, IsKnown, standard?]
    exact hall f.letter

theorem isCapped_standard (h : IsKnown f) : IsCapped f (standard f) := by
  rcases h with hs | hsome
  · rw [standard_of_fraction hs]
    obtain ⟨c, width⟩ := f
    cases hs
    exact .fraction width
  · obtain ⟨g, hg⟩ := Option.isSome_iff_exists.mp hsome
    rw [standard_of_some hg]
    obtain ⟨c, width⟩ := f
    rw [standard?.eq_def] at hg
    split at hg
    case h_18 => cases hg
    case h_17 hz =>
      cases hz
      cases hg
      exact .zone width
    all_goals
      rename_i hletter
      cases hletter
      cases hg
      exact .letter width (by decide)

theorem chars_ne_around {after : List (Mark Field)} : cs.map Mark.char ≠ before ++ .item f :: after := by
  intro h
  have hmem : .item f ∈ cs.map Mark.char := by
    rw [h]
    exact List.mem_append_right _ List.mem_cons_self
  simp at hmem

theorem Offends.not_accepted (h : Offends before f e) : ¬(f.letter ∈ supported ∧ IsPlaced before f) := by
  rintro ⟨hletter, hplaced⟩
  cases h with
  | unsupported hnot => exact hnot hletter
  | misplaced hnot => exact hnot hplaced

theorem IsAccepted.chars (h : IsAccepted done) (cs : List Char) : IsAccepted (done ++ cs.map Mark.char) := by
  intro before f after heq
  rcases append_eq_around heq with ⟨between, hdone, -⟩ | ⟨between, -, hchars⟩
  · exact h before f between hdone
  · exact absurd hchars chars_ne_around

theorem IsAccepted.item (h : IsAccepted done) (hf : f.letter ∈ supported ∧ IsPlaced done f) :
    IsAccepted (done ++ [.item f]) := by
  intro before g after heq
  rcases append_eq_around heq with ⟨between, hdone, -⟩ | ⟨between, rfl, hlast⟩
  · exact h before g between hdone
  · cases between with
    | nil =>
      cases hlast
      rwa [List.append_nil]
    | cons m between => simp at hlast

theorem waits_nil : Waits [] none "" :=
  .start ""

theorem Waits.text (h : Waits done last waiting) (t : String) :
    Waits (done ++ t.toList.map Mark.char) last (waiting ++ t) := by
  cases h with
  | start waiting => simpa using Waits.start (waiting ++ t)
  | behind earlier f waiting => simpa using Waits.behind earlier f (waiting ++ t)

theorem waits_item (done : List (Mark Field)) (f : Field) : Waits (done ++ [.item f]) (some f.letter) "" := by
  simpa using Waits.behind done f ""

theorem last_run_unique {earlier earlier' : List (Mark Field)} {ds : List Char}
    (h : earlier ++ .item f :: cs.map Mark.char = earlier' ++ .item g :: ds.map Mark.char) :
    f = g ∧ cs = ds := by
  rcases append_eq_around h with ⟨between, -, hchars⟩ | ⟨between, -, hrun⟩
  · exact absurd hchars chars_ne_around
  · cases between with
    | nil =>
      obtain ⟨hitem, hchars⟩ := List.cons.inj hrun
      exact ⟨Mark.item.inj hitem, List.map_injective_iff.mpr (fun _ _ => Mark.char.inj) hchars⟩
    | cons m between => exact absurd (List.cons.inj hrun).2 chars_ne_around

theorem Waits.placed_iff (h : Waits done last waiting) (hf : f.letter = 'S') :
    (last = some 's' ∧ waiting = ".") ↔ IsPlaced done f := by
  constructor
  · rintro ⟨hlast, hwaiting⟩ -
    cases h with
    | start => cases hlast
    | behind earlier g =>
      obtain ⟨letter, width⟩ := g
      cases hlast
      exact ⟨earlier, width, by rw [hwaiting]; rfl⟩
  · intro hplaced
    obtain ⟨earlier, width, heq⟩ := hplaced hf
    cases h with
    | start => exact absurd heq chars_ne_around
    | behind earlier' g =>
      have hpoint : [.char '.'] = ['.'].map (Mark.char (α := Field)) := rfl
      rw [hpoint] at heq
      obtain ⟨rfl, hwaiting⟩ := last_run_unique heq
      exact ⟨rfl, String.toList_inj.mp hwaiting⟩

theorem standardField_eq_error_iff (h : Waits done last waiting) :
    standardField last waiting f = .error e ↔ Offends done f e := by
  rw [standardField]
  by_cases hs : f.letter = 'S'
  · have hletter : f.letter ∈ supported := by
      rw [hs]
      decide
    rw [if_pos hs]
    split
    case isTrue hplaced =>
      exact iff_of_false (by simp) fun ho => ho.not_accepted ⟨hletter, (h.placed_iff hs).mp hplaced⟩
    case isFalse hplaced =>
      rw [h.placed_iff hs] at hplaced
      constructor
      · rintro ⟨⟩
        exact .misplaced hplaced
      · rintro (hnot | -)
        · exact absurd hletter hnot
        · rfl
  · have hplaced : IsPlaced done f := fun h => absurd h hs
    rw [if_neg hs]
    split
    case h_1 g hg =>
      have hletter : f.letter ∈ supported := isKnown_iff.mp (.inr (hg ▸ rfl))
      exact iff_of_false (by simp) fun ho => ho.not_accepted ⟨hletter, hplaced⟩
    case h_2 hnone =>
      have hletter : f.letter ∉ supported := by
        rw [← isKnown_iff, IsKnown, hnone]
        simp [hs]
      constructor
      · rintro ⟨⟩
        exact .unsupported hletter
      · rintro (- | hnot)
        · rfl
        · exact absurd hplaced hnot

theorem standardField_accepts (h : Waits done last waiting) {now : List Char}
    (hf : standardField last waiting f = .ok now) : f.letter ∈ supported ∧ IsPlaced done f := by
  have hnot (e : DatePatternProblem) : ¬Offends done f e := by
    rw [← standardField_eq_error_iff h, hf]
    simp
  exact ⟨not_not.mp fun hletter => hnot _ (.unsupported hletter),
    not_not.mp fun hplaced => hnot _ (.misplaced hplaced)⟩

theorem isFirstProblem_item {after : List (Mark Field)} {e' : DatePatternProblem} (hd : IsAccepted done)
    (h : Offends done f e') : IsFirstProblem (done ++ .item f :: after) e ↔ Offends done f e := by
  constructor
  · rintro ⟨before, g, after', heq, hbefore, hoff⟩
    -- an earlier run is accepted, and a later one has the run that offends before it
    rcases append_eq_around heq with ⟨between, hdone, -⟩ | ⟨between, rfl, hrun⟩
    · exact absurd (hd before g between hdone) hoff.not_accepted
    · cases between with
      | nil =>
        cases hrun
        rwa [List.append_nil] at hoff
      | cons m between =>
        cases hrun
        exact absurd (hbefore done f between rfl) h.not_accepted
  · intro h
    exact ⟨done, f, after, rfl, hd, h⟩

theorem IsAccepted.not_isFirstProblem (h : IsAccepted done) : ¬IsFirstProblem done e := by
  rintro ⟨before, f, after, heq, -, hoff⟩
  exact hoff.not_accepted (h before f after heq)

theorem standardRuns_eq_error_iff (h : Waits done last waiting) (hd : IsAccepted done) :
    standardRuns last waiting rs = .error e ↔ IsFirstProblem (done ++ Run.marks rs) e := by
  induction rs generalizing done last waiting with
  | nil =>
    rw [standardRuns, Run.marks, List.append_nil]
    exact iff_of_false (by simp) hd.not_isFirstProblem
  | cons r rest ih =>
    cases r with
    | text t =>
      rw [standardRuns, ih (h.text t) (hd.chars _), Run.marks, List.append_assoc]
    | item f =>
      rw [standardRuns, bind_eq_error_iff]
      cases hnow : standardField last waiting f with
      | error e' =>
        have hoff := (standardField_eq_error_iff h).mp hnow
        rw [Run.marks, isFirstProblem_item hd hoff, ← standardField_eq_error_iff h, hnow]
        simp
      | ok now =>
        have hd' := hd.item (standardField_accepts h hnow)
        rw [Run.marks, List.append_cons, ← ih (waits_item done f) hd']
        cases standardRuns (some f.letter) "" rest <;> simp [bind, Except.bind, pure, Except.pure]

theorem standardRuns_accepts (h : Waits done last waiting) (hd : IsAccepted done)
    (hform : standardRuns last waiting rs = .ok form) : IsAccepted (done ++ Run.marks rs) := by
  induction rs generalizing done last waiting form with
  | nil => simpa [Run.marks] using hd
  | cons r rest ih =>
    cases r with
    | text t =>
      rw [Run.marks, ← List.append_assoc]
      exact ih (h.text t) (hd.chars _) hform
    | item f =>
      obtain ⟨now, hnow, hform⟩ := bind_eq_ok_iff.mp hform
      obtain ⟨later, hlater, -⟩ := bind_eq_ok_iff.mp hform
      rw [Run.marks, List.append_cons]
      exact ih (waits_item done f) (hd.item (standardField_accepts h hnow)) hlater

theorem isAccepted_nil : IsAccepted [] := by
  intro before f after h
  cases before <;> cases h

theorem exists_standardRuns_iff : (∃ form, standardRuns none "" rs = .ok form) ↔ IsAccepted (Run.marks rs) := by
  constructor
  · rintro ⟨form, h⟩
    exact standardRuns_accepts waits_nil isAccepted_nil h
  · intro h
    rw [exists_eq_ok_iff]
    intro e he
    exact h.not_isFirstProblem ((standardRuns_eq_error_iff waits_nil isAccepted_nil).mp he)

theorem standardize_eq_error_iff :
    standardize cs = .error e ↔
      standardRuns none "" (read cs).1 = .error e ∨
        (∃ form, standardRuns none "" (read cs).1 = .ok form) ∧ (read cs).2 = false ∧ e = .unterminatedQuote := by
  rw [standardize, bind_eq_error_iff]
  cases (read cs).2 <;> simp [pure, Except.pure, eq_comm]

theorem items_readBack (rs : List (Run Field)) : Run.items (rs.map readBack) = (Run.items rs).map standard := by
  induction rs with
  | nil => rfl
  | cons r rest ih => cases r <;> simp [readBack, Run.items, ih]

theorem standardize_accepts (cs : List Char) :
    ∃ ms closed,
      (∀ ms' closed', Reads cs ms' closed' ↔ ms' = ms ∧ closed' = closed) ∧
      ((∃ form, standardize cs = .ok form) ↔ IsAccepted ms ∧ closed = true) ∧
      (∀ e, standardize cs = .error e ↔
        IsFirstProblem ms e ∨ IsAccepted ms ∧ closed = false ∧ e = .unterminatedQuote) ∧
      ∀ form, standardize cs = .ok form →
        ∃ ms', Reads form ms' true ∧
          List.Forall₂ IsCapped (ms.filterMap Mark.item?) (ms'.filterMap Mark.item?) := by
  obtain ⟨hms, hclosed⟩ := reads_iff.mp (reads_read cs)
  refine ⟨Run.marks (read cs).1, (read cs).2, ?_, ?_, ?_, ?_⟩
  · intro ms' closed'
    rw [reads_iff, hms, hclosed]
  · simp only [standardize_eq_ok_iff, exists_and_right, exists_standardRuns_iff]
  · intro e
    rw [standardize_eq_error_iff, standardRuns_eq_error_iff waits_nil isAccepted_nil, exists_standardRuns_iff,
      List.nil_append]
  · intro form hform
    have hread := reads_read form
    rw [read_standardize_eq hform] at hread
    refine ⟨_, hread, ?_⟩
    rw [← Run.items_eq, ← Run.items_eq, items_readBack, List.forall₂_map_right_iff, List.forall₂_same]
    intro f hf
    have hknown := isKnown_of_standardRuns (standardize_eq_ok_iff.mp hform).1
    exact isCapped_standard (hknown f hf)

example : standardize "ss'.'SSS.SSS".toList = .error .misplacedFraction := by rfl

end MessageCatalog.FieldPattern
