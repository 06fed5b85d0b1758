import MessageCatalog.Proofs.Message.Concatenation
import MessageCatalog.Proofs.Message.Shape

/-!
Where a message pattern fails. A placeholder that does not compile is known at the brace that ends it: every
shorter beginning of the pattern could still be completed, and no later text mends it.
-/

namespace MessageCatalog.MessagePattern

open Text (Mark Run)
open Traversal

def Alike (a b : List Char) : Prop :=
  (a.head? = some '\'' ↔ b.head? = some '\'') ∧ (a.head? = some '%' ↔ b.head? = some '%')

variable {s s' last : PatternScan} {a b cs rest later : List Char} {ms marks : List (Mark PlaceholderTexts)}
  {part : PlaceholderPart} {t : PlaceholderTexts} {e : PatternProblem} {l : Locale}

theorem Alike.symm (h : Alike a b) : Alike b a :=
  ⟨h.1.symm, h.2.symm⟩

theorem alike_append_of_ne_nil (h : a ≠ []) (b : List Char) : Alike (a ++ b) a := by
  obtain ⟨c, cs, rfl⟩ := List.exists_cons_of_ne_nil h
  exact ⟨Iff.rfl, Iff.rfl⟩

theorem alike_append_close (a b : List Char) : Alike (a ++ '\x7d' :: b) a := by
  cases a with
  | nil => simp [Alike]
  | cons c cs => exact ⟨Iff.rfl, Iff.rfl⟩

theorem ScanStep.exists_read (h : ScanStep s cs ms s' rest) :
    ∃ a, cs = a ++ rest ∧ ∀ b, Alike b rest → ScanStep s (a ++ b) ms s' b := by
  cases h with
  | doubled quoted => exact ⟨['\'', '\''], rfl, fun b _ => .doubled quoted b⟩
  | apostrophe quoted h => exact ⟨['\''], rfl, fun b hb => .apostrophe quoted (mt hb.1.mp h)⟩
  | brace h => exact ⟨['\x7b'], rfl, fun b hb => .brace (mt hb.2.mp h)⟩
  | @char quoted c _ hc ho => exact ⟨[c], rfl, fun b hb => .char hc fun hopen => (ho hopen).imp_right hb.2.mpr⟩
  | turn part t depth quoted => exact ⟨['\''], rfl, fun b _ => .turn part t depth quoted b⟩
  | @keep _ _ _ _ _ c hc h => exact ⟨[c], rfl, fun b _ => .keep hc h b⟩
  | @drop _ _ _ c depth h => exact ⟨[c], rfl, fun b _ => .drop depth h b⟩
  | close part t => exact ⟨['\x7d'], rfl, fun b _ => .close part t b⟩

theorem ScanStep.append_or_end (h : ScanStep s cs ms s' rest) (b : List Char) :
    ScanStep s (cs ++ b) ms s' (rest ++ b) ∨ rest = [] ∧ ms = [] := by
  by_cases hrest : rest = []
  · -- at the end an apostrophe may be the first of two, and a brace may get a percent sign
    cases h with
    | apostrophe => exact .inr ⟨hrest, rfl⟩
    | brace => exact .inr ⟨hrest, rfl⟩
    | char hc ho =>
      refine .inl (.char hc fun hopen => .inl ?_)
      rw [hrest] at ho
      simpa using ho hopen
    | doubled quoted => exact .inl (.doubled quoted _)
    | turn part t depth quoted => exact .inl (.turn part t depth quoted _)
    | keep hc h => exact .inl (.keep hc h _)
    | drop depth h => exact .inl (.drop depth h _)
    | close part t => exact .inl (.close part t _)
  · obtain ⟨a, rfl, hread⟩ := h.exists_read
    rw [List.append_assoc]
    exact .inl (hread (rest ++ b) (alike_append_of_ne_nil hrest b))

theorem ScanRun.marks_of_nil (h : ScanRun s [] ms last) : ms = [] := by
  have hscan := h.scan_eq
  rw [scan] at hscan
  cases hscan
  rfl

theorem ScanRun.marks_append (h : ScanRun s cs ms last) (b : List Char) : ms <+: (scan s (cs ++ b)).1 := by
  induction h with
  | nil => exact List.nil_prefix
  | step h hrest ih =>
    rcases h.append_or_end b with hstep | ⟨rfl, rfl⟩
    · rw [hstep.scan_eq]
      exact List.prefix_append_right_inj _ |>.mpr ih
    · rw [hrest.marks_of_nil]
      exact List.nil_prefix

theorem ScanStep.eq_of_item {between : List (Mark PlaceholderTexts)} (h : ScanStep s cs marks s' rest)
    (hmarks : marks = ms ++ .item t :: between) :
    ms = [] ∧ ∃ part, s = .placeholder part t 0 false ∧ cs = '\x7d' :: rest := by
  cases h with
  | close part t' =>
    cases ms with
    | nil =>
      cases hmarks
      exact ⟨rfl, part, rfl, rfl⟩
    | cons m ms => simp at hmarks
  | doubled | char => cases ms <;> simp at hmarks
  | _ => cases ms <;> cases hmarks

theorem ScanRun.exists_close (h : ScanRun s cs marks last) {ms' : List (Mark PlaceholderTexts)}
    (hmarks : marks = ms ++ .item t :: ms') :
    ∃ before part after, cs = before ++ '\x7d' :: after ∧
      ScanRun s before ms (.placeholder part t 0 false) := by
  induction h generalizing ms with
  | nil => cases ms <;> cases hmarks
  | @step s s' last cs rest now later h hrest ih =>
    -- the placeholder is put down in this step, or in a later one
    rcases append_eq_around hmarks with ⟨between, hnow, -⟩ | ⟨between, rfl, hlater⟩
    · obtain ⟨rfl, part, rfl, hclose⟩ := h.eq_of_item hnow
      exact ⟨[], part, rest, hclose, .nil _⟩
    · obtain ⟨read, rfl, hread⟩ := h.exists_read
      obtain ⟨before, part, after, rfl, hrun⟩ := ih hlater
      refine ⟨read ++ before, part, after, (List.append_assoc ..).symm, ?_⟩
      exact .step (hread before (alike_append_close before after).symm) hrun

theorem ScanRun.append_close (h : ScanRun s cs ms (.placeholder part t 0 false)) (b : List Char) :
    (scan s (cs ++ '\x7d' :: b)).1 = ms ++ .item t :: (scan (.text false) b).1 := by
  generalize hend : PatternScan.placeholder part t 0 false = last at h
  induction h with
  | nil s =>
    subst hend
    rw [List.nil_append, scan_placeholder_end]
    rfl
  | @step s s' last cs rest now later h hrest ih =>
    obtain ⟨read, rfl, hread⟩ := h.exists_read
    rw [List.append_assoc, (hread _ (alike_append_close rest b)).scan_eq, List.append_assoc, ← ih hend]
    rfl

def EndsIn (e : PatternProblem) (cs : List Char) : Prop :=
  ∃ before part t, cs = before ++ ['\x7d'] ∧
    (scan (.text false) before).2 = .placeholder part t 0 false ∧ t.compile = .error e

/-- A beginning of a pattern that no later text mends, when each shorter one can be completed. -/
structure IsLeastFailure (source : String) (l : Locale) (e : PatternProblem) (q : String) : Prop where
  beginning : q.toList <+: source.toList
  shorter : ∀ p, p.toList <+: q.toList → p ≠ q →
    (∃ m, compile p l = .ok m) ∨ compile p l = .error .unmatchedBraces
  forever : ∀ later, compile (q ++ later) l = .error e

variable {source p q : String}

theorem IsLeastFailure.eq_of_beginning (hp : IsLeastFailure source l e p) (hq : IsLeastFailure source l e q)
    (he : e ≠ .unmatchedBraces) (h : p.toList <+: q.toList) : p = q := by
  by_contra hne
  have hfail : compile p l = .error e := by simpa using hp.forever ""
  rcases hq.shorter p h hne with ⟨m, hm⟩ | hm
  · rw [hfail] at hm
    cases hm
  · rw [hfail] at hm
    exact he (Except.error.inj hm)

theorem IsLeastFailure.unique (hp : IsLeastFailure source l e p) (hq : IsLeastFailure source l e q)
    (he : e ≠ .unmatchedBraces) : p = q := by
  rcases List.prefix_or_prefix_of_prefix hp.beginning hq.beginning with h | h
  · exact hp.eq_of_beginning hq he h
  · exact (hq.eq_of_beginning hp he h).symm

theorem compile_of_marks (hmarks : (scan (.text false) source.toList).1 <+: marks)
    (hcompile : ∀ m ∈ marks, ∀ e, compileMark m ≠ .error e) :
    (∃ m, compile source l = .ok m) ∨ compile source l = .error .unmatchedBraces := by
  cases h : compile source l with
  | ok m => exact .inl ⟨m, rfl⟩
  | error e =>
    rcases segmentsOf_eq_error_iff.mp (compile_eq_error_iff.mp h) with hmap | ⟨-, -, rfl⟩
    · obtain ⟨before, m, after, heq, -, hm⟩ := mapM_eq_error_iff.mp hmap
      exact absurd hm (hcompile m (hmarks.subset (by simp [heq])) e)
    · exact .inr rfl

theorem exists_isLeastFailure (h : compile source l = .error e) (he : e ≠ .unmatchedBraces) :
    ∃ q, EndsIn e q.toList ∧ IsLeastFailure source l e q := by
  have hmap : (scan (.text false) source.toList).1.mapM compileMark = .error e := by
    rcases segmentsOf_eq_error_iff.mp (compile_eq_error_iff.mp h) with hmap | ⟨-, -, hunmatched⟩
    · exact hmap
    · exact absurd hunmatched he
  obtain ⟨marks, m, others, hmarks, hbefore, hm⟩ := mapM_eq_error_iff.mp hmap
  obtain ⟨t, rfl, ht⟩ := compileMark_eq_error hm
  obtain ⟨before, part, after, hsource, hrun⟩ := (scanRun_scan _ _).exists_close hmarks
  have hscan := hrun.scan_eq
  refine ⟨String.ofList (before ++ ['\x7d']), ?_, ?_, ?_, ?_⟩
  · refine ⟨before, part, t, String.toList_ofList, ?_, ht⟩
    rw [hscan]
  · rw [String.toList_ofList, hsource]
    exact ⟨after, by simp⟩
  · intro p hp hne
    rw [String.toList_ofList] at hp
    rcases List.prefix_concat_iff.mp hp with heq | ⟨later, hlater⟩
    · exact absurd (String.toList_inj.mp (heq.trans String.toList_ofList.symm)) hne
    · have hbeginning := (scanRun_scan (.text false) p.toList).marks_append later
      rw [hlater, hscan] at hbeginning
      exact compile_of_marks hbeginning hbefore
  · intro later
    rw [compile_eq_error_iff, String.toList_append, String.toList_ofList, List.append_assoc]
    refine segmentsOf_eq_error_iff.mpr (.inl ?_)
    rw [List.singleton_append, hrun.append_close]
    exact mapM_eq_error_iff.mpr ⟨marks, .item t, _, rfl, hbefore, hm⟩

theorem compile_fails_leftmost (source : String) (l : Locale) :
    (∀ e, compile source l = .error e → e ≠ .unmatchedBraces →
      ∃ q, EndsIn e q.toList ∧ IsLeastFailure source l e q ∧ ∀ p, IsLeastFailure source l e p → p = q) ∧
      (compile source l = .error .unmatchedBraces → ∀ p e, p.toList <+: source.toList →
        compile p l = .error e → e = .unmatchedBraces) := by
  constructor
  · intro e h he
    obtain ⟨q, hend, hq⟩ := exists_isLeastFailure h he
    exact ⟨q, hend, hq, fun p hp => hp.unique hq he⟩
  · intro h p e hp hpe
    by_contra he
    obtain ⟨q, -, hq⟩ := exists_isLeastFailure hpe he
    obtain ⟨later, hlater⟩ := hq.beginning.trans hp
    have hsource : q ++ String.ofList later = source := by
      rw [← String.toList_inj, String.toList_append, String.toList_ofList, hlater]
    have hforever := hq.forever (String.ofList later)
    rw [hsource, h] at hforever
    exact he (Except.error.inj hforever).symm

theorem compile_fails_leftmost_negative :
    compile "it''s \x7b0\x7d, \x7b-1\x7d, \x7bx\x7d, \x7b" .germany = .error (.negativeIndex (-1)) ∧
      PatternProblem.negativeIndex (-1) ≠ .unmatchedBraces ∧
      ∃ q, EndsIn (.negativeIndex (-1)) q.toList ∧
        IsLeastFailure "it''s \x7b0\x7d, \x7b-1\x7d, \x7bx\x7d, \x7b" .germany (.negativeIndex (-1)) q := by
  have hfail : compile "it''s \x7b0\x7d, \x7b-1\x7d, \x7bx\x7d, \x7b" .germany =
      .error (.negativeIndex (-1)) := by decide +kernel
  obtain ⟨q, hend, hq, -⟩ := (compile_fails_leftmost _ .germany).1 _ hfail nofun
  exact ⟨hfail, nofun, q, hend, hq⟩

end MessageCatalog.MessagePattern
