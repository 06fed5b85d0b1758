import MessageCatalog.Proofs.Message.Steps
import MessageCatalog.Proofs.Message.Unquoted
import MessageCatalog.Proofs.Text.Runs

namespace MessageCatalog

open Text (Mark Run)
open Traversal

namespace PlaceholderTexts

structure IsPlain (t : PlaceholderTexts) : Prop where
  keyword : '\'' ∉ t.keyword
  modifier : '\'' ∉ t.modifier

variable {t : PlaceholderTexts} {c : Char} {q : Placeholder} {problem : PatternProblem} {index : Nat}

theorem isPlain_empty : empty.IsPlain :=
  ⟨List.not_mem_nil, List.not_mem_nil⟩

theorem IsPlain.add (h : t.IsPlain) (hc : c ≠ '\'') (part : PlaceholderPart) : (t.add c part).IsPlain := by
  cases part with
  | index => exact ⟨h.keyword, h.modifier⟩
  | keyword => exact ⟨List.not_mem_cons_of_ne_of_not_mem hc.symm h.keyword, h.modifier⟩
  | modifier => exact ⟨h.keyword, List.not_mem_cons_of_ne_of_not_mem hc.symm h.modifier⟩

theorem lt_of_readIndex {cs : List Char} (h : readIndex cs = .ok index) : index < 2 ^ 63 := by
  rw [readIndex] at h
  split at h
  case h_1 => cases h
  case h_2 n _ =>
    split at h
    case isTrue => cases h
    case isFalse hn =>
      cases h
      have hlt := Int64.toInt_lt n
      omega

theorem readIndex_eq_error {cs : List Char} (h : readIndex cs = .error problem) :
    problem.carried? = none ∧ ¬problem.IsUnterminated := by
  rw [readIndex] at h
  split at h
  case h_1 =>
    cases h
    exact ⟨rfl, id⟩
  case h_2 =>
    split at h
    case isTrue =>
      cases h
      exact ⟨rfl, id⟩
    case isFalse => cases h

theorem shape_of_compile (ht : t.IsPlain) (h : t.compile = .ok q) : q.index < 2 ^ 63 ∧
    ∃ keyword modifier, '\'' ∉ keyword.toList ∧ '\'' ∉ modifier.toList ∧
      ArgumentFormat.ofParts keyword modifier = .ok q.format := by
  obtain ⟨index, hindex, h⟩ := bind_eq_ok_iff.mp h
  obtain ⟨format, hformat, h⟩ := bind_eq_ok_iff.mp h
  cases h
  refine ⟨lt_of_readIndex hindex, _, _, ?_, ?_, hformat⟩
  · simpa using ht.keyword
  · simpa using ht.modifier

theorem problem_of_compile (ht : t.IsPlain) (h : t.compile = .error problem) :
    (∀ text, problem.carried? = some text → '\'' ∉ text.toList) ∧ ¬problem.IsUnterminated := by
  rcases bind_eq_error_iff.mp h with hindex | ⟨index, -, h⟩
  · obtain ⟨hnone, hterminated⟩ := readIndex_eq_error hindex
    refine ⟨fun text htext => ?_, hterminated⟩
    rw [hnone] at htext
    cases htext
  rcases bind_eq_error_iff.mp h with hformat | ⟨format, -, h⟩
  · have hmodifier : '\'' ∉ (String.ofList t.modifier.reverse).toList := by simpa using ht.modifier
    refine ⟨fun text htext => ?_, ArgumentFormat.not_unterminated_of_ofParts hmodifier hformat⟩
    rcases ArgumentFormat.carried_of_ofParts hformat with hcarried | hcarried
    · rw [hcarried] at htext
      cases htext
      simpa using ht.keyword
    · rw [hcarried] at htext
      cases htext
      exact hmodifier
  · cases h

end PlaceholderTexts

namespace MessagePattern

def IsPlainScan : PatternScan → Prop
  | .text _ => True
  | .placeholder _ t _ _ => t.IsPlain

variable {s s' last : PatternScan} {cs rest : List Char} {ms : List (Mark PlaceholderTexts)}
  {t : PlaceholderTexts}

theorem ScanStep.isPlain (h : ScanStep s cs ms s' rest) (hs : IsPlainScan s) :
    (∀ t, .item t ∈ ms → t.IsPlain) ∧ IsPlainScan s' := by
  cases h with
  | doubled => exact ⟨by simp, trivial⟩
  | apostrophe => exact ⟨nofun, trivial⟩
  | brace => exact ⟨nofun, PlaceholderTexts.isPlain_empty⟩
  | char => exact ⟨by simp, trivial⟩
  | turn => exact ⟨nofun, hs⟩
  | keep hc => exact ⟨nofun, PlaceholderTexts.IsPlain.add hs hc _⟩
  | drop => exact ⟨nofun, hs⟩
  | close part t =>
    refine ⟨fun t' ht => ?_, trivial⟩
    cases List.mem_singleton.mp ht
    exact hs

theorem ScanRun.isPlain (h : ScanRun s cs ms last) (hs : IsPlainScan s) (t : PlaceholderTexts)
    (ht : .item t ∈ ms) : t.IsPlain := by
  induction h with
  | nil => cases ht
  | step h _ ih =>
    obtain ⟨hms, hs'⟩ := h.isPlain hs
    rcases List.mem_append.mp ht with ht | ht
    · exact hms t ht
    · exact ih hs' ht

theorem isPlain_of_mem_scan (h : .item t ∈ (scan (.text false) cs).1) : t.IsPlain :=
  (scanRun_scan (.text false) cs).isPlain trivial t h

/-- No text is empty and no two stand side by side; every placeholder has an index of 63 bits, and a format
that its type and its modifier name without an apostrophe. -/
structure IsShaped (p : MessagePattern) : Prop where
  runs : Run.Normal p.segments
  placeholders : ∀ q ∈ p.placeholders, q.index < 2 ^ 63 ∧
    ∃ keyword modifier, '\'' ∉ keyword.toList ∧ '\'' ∉ modifier.toList ∧ IsUnquoted modifier ∧
      ArgumentFormat.ofParts keyword modifier = .ok q.format

theorem compileMark_eq_ok_item {m : Mark PlaceholderTexts} {q : Placeholder}
    (h : compileMark m = .ok (.item q)) : ∃ t, m = .item t ∧ t.compile = .ok q := by
  cases m with
  | char c => cases h
  | item t =>
    obtain ⟨q', hq', heq⟩ := map_eq_ok_iff.mp h
    cases heq
    exact ⟨t, rfl, hq'⟩

theorem compileMark_eq_error {m : Mark PlaceholderTexts} {problem : PatternProblem}
    (h : compileMark m = .error problem) : ∃ t, m = .item t ∧ t.compile = .error problem := by
  cases m with
  | char c => cases h
  | item t => exact ⟨t, rfl, map_eq_error_iff.mp h⟩

theorem isShaped_of_compile {source : String} {l : Locale} {p : MessagePattern}
    (h : compile source l = .ok p) : p.IsShaped := by
  obtain ⟨segments, hsegments, rfl⟩ := compile_eq_ok_iff.mp h
  obtain ⟨marks, hmarks, -, rfl⟩ := segmentsOf_eq_ok_iff.mp hsegments
  refine ⟨Run.normal_ofMarks marks, fun q hq => ?_⟩
  rw [placeholders, ← Run.mem_marks, Run.marks_ofMarks] at hq
  obtain ⟨m, hm, hcompile⟩ := exists_of_mem_mapM hmarks hq
  obtain ⟨t, rfl, ht⟩ := compileMark_eq_ok_item hcompile
  obtain ⟨hindex, keyword, modifier, hkeyword, hmodifier, hformat⟩ :=
    PlaceholderTexts.shape_of_compile (isPlain_of_mem_scan hm) ht
  exact ⟨hindex, keyword, modifier, hkeyword, hmodifier, isUnquoted_of_not_mem hmodifier, hformat⟩

theorem problem_of_compile {source : String} {l : Locale} {problem : PatternProblem}
    (h : compile source l = .error problem) :
    (∀ text, problem.carried? = some text → '\'' ∉ text.toList) ∧ ¬problem.IsUnterminated := by
  rcases segmentsOf_eq_error_iff.mp (compile_eq_error_iff.mp h) with hmarks | ⟨-, -, rfl⟩
  · obtain ⟨before, m, after, hscan, -, hm⟩ := mapM_eq_error_iff.mp hmarks
    obtain ⟨t, rfl, ht⟩ := compileMark_eq_error hm
    have hmem : .item t ∈ (scan (.text false) source.toList).1 := by simp [hscan]
    exact PlaceholderTexts.problem_of_compile (isPlain_of_mem_scan hmem) ht
  · exact ⟨nofun, id⟩

theorem compile_shape (source : String) (l : Locale) :
    (∀ p, compile source l = .ok p → p.IsShaped) ∧
      ∀ problem, compile source l = .error problem →
        (∀ text, problem.carried? = some text → '\'' ∉ text.toList) ∧ ¬problem.IsUnterminated :=
  ⟨fun _ => isShaped_of_compile, fun _ => problem_of_compile⟩

end MessagePattern

end MessageCatalog
