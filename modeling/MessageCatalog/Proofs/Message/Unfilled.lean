import MessageCatalog.Proofs.Message.Concatenation
import MessageCatalog.Proofs.Message.PrintedPattern
import MessageCatalog.Proofs.Message.Shape

namespace MessageCatalog

open Text (Mark Run)
open Traversal

def PatternScan.isQuoted : PatternScan → Bool
  | .text quoted => quoted
  | .placeholder _ _ _ quoted => quoted

def Placeholder.untyped (q : Placeholder) : Placeholder :=
  ⟨q.index, .untyped⟩

namespace MessagePattern

def IsVerbatim {α : Type} : List (Mark α) → Prop
  | [] => True
  | .char c :: ms => c ≠ '\'' ∧ (c = '\x7b' → ms.head? = some (.char '%')) ∧ IsVerbatim ms
  | .item _ :: ms => IsVerbatim ms

def spell : Mark Placeholder → List Char
  | .char c => [c]
  | .item q => '\x7b' :: (Text.numeral 1 q.index ++ ['\x7d'])

variable {s s' last : PatternScan} {cs rest : List Char} {ms : List (Mark PlaceholderTexts)}
  {marks : List (Mark Placeholder)} {l : Locale}

theorem ScanStep.isQuoted (h : ScanStep s cs ms s' rest) (hs : s.isQuoted = false) (hcs : '\'' ∉ cs) :
    s'.isQuoted = false := by
  cases h with
  | doubled | apostrophe | turn => exact absurd List.mem_cons_self hcs
  | brace | drop | close => rfl
  | char | keep => exact hs

theorem ScanRun.head?_of_percent (h : ScanRun (.text false) ('%' :: cs) ms last) :
    ms.head? = some (.char '%') := by
  have hscan := h.scan_eq
  rw [scan_text_char (by decide) fun hopen => absurd hopen (by decide)] at hscan
  obtain ⟨rfl, -⟩ := Prod.mk.inj hscan
  rfl

theorem ScanRun.isVerbatim (h : ScanRun s cs ms last) (hs : s.isQuoted = false) (hcs : '\'' ∉ cs) :
    IsVerbatim ms := by
  induction h with
  | nil => trivial
  | step h hrest ih =>
    have hlater := ih (h.isQuoted hs hcs) fun hc => hcs (h.suffix.subset hc)
    cases h with
    | doubled | apostrophe | turn => exact absurd List.mem_cons_self hcs
    | brace | keep | drop | close => exact hlater
    | @char quoted c rest hc ho =>
      obtain rfl : quoted = false := hs
      refine ⟨hc, fun hopen => ?_, hlater⟩
      obtain ⟨later, rfl⟩ := List.head?_eq_some_iff.mp ((ho hopen).resolve_left Bool.false_ne_true)
      exact hrest.head?_of_percent

theorem scan_spell (h : IsVerbatim marks) :
    scan (.text false) (marks.flatMap spell) =
      (marks.map (Mark.map fun q => ⟨(Text.numeral 1 q.index).reverse, [], []⟩), .text false) := by
  induction marks with
  | nil => rfl
  | cons m marks ih =>
    rw [List.flatMap_cons]
    cases m with
    | char c =>
      obtain ⟨hc, hopen, hmarks⟩ := h
      have hpercent : c = '\x7b' → (marks.flatMap spell).head? = some '%' := by
        intro hbrace
        obtain ⟨later, rfl⟩ := List.head?_eq_some_iff.mp (hopen hbrace)
        rfl
      rw [spell, List.singleton_append, scan_text_char hc fun hbrace => .inr (hpercent hbrace), ih hmarks]
      rfl
    | item q =>
      have hspell : spell (.item q) ++ marks.flatMap spell =
          '\x7b' :: (Text.numeral 1 q.index ++ '\x7d' :: marks.flatMap spell) := by simp [spell]
      rw [hspell, scan_brace_numeral, scan_placeholder_end, ih h, PlaceholderTexts.addAll_index]
      simp [PlaceholderTexts.empty, Mark.map]

theorem write_none_ofMarks (source : String) (l : Locale) (marks : List (Mark Placeholder)) :
    write ⟨source, l, Run.ofMarks marks⟩ none = .ok (String.ofList (marks.flatMap spell)) := by
  have hmark : ∀ m ∈ marks, writeMark (writePlaceholder l none) m = .ok (String.ofList (spell m)) := by
    intro m _
    cases m with
    | char c => rw [writeMark, spell, String.singleton_eq_ofList]
    | item q => simp [writeMark, writePlaceholder, spell, Text.natText, ← String.toList_inj]
  have hjoin : String.join (marks.map fun m => String.ofList (spell m)) =
      String.ofList (marks.flatMap spell) := by
    simp [← String.toList_inj, String.toList_join, List.flatMap_map]
  rw [write, writeSegments_ofMarks, mapM_ok hmark, Except.map, hjoin]

theorem isVerbatim_of_compileMark (h : List.Forall₂ (fun m n => compileMark m = .ok n) ms marks)
    (hms : IsVerbatim ms) : IsVerbatim marks := by
  induction h with
  | nil => trivial
  | @cons m n ms marks hm hrest ih =>
    cases m with
    | char c =>
      cases hm
      obtain ⟨hc, hopen, hms⟩ := hms
      refine ⟨hc, fun hbrace => ?_, ih hms⟩
      obtain ⟨later, rfl⟩ := List.head?_eq_some_iff.mp (hopen hbrace)
      obtain ⟨n, _, hn, -, rfl⟩ := List.forall₂_cons_left_iff.mp hrest
      cases hn
      rfl
    | item t =>
      obtain ⟨q, -, rfl⟩ := map_eq_ok_iff.mp hm
      exact ih hms

theorem compile_index {n : Nat} (hn : n < 2 ^ 63) :
    PlaceholderTexts.compile ⟨(Text.numeral 1 n).reverse, [], []⟩ = .ok ⟨n, .untyped⟩ := by
  rw [PlaceholderTexts.compile, List.reverse_reverse, PrintedPlaceholder.readIndex_numeral hn]
  rfl

theorem segmentsOf_spell (h : IsVerbatim marks) (hindex : ∀ q, .item q ∈ marks → q.index < 2 ^ 63) :
    segmentsOf (marks.flatMap spell) = .ok ((Run.ofMarks marks).map (Run.map Placeholder.untyped)) := by
  refine segmentsOf_eq_ok_iff.mpr ⟨marks.map (Mark.map Placeholder.untyped), ?_, ?_, ?_⟩
  · rw [scan_spell h, List.mapM_map]
    apply mapM_ok
    intro m hm
    cases m with
    | char c => rfl
    | item q => exact map_eq_ok_iff.mpr ⟨_, compile_index (hindex q hm), rfl⟩
  · exact ⟨false, by rw [scan_spell h]⟩
  · exact (Run.ofMarks_map Placeholder.untyped marks).symm

theorem compile_write_none (source : String) (l : Locale) {p : MessagePattern}
    (h : '\'' ∉ source.toList) (hp : compile source l = .ok p) :
    ∃ t q, p.write none = .ok t ∧ compile t l = .ok q ∧
      q.segments = p.segments.map (Run.map Placeholder.untyped) ∧ q.write none = .ok t := by
  have hshape := isShaped_of_compile hp
  obtain ⟨segments, hsegments, rfl⟩ := compile_eq_ok_iff.mp hp
  obtain ⟨marks, hmarks, -, rfl⟩ := segmentsOf_eq_ok_iff.mp hsegments
  have hverbatim : IsVerbatim marks := by
    apply isVerbatim_of_compileMark (mapM_eq_ok_iff.mp hmarks)
    exact (scanRun_scan (.text false) source.toList).isVerbatim rfl h
  have hindex : ∀ q, .item q ∈ marks → q.index < 2 ^ 63 := by
    intro q hq
    refine (hshape.placeholders q ?_).1
    rwa [placeholders, ← Run.mem_marks, Run.marks_ofMarks]
  have hcompile : segmentsOf (String.ofList (marks.flatMap spell)).toList =
      .ok ((Run.ofMarks marks).map (Run.map Placeholder.untyped)) := by
    rw [String.toList_ofList]
    exact segmentsOf_spell hverbatim hindex
  refine ⟨_, _, write_none_ofMarks source l marks, compile_eq_ok_iff.mpr ⟨_, hcompile, rfl⟩, rfl, ?_⟩
  have hspell : (marks.map (Mark.map Placeholder.untyped)).flatMap spell = marks.flatMap spell := by
    rw [List.flatMap_map]
    congr 1
    funext m
    cases m <;> rfl
  rw [← Run.ofMarks_map, write_none_ofMarks, hspell]

theorem compile_write_none_percent :
    '\'' ∉ "\x7b%b\x7d \x7b+07,number,#0\x7d\x7d \x7b-0, date\x7d".toList ∧
      ∃ p, compile "\x7b%b\x7d \x7b+07,number,#0\x7d\x7d \x7b-0, date\x7d" .germany = .ok p ∧
        ∃ t q, p.write none = .ok t ∧ compile t .germany = .ok q ∧
          q.segments = [.text "\x7b%b\x7d ", .item ⟨7, .untyped⟩, .text "\x7d ", .item ⟨0, .untyped⟩] ∧
          q.write none = .ok t := by
  let p : MessagePattern :=
    ⟨"\x7b%b\x7d \x7b+07,number,#0\x7d\x7d \x7b-0, date\x7d", .germany,
      [.text "\x7b%b\x7d ", .item ⟨7, .number (.pattern ⟨⟨[], []⟩, none, ⟨1, 0, 0, false⟩, .one⟩)⟩,
        .text "\x7d ", .item ⟨0, .date .default⟩]⟩
  have hplain : '\'' ∉ p.source.toList := by simp [p]
  have hp : compile p.source .germany = .ok p := by decide +kernel
  exact ⟨hplain, p, hp, compile_write_none p.source .germany hplain hp⟩

end MessagePattern

end MessageCatalog
