import MessageCatalog.Proofs.Message.Rendering
import MessageCatalog.Proofs.Message.Steps
import MessageCatalog.Proofs.Text.Runs

namespace MessageCatalog

open Text (Mark Run)
open Traversal

section Marks

variable {α ε : Type}

def writeMark (f : α → Except ε String) : Mark α → Except ε String
  | .char c => .ok (String.singleton c)
  | .item a => f a

theorem join_singletons (cs : List Char) : String.join (cs.map String.singleton) = String.ofList cs := by
  induction cs with
  | nil => rfl
  | cons c cs ih =>
    rw [List.map_cons, String.join_cons, ih]
    simp

theorem join_mapM_append (f : α → Except ε String) (xs ys : List α) :
    ((xs ++ ys).mapM f).map String.join = do
      let before ← (xs.mapM f).map String.join
      let after ← (ys.mapM f).map String.join
      return before ++ after := by
  rw [List.mapM_append]
  cases xs.mapM f with
  | error e => rfl
  | ok ts =>
    cases ys.mapM f with
    | error e => rfl
    | ok us => exact congrArg Except.ok String.join_append

theorem join_writeMark_chars (f : α → Except ε String) (cs : List Char) :
    ((cs.map Mark.char).mapM (writeMark f)).map String.join = .ok (String.ofList cs) := by
  have hchars : (cs.map Mark.char).mapM (writeMark f) = .ok (cs.map String.singleton) := by
    rw [List.mapM_map]
    exact mapM_ok fun _ _ => rfl
  rw [hchars, Except.map, join_singletons]

theorem join_mapM_writeRun (f : α → Except ε String) (rs : List (Run α)) :
    (rs.mapM (writeRun f)).map String.join = ((Run.marks rs).mapM (writeMark f)).map String.join := by
  induction rs with
  | nil => rfl
  | cons r rest ih =>
    have hmarks : Run.marks (r :: rest) = Run.marks [r] ++ Run.marks rest :=
      Run.marks_append [r] rest
    have hone : ([r].mapM (writeRun f)).map String.join =
        ((Run.marks [r]).mapM (writeMark f)).map String.join := by
      cases r with
      | text t =>
        rw [Run.marks, Run.marks, List.append_nil, join_writeMark_chars, List.mapM_cons]
        simp [Except.map, writeRun, bind, Except.bind, pure, Except.pure]
      | item a => rfl
    rw [hmarks, ← List.singleton_append, join_mapM_append, join_mapM_append, hone, ih]

end Marks

namespace MessagePattern

def Meet (a b : List Char) : Prop :=
  a.getLast? = some '\'' ∧ b.head? = some '\''

variable {s s' last : PatternScan} {a b cs rest : List Char} {ms ms' : List (Mark PlaceholderTexts)}

theorem Meet.of_suffix (h : Meet rest b) (hsuffix : rest <:+ cs) : Meet cs b := by
  obtain ⟨before, rfl⟩ := hsuffix
  refine ⟨?_, h.2⟩
  rw [List.getLast?_append, h.1]
  rfl

theorem head?_append_ne {c : Char} (h : rest.head? ≠ some c) (hb : rest = [] → b.head? ≠ some c) :
    (rest ++ b).head? ≠ some c := by
  cases rest with
  | nil => exact hb rfl
  | cons d rest => exact h

theorem ScanStep.suffix (h : ScanStep s cs ms s' rest) : rest <:+ cs := by
  cases h with
  | doubled => exact (List.suffix_cons _ _).trans (List.suffix_cons _ _)
  | _ => exact List.suffix_cons _ _

theorem ScanStep.append (h : ScanStep s cs ms s' rest) (hmeet : ¬Meet cs b)
    (hend : rest = [] → ∃ quoted, s' = .text quoted) : ScanStep s (cs ++ b) ms s' (rest ++ b) := by
  cases h with
  | doubled quoted => exact .doubled quoted (rest ++ b)
  | apostrophe quoted h =>
    refine .apostrophe quoted (head?_append_ne h fun hrest hb => hmeet ⟨?_, hb⟩)
    rw [hrest]
    rfl
  | brace h =>
    refine .brace (head?_append_ne h fun hrest => ?_)
    obtain ⟨quoted, hq⟩ := hend hrest
    cases hq
  | char hc hb =>
    have hpercent (hp : rest.head? = some '%') : (rest ++ b).head? = some '%' := by
      rw [List.head?_append, hp]
      rfl
    exact .char hc fun ho => (hb ho).imp_right hpercent
  | turn part t depth quoted => exact .turn part t depth quoted (rest ++ b)
  | keep hc h => exact .keep hc h (rest ++ b)
  | drop depth h => exact .drop depth h (rest ++ b)
  | close part t => exact .close part t (rest ++ b)

theorem ScanRun.append {quoted : Bool} (ha : ScanRun s a ms (.text quoted)) (hmeet : ¬Meet a b)
    (hb : ScanRun (.text quoted) b ms' last) : ScanRun s (a ++ b) (ms ++ ms') last := by
  generalize hmiddle : PatternScan.text quoted = middle at ha hb
  induction ha with
  | nil => exact hb
  | @step s s' middle cs rest ms later h hrest ih =>
    rw [List.append_assoc]
    refine .step (h.append hmeet fun hnil => ?_) ?_
    · subst hnil
      exact ⟨quoted, hrest.last_of_nil ▸ hmiddle.symm⟩
    · exact ih (fun hm => hmeet (hm.of_suffix h.suffix)) hmiddle hb

theorem scan_append {quoted : Bool} (ha : (scan s a).2 = .text quoted) (hmeet : ¬Meet a b) :
    scan s (a ++ b) = ((scan s a).1 ++ (scan (.text quoted) b).1, (scan (.text quoted) b).2) := by
  have hrun := scanRun_scan s a
  rw [ha] at hrun
  exact (hrun.append hmeet (scanRun_scan (.text quoted) b)).scan_eq

section Segments

variable {marks : List (Mark Placeholder)} {segments : List Segment} {e : PatternProblem}

theorem mapM_compileMark_append (ha : (scan (.text false) a).1.mapM compileMark = .ok marks)
    (hend : (scan (.text false) a).2 = .text false) (hmeet : ¬Meet a b) :
    (scan (.text false) (a ++ b)).1.mapM compileMark =
      ((scan (.text false) b).1.mapM compileMark).map (marks ++ ·) := by
  rw [scan_append hend hmeet, List.mapM_append, ha]
  cases (scan (.text false) b).1.mapM compileMark <;> rfl

theorem segmentsOf_append_eq_error_iff (ha : (scan (.text false) a).1.mapM compileMark = .ok marks)
    (hend : (scan (.text false) a).2 = .text false) (hmeet : ¬Meet a b) :
    segmentsOf (a ++ b) = .error e ↔ segmentsOf b = .error e := by
  rw [segmentsOf_eq_error_iff, segmentsOf_eq_error_iff, mapM_compileMark_append ha hend hmeet,
    scan_append hend hmeet, map_eq_error_iff]
  simp [map_eq_ok_iff]

theorem segmentsOf_append_eq_ok (ha : (scan (.text false) a).1.mapM compileMark = .ok marks)
    (hend : (scan (.text false) a).2 = .text false) (hmeet : ¬Meet a b)
    (h : segmentsOf (a ++ b) = .ok segments) :
    ∃ later, segmentsOf b = .ok (Run.ofMarks later) ∧ segments = Run.ofMarks (marks ++ later) := by
  obtain ⟨all, hall, hlast, rfl⟩ := segmentsOf_eq_ok_iff.mp h
  rw [mapM_compileMark_append ha hend hmeet] at hall
  obtain ⟨later, hlater, rfl⟩ := map_eq_ok_iff.mp hall
  rw [scan_append hend hmeet] at hlast
  exact ⟨later, segmentsOf_eq_ok_iff.mpr ⟨later, hlater, hlast, rfl⟩, rfl⟩

end Segments

theorem writeSegments_ofMarks (l : Locale) (arguments : Option (List Value))
    (marks : List (Mark Placeholder)) :
    writeSegments l arguments (Run.ofMarks marks) =
      (marks.mapM (writeMark (writePlaceholder l arguments))).map String.join := by
  have hruns := write_runs (g := writeSegments l arguments) rfl (fun _ _ => rfl) (fun _ _ => rfl)
    (Run.ofMarks marks)
  rw [hruns, join_mapM_writeRun, Run.marks_ofMarks]

theorem compile_append (a b : String) (l : Locale) {p : MessagePattern} (ha : compile a l = .ok p)
    (hend : (scan (.text false) a.toList).2 = .text false) (hmeet : ¬Meet a.toList b.toList) :
    (∀ e, compile (a ++ b) l = .error e ↔ compile b l = .error e) ∧
      ∀ whole q, compile (a ++ b) l = .ok whole → compile b l = .ok q →
        whole.placeholders = p.placeholders ++ q.placeholders ∧
          ∀ arguments, whole.write arguments = do
            let before ← p.write arguments
            let after ← q.write arguments
            return before ++ after := by
  obtain ⟨segments, hsegments, rfl⟩ := compile_eq_ok_iff.mp ha
  obtain ⟨marks, hmarks, -, rfl⟩ := segmentsOf_eq_ok_iff.mp hsegments
  constructor
  · intro e
    rw [compile_eq_error_iff, compile_eq_error_iff, String.toList_append]
    exact segmentsOf_append_eq_error_iff hmarks hend hmeet
  · intro whole q hwhole hq
    obtain ⟨all, hall, rfl⟩ := compile_eq_ok_iff.mp hwhole
    rw [String.toList_append] at hall
    obtain ⟨later, hlater, rfl⟩ := segmentsOf_append_eq_ok hmarks hend hmeet hall
    obtain ⟨segments, hsegments, rfl⟩ := compile_eq_ok_iff.mp hq
    rw [hlater] at hsegments
    cases hsegments
    constructor
    · simp only [placeholders, Run.items_eq, Run.marks_ofMarks, List.filterMap_append]
    · intro arguments
      simp only [write, writeSegments_ofMarks, join_mapM_append]

instance (s : PatternScan) : Decidable (s = .text false) :=
  match s with
  | .text false => isTrue rfl
  | .text true => isFalse nofun
  | .placeholder _ _ _ _ => isFalse nofun

theorem compile_append_braces :
    let p : MessagePattern :=
      ⟨"'\x7b'\x7b0\x7d'\x7d'", .germany, [.text "\x7b", .item ⟨0, .untyped⟩, .text "\x7d"]⟩
    let q : MessagePattern :=
      ⟨", it''s \x7b1\x7d", .germany, [.text ", it's ", .item ⟨1, .untyped⟩]⟩
    let whole : MessagePattern :=
      ⟨p.source ++ q.source, .germany,
        [.text "\x7b", .item ⟨0, .untyped⟩, .text "\x7d, it's ", .item ⟨1, .untyped⟩]⟩
    compile p.source .germany = .ok p ∧ (scan (.text false) p.source.toList).2 = .text false ∧
      ¬Meet p.source.toList q.source.toList ∧ compile q.source .germany = .ok q ∧
      compile (p.source ++ q.source) .germany = .ok whole ∧
      whole.placeholders = p.placeholders ++ q.placeholders ∧
      ∀ arguments, whole.write arguments = do
        let before ← p.write arguments
        let after ← q.write arguments
        return before ++ after := by
  intro p q whole
  have hp : compile p.source .germany = .ok p := by decide +kernel
  have hq : compile q.source .germany = .ok q := by decide +kernel
  have hwhole : compile (p.source ++ q.source) .germany = .ok whole := by decide +kernel
  have hend : (scan (.text false) p.source.toList).2 = .text false := by decide +kernel
  have hmeet : ¬Meet p.source.toList q.source.toList := by
    rintro ⟨-, hhead⟩
    revert hhead
    decide +kernel
  exact ⟨hp, hend, hmeet, hq, hwhole,
    (compile_append p.source q.source .germany hp hend hmeet).2 whole q hwhole hq⟩

end MessagePattern

end MessageCatalog
