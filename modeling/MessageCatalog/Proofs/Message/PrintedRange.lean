import MessageCatalog.Proofs.Message.RangeScan
import MessageCatalog.Proofs.Text.Numeral
import MessageCatalog.Proofs.Text.Runs
import MessageCatalog.Proofs.Traversal

namespace MessageCatalog

open Text (Mark Run)

namespace Place

def number : Place → Nat
  | fromStart index => index
  | fromEnd offset => offset

def print : Place → List Char
  | fromStart index => Text.numeral 1 index
  | fromEnd 0 => ['n']
  | fromEnd (offset + 1) => 'n' :: '-' :: Text.numeral 1 (offset + 1)

variable {p : Place} {cs : List Char} {n : Nat}

theorem number?_numeral (hn : n < 2 ^ 64) : number? (Text.numeral 1 n) = some n := by
  rw [number?, Text.nat?_numeral 1 n Nat.one_pos, Option.filter_some, if_pos]
  exact decide_eq_true hn

theorem lt_of_number? (h : number? cs = some n) : n < 2 ^ 64 := by
  obtain ⟨-, hn⟩ := Option.filter_eq_some_iff.mp h
  exact of_decide_eq_true hn

theorem read?_of_digits (h : ∀ c ∈ cs, c.isDigit = true) : read? cs = (number? cs).map fromStart := by
  rw [read?]
  · rintro rfl
    exact absurd (h 'n' List.mem_cons_self) (by decide)
  · rintro rest rfl
    exact absurd (h 'n' List.mem_cons_self) (by decide)

theorem read?_print (h : p.number < 2 ^ 64) : read? p.print = some p := by
  cases p with
  | fromStart index =>
    rw [print, read?_of_digits fun c hc => Text.isDigit_of_mem_numeral hc, number?_numeral (n := index) h]
    rfl
  | fromEnd offset =>
    cases offset with
    | zero => rfl
    | succ offset =>
      have hread : read? ('n' :: '-' :: Text.numeral 1 (offset + 1)) =
          (number? (Text.numeral 1 (offset + 1))).map fromEnd := by
        rw [read?]
      rw [print, hread, number?_numeral (n := offset + 1) h]
      rfl

theorem number_lt_of_read? (h : read? cs = some p) : p.number < 2 ^ 64 := by
  rw [read?.eq_def] at h
  split at h
  · cases h
    decide
  · obtain ⟨n, hn, rfl⟩ := Option.map_eq_some_iff.mp h
    exact lt_of_number? hn
  · obtain ⟨n, hn, rfl⟩ := Option.map_eq_some_iff.mp h
    exact lt_of_number? hn

theorem print_ne_nil (p : Place) : p.print ≠ [] := by
  cases p with
  | fromStart index => exact Text.numeral_ne_nil 1 index Nat.one_pos
  | fromEnd offset => cases offset <;> exact List.cons_ne_nil _ _

theorem plain_of_mem_print {c : Char} (h : c ∈ p.print) : c ≠ '\'' ∧ c ≠ ';' ∧ c ≠ '\x7d' := by
  have hdigit : c.isDigit = true → c ≠ '\'' ∧ c ≠ ';' ∧ c ≠ '\x7d' := by
    intro hc
    refine ⟨?_, ?_, ?_⟩ <;> rintro rfl <;> exact absurd hc (by decide)
  cases p with
  | fromStart index => exact hdigit (Text.isDigit_of_mem_numeral h)
  | fromEnd offset =>
    cases offset with
    | zero =>
      rw [print, List.mem_singleton] at h
      exact h ▸ by decide
    | succ offset =>
      rw [print, List.mem_cons, List.mem_cons] at h
      rcases h with rfl | rfl | h
      · decide
      · decide
      · exact hdigit (Text.isDigit_of_mem_numeral h)

end Place

namespace RangeItem

def IsPrintable : RangeItem → Prop
  | element place => place.number < 2 ^ 64
  | join start separator stop => start < 2 ^ 64 ∧ '\'' ∉ separator.toList ∧ stop.number < 2 ^ 64

def block : RangeItem → RangeBlock
  | element place => ⟨place.print.reverse, [], []⟩
  | join start separator stop =>
    ⟨(Place.fromStart start).print.reverse, separator.toList.reverse, stop.print.reverse⟩

def print : RangeItem → List Char
  | element place => '\x7b' :: (place.print ++ ['\x7d'])
  | join start separator stop =>
    '\x7b' :: ((Place.fromStart start).print ++
      ';' :: ('\'' :: (separator.toList ++ '\'' :: (';' :: (stop.print ++ ['\x7d'])))))

variable {i : RangeItem} {b : RangeBlock}

theorem compile_block (h : i.IsPrintable) : i.block.compile = .ok i := by
  cases i with
  | element place => simp [RangeBlock.compile, block, Place.read?_print h]
  | join start separator stop =>
    obtain ⟨hstart, -, hstop⟩ := h
    have hread := Place.read?_print (p := .fromStart start) hstart
    simp [RangeBlock.compile, block, Place.print_ne_nil, hread, Place.read?_print hstop]

theorem isPrintable_of_compile (hb : '\'' ∉ b.separator) (h : b.compile = .ok i) : i.IsPrintable := by
  rw [RangeBlock.compile] at h
  split at h
  · split at h
    case h_1 place hplace =>
      cases h
      exact Place.number_lt_of_read? hplace
    case h_2 => cases h
  · split at h
    case h_1 index place hindex hplace =>
      cases h
      refine ⟨Place.number_lt_of_read? hindex, ?_, Place.number_lt_of_read? hplace⟩
      rwa [String.toList_ofList, List.mem_reverse]
    case h_2 => cases h
    case h_3 => cases h

end RangeItem

namespace RangePattern

def printRun : Run RangeItem → List Char
  | .text t => '\'' :: (t.toList ++ ['\''])
  | .item i => i.print

def print (rs : List (Run RangeItem)) : String :=
  String.ofList (rs.flatMap printRun)

structure IsNormal (rs : List (Run RangeItem)) : Prop where
  runs : Run.Normal rs
  texts : ∀ t, .text t ∈ rs → '\'' ∉ t.toList
  items : ∀ i ∈ Run.items rs, i.IsPrintable

variable {rs : List (Run RangeItem)}

theorem scan_printItem {i : RangeItem} (h : i.IsPrintable) (rest : List Char) :
    scan (.text false) (i.print ++ rest) = (scan (.text false) rest).map (.item i.block :: ·) id := by
  cases i with
  | element place =>
    have hprint : (RangeItem.element place).print ++ rest =
        '\x7b' :: (place.print ++ '\x7d' :: rest) := by simp [RangeItem.print]
    have hblock : RangeBlock.empty.addAll place.print .start = (RangeItem.element place).block := by
      simp [RangeBlock.addAll_eq, RangeBlock.empty, RangeItem.block]
    rw [hprint, scan_text_brace, scan_block_plain fun c hc => Place.plain_of_mem_print hc,
      scan_block_end, hblock]
  | join start separator stop =>
    have hprint : (RangeItem.join start separator stop).print ++ rest =
        '\x7b' :: ((Place.fromStart start).print ++ ';' :: ('\'' :: (separator.toList ++
          '\'' :: (';' :: (stop.print ++ '\x7d' :: rest))))) := by simp [RangeItem.print]
    have hblock : ((RangeBlock.empty.addAll (Place.fromStart start).print .start).addAll
        separator.toList .separator).addAll stop.print .stop =
        (RangeItem.join start separator stop).block := by
      simp [RangeBlock.addAll_eq, RangeBlock.empty, RangeItem.block]
    rw [hprint, scan_text_brace, scan_block_plain fun c hc => Place.plain_of_mem_print hc,
      scan_block_next rfl, scan_block_quotation h.2.1, scan_block_next rfl,
      scan_block_plain fun c hc => Place.plain_of_mem_print hc, scan_block_end, hblock]

theorem scan_printRuns (ht : ∀ t, .text t ∈ rs → '\'' ∉ t.toList)
    (hi : ∀ i ∈ Run.items rs, i.IsPrintable) :
    scan (.text false) (rs.flatMap printRun) =
      ((Run.marks rs).map (Mark.map RangeItem.block), .text false) := by
  induction rs with
  | nil => rfl
  | cons r rest ih =>
    have htexts (t : String) (hm : .text t ∈ rest) := ht t (List.mem_cons_of_mem _ hm)
    rw [List.flatMap_cons]
    cases r with
    | item i =>
      obtain ⟨hitem, hitems⟩ := List.forall_mem_cons.mp hi
      rw [printRun, scan_printItem hitem, ih htexts hitems]
      rfl
    | text t =>
      have hprint : printRun (.text t) ++ rest.flatMap printRun =
          '\'' :: (t.toList ++ '\'' :: rest.flatMap printRun) := by simp [printRun]
      rw [hprint, scan_text_quotation (ht t List.mem_cons_self), ih htexts hi]
      simp [Run.marks, Mark.map]

theorem compile_print_of_isNormal (h : IsNormal rs) : compile (print rs) = .ok ⟨rs⟩ := by
  have hmark : ∀ m ∈ Run.marks rs, (compileMark ∘ Mark.map RangeItem.block) m = .ok (id m) := by
    intro m hm
    cases m with
    | char c => rfl
    | item i =>
      have hprintable := h.items i (Run.mem_marks.mp hm)
      rw [Function.comp_apply, Mark.map, compileMark, RangeItem.compile_block hprintable]
      rfl
  have hmarks : ((Run.marks rs).map (Mark.map RangeItem.block)).mapM compileMark =
      .ok (Run.marks rs) := by
    rw [List.mapM_map, Traversal.mapM_ok hmark, List.map_id]
  have hruns := Run.ofMarks_marks h.runs
  rw [compile, print, String.toList_ofList, scan_printRuns h.texts h.items]
  simp only [hmarks]
  change Except.ok (RangePattern.mk (Run.ofMarks (Run.marks rs))) = _
  rw [hruns]

def IsPlainMark : Mark RangeBlock → Prop
  | .char c => c ≠ '\''
  | .item b => '\'' ∉ b.separator

def IsPlainScan : RangeScan → Prop
  | .text _ => True
  | .block _ b _ => '\'' ∉ b.separator

theorem not_mem_separator_add {b : RangeBlock} {c : Char} (hc : c ≠ '\'') (hb : '\'' ∉ b.separator)
    (part : RangePart) : '\'' ∉ (b.add c part).separator := by
  cases part with
  | separator => exact List.not_mem_cons_of_ne_of_not_mem hc.symm hb
  | start => exact hb
  | stop => exact hb

theorem isPlainMark_of_mem_scan {s : RangeScan} {cs : List Char} (hs : IsPlainScan s)
    {m : Mark RangeBlock} (hm : m ∈ (scan s cs).1) : IsPlainMark m := by
  induction cs generalizing s with
  | nil =>
    rw [scan] at hm
    cases hm
  | cons c cs ih =>
    cases s with
    | text quoted =>
      rw [scan] at hm
      split at hm
      case isTrue => exact ih (s := .text (!quoted)) trivial hm
      case isFalse hc =>
        split at hm
        case isTrue => exact ih (s := .block .start .empty false) List.not_mem_nil hm
        case isFalse =>
          rcases List.mem_cons.mp hm with rfl | hm
          · exact hc
          · exact ih (s := .text quoted) trivial hm
    | block part b quoted =>
      rw [scan_block_cons] at hm
      split at hm
      case isTrue => exact ih (s := .block part b (!quoted)) hs hm
      case isFalse hc =>
        have hadd := not_mem_separator_add hc hs part
        split at hm
        case isTrue => exact ih (s := .block part (b.add c part) true) hadd hm
        case isFalse =>
          split at hm
          case isTrue =>
            rcases List.mem_cons.mp hm with rfl | hm
            · exact hs
            · exact ih (s := .text false) trivial hm
          case isFalse =>
            split at hm
            case h_1 next _ => exact ih (s := .block next b false) hs hm
            case h_2 => exact ih (s := .block part (b.add c part) false) hadd hm

theorem plain_of_compileMark_char {m : Mark RangeBlock} {c : Char} (hm : IsPlainMark m)
    (h : compileMark m = .ok (.char c)) : c ≠ '\'' := by
  cases m with
  | char d =>
    cases h
    exact hm
  | item b =>
    rw [compileMark] at h
    cases hb : b.compile <;> rw [hb] at h <;> cases h

theorem printable_of_compileMark_item {m : Mark RangeBlock} {i : RangeItem} (hm : IsPlainMark m)
    (h : compileMark m = .ok (.item i)) : i.IsPrintable := by
  cases m with
  | char d => cases h
  | item b =>
    rw [compileMark] at h
    cases hb : b.compile with
    | error p =>
      rw [hb] at h
      cases h
    | ok j =>
      rw [hb] at h
      cases h
      exact RangeItem.isPrintable_of_compile hm hb

theorem exists_marks_of_compile {pattern : String} (h : compile pattern = .ok ⟨rs⟩) :
    ∃ marks, (scan (.text false) pattern.toList).1.mapM compileMark = .ok marks ∧
      rs = Run.ofMarks marks := by
  obtain ⟨marks, hmarks, h⟩ := Traversal.bind_eq_ok_iff.mp h
  refine ⟨marks, hmarks, ?_⟩
  split at h
  · cases h
    rfl
  · cases h

theorem isNormal_of_compile {pattern : String} (h : compile pattern = .ok ⟨rs⟩) : IsNormal rs := by
  obtain ⟨marks, hmarks, rfl⟩ := exists_marks_of_compile h
  have hplain (n : Mark RangeItem) (hn : n ∈ marks) : ∃ m, IsPlainMark m ∧ compileMark m = .ok n := by
    obtain ⟨m, hm, hcompile⟩ := Traversal.exists_of_mem_mapM hmarks hn
    exact ⟨m, isPlainMark_of_mem_scan (s := .text false) trivial hm, hcompile⟩
  refine ⟨Run.normal_ofMarks marks, fun t ht hc => ?_, fun i hi => ?_⟩
  · have hchar := Run.char_mem_marks ht hc
    rw [Run.marks_ofMarks] at hchar
    obtain ⟨m, hm, hcompile⟩ := hplain _ hchar
    exact plain_of_compileMark_char hm hcompile rfl
  · rw [← Run.mem_marks, Run.marks_ofMarks] at hi
    obtain ⟨m, hm, hcompile⟩ := hplain _ hi
    exact printable_of_compileMark_item hm hcompile

theorem isNormal_iff_read (rs : List (Run RangeItem)) :
    (IsNormal rs ↔ compile (print rs) = .ok ⟨rs⟩) ∧
      (IsNormal rs ↔ ∃ pattern, compile pattern = .ok ⟨rs⟩) := by
  have hnormal : IsNormal rs → compile (print rs) = .ok ⟨rs⟩ := compile_print_of_isNormal
  exact ⟨⟨hnormal, isNormal_of_compile⟩, fun h => ⟨_, hnormal h⟩, fun ⟨_, h⟩ => isNormal_of_compile h⟩

end RangePattern

end MessageCatalog
