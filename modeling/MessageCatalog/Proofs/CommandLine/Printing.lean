import MessageCatalog.CommandLine.Listing
import MessageCatalog.Proofs.Json.Document
import MessageCatalog.Proofs.Locale.TextOrder
import MessageCatalog.Proofs.Text.Split
import MessageCatalog.Proofs.Traversal

namespace MessageCatalog

structure PrintedRow where
  locale : String
  isMarked : Bool
  keys : Nat
  skipped : Nat
  deriving DecidableEq

namespace PrintedRow

def ofCells (locale keys skipped : List Char) (isMarked : Bool) : Option PrintedRow := do
  return ⟨String.ofList locale, isMarked, ← Text.nat? keys, ← Text.nat? skipped⟩

def ofWords : List (List Char) → Option PrintedRow
  | [first, locale, keys, skipped, last] =>
    if first = ['│'] ∧ last = ['│'] then ofCells locale keys skipped false else none
  | [first, locale, mark, keys, skipped, last] =>
    if first = ['│'] ∧ mark = "(default)".toList ∧ last = ['│'] then ofCells locale keys skipped true
    else none
  | _ => none

def ofLines : List (List Char) → Option (List PrintedRow × List (List Char))
  | [] => none
  | line :: lines =>
    if line.head? = some '└' then some ([], lines)
    else do
      let row ← ofWords (Text.words line)
      let (rows, behind) ← ofLines lines
      return (row :: rows, behind)

def headerWords : List (List Char) :=
  ["│".toList, "Locale".toList, "Keys".toList, "Skipped".toList, "│".toList]

def ofText (t : String) : Option (List PrintedRow × List (List Char)) :=
  match Text.split '\n' t.toList with
  | top :: header :: rule :: lines =>
    if top.head? = some '┌' ∧ Text.words header = headerWords ∧ rule.head? = some '╞' then ofLines lines
    else none
  | _ => none

end PrintedRow

namespace Json.Document

def member? (name : String) : Document → Option Document
  | object members => members.lookup name
  | _ => none

def text? : Document → Option String
  | text t => some t
  | _ => none

def number? : Document → Option Nat
  | number n => some n
  | _ => none

def elements? : Document → Option (List Document)
  | list elements => some elements
  | _ => none

def row? (defaultLocale : String) (d : Document) : Option PrintedRow := do
  let locale ← (← d.member? "locale").text?
  let keys ← (← d.member? "keys").number?
  let skipped ← (← d.member? "skipped").number?
  return ⟨locale, locale == defaultLocale, keys, skipped⟩

def listing? (d : Document) : Option (List PrintedRow × List String) := do
  let defaultLocale ← (← d.member? "default_locale").text?
  let rows ← (← (← d.member? "locales").elements?).mapM (row? defaultLocale)
  let warnings ← (← (← d.member? "warnings").elements?).mapM text?
  return (rows, warnings)

end Json.Document

namespace Listing

variable {l : Listing} {row : ListingRow} {c : Char}

def printed (l : Listing) : List PrintedRow :=
  l.rows.map fun row => ⟨row.locale.text, decide (row.locale = l.defaultLocale), row.keys, row.skipped⟩

def warningLines (heading : String) (warnings : List String) : List (List Char) :=
  if warnings.isEmpty then [[]]
  else
    [] :: (Text.split '\n' heading.toList ++
      (warnings.flatMap fun w => Text.split '\n' ("  - " ++ w).toList) ++ [[]])

section Document

def rowDocument (row : ListingRow) : Json.Document :=
  .object [("locale", .text row.locale.text), ("keys", .number row.keys), ("skipped", .number row.skipped)]

theorem row?_rowDocument (defaultLocale : Locale) (row : ListingRow) :
    (rowDocument row).row? defaultLocale.text =
      some ⟨row.locale.text, decide (row.locale = defaultLocale), row.keys, row.skipped⟩ := by
  have hmark : (row.locale.text == defaultLocale.text) = decide (row.locale = defaultLocale) := by
    rw [Bool.eq_iff_iff, beq_iff_eq, decide_eq_true_iff]
    exact ⟨Locale.eq_of_text, congrArg Locale.text⟩
  rw [← hmark]
  rfl

theorem listing?_document (l : Listing) : l.document.listing? = some (l.printed, l.warnings) := by
  have hrows : (l.rows.map rowDocument).mapM (Json.Document.row? l.defaultLocale.text) = some l.printed := by
    rw [List.mapM_map]
    exact Traversal.mapM_some fun row _ => row?_rowDocument l.defaultLocale row
  have hwarnings : (l.warnings.map Json.Document.text).mapM Json.Document.text? = some l.warnings := by
    rw [List.mapM_map]
    exact (Traversal.mapM_some fun _ _ => rfl).trans (congrArg some (List.map_id _))
  have hlisting : l.document.listing? = do
      let rows ← (l.rows.map rowDocument).mapM (Json.Document.row? l.defaultLocale.text)
      let warnings ← (l.warnings.map Json.Document.text).mapM Json.Document.text?
      return (rows, warnings) := rfl
  rw [hlisting, hrows, hwarnings]
  rfl

end Document

section Table

theorem toList_pad (width : Nat) (cell : String) :
    (pad width cell).toList =
      ' ' :: (cell.toList ++ (List.replicate (width - cell.length) ' ' ++ [' '])) := by
  simp [pad]

theorem words_pad (width : Nat) (cell : String) (before rest : List Char) :
    Text.words (before ++ ((pad width cell).toList ++ rest)) =
      Text.words before ++ (Text.words cell.toList ++ Text.words rest) := by
  have hsplit : (pad width cell).toList ++ rest =
      ' ' :: (cell.toList ++ ' ' :: (List.replicate (width - cell.length) ' ' ++ rest)) := by
    have hblanks : List.replicate (width - cell.length) ' ' ++ ' ' :: rest =
        ' ' :: (List.replicate (width - cell.length) ' ' ++ rest) := by
      rw [List.append_cons, ← List.replicate_succ', List.replicate_succ, List.cons_append]
    rw [toList_pad, ← hblanks]
    simp
  rw [hsplit, Text.words_append_cons, Text.words_append_cons, Text.words_replicate_append]

def padded (ps : List (Nat × String)) : String :=
  " ".intercalate (ps.map fun p => pad p.1 p.2)

theorem toList_padded_cons (p q : Nat × String) (ps : List (Nat × String)) :
    (padded (p :: q :: ps)).toList = (pad p.1 p.2).toList ++ ' ' :: (padded (q :: ps)).toList := by
  rw [padded, padded, String.toList_intercalate, String.toList_intercalate]
  simp [List.intercalate_cons_cons]

theorem words_padded {ps : List (Nat × String)} (hne : ps ≠ []) (before rest : List Char) :
    Text.words (before ++ ((padded ps).toList ++ rest)) =
      Text.words before ++ ((ps.flatMap fun p => Text.words p.2.toList) ++ Text.words rest) := by
  induction ps generalizing before with
  | nil => exact absurd rfl hne
  | cons p ps ih =>
    cases ps with
    | nil => simpa [padded] using words_pad p.1 p.2 before rest
    | cons q ps =>
      have htail := ih (List.cons_ne_nil _ _) []
      rw [Text.words_nil, List.nil_append, List.nil_append] at htail
      rw [toList_padded_cons, List.append_assoc, words_pad, List.cons_append, Text.words_cons, htail]
      exact congrArg _ (List.append_assoc _ _ _).symm

theorem words_line {ws : List Nat} {row : List String} (hlength : ws.length = row.length) (hne : row ≠ []) :
    Text.words (line ws row).toList =
      ['│'] :: ((row.flatMap fun cell => Text.words cell.toList) ++ [['│']]) := by
  have hline : (line ws row).toList = ['│'] ++ ((padded (ws.zip row)).toList ++ ['│']) := by
    simp [line, padded, List.zip, List.map_zipWith]
  have hzip : ws.zip row ≠ [] := by
    rw [← List.length_pos_iff, List.length_zip, hlength, Nat.min_self]
    exact List.length_pos_iff.mpr hne
  have hrow : ((ws.zip row).flatMap fun p => Text.words p.2.toList) =
      row.flatMap fun cell => Text.words cell.toList := by
    conv => rhs; rw [← List.map_snd_zip hlength.ge, List.flatMap_map]
  have hborder : Text.words ['│'] = [['│']] := by decide
  -- a padded cell begins and ends with a space, so the borders are words of their own
  rw [hline, words_padded hzip, hrow, hborder, List.singleton_append]

theorem length_widths (rows : List (List String)) (hrows : ∀ row ∈ rows, row.length = header.length) :
    (widths (header :: rows)).length = header.length := by
  have hfold : ∀ (ws : List Nat) (rows : List (List String)),
      ws.length = header.length → (∀ row ∈ rows, row.length = header.length) →
        (rows.foldl (fun ws row => List.zipWith max ws (row.map String.length)) ws).length =
          header.length := by
    intro ws rows
    induction rows generalizing ws with
    | nil => exact fun h _ => h
    | cons row rows ih =>
      intro h hrows
      obtain ⟨hrow, hrows⟩ := List.forall_mem_cons.mp hrows
      refine ih _ ?_ hrows
      rw [List.length_zipWith, List.length_map, h, hrow, Nat.min_self]
  exact hfold _ rows (List.length_map _) hrows

def columns (l : Listing) : List Nat :=
  widths (header :: l.rows.map l.cells)

theorem length_columns (l : Listing) : l.columns.length = 3 := by
  refine length_widths _ fun row h => ?_
  obtain ⟨r, -, rfl⟩ := List.mem_map.mp h
  rfl

theorem not_mem_of_not_blank {cs : List Char} (h : ∀ c ∈ cs, Text.isBlank c = false) {b : Char}
    (hb : Text.isBlank b = true) : b ∉ cs := by
  intro hmem
  rw [h b hmem] at hb
  cases hb

theorem words_text (k : Locale) : Text.words k.text.toList = [k.text.toList] := by
  refine Text.words_of_not_mem ?_ (not_mem_of_not_blank (fun _ => Locale.isBlank_of_mem_text) rfl)
  rw [Locale.toList_text]
  intro h
  have hvalid := k.language.valid
  rw [(List.append_eq_nil_iff.mp h).1] at hvalid
  cases hvalid

theorem isBlank_natText {n : Nat} (h : c ∈ (Text.natText n).toList) : Text.isBlank c = false := by
  rw [Text.toList_natText] at h
  have hdigit := isDigit_iff.mp (Text.isDigit_of_mem_numeral h)
  exact (isSolid_of_range (by omega) (by omega)).1

theorem words_natText (n : Nat) : Text.words (Text.natText n).toList = [(Text.natText n).toList] := by
  refine Text.words_of_not_mem ?_ (not_mem_of_not_blank (fun _ => isBlank_natText) rfl)
  rw [Text.toList_natText]
  exact Text.numeral_ne_nil 1 n Nat.one_pos

theorem words_label (l : Listing) (row : ListingRow) :
    Text.words (l.label row).toList = row.locale.text.toList ::
      if row.locale = l.defaultLocale then ["(default)".toList] else [] := by
  rw [label]
  split
  case isTrue h =>
    have hmark : Text.words "(default)".toList = ["(default)".toList] := by decide
    have hlabel : (row.locale.text ++ " (default)").toList =
        row.locale.text.toList ++ ' ' :: "(default)".toList := String.toList_append
    rw [hlabel, Text.words_append_cons, words_text, hmark, List.singleton_append]
  case isFalse => exact words_text row.locale

theorem ofWords_line (l : Listing) (row : ListingRow) :
    PrintedRow.ofWords (Text.words (line l.columns (l.cells row)).toList) =
      some ⟨row.locale.text, decide (row.locale = l.defaultLocale), row.keys, row.skipped⟩ := by
  have hwords : Text.words (line l.columns (l.cells row)).toList = _ :=
    words_line l.length_columns (List.cons_ne_nil _ _)
  have hcells (isMarked : Bool) :
      PrintedRow.ofCells row.locale.text.toList (Text.natText row.keys).toList
          (Text.natText row.skipped).toList isMarked =
        some ⟨row.locale.text, isMarked, row.keys, row.skipped⟩ := by
    rw [PrintedRow.ofCells, Text.nat?_natText, Text.nat?_natText, String.ofList_toList]
    rfl
  rw [hwords, cells]
  simp only [List.flatMap_cons, List.flatMap_nil, words_label, words_natText]
  by_cases h : row.locale = l.defaultLocale
  · rw [if_pos h, decide_eq_true h, ← hcells true]
    rfl
  · rw [if_neg h, decide_eq_false h, ← hcells false]
    rfl

theorem newline_not_mem_line {ws : List Nat} {row : List String} (h : ∀ cell ∈ row, '\n' ∉ cell.toList) :
    '\n' ∉ (line ws row).toList := by
  have hcells : '\n' ∉ (" ".intercalate (List.zipWith pad ws row)).toList := by
    rw [String.toList_intercalate]
    refine Text.not_mem_intercalate (by decide) ?_
    intro part hpart
    obtain ⟨padded, hpadded, rfl⟩ := List.mem_map.mp hpart
    obtain ⟨i, hi, rfl⟩ := List.mem_iff_getElem.mp hpadded
    rw [List.getElem_zipWith, toList_pad]
    simp [h]
  rw [line, String.toList_append, String.toList_append]
  simp only [List.mem_append, not_or]
  exact ⟨⟨by decide, hcells⟩, by decide⟩

theorem newline_not_mem_rule (left fill right : String) (width : Nat) (hl : '\n' ∉ left.toList)
    (hf : '\n' ∉ fill.toList) (hr : '\n' ∉ right.toList) :
    '\n' ∉ (rule left fill right width).toList := by
  simp [rule, String.toList_join, hl, hf, hr]

theorem newline_not_mem_cell {row : ListingRow} : ∀ cell ∈ l.cells row, '\n' ∉ cell.toList := by
  have hlocale : '\n' ∉ row.locale.text.toList :=
    not_mem_of_not_blank (fun _ => Locale.isBlank_of_mem_text) rfl
  have hnumber (n : Nat) : '\n' ∉ (Text.natText n).toList :=
    not_mem_of_not_blank (fun _ => isBlank_natText) rfl
  have hlabel : '\n' ∉ (l.label row).toList := by
    rw [label]
    split
    · rw [String.toList_append, List.mem_append, not_or]
      exact ⟨hlocale, by decide⟩
    · exact hlocale
  simp [cells, hlabel, hnumber]

theorem ofLines_rows {bottom : List Char} (hbottom : bottom.head? = some '└') (rows : List ListingRow)
    (behind : List (List Char)) :
    PrintedRow.ofLines ((rows.map fun row => (line l.columns (l.cells row)).toList) ++ bottom :: behind) =
      some (rows.map fun row => ⟨row.locale.text, decide (row.locale = l.defaultLocale), row.keys, row.skipped⟩,
        behind) := by
  induction rows with
  | nil => exact if_pos hbottom
  | cons row rows ih =>
    have hhead : (line l.columns (l.cells row)).toList.head? ≠ some '└' := by
      simp [line]
    rw [List.map_cons, List.cons_append, PrintedRow.ofLines, if_neg hhead, ofWords_line, ih]
    rfl

theorem split_warnings (warnings : List String) :
    Text.split '\n' (warnings.flatMap fun w => ("  - " ++ w ++ "\n").toList) =
      (warnings.flatMap fun w => Text.split '\n' ("  - " ++ w).toList) ++ [[]] := by
  induction warnings with
  | nil => rfl
  | cons w warnings ih =>
    have hbreak : ("  - " ++ w ++ "\n").toList = ("  - " ++ w).toList ++ ['\n'] := String.toList_append
    rw [List.flatMap_cons, hbreak, List.append_assoc, List.singleton_append, Text.split_append_cons, ih,
      List.flatMap_cons, List.append_assoc]

def behind (heading : String) (warnings : List String) : List Char :=
  if warnings.isEmpty then []
  else '\n' :: (heading.toList ++ '\n' :: (warnings.flatMap fun w => ("  - " ++ w ++ "\n").toList))

theorem split_behind (heading : String) (warnings : List String) :
    Text.split '\n' (behind heading warnings) = warningLines heading warnings := by
  rw [behind, warningLines]
  split
  case isTrue => rfl
  case isFalse =>
    rw [Text.split, if_pos rfl, Text.split_append_cons, split_warnings, List.append_assoc]

def edge (l : Listing) (left fill right : String) : List Char :=
  (rule left fill right ((l.columns.map (· + 3)).foldr (· + ·) 0 - 1)).toList

def boxLines (l : Listing) : List (List Char) :=
  l.edge "┌" "─" "┐" :: (line l.columns header).toList :: l.edge "╞" "═" "╡" ::
    ((l.rows.map fun row => (line l.columns (l.cells row)).toList) ++ [l.edge "└" "─" "┘"])

theorem toList_box (l : Listing) : l.box.toList = ['\n'].intercalate l.boxLines := by
  rw [box, String.toList_intercalate]
  simp [boxLines, edge, columns, List.map_map, Function.comp_def]

theorem toList_text (paint : String → String) (l : Listing) :
    (l.text paint).toList =
      ['\n'].intercalate l.boxLines ++ '\n' :: behind (paint heading) l.warnings := by
  rw [text, String.toList_append, String.toList_append, toList_box, behind]
  split
  case isTrue => simp
  case isFalse => simp [String.toList_join, List.flatMap_map]

theorem newline_not_mem_edge {left fill right : String} (h : '\n' ∉ (left ++ fill ++ right).toList) :
    '\n' ∉ l.edge left fill right := by
  simp only [String.toList_append, List.mem_append, not_or] at h
  exact newline_not_mem_rule left fill right _ h.1.1 h.1.2 h.2

theorem newline_not_mem_boxLines : ∀ line ∈ l.boxLines, '\n' ∉ line := by
  have hrows : ∀ row ∈ l.rows, '\n' ∉ (line l.columns (l.cells row)).toList :=
    fun row _ => newline_not_mem_line newline_not_mem_cell
  have hheader : '\n' ∉ (line l.columns header).toList := newline_not_mem_line (by decide)
  simp only [boxLines, List.forall_mem_cons, List.forall_mem_append, List.forall_mem_map]
  exact ⟨newline_not_mem_edge (by decide), hheader, newline_not_mem_edge (by decide), hrows,
    newline_not_mem_edge (by decide), List.forall_mem_nil _⟩

theorem head?_edge {left : String} {c : Char} (h : left.toList = [c]) (fill right : String) :
    (l.edge left fill right).head? = some c := by
  rw [edge, rule, String.toList_append, String.toList_append, h]
  rfl

theorem ofText_text (paint : String → String) (l : Listing) :
    PrintedRow.ofText (l.text paint) = some (l.printed, warningLines (paint heading) l.warnings) := by
  have hheader : Text.words (line l.columns header).toList = PrintedRow.headerWords := by
    have hwords : Text.words (line l.columns header).toList = _ :=
      words_line l.length_columns (List.cons_ne_nil _ _)
    rw [hwords]
    decide
  have hsplit : Text.split '\n' (l.text paint).toList =
      l.boxLines ++ warningLines (paint heading) l.warnings := by
    have hne : l.boxLines ≠ [] := List.cons_ne_nil _ _
    rw [toList_text, Text.split_append_cons, Text.split_intercalate hne newline_not_mem_boxLines, split_behind]
  rw [PrintedRow.ofText, hsplit, boxLines, List.cons_append, List.cons_append, List.cons_append,
    List.append_assoc, List.singleton_append]
  exact (if_pos ⟨head?_edge rfl _ _, hheader, head?_edge rfl _ _⟩).trans
    (ofLines_rows (head?_edge rfl _ _) l.rows _)

def isBullet (line : List Char) : Bool :=
  "  - ".toList.isPrefixOf line

theorem countP_bullets {warnings : List String} (h : ∀ w ∈ warnings, '\n' ∉ w.toList) :
    (warnings.flatMap fun w => Text.split '\n' ("  - " ++ w).toList).countP isBullet = warnings.length := by
  induction warnings with
  | nil => rfl
  | cons w warnings ih =>
    obtain ⟨hw, hwarnings⟩ := List.forall_mem_cons.mp h
    have hline : ("  - " ++ w).toList = "  - ".toList ++ w.toList := String.toList_append
    have hbreak : '\n' ∉ ("  - " ++ w).toList := by
      rw [hline, List.mem_append, not_or]
      exact ⟨by decide, hw⟩
    have hbullet : isBullet ("  - " ++ w).toList = true := by
      rw [isBullet, hline, List.isPrefixOf_iff_prefix]
      exact List.prefix_append _ _
    rw [List.flatMap_cons, Text.split_of_not_mem hbreak, List.countP_append, ih hwarnings,
      List.countP_singleton, if_pos hbullet, List.length_cons, Nat.add_comm]

theorem countP_warningLines {heading : String} {warnings : List String}
    (hheading : ∀ part ∈ Text.split '\n' heading.toList, isBullet part = false)
    (h : ∀ w ∈ warnings, '\n' ∉ w.toList) :
    (warningLines heading warnings).countP isBullet = warnings.length := by
  have hempty : isBullet [] = false := by decide
  have hnone : (Text.split '\n' heading.toList).countP isBullet = 0 := by
    rw [List.countP_eq_zero]
    exact fun part hpart => Bool.eq_false_iff.mp (hheading part hpart)
  rw [warningLines]
  split
  case isTrue hnil =>
    rw [List.isEmpty_iff.mp hnil, List.countP_singleton, hempty]
    rfl
  case isFalse =>
    rw [List.countP_cons, List.countP_append, List.countP_append, hnone, countP_bullets h,
      List.countP_singleton, hempty]
    simp

end Table

end Listing

end MessageCatalog
