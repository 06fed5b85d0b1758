import Mathlib.Data.List.Forall2
import Mathlib.Data.List.TakeWhile
import MessageCatalog.Json.Pretty
import MessageCatalog.Proofs.Json.Text
import MessageCatalog.Proofs.Text.Numeral

namespace MessageCatalog.Json.Document

abbrev Reader (α : Type) :=
  List Char → Option (α × List Char)

section Readers

variable {α : Type}

def readItems (item : Reader α) (closing : Char) : Nat → Reader (List α)
  | 0, _ => none
  | fuel + 1, cs => do
    let (x, cs) ← item cs
    match skipBlank cs with
    | [] => none
    | c :: cs =>
      if c = ',' then (readItems item closing fuel cs).map fun r => (x :: r.1, r.2)
      else if c = closing then some ([x], cs)
      else none

def readBlock (item : Reader α) (closing : Char) : Reader (List α) := fun cs =>
  match skipBlank cs with
  | [] => none
  | c :: rest => if c = closing then some ([], rest) else readItems item closing cs.length cs

def readNat : Reader Nat := fun cs =>
  (Text.nat? (cs.takeWhile Char.isDigit)).map (·, cs.dropWhile Char.isDigit)

def readMember (value : Reader α) : Reader (String × α) := fun cs =>
  match skipBlank cs with
  | '"' :: cs => do
    let (name, cs) ← (readText cs).toOption
    match skipBlank cs with
    | ':' :: cs => (value cs).map fun r => ((name, r.1), r.2)
    | _ => none
  | _ => none

end Readers

def read : Nat → Reader Document
  | 0, _ => none
  | fuel + 1, cs =>
    match skipBlank cs with
    | '"' :: cs => (readText cs).toOption.map fun r => (.text r.1, r.2)
    | '[' :: cs => (readBlock (read fuel) ']' cs).map fun r => (.list r.1, r.2)
    | '\x7b' :: cs => (readBlock (readMember (read fuel)) '\x7d' cs).map fun r => (.object r.1, r.2)
    | cs => (readNat cs).map fun r => (.number r.1, r.2)

def ofText? (t : String) : Option Document :=
  match read (t.length + 1) t.toList with
  | some (d, rest) => if (skipBlank rest).isEmpty then some d else none
  | none => none

/-- The text is read as the value, before whatever does not go on with a digit. -/
def Spells {α : Type} (item : Reader α) (x : α) (t : List Char) : Prop :=
  ∀ rest, (∀ c ∈ rest.head?, c.isDigit = false) → item (t ++ rest) = some (x, rest)

section Readers

variable {α : Type} {item : Reader α} {closing : Char} {x : α} {xs : List α} {t blanks : List Char}
  {ts : List (List Char)}

theorem isBlank_of_mem_indent {level : Nat} {c : Char} (h : c ∈ (indent level).toList) :
    isBlank c = true := by
  rw [indent, String.toList_ofList] at h
  rcases List.mem_cons.mp h with rfl | h
  · rfl
  · rw [List.eq_of_mem_replicate h]
    rfl

theorem head?_indent (level : Nat) (rest : List Char) :
    ∀ c ∈ ((indent level).toList ++ rest).head?, c.isDigit = false := by
  rw [indent, String.toList_ofList]
  rintro c ⟨⟩
  rfl

theorem readItems_intercalate (hne : xs ≠ []) (h : List.Forall₂ (Spells item) xs ts)
    (hc : isBlank closing = false) (hd : closing ≠ ',') (level fuel : Nat) (hfuel : xs.length ≤ fuel)
    (rest : List Char) :
    readItems item closing fuel ([','].intercalate ts ++ ((indent level).toList ++ closing :: rest)) =
      some (xs, rest) := by
  induction h generalizing fuel with
  | nil => exact absurd rfl hne
  | @cons x t xs ts hx hxs ih =>
    obtain ⟨fuel, rfl⟩ : ∃ n, fuel = n + 1 := ⟨fuel - 1, by rw [List.length_cons] at hfuel; omega⟩
    cases hxs with
    | nil =>
      rw [List.intercalate_singleton, readItems, hx _ (head?_indent level _)]
      have hskip : skipBlank ((indent level).toList ++ closing :: rest) = closing :: rest := by
        rw [skipBlank_append fun _ => isBlank_of_mem_indent, skipBlank_cons hc]
      simp only [Option.bind_eq_bind, Option.bind_some, hskip, if_neg hd, if_true]
    | @cons y u ys us hy hys =>
      have hcomma : ∀ c ∈ (',' :: ([','].intercalate (u :: us) ++
          ((indent level).toList ++ closing :: rest))).head?, c.isDigit = false := by
        rintro c ⟨⟩
        rfl
      rw [List.intercalate_cons_cons, List.append_assoc, List.append_assoc, List.singleton_append,
        readItems, hx _ hcomma]
      have hskip : ∀ cs, skipBlank (',' :: cs) = ',' :: cs := skipBlank_cons rfl
      simp only [Option.bind_eq_bind, Option.bind_some, hskip, if_true]
      rw [ih (List.cons_ne_nil _ _) fuel (by simp only [List.length_cons] at hfuel ⊢; omega)]
      rfl

def SkipsBlanks (item : Reader α) : Prop :=
  ∀ blanks cs, (∀ c ∈ blanks, isBlank c = true) → item (blanks ++ cs) = item cs

theorem Spells.indented (h : Spells item x t) (hs : SkipsBlanks item) (level : Nat) :
    Spells item x ((indent level).toList ++ t) := by
  intro rest hrest
  rw [List.append_assoc, hs _ _ fun _ => isBlank_of_mem_indent, h rest hrest]

theorem length_le_intercalate (ts : List (List Char)) : ts.length ≤ ([','].intercalate ts).length + 1 := by
  induction ts with
  | nil => exact Nat.zero_le _
  | cons t ts ih =>
    cases ts with
    | nil => simp
    | cons u us =>
      rw [List.intercalate_cons_cons]
      simp only [List.length_append, List.length_cons, List.length_nil] at ih ⊢
      omega

theorem le_length_intercalate (h : t ∈ ts) : t.length ≤ ([','].intercalate ts).length := by
  induction ts with
  | nil => cases h
  | cons u ts ih =>
    cases ts with
    | nil => simp [List.mem_singleton.mp h]
    | cons v vs =>
      rw [List.intercalate_cons_cons, List.append_assoc, List.length_append, List.length_append]
      rcases List.mem_cons.mp h with rfl | h
      · exact Nat.le_add_right _ _
      · have := ih h
        omega

theorem toList_block (opening closing : String) (level : Nat) {lines : List String} (h : lines ≠ []) :
    (block opening closing level lines).toList = opening.toList ++
      ([','].intercalate (lines.map fun t => (indent (level + 1)).toList ++ t.toList) ++
        ((indent level).toList ++ closing.toList)) := by
  have hempty : lines.isEmpty = false := by simpa using h
  rw [block, hempty, if_neg Bool.false_ne_true]
  simp [String.toList_intercalate, List.map_map, Function.comp_def]

theorem skipBlank_split (cs : List Char) :
    ∃ blanks, cs = blanks ++ skipBlank cs ∧ ∀ c ∈ blanks, isBlank c = true :=
  ⟨cs.takeWhile isBlank, List.takeWhile_append_dropWhile.symm, fun _ => List.mem_takeWhile_imp⟩

theorem exists_item {fuel : Nat} {cs rest : List Char}
    (h : readItems item closing fuel cs = some (xs, rest)) : ∃ x rest, item cs = some (x, rest) := by
  cases fuel with
  | zero => cases h
  | succ fuel =>
    rw [readItems] at h
    obtain ⟨⟨x, rest⟩, hx, -⟩ := Option.bind_eq_some_iff.mp h
    exact ⟨x, rest, hx⟩

theorem readBlock_of_readItems {cs rest : List Char} (hs : SkipsBlanks item)
    (hstop : ∀ cs, (∀ d ∈ cs.head?, d = closing) → item cs = none)
    (h : readItems item closing cs.length cs = some (xs, rest)) :
    readBlock item closing cs = some (xs, rest) := by
  obtain ⟨x, rest', h'⟩ := exists_item h
  obtain ⟨blanks, hcs, hblanks⟩ := skipBlank_split cs
  have hskip : item (skipBlank cs) = some (x, rest') := by rw [← hs blanks _ hblanks, ← hcs, h']
  rw [readBlock]
  cases hd : skipBlank cs with
  | nil =>
    rw [hd, hstop [] nofun] at hskip
    cases hskip
  | cons d ds =>
    -- what closes a block begins no item
    by_cases hc : d = closing
    · rw [hd, hstop (d :: ds) fun _ he => Option.some_inj.mp he ▸ hc] at hskip
      cases hskip
    · exact (if_neg hc).trans h

theorem exists_block (opening : String) {close : String} {lines : List String} (hclose : close.toList = [closing])
    (hc : isBlank closing = false) (hcomma : closing ≠ ',') (hs : SkipsBlanks item)
    (hstop : ∀ cs, (∀ d ∈ cs.head?, d = closing) → item cs = none)
    (h : List.Forall₂ (Spells item) xs (lines.map String.toList)) (level : Nat) :
    ∃ within, (block opening close level lines).toList = opening.toList ++ within ∧
      ∀ rest, readBlock item closing (within ++ rest) = some (xs, rest) := by
  cases lines with
  | nil =>
    cases h
    refine ⟨[closing], ?_, fun rest => ?_⟩
    · rw [block, List.isEmpty_nil, if_pos rfl, String.toList_append, hclose]
    · rw [readBlock, List.singleton_append, skipBlank_cons hc]
      exact if_pos rfl
  | cons t lines =>
    let ts := (t :: lines).map fun t => (indent (level + 1)).toList ++ t.toList
    have hitems : List.Forall₂ (Spells item) xs ts := by
      rw [List.forall₂_map_right_iff] at h ⊢
      exact h.imp fun _ _ hx => hx.indented hs _
    refine ⟨_, toList_block _ _ _ (List.cons_ne_nil t lines), fun rest => ?_⟩
    rw [hclose, List.append_assoc, List.append_assoc, List.singleton_append]
    have hlength : xs.length ≤ ([','].intercalate ts ++ ((indent level).toList ++ closing :: rest)).length := by
      have hle := length_le_intercalate ts
      rw [← hitems.length_eq] at hle
      simp only [List.length_append, List.length_cons]
      omega
    have hne : xs ≠ [] := by
      rw [← List.length_pos_iff, hitems.length_eq]
      exact Nat.succ_pos _
    exact readBlock_of_readItems hs hstop (readItems_intercalate hne hitems hc hcomma level _ hlength rest)

end Readers

theorem skipsBlanks_read (fuel : Nat) : SkipsBlanks (read fuel) := by
  intro blanks cs hb
  cases fuel with
  | zero => rfl
  | succ fuel => rw [read, read, skipBlank_append hb]

theorem skipsBlanks_readMember {α : Type} (value : Reader α) : SkipsBlanks (readMember value) := by
  intro blanks cs hb
  rw [readMember, readMember, skipBlank_append hb]

theorem spells_readMember {α : Type} {value : Reader α} {x : α} {t : List Char} (h : Spells value x t)
    (hs : SkipsBlanks value) (name : String) :
    Spells (readMember value) (name, x) (quoteChars name ++ (':' :: ' ' :: t)) := by
  intro rest hrest
  have hquote : skipBlank (quoteChars name ++ (':' :: ' ' :: t) ++ rest) =
      '"' :: (name.toList.flatMap escape ++ '"' :: (':' :: ' ' :: (t ++ rest))) := by
    rw [List.append_assoc, quoteChars_append, skipBlank_cons rfl]
    rfl
  have hcolon : skipBlank (':' :: ' ' :: (t ++ rest)) = ':' :: ' ' :: (t ++ rest) := skipBlank_cons rfl _
  have hvalue : value (' ' :: (t ++ rest)) = some (x, rest) := by
    have hblank := hs [' '] (t ++ rest) (List.forall_mem_singleton.mpr rfl)
    rw [List.singleton_append] at hblank
    rw [hblank, h rest hrest]
  rw [readMember, hquote]
  simp only [readText_escaped, Except.toOption, Option.bind_eq_bind, Option.bind_some, hcolon, hvalue,
    Option.map_some]

theorem readNat_natText (n : Nat) : Spells readNat n (Text.natText n).toList := by
  intro rest hrest
  have hdigits : ∀ c ∈ Text.numeral 1 n, c.isDigit = true := fun c => Text.isDigit_of_mem_numeral
  have hstop : rest.takeWhile Char.isDigit = [] ∧ rest.dropWhile Char.isDigit = rest := by
    cases rest with
    | nil => exact ⟨rfl, rfl⟩
    | cons c cs => simp [hrest c rfl]
  rw [Text.toList_natText, readNat, List.takeWhile_append_of_pos hdigits,
    List.dropWhile_append_of_pos hdigits, hstop.1, hstop.2, List.append_nil,
    Text.nat?_numeral 1 n Nat.one_pos]
  rfl

theorem length_lt_block {opening close : String} {lines : List String} {t : String} (ho : opening ≠ "")
    (ht : t ∈ lines) (level : Nat) :
    t.toList.length < (block opening close level lines).toList.length := by
  have hmem := List.mem_map_of_mem (f := fun t : String => (indent (level + 1)).toList ++ t.toList) ht
  have hle := le_length_intercalate hmem
  have hpos : 0 < opening.toList.length := List.length_pos_iff.mpr fun h => ho (String.toList_eq_nil_iff.mp h)
  rw [toList_block _ _ _ (List.ne_nil_of_mem ht)]
  simp only [List.length_append] at hle ⊢
  omega

theorem read_stops {fuel : Nat} {close : Char} (hc : close = ']' ∨ close = '\x7d') {cs : List Char}
    (h : ∀ d ∈ cs.head?, d = close) : read fuel cs = none := by
  cases fuel with
  | zero => rfl
  | succ fuel =>
    cases cs with
    | nil => rfl
    | cons c cs =>
      obtain rfl := h c rfl
      rcases hc with rfl | rfl <;> rfl

theorem readMember_stops {α : Type} {value : Reader α} {cs : List Char} (h : ∀ d ∈ cs.head?, d = '\x7d') :
    readMember value cs = none := by
  cases cs with
  | nil => rfl
  | cons c cs =>
    obtain rfl := h c rfl
    rfl

theorem spells_text (t : String) (fuel : Nat) : Spells (read (fuel + 1)) (.text t) (quoteChars t) := by
  intro rest _
  rw [read, quoteChars_append, skipBlank_cons rfl]
  simp only [readText_escaped, Except.toOption, Option.map_some]

theorem isBlank_of_isDigit {c : Char} (h : c.isDigit = true) : isBlank c = false := by
  rw [← Bool.not_eq_true]
  intro hc
  simp only [isBlank, Bool.or_eq_true, beq_iff_eq] at hc
  rcases hc with ((rfl | rfl) | rfl) | rfl <;> exact absurd h (by decide)

theorem read_of_digit {c : Char} (h : c.isDigit = true) (fuel : Nat) (cs : List Char) :
    read (fuel + 1) (c :: cs) = (readNat (c :: cs)).map fun r => (.number r.1, r.2) := by
  rw [read, skipBlank_cons (isBlank_of_isDigit h)]
  split
  · cases ‹c :: cs = _›
    exact absurd h (by decide)
  · cases ‹c :: cs = _›
    exact absurd h (by decide)
  · cases ‹c :: cs = _›
    exact absurd h (by decide)
  · rfl

theorem spells_number (n fuel : Nat) : Spells (read (fuel + 1)) (.number n) (Text.natText n).toList := by
  intro rest hrest
  have hread := readNat_natText n rest hrest
  obtain ⟨d, ds, hds⟩ : ∃ d ds, (Text.natText n).toList = d :: ds := by
    rw [Text.toList_natText]
    exact List.exists_cons_of_ne_nil (Text.numeral_ne_nil 1 n Nat.one_pos)
  have hd : d.isDigit = true := by
    have hmem : d ∈ (Text.natText n).toList := hds ▸ List.mem_cons_self
    rw [Text.toList_natText] at hmem
    exact Text.isDigit_of_mem_numeral hmem
  rw [hds, List.cons_append] at hread ⊢
  rw [read_of_digit hd, hread, Option.map_some]

-- The fuel is a length that no part of the document exceeds, so that each level leaves enough for its parts.
mutual

theorem spells_pretty : ∀ (d : Document) (level fuel : Nat), (pretty level d).toList.length ≤ fuel →
    Spells (read (fuel + 1)) d (pretty level d).toList
  | .text t, level, fuel, _ => by
    rw [pretty, quote, String.toList_ofList]
    exact spells_text t fuel
  | .number n, level, fuel, _ => by
    rw [pretty]
    exact spells_number n fuel
  | .list elements, level, fuel, h => by
    rw [pretty] at h ⊢
    have hspells : List.Forall₂ (Spells (read fuel)) elements _ :=
      spells_prettyElements elements (level + 1) fuel fun _ ht =>
        Nat.lt_of_lt_of_le (length_lt_block (by decide) ht level) h
    have hclose : "]".toList = [']'] := rfl
    obtain ⟨within, hblock, hread⟩ := exists_block "[" hclose rfl (by decide) (skipsBlanks_read fuel)
      (fun _ => read_stops (.inl rfl)) hspells level
    rw [hblock]
    intro rest _
    exact congrArg (Option.map _) (hread rest)
  | .object members, level, fuel, h => by
    rw [pretty] at h ⊢
    have hspells : List.Forall₂ (Spells (readMember (read fuel))) members _ :=
      spells_prettyMembers members (level + 1) fuel fun _ ht =>
        Nat.lt_of_lt_of_le (length_lt_block (by decide) ht level) h
    have hclose : "\x7d".toList = ['\x7d'] := rfl
    obtain ⟨within, hblock, hread⟩ := exists_block "\x7b" hclose rfl (by decide)
      (skipsBlanks_readMember (read fuel)) (fun _ => readMember_stops) hspells level
    rw [hblock]
    intro rest _
    exact congrArg (Option.map _) (hread rest)

theorem spells_prettyElements : ∀ (ds : List Document) (level fuel : Nat),
    (∀ t ∈ prettyElements level ds, t.toList.length < fuel) →
      List.Forall₂ (Spells (read fuel)) ds ((prettyElements level ds).map String.toList)
  | [], _, _, _ => .nil
  | d :: ds, level, 0, h => absurd (h _ List.mem_cons_self) (Nat.not_lt_zero _)
  | d :: ds, level, fuel + 1, h => by
    rw [prettyElements] at h ⊢
    obtain ⟨hd, hds⟩ := List.forall_mem_cons.mp h
    exact .cons (spells_pretty d level fuel (Nat.le_of_lt_succ hd))
      (spells_prettyElements ds level (fuel + 1) hds)

theorem spells_prettyMembers : ∀ (ms : List (String × Document)) (level fuel : Nat),
    (∀ t ∈ prettyMembers level ms, t.toList.length < fuel) →
      List.Forall₂ (Spells (readMember (read fuel))) ms ((prettyMembers level ms).map String.toList)
  | [], _, _, _ => .nil
  | m :: ms, level, 0, h => absurd (h _ List.mem_cons_self) (Nat.not_lt_zero _)
  | (name, d) :: ms, level, fuel + 1, h => by
    rw [prettyMembers] at h ⊢
    obtain ⟨hd, hms⟩ := List.forall_mem_cons.mp h
    have hname : (quote name ++ ": " ++ pretty level d).toList =
        quoteChars name ++ (':' :: ' ' :: (pretty level d).toList) := by
      simp [quote]
    have hvalue : (pretty level d).toList.length ≤ fuel := by
      rw [hname] at hd
      simp only [List.length_append, List.length_cons] at hd
      omega
    refine .cons ?_ (spells_prettyMembers ms level (fuel + 1) hms)
    rw [hname]
    exact spells_readMember (spells_pretty d level fuel hvalue) (skipsBlanks_read _) name

end

theorem ofText?_pretty (d : Document) : ofText? (d.pretty 0 ++ "\n") = some d := by
  have hlength : (pretty 0 d).toList.length ≤ (d.pretty 0 ++ "\n").length := by
    rw [← String.length_toList, String.toList_append, List.length_append]
    exact Nat.le_add_right _ _
  have hend : ∀ c ∈ "\n".toList.head?, c.isDigit = false := by
    rintro c ⟨⟩
    rfl
  have hread : read _ ((pretty 0 d).toList ++ "\n".toList) = some (d, "\n".toList) :=
    spells_pretty d 0 _ hlength _ hend
  rw [ofText?, String.toList_append, hread]
  rfl

end MessageCatalog.Json.Document
