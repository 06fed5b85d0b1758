import MessageCatalog.Message.Range

namespace MessageCatalog

open Text (Mark)

def RangePart.next? : RangePart → Option RangePart
  | .start => some .separator
  | .separator => some .stop
  | .stop => none

namespace RangeBlock

def addAll (b : RangeBlock) (cs : List Char) (part : RangePart) : RangeBlock :=
  cs.foldl (fun b c => b.add c part) b

theorem addAll_eq (b : RangeBlock) (cs : List Char) (part : RangePart) :
    b.addAll cs part =
      match part with
      | .start => { b with start := cs.reverse ++ b.start }
      | .separator => { b with separator := cs.reverse ++ b.separator }
      | .stop => { b with stop := cs.reverse ++ b.stop } := by
  induction cs generalizing b with
  | nil => cases part <;> rfl
  | cons c cs ih =>
    rw [addAll, List.foldl_cons]
    apply (ih (b.add c part)).trans
    cases part <;> simp [add]

end RangeBlock

namespace RangePattern

variable {part : RangePart} {b : RangeBlock} {quoted : Bool} {c : Char} {cs rest : List Char}

theorem scan_text_apostrophe :
    scan (.text quoted) ('\'' :: cs) = scan (.text (!quoted)) cs := by
  rw [scan, if_pos rfl]

theorem scan_text_brace :
    scan (.text false) ('\x7b' :: cs) = scan (.block .start .empty false) cs := by
  simp [scan]

theorem scan_text_char (hc : c ≠ '\'') (hb : c = '\x7b' → quoted = true) :
    scan (.text quoted) (c :: cs) = (scan (.text quoted) cs).map (.char c :: ·) id := by
  rw [scan, if_neg hc, if_neg]
  rintro ⟨rfl, hq⟩
  simp [hb rfl] at hq

theorem scan_block_cons :
    scan (.block part b quoted) (c :: cs) =
      if c = '\'' then scan (.block part b (!quoted)) cs
      else if quoted then scan (.block part (b.add c part) true) cs
      else if c = '\x7d' then (scan (.text false) cs).map (.item b :: ·) id
      else
        match if c = ';' then part.next? else none with
        | some next => scan (.block next b false) cs
        | none => scan (.block part (b.add c part) false) cs := by
  by_cases hc : c = ';'
  · subst hc
    cases part <;> simp [scan, RangePart.next?]
  · rw [scan, if_neg hc]
    · exact fun h => absurd h hc
    · exact fun h => absurd h hc

theorem scan_block_apostrophe :
    scan (.block part b quoted) ('\'' :: cs) = scan (.block part b (!quoted)) cs := by
  rw [scan_block_cons, if_pos rfl]

theorem scan_block_quoted (hc : c ≠ '\'') :
    scan (.block part b true) (c :: cs) = scan (.block part (b.add c part) true) cs := by
  rw [scan_block_cons, if_neg hc, if_pos rfl]

theorem scan_block_end :
    scan (.block part b false) ('\x7d' :: cs) = (scan (.text false) cs).map (.item b :: ·) id := by
  simp [scan_block_cons]

theorem scan_block_next {next : RangePart} (h : part.next? = some next) :
    scan (.block part b false) (';' :: cs) = scan (.block next b false) cs := by
  simp [scan_block_cons, h]

theorem scan_block_char (hc : c ≠ '\'') (he : c ≠ '\x7d') (hs : c ≠ ';') :
    scan (.block part b false) (c :: cs) = scan (.block part (b.add c part) false) cs := by
  simp only [scan_block_cons, hc, he, hs, if_false, Bool.false_eq_true]

theorem scan_text_quotation (h : '\'' ∉ cs) :
    scan (.text false) ('\'' :: (cs ++ '\'' :: rest)) =
      (scan (.text false) rest).map (cs.map Mark.char ++ ·) id := by
  rw [scan_text_apostrophe, Bool.not_false]
  induction cs with
  | nil => exact scan_text_apostrophe
  | cons c cs ih =>
    have hc : c ≠ '\'' := fun hc => h (hc ▸ List.mem_cons_self)
    rw [List.cons_append, scan_text_char hc fun _ => rfl, ih fun hcs => h (List.mem_cons_of_mem _ hcs)]
    rfl

theorem scan_block_quotation (h : '\'' ∉ cs) :
    scan (.block part b false) ('\'' :: (cs ++ '\'' :: rest)) =
      scan (.block part (b.addAll cs part) false) rest := by
  rw [scan_block_apostrophe, Bool.not_false]
  induction cs generalizing b with
  | nil => exact scan_block_apostrophe
  | cons c cs ih =>
    have hc : c ≠ '\'' := fun hc => h (hc ▸ List.mem_cons_self)
    rw [List.cons_append, scan_block_quoted hc]
    exact ih fun hcs => h (List.mem_cons_of_mem _ hcs)

theorem scan_block_plain (h : ∀ c ∈ cs, c ≠ '\'' ∧ c ≠ ';' ∧ c ≠ '\x7d') :
    scan (.block part b false) (cs ++ rest) = scan (.block part (b.addAll cs part) false) rest := by
  induction cs generalizing b with
  | nil => rfl
  | cons c cs ih =>
    obtain ⟨ha, hs, he⟩ := h c List.mem_cons_self
    rw [List.cons_append, scan_block_char ha he hs]
    exact ih fun d hd => h d (List.mem_cons_of_mem _ hd)

end RangePattern

end MessageCatalog
