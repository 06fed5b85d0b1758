import MessageCatalog.Message.Pattern

namespace MessageCatalog

open Text (Mark Run)

namespace PlaceholderTexts

def addAll (t : PlaceholderTexts) (cs : List Char) (part : PlaceholderPart) : PlaceholderTexts :=
  cs.foldl (fun t c => t.add c part) t

theorem addAll_index (t : PlaceholderTexts) (cs : List Char) :
    t.addAll cs .index = { t with index := cs.reverse ++ t.index } := by
  induction cs generalizing t with
  | nil => rfl
  | cons c cs ih =>
    rw [addAll, List.foldl_cons]
    apply (ih (t.add c .index)).trans
    simp [add]

theorem addAll_keyword (t : PlaceholderTexts) (cs : List Char) :
    t.addAll cs .keyword = { t with keyword := cs.reverse ++ t.keyword } := by
  induction cs generalizing t with
  | nil => rfl
  | cons c cs ih =>
    rw [addAll, List.foldl_cons]
    apply (ih (t.add c .keyword)).trans
    simp [add]

theorem addAll_modifier (t : PlaceholderTexts) (cs : List Char) :
    t.addAll cs .modifier = { t with modifier := cs.reverse ++ t.modifier } := by
  induction cs generalizing t with
  | nil => rfl
  | cons c cs ih =>
    rw [addAll, List.foldl_cons]
    apply (ih (t.add c .modifier)).trans
    simp [add]

end PlaceholderTexts

namespace MessagePattern

variable {part : PlaceholderPart} {t : PlaceholderTexts} {depth : Nat} {quoted : Bool} {c : Char}
  {cs rest : List Char}

theorem scan_text_doubled (quoted : Bool) (cs : List Char) :
    scan (.text quoted) ('\'' :: '\'' :: cs) = (scan (.text quoted) cs).map (.char '\'' :: ·) id := by
  rw [scan]

theorem scan_text_apostrophe (h : cs.head? ≠ some '\'') :
    scan (.text quoted) ('\'' :: cs) = scan (.text (!quoted)) cs := by
  rw [scan, if_pos rfl]
  rintro rest hc rfl
  exact h rfl

theorem scan_text_brace (h : cs.head? ≠ some '%') :
    scan (.text false) ('\x7b' :: cs) = scan (.placeholder .index .empty 0 false) cs := by
  rw [scan]
  · simp [h]
  · intro rest hc
    contradiction

theorem scan_text_char (hc : c ≠ '\'') (hb : c = '\x7b' → quoted = true ∨ cs.head? = some '%') :
    scan (.text quoted) (c :: cs) = (scan (.text quoted) cs).map (.char c :: ·) id := by
  rw [scan, if_neg hc, if_neg]
  · rintro ⟨rfl, hq, hp⟩
    rcases hb rfl with h | h
    · simp [h] at hq
    · exact hp h
  · intro rest h
    exact absurd h hc

theorem scan_placeholder_cons :
    scan (.placeholder part t depth quoted) (c :: cs) =
      if c = '\'' then scan (.placeholder part t depth (!quoted)) cs
      else if quoted then scan (.placeholder part (t.add c part) depth true) cs
      else if c = ',' ∧ part ≠ .modifier then
        scan (.placeholder (part.next?.getD part) t depth false) cs
      else if c = '\x7b' then scan (.placeholder part (t.add c part) (depth + 1) false) cs
      else if c = '\x7d' then
        match depth with
        | 0 => (scan (.text false) cs).map (.item t :: ·) id
        | depth + 1 => scan (.placeholder part (t.add c part) depth false) cs
      else if c = ' ' ∧ part = .keyword ∧ t.keyword.isEmpty then
        scan (.placeholder part t depth false) cs
      else scan (.placeholder part (t.add c part) depth false) cs := by
  cases depth <;> rw [scan]

theorem scan_placeholder_apostrophe :
    scan (.placeholder part t depth quoted) ('\'' :: cs) =
      scan (.placeholder part t depth (!quoted)) cs := by
  rw [scan_placeholder_cons, if_pos rfl]

theorem scan_placeholder_quoted (hc : c ≠ '\'') :
    scan (.placeholder part t depth true) (c :: cs) =
      scan (.placeholder part (t.add c part) depth true) cs := by
  rw [scan_placeholder_cons, if_neg hc, if_pos rfl]

theorem scan_placeholder_comma (h : part ≠ .modifier) :
    scan (.placeholder part t depth false) (',' :: cs) =
      scan (.placeholder (part.next?.getD part) t depth false) cs := by
  simp [scan_placeholder_cons, h]

theorem scan_placeholder_open :
    scan (.placeholder part t depth false) ('\x7b' :: cs) =
      scan (.placeholder part (t.add '\x7b' part) (depth + 1) false) cs := by
  simp [scan_placeholder_cons]

theorem scan_placeholder_close :
    scan (.placeholder part t (depth + 1) false) ('\x7d' :: cs) =
      scan (.placeholder part (t.add '\x7d' part) depth false) cs := by
  simp [scan_placeholder_cons]

theorem scan_placeholder_end :
    scan (.placeholder part t 0 false) ('\x7d' :: cs) =
      (scan (.text false) cs).map (.item t :: ·) id := by
  simp [scan_placeholder_cons]

theorem scan_placeholder_space (h : t.keyword = []) :
    scan (.placeholder .keyword t depth false) (' ' :: cs) =
      scan (.placeholder .keyword t depth false) cs := by
  simp [scan_placeholder_cons, h]

theorem scan_placeholder_char (ha : c ≠ '\'') (hc : c = ',' → part = .modifier) (ho : c ≠ '\x7b')
    (he : c ≠ '\x7d') (hs : c = ' ' → part = .keyword → t.keyword ≠ []) :
    scan (.placeholder part t depth false) (c :: cs) =
      scan (.placeholder part (t.add c part) depth false) cs := by
  have hcomma : ¬(c = ',' ∧ part ≠ .modifier) := fun h => h.2 (hc h.1)
  have hspace : ¬(c = ' ' ∧ part = .keyword ∧ t.keyword.isEmpty) := by
    rintro ⟨h, hp, ht⟩
    exact hs h hp (List.isEmpty_iff.mp ht)
  simp only [scan_placeholder_cons, ha, hcomma, ho, he, hspace, if_false, Bool.false_eq_true]

theorem scan_placeholder_quotation (h : '\'' ∉ cs) :
    scan (.placeholder part t depth false) ('\'' :: (cs ++ '\'' :: rest)) =
      scan (.placeholder part (t.addAll cs part) depth false) rest := by
  rw [scan_placeholder_apostrophe]
  induction cs generalizing t with
  | nil => exact scan_placeholder_apostrophe
  | cons c cs ih =>
    have hc : c ≠ '\'' := fun hc => h (hc ▸ List.mem_cons_self)
    rw [List.cons_append, Bool.not_false, scan_placeholder_quoted hc]
    exact ih fun hcs => h (List.mem_cons_of_mem _ hcs)

theorem scan_placeholder_plain
    (h : ∀ c ∈ cs, c ≠ '\'' ∧ c ≠ ',' ∧ c ≠ '\x7b' ∧ c ≠ '\x7d')
    (hs : part = .keyword → t.keyword = [] → cs.head? ≠ some ' ') :
    scan (.placeholder part t depth false) (cs ++ rest) =
      scan (.placeholder part (t.addAll cs part) depth false) rest := by
  induction cs generalizing t with
  | nil => rfl
  | cons c cs ih =>
    obtain ⟨ha, hc, ho, he⟩ := h c List.mem_cons_self
    have hspace : c = ' ' → part = .keyword → t.keyword ≠ [] := by
      rintro rfl hp ht
      exact hs hp ht rfl
    rw [List.cons_append, scan_placeholder_char ha (fun h => absurd h hc) ho he hspace]
    apply ih
    · exact fun d hd => h d (List.mem_cons_of_mem _ hd)
    · rintro rfl ht
      cases ht

end MessagePattern

end MessageCatalog
