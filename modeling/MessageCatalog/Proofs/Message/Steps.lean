import MessageCatalog.Proofs.Message.Scan
import MessageCatalog.Proofs.Traversal

/-!
The scan of a message pattern as a run of steps. A step reads one character, or two apostrophes together,
and what it does to a text or a placeholder is one of few things; what a run keeps or does is proved of its
steps. A pattern compiles if the marks of its run do, and the run ends in a text.
-/

namespace MessageCatalog.MessagePattern

open Text (Mark Run)
open Traversal

inductive IsKept (part : PlaceholderPart) (t : PlaceholderTexts) : Nat → Bool → Char → Nat → Prop
  | quoted (depth : Nat) (c : Char) : IsKept part t depth true c depth
  | opening (depth : Nat) : IsKept part t depth false '\x7b' (depth + 1)
  | closing (depth : Nat) : IsKept part t (depth + 1) false '\x7d' depth
  | plain (depth : Nat) {c : Char} (hc : c = ',' → part = .modifier) (ho : c ≠ '\x7b') (he : c ≠ '\x7d')
      (hs : c = ' ' → part = .keyword → t.keyword ≠ []) : IsKept part t depth false c depth

inductive IsDropped (t : PlaceholderTexts) : PlaceholderPart → Char → PlaceholderPart → Prop
  | comma {part : PlaceholderPart} (h : part ≠ .modifier) : IsDropped t part ',' (part.next?.getD part)
  | space (h : t.keyword = []) : IsDropped t .keyword ' ' .keyword

inductive ScanStep :
    PatternScan → List Char → List (Mark PlaceholderTexts) → PatternScan → List Char → Prop
  | doubled (quoted : Bool) (cs : List Char) :
    ScanStep (.text quoted) ('\'' :: '\'' :: cs) [.char '\''] (.text quoted) cs
  | apostrophe (quoted : Bool) {cs : List Char} (h : cs.head? ≠ some '\'') :
    ScanStep (.text quoted) ('\'' :: cs) [] (.text (!quoted)) cs
  | brace {cs : List Char} (h : cs.head? ≠ some '%') :
    ScanStep (.text false) ('\x7b' :: cs) [] (.placeholder .index .empty 0 false) cs
  | char {quoted : Bool} {c : Char} {cs : List Char} (hc : c ≠ '\'')
      (hb : c = '\x7b' → quoted = true ∨ cs.head? = some '%') :
    ScanStep (.text quoted) (c :: cs) [.char c] (.text quoted) cs
  | turn (part : PlaceholderPart) (t : PlaceholderTexts) (depth : Nat) (quoted : Bool) (cs : List Char) :
    ScanStep (.placeholder part t depth quoted) ('\'' :: cs) [] (.placeholder part t depth (!quoted)) cs
  | keep {part : PlaceholderPart} {t : PlaceholderTexts} {depth depth' : Nat} {quoted : Bool} {c : Char}
      (hc : c ≠ '\'') (h : IsKept part t depth quoted c depth') (cs : List Char) :
    ScanStep (.placeholder part t depth quoted) (c :: cs) []
      (.placeholder part (t.add c part) depth' quoted) cs
  | drop {part part' : PlaceholderPart} {t : PlaceholderTexts} {c : Char} (depth : Nat)
      (h : IsDropped t part c part') (cs : List Char) :
    ScanStep (.placeholder part t depth false) (c :: cs) [] (.placeholder part' t depth false) cs
  | close (part : PlaceholderPart) (t : PlaceholderTexts) (cs : List Char) :
    ScanStep (.placeholder part t 0 false) ('\x7d' :: cs) [.item t] (.text false) cs

inductive ScanRun : PatternScan → List Char → List (Mark PlaceholderTexts) → PatternScan → Prop
  | nil (s : PatternScan) : ScanRun s [] [] s
  | step {s s' last : PatternScan} {cs rest : List Char} {ms later : List (Mark PlaceholderTexts)}
      (h : ScanStep s cs ms s' rest) (hrest : ScanRun s' rest later last) :
    ScanRun s cs (ms ++ later) last

variable {s s' last : PatternScan} {cs rest : List Char} {ms : List (Mark PlaceholderTexts)}
  {part part' : PlaceholderPart} {t : PlaceholderTexts} {depth depth' : Nat} {quoted : Bool} {c : Char}

theorem ScanStep.length_lt (h : ScanStep s cs ms s' rest) : rest.length < cs.length := by
  cases h <;> simp +arith

theorem IsKept.scan_eq (hc : c ≠ '\'') (h : IsKept part t depth quoted c depth') (cs : List Char) :
    scan (.placeholder part t depth quoted) (c :: cs) =
      scan (.placeholder part (t.add c part) depth' quoted) cs := by
  cases h with
  | quoted => exact scan_placeholder_quoted hc
  | opening => exact scan_placeholder_open
  | closing => exact scan_placeholder_close
  | plain _ hcomma ho he hs => exact scan_placeholder_char hc hcomma ho he hs

theorem IsDropped.scan_eq (h : IsDropped t part c part') (depth : Nat) (cs : List Char) :
    scan (.placeholder part t depth false) (c :: cs) = scan (.placeholder part' t depth false) cs := by
  cases h with
  | comma h => exact scan_placeholder_comma h
  | space h => exact scan_placeholder_space h

theorem ScanStep.scan_eq (h : ScanStep s cs ms s' rest) :
    scan s cs = (scan s' rest).map (ms ++ ·) id := by
  cases h with
  | doubled quoted => exact scan_text_doubled quoted rest
  | apostrophe quoted h => exact scan_text_apostrophe h
  | brace h => exact scan_text_brace h
  | char hc hb => exact scan_text_char hc hb
  | turn => exact scan_placeholder_apostrophe
  | keep hc h => exact h.scan_eq hc rest
  | drop depth h => exact h.scan_eq depth rest
  | close => exact scan_placeholder_end

theorem exists_scanStep_text (quoted : Bool) (c : Char) (cs : List Char) :
    ∃ ms s' rest, ScanStep (.text quoted) (c :: cs) ms s' rest := by
  by_cases hc : c = '\''
  · subst hc
    by_cases hd : cs.head? = some '\''
    · obtain ⟨rest, rfl⟩ := List.head?_eq_some_iff.mp hd
      exact ⟨_, _, _, .doubled quoted rest⟩
    · exact ⟨_, _, _, .apostrophe quoted hd⟩
  · by_cases hb : c = '\x7b' → quoted = true ∨ cs.head? = some '%'
    · exact ⟨_, _, _, .char hc hb⟩
    · obtain ⟨rfl, hq, hp⟩ : c = '\x7b' ∧ quoted = false ∧ cs.head? ≠ some '%' := by simpa using hb
      subst hq
      exact ⟨_, _, _, .brace hp⟩

theorem exists_scanStep_placeholder (part : PlaceholderPart) (t : PlaceholderTexts) (depth : Nat)
    (quoted : Bool) (c : Char) (cs : List Char) :
    ∃ ms s' rest, ScanStep (.placeholder part t depth quoted) (c :: cs) ms s' rest := by
  by_cases ha : c = '\''
  · subst ha
    exact ⟨_, _, _, .turn part t depth quoted cs⟩
  cases quoted with
  | true => exact ⟨_, _, _, .keep ha (.quoted depth c) cs⟩
  | false =>
    by_cases hc : c = ',' ∧ part ≠ .modifier
    · obtain ⟨rfl, hpart⟩ := hc
      exact ⟨_, _, _, .drop depth (.comma hpart) cs⟩
    by_cases ho : c = '\x7b'
    · subst ho
      exact ⟨_, _, _, .keep ha (.opening depth) cs⟩
    by_cases he : c = '\x7d'
    · subst he
      cases depth with
      | zero => exact ⟨_, _, _, .close part t cs⟩
      | succ depth => exact ⟨_, _, _, .keep ha (.closing depth) cs⟩
    by_cases hs : c = ' ' ∧ part = .keyword ∧ t.keyword = []
    · obtain ⟨rfl, rfl, ht⟩ := hs
      exact ⟨_, _, _, .drop depth (.space ht) cs⟩
    have hcomma : c = ',' → part = .modifier := fun h => by simpa [h] using hc
    have hspace : c = ' ' → part = .keyword → t.keyword ≠ [] := fun h hp ht => hs ⟨h, hp, ht⟩
    exact ⟨_, _, _, .keep ha (.plain depth hcomma ho he hspace) cs⟩

theorem exists_scanStep (s : PatternScan) (c : Char) (cs : List Char) :
    ∃ ms s' rest, ScanStep s (c :: cs) ms s' rest := by
  cases s with
  | text quoted => exact exists_scanStep_text quoted c cs
  | placeholder part t depth quoted => exact exists_scanStep_placeholder part t depth quoted c cs

theorem ScanRun.scan_eq (h : ScanRun s cs ms last) : scan s cs = (ms, last) := by
  induction h with
  | nil s => rw [scan]
  | step h _ ih =>
    rw [h.scan_eq, ih]
    rfl

theorem ScanRun.last_of_nil (h : ScanRun s [] ms last) : last = s := by
  have hscan := h.scan_eq
  rw [scan] at hscan
  cases hscan
  rfl

theorem scanRun_scan (s : PatternScan) (cs : List Char) : ScanRun s cs (scan s cs).1 (scan s cs).2 := by
  -- a step can read two characters
  induction hn : cs.length using Nat.strongRecOn generalizing s cs with
  | ind n ih =>
    cases cs with
    | nil =>
      rw [scan]
      exact .nil s
    | cons c cs =>
      obtain ⟨ms, s', rest, h⟩ := exists_scanStep s c cs
      rw [h.scan_eq]
      exact .step h (ih rest.length (hn ▸ h.length_lt) s' rest rfl)

section Compiling

variable {segments : List Segment} {e : PatternProblem} {source : String} {l : Locale} {p : MessagePattern}

theorem segmentsOf_eq_ok_iff : segmentsOf cs = .ok segments ↔
    ∃ marks, (scan (.text false) cs).1.mapM compileMark = .ok marks ∧
      (∃ quoted, (scan (.text false) cs).2 = .text quoted) ∧ segments = Run.ofMarks marks := by
  rw [segmentsOf, bind_eq_ok_iff]
  apply exists_congr
  intro marks
  apply and_congr_right
  intro _
  cases (scan (.text false) cs).2 with
  | text quoted => simp [pure, Except.pure, eq_comm]
  | placeholder part t depth quoted => simp

theorem segmentsOf_eq_error_iff : segmentsOf cs = .error e ↔
    (scan (.text false) cs).1.mapM compileMark = .error e ∨
      (∃ marks, (scan (.text false) cs).1.mapM compileMark = .ok marks) ∧
        (∀ quoted, (scan (.text false) cs).2 ≠ .text quoted) ∧ e = .unmatchedBraces := by
  rw [segmentsOf, bind_eq_error_iff, exists_and_right.symm]
  apply or_congr_right
  apply exists_congr
  intro marks
  apply and_congr_right
  intro _
  cases (scan (.text false) cs).2 with
  | text quoted => simp [pure, Except.pure]
  | placeholder part t depth quoted => simp [eq_comm]

theorem compile_eq_ok_iff : compile source l = .ok p ↔
    ∃ segments, segmentsOf source.toList = .ok segments ∧ ⟨source, l, segments⟩ = p :=
  map_eq_ok_iff

theorem compile_eq_error_iff : compile source l = .error e ↔ segmentsOf source.toList = .error e :=
  map_eq_error_iff

end Compiling

end MessageCatalog.MessagePattern
