import Mathlib.Tactic.SplitIfs
import MessageCatalog.Json.Text
import MessageCatalog.Proofs.Text.Hex

namespace MessageCatalog.Json

open Text (hexValue? unit?)

variable {c : Char} {rest : List Char}

theorem skipBlank_cons (h : isBlank c = false) (cs : List Char) : skipBlank (c :: cs) = c :: cs :=
  List.dropWhile_cons_of_neg (by rw [h]; exact Bool.false_ne_true)

theorem skipBlank_append {blanks : List Char} (h : ∀ c ∈ blanks, isBlank c = true) (cs : List Char) :
    skipBlank (blanks ++ cs) = skipBlank cs :=
  List.dropWhile_append_of_pos h

theorem readChars_shortEscape {x : Char} (h : shortEscape? x = some c) :
    readChars ('\\' :: x :: rest) = (readChars rest).map fun r => (c :: r.1, r.2) := by
  have hx : x ≠ 'u' := by
    rintro rfl
    cases h
  rw [readChars, h]
  · rintro a b c d cs rfl
    exact absurd rfl hx
  · exact hx

theorem readChars_unit {p q r s : Char} (h : unit? p q r s = some c.toNat) (hc : c.toNat < 0xD800) :
    readChars ('\\' :: 'u' :: p :: q :: r :: s :: rest) = (readChars rest).map fun r => (c :: r.1, r.2) := by
  have hhigh : Text.isHighSurrogate c.toNat = false := by
    simp only [Text.isHighSurrogate, Bool.and_eq_false_iff, decide_eq_false_iff_not]
    omega
  rw [readChars, h]
  simp only [hhigh, Bool.false_eq_true, if_false, Text.ofUnit?_toNat]

theorem readChars_plain (hq : c ≠ '"') (hb : c ≠ '\\') (hc : 32 ≤ c.toNat) :
    readChars (c :: rest) = (readChars rest).map fun r => (c :: r.1, r.2) := by
  rw [readChars, if_neg (by omega)]
  · exact hq
  all_goals
    intros
    exact hb ‹_›

theorem hexValue_hex {n : Nat} (hn : n < 32) :
    (Text.hex n).map hexValue? = if n < 16 then [some n] else [some (n / 16), some (n % 16)] := by
  have hall : ∀ i : Fin 32, (Text.hex i).map hexValue? =
      if i.val < 16 then [some i.val] else [some (i.val / 16), some (i.val % 16)] := by decide
  exact hall ⟨n, hn⟩

theorem escape_cases (c : Char) :
    (∃ x, escape c = ['\\', x] ∧ shortEscape? x = some c) ∨
    (∃ r s, escape c = ['\\', 'u', '0', '0', r, s] ∧ unit? '0' '0' r s = some c.toNat ∧ c.toNat < 32) ∨
    (escape c = [c] ∧ c ≠ '"' ∧ c ≠ '\\' ∧ 32 ≤ c.toNat) := by
  have hzero : Text.WritesDigit 0 '0' := .inl rfl
  unfold escape
  split_ifs with hquote hslash hback hfeed hline hreturn htab h16 h32
  · subst hquote
    exact .inl ⟨'"', rfl, rfl⟩
  · subst hslash
    exact .inl ⟨'\\', rfl, rfl⟩
  · subst hback
    exact .inl ⟨'b', rfl, rfl⟩
  · subst hfeed
    exact .inl ⟨'f', rfl, rfl⟩
  · subst hline
    exact .inl ⟨'n', rfl, rfl⟩
  · subst hreturn
    exact .inl ⟨'r', rfl, rfl⟩
  · subst htab
    exact .inl ⟨'t', rfl, rfl⟩
  · have hhex := hexValue_hex (n := c.toNat) (by omega)
    rw [if_pos h16] at hhex
    obtain ⟨s, hs, hvalue⟩ := List.map_eq_singleton_iff.mp hhex
    rw [hs]
    refine .inr (.inl ⟨'0', s, rfl, ?_, by omega⟩)
    rw [Text.unit?_of_writesDigits hzero hzero hzero (Text.writesDigit_of_hexValue? hvalue)]
    congr 1
    omega
  · have hhex := hexValue_hex h32
    rw [if_neg h16] at hhex
    obtain ⟨r, _, hrest, hr, hdigit⟩ := List.map_eq_cons_iff.mp hhex
    obtain ⟨s, rfl, hs⟩ := List.map_eq_singleton_iff.mp hdigit
    rw [hrest]
    refine .inr (.inl ⟨r, s, rfl, ?_, h32⟩)
    rw [Text.unit?_of_writesDigits hzero hzero (Text.writesDigit_of_hexValue? hr)
      (Text.writesDigit_of_hexValue? hs)]
    congr 1
    omega
  · exact .inr (.inr ⟨rfl, hquote, hslash, by omega⟩)

theorem readChars_escape (c : Char) (rest : List Char) :
    readChars (escape c ++ rest) = (readChars rest).map fun r => (c :: r.1, r.2) := by
  rcases escape_cases c with ⟨x, h, hx⟩ | ⟨r, s, h, hu, hc⟩ | ⟨h, hq, hb, hc⟩
  · rw [h]
    exact readChars_shortEscape hx
  · rw [h]
    exact readChars_unit hu (by omega)
  · rw [h]
    exact readChars_plain hq hb hc

theorem readChars_escaped (cs rest : List Char) :
    readChars (cs.flatMap escape ++ '"' :: rest) = .ok (cs, rest) := by
  induction cs with
  | nil => rw [List.flatMap_nil, List.nil_append, readChars]
  | cons c cs ih =>
    rw [List.flatMap_cons, List.append_assoc, readChars_escape, ih]
    rfl

theorem quoteChars_append (t : String) (rest : List Char) :
    quoteChars t ++ rest = '"' :: (t.toList.flatMap escape ++ '"' :: rest) := by
  simp [quoteChars]

theorem readText_escaped (t : String) (rest : List Char) :
    readText (t.toList.flatMap escape ++ '"' :: rest) = .ok (t, rest) := by
  rw [readText, readChars_escaped]
  simp [Except.map]

end MessageCatalog.Json
