import MessageCatalog.Proofs.Bundle.PropertyLines
import MessageCatalog.Proofs.Text.Hex

namespace MessageCatalog.Properties

inductive SpellsUnit : Nat → List Char → Prop where
  | digits {a b c d : Nat} {p q r s : Char} (hp : Text.WritesDigit a p) (hq : Text.WritesDigit b q)
      (hr : Text.WritesDigit c r) (hs : Text.WritesDigit d s) :
      SpellsUnit (((a * 16 + b) * 16 + c) * 16 + d) ['\\', 'u', p, q, r, s]

/-- The ways to write a character. A reserved one does not stand for itself. -/
inductive Spells (reserved : List Char) : Char → List Char → Prop where
  | plain {c : Char} (hc : c ∉ ['\\', '\n', '\r']) (hr : c ∉ reserved) : Spells reserved c [c]
  | escaped {c : Char} (hc : c ∉ ['t', 'n', 'r', 'f', 'u', '\n', '\r']) : Spells reserved c ['\\', c]
  | tab : Spells reserved '\t' ['\\', 't']
  | lineFeed : Spells reserved '\n' ['\\', 'n']
  | carriageReturn : Spells reserved '\r' ['\\', 'r']
  | formFeed : Spells reserved '\x0c' ['\\', 'f']
  | unit {c : Char} {n : Nat} {e : List Char} (hc : Text.units c = [n]) (he : SpellsUnit n e) :
      Spells reserved c e
  | pair {c : Char} {high low : Nat} {e f : List Char} (hc : Text.units c = [high, low])
      (he : SpellsUnit high e) (hf : SpellsUnit low f) : Spells reserved c (e ++ f)

inductive Writes (later : List Char) : List Char → List Char → List Char → Prop where
  | nil {first : List Char} : Writes later first [] []
  | cons {first cs e es : List Char} {c : Char} (hc : Spells first c e) (hs : Writes later later cs es) :
      Writes later first (c :: cs) (e ++ es)

theorem exists_spellsUnit {n : Nat} (h : n < 0x10000) : ∃ e, SpellsUnit n e := by
  have hdigit (d : Nat) (hd : d < 16) : Text.WritesDigit d (Text.lowerDigits.get ⟨d, hd⟩) :=
    .inl (List.getElem?_eq_getElem hd)
  have hn : ((n / 4096 * 16 + n / 256 % 16) * 16 + n / 16 % 16) * 16 + n % 16 = n := by omega
  rw [← hn]
  exact ⟨_, .digits (hdigit (n / 4096) (by omega)) (hdigit _ (Nat.mod_lt _ (by decide)))
    (hdigit _ (Nat.mod_lt _ (by decide))) (hdigit _ (Nat.mod_lt _ (by decide)))⟩

theorem exists_spells (reserved : List Char) (c : Char) : ∃ e, Spells reserved c e := by
  have hv := Text.toNat_valid c
  by_cases hc : c.toNat < 0x10000
  · obtain ⟨e, he⟩ := exists_spellsUnit hc
    exact ⟨e, .unit (if_pos hc) he⟩
  · have hhigh : 0xD800 + (c.toNat - 0x10000) / 0x400 < 0x10000 := by omega
    have hlow : 0xDC00 + (c.toNat - 0x10000) % 0x400 < 0x10000 := by omega
    obtain ⟨e, he⟩ := exists_spellsUnit hhigh
    obtain ⟨f, hf⟩ := exists_spellsUnit hlow
    exact ⟨e ++ f, .pair (if_neg hc) he hf⟩

theorem exists_writes (later first cs : List Char) : ∃ es, Writes later first cs es := by
  induction cs generalizing first with
  | nil => exact ⟨[], .nil⟩
  | cons c cs ih =>
    obtain ⟨e, he⟩ := exists_spells first c
    obtain ⟨es, hes⟩ := ih later
    exact ⟨e ++ es, .cons he hes⟩

theorem SpellsUnit.mem {n : Nat} {e : List Char} (h : SpellsUnit n e) {d : Char} (hd : d ∈ e) :
    d ∈ '\\' :: 'u' :: (Text.lowerDigits ++ Text.upperDigits) := by
  obtain ⟨hp, hq, hr, hs⟩ := h
  have hdigit {k : Nat} {p : Char} (h : Text.WritesDigit k p) :
      p ∈ '\\' :: 'u' :: (Text.lowerDigits ++ Text.upperDigits) :=
    List.mem_cons_of_mem _ (List.mem_cons_of_mem _ (Text.mem_digits_of_writesDigit h))
  simp only [List.mem_cons, List.not_mem_nil, or_false] at hd
  rcases hd with rfl | rfl | rfl | rfl | rfl | rfl
  · decide
  · decide
  · exact hdigit hp
  · exact hdigit hq
  · exact hdigit hr
  · exact hdigit hs

theorem SpellsUnit.ne_newline {n : Nat} {e : List Char} (h : SpellsUnit n e) {d : Char} (hd : d ∈ e) :
    d ≠ '\n' ∧ d ≠ '\r' := by
  have hm := h.mem hd
  constructor <;> rintro rfl <;> revert hm <;> decide

theorem Spells.ne_newline {reserved e : List Char} {c d : Char} (h : Spells reserved c e) (hd : d ∈ e) :
    d ≠ '\n' ∧ d ≠ '\r' := by
  have hescape {x : Char} (hx : x ≠ '\n' ∧ x ≠ '\r') (hd : d ∈ ['\\', x]) : d ≠ '\n' ∧ d ≠ '\r' := by
    simp only [List.mem_cons, List.not_mem_nil, or_false] at hd
    rcases hd with rfl | rfl
    · decide
    · exact hx
  cases h with
  | plain hc _ => simp_all
  | escaped hc => exact hescape (by simp_all) hd
  | unit _ he => exact he.ne_newline hd
  | pair _ he hf => exact (List.mem_append.mp hd).elim he.ne_newline hf.ne_newline
  | _ => exact hescape (by decide) hd

theorem Writes.ne_newline {later first cs es : List Char} {d : Char} (h : Writes later first cs es)
    (hd : d ∈ es) : d ≠ '\n' ∧ d ≠ '\r' := by
  induction h with
  | nil => cases hd
  | cons hc _ ih => exact (List.mem_append.mp hd).elim hc.ne_newline ih

theorem SpellsUnit.head {n : Nat} {e : List Char} (h : SpellsUnit n e) : ∃ t, e = '\\' :: t := by
  obtain ⟨_, _, _, _⟩ := h
  exact ⟨_, rfl⟩

theorem Spells.head {reserved e : List Char} {c : Char} (h : Spells reserved c e) :
    ∃ d t, e = d :: t ∧ (d = '\\' ∨ d ∉ reserved) := by
  cases h with
  | plain _ hr => exact ⟨c, [], rfl, .inr hr⟩
  | unit _ he =>
    obtain ⟨t, rfl⟩ := he.head
    exact ⟨_, t, rfl, .inl rfl⟩
  | pair _ he _ =>
    obtain ⟨t, rfl⟩ := he.head
    exact ⟨_, _, rfl, .inl rfl⟩
  | _ => exact ⟨_, _, rfl, .inl rfl⟩

theorem SpellsUnit.last {n : Nat} {e : List Char} (h : SpellsUnit n e) :
    ∃ t d, e = t ++ [d] ∧ d ≠ '\\' := by
  obtain ⟨_, _, _, hs⟩ := h
  refine ⟨['\\', 'u', _, _, _], _, rfl, ?_⟩
  rintro rfl
  exact absurd (Text.mem_digits_of_writesDigit hs) (by decide)

theorem Spells.continues_append {reserved e line : List Char} {c : Char} (h : Spells reserved c e)
    (hline : continues line = false) : continues (line ++ e) = false := by
  have hends {t : List Char} {d : Char} (hd : d ≠ '\\') : continues (line ++ (t ++ [d])) = false := by
    rw [← List.append_assoc, continues_concat hd]
  cases h with
  | plain hc _ => exact continues_concat (by simp_all) line
  | escaped _ =>
    by_cases hc : c = '\\'
    · rw [hc, continues_append_backslashes, hline]
    · exact hends (t := ['\\']) hc
  | unit _ he =>
    obtain ⟨t, d, rfl, hd⟩ := he.last
    exact hends hd
  | pair _ _ hf =>
    obtain ⟨t, d, rfl, hd⟩ := hf.last
    rw [← List.append_assoc _ t]
    exact hends hd
  | _ => exact hends (t := ['\\']) (by decide)

theorem Writes.continues_append {later first cs es line : List Char} (h : Writes later first cs es)
    (hline : continues line = false) : continues (line ++ es) = false := by
  induction h generalizing line with
  | nil => rw [List.append_nil, hline]
  | cons hc _ ih =>
    rw [← List.append_assoc]
    exact ih (hc.continues_append hline)

def letters (cs : List Char) : Option (List Letter) :=
  (pieces? cs).bind letters?

theorem letters_plain {c : Char} (hc : c ≠ '\\') (rest : List Char) :
    letters (c :: rest) = (letters rest).map (⟨c, false⟩ :: ·) := by
  have hp : pieces? (c :: rest) = (pieces? rest).map (.plain c :: ·) := by
    rw [pieces?] <;> intros <;> contradiction
  rw [letters, letters, hp]
  cases pieces? rest <;> rfl

theorem letters_escaped {c : Char} (hc : c ≠ 'u') (rest : List Char) :
    letters ('\\' :: c :: rest) = (letters rest).map (⟨escapedChar c, true⟩ :: ·) := by
  have hp : pieces? ('\\' :: c :: rest) = (pieces? rest).map (.escaped (escapedChar c) :: ·) := by
    rw [pieces?] <;> intros <;> contradiction
  rw [letters, letters, hp]
  cases pieces? rest <;> rfl

theorem escapedChar_of_not_mem {c : Char} (hc : c ∉ ['t', 'n', 'r', 'f']) : escapedChar c = c := by
  simp only [List.mem_cons, List.not_mem_nil, or_false, not_or] at hc
  simp only [escapedChar, hc, if_false]

theorem pieces?_unit {n : Nat} {e : List Char} (h : SpellsUnit n e) (rest : List Char) :
    pieces? (e ++ rest) = (pieces? rest).map (.unit n :: ·) := by
  obtain ⟨hp, hq, hr, hs⟩ := h
  simp only [List.cons_append, List.nil_append, pieces?, Text.unit?_of_writesDigits hp hq hr hs]
  cases pieces? rest <;> rfl

theorem letters_unit {c : Char} {n : Nat} {e : List Char} (hc : Text.units c = [n]) (he : SpellsUnit n e)
    (rest : List Char) : letters (e ++ rest) = (letters rest).map (⟨c, true⟩ :: ·) := by
  have hn : Text.ofUnit? n = some c := by
    rw [Text.units_eq_singleton hc, Text.ofUnit?_toNat]
  rw [letters, letters, pieces?_unit he]
  cases pieces? rest with
  | none => rfl
  | some ps =>
    rw [Option.map_some, Option.bind_some, Option.bind_some, letters?]
    exact hn

theorem letters_pair {c : Char} {high low : Nat} {e f : List Char} (hc : Text.units c = [high, low])
    (he : SpellsUnit high e) (hf : SpellsUnit low f) (rest : List Char) :
    letters (e ++ f ++ rest) = (letters rest).map (⟨c, true⟩ :: ·) := by
  have hhigh : Text.ofUnit? high = none := Text.ofUnit?_of_high (Text.isHighSurrogate_of_units hc)
  rw [letters, letters, List.append_assoc, pieces?_unit he, pieces?_unit hf]
  cases pieces? rest with
  | none => rfl
  | some ps =>
    simp only [Option.map_some, Option.bind_some, letters?, hhigh, Text.ofPair?_of_units hc]
    cases letters? ps <;> rfl

def Letter.Avoids (reserved : List Char) (l : Letter) : Prop :=
  l.isEscaped = false → l.char ∉ reserved

theorem letters_spells {reserved e : List Char} {c : Char} (h : Spells reserved c e) :
    ∃ l : Letter, l.char = c ∧ l.Avoids reserved ∧
      ∀ rest, letters (e ++ rest) = (letters rest).map (l :: ·) := by
  cases h with
  | plain hc hr => exact ⟨⟨c, false⟩, rfl, fun _ => hr, letters_plain (by simp_all)⟩
  | escaped hc =>
    have hchar : escapedChar c = c := escapedChar_of_not_mem (by simp_all)
    exact ⟨⟨escapedChar c, true⟩, hchar, nofun, letters_escaped (by simp_all)⟩
  | tab => exact ⟨⟨'\t', true⟩, rfl, nofun, letters_escaped (by decide)⟩
  | lineFeed => exact ⟨⟨'\n', true⟩, rfl, nofun, letters_escaped (by decide)⟩
  | carriageReturn => exact ⟨⟨'\r', true⟩, rfl, nofun, letters_escaped (by decide)⟩
  | formFeed => exact ⟨⟨'\x0c', true⟩, rfl, nofun, letters_escaped (by decide)⟩
  | unit hc he => exact ⟨⟨c, true⟩, rfl, nofun, letters_unit hc he⟩
  | pair hc he hf => exact ⟨⟨c, true⟩, rfl, nofun, letters_pair hc he hf⟩

theorem letters_writes {later first cs es : List Char} (h : Writes later first cs es) :
    ∃ ls : List Letter, ls.map Letter.char = cs ∧ (∀ l ∈ ls.head?, l.Avoids first) ∧
      (∀ l ∈ ls.tail, l.Avoids later) ∧
        ∀ rest, letters (es ++ rest) = (letters rest).map (ls ++ ·) := by
  induction h with
  | nil => exact ⟨[], rfl, nofun, nofun, fun rest => by simp⟩
  | @cons first cs e es c hc hs ih =>
    obtain ⟨l, hl, hfirst, hread⟩ := letters_spells hc
    obtain ⟨ls, hls, hhead, htail, hreads⟩ := ih
    have hlater : ∀ m ∈ ls, m.Avoids later := by
      intro m hm
      cases ls with
      | nil => cases hm
      | cons k ks =>
        rcases List.mem_cons.mp hm with rfl | hm
        · exact hhead m rfl
        · exact htail m hm
    refine ⟨l :: ls, by rw [List.map_cons, hl, hls], ?_, hlater, fun rest => ?_⟩
    · rintro m ⟨⟩
      exact hfirst
    · rw [List.append_assoc, hread, hreads, Option.map_map]
      rfl

end MessageCatalog.Properties
