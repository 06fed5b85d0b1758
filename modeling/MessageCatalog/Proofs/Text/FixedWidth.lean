import Mathlib.Data.List.Forall2
import MessageCatalog.Proofs.Text.Numeral

namespace MessageCatalog.Text

def fixedNumeral (width n : Nat) : List Char :=
  (fixedDigits width n).map digitChar

theorem fixedNumeral_succ (width n : Nat) :
    fixedNumeral (width + 1) n = fixedNumeral width (n / 10) ++ [digitChar (n % 10)] := by
  rw [fixedNumeral, fixedDigits_succ, List.map_append]
  rfl

theorem length_fixedNumeral (width n : Nat) : (fixedNumeral width n).length = width := by
  rw [fixedNumeral, List.length_map, length_fixedDigits]

theorem padded_digits_succ (width n : Nat) :
    padded (width + 1) (digits n) = padded width (digits (n / 10)) ++ [n % 10] := by
  by_cases hn : n = 0
  · rw [hn, digits_zero, padded, padded, List.length_nil, Nat.sub_zero, Nat.sub_zero,
      List.replicate_succ', List.append_nil, List.append_nil]
  · rw [digits_of_pos (by omega), padded, List.length_append, List.length_singleton,
      Nat.add_sub_add_right, ← List.append_assoc]
    rfl

theorem numeral_eq_fixedNumeral {width n : Nat} (h : n < 10 ^ width) :
    numeral width n = fixedNumeral width n := by
  have hdigits : padded width (digits n) = fixedDigits width n := by
    induction width generalizing n with
    | zero =>
      have hn : n = 0 := by simpa using h
      rw [hn, digits_zero]
      rfl
    | succ width ih =>
      have hdiv : n / 10 < 10 ^ width := by
        rw [Nat.pow_succ] at h
        omega
      rw [padded_digits_succ, fixedDigits_succ, ih hdiv]
  rw [numeral, fixedNumeral, hdigits]

theorem take_fixedDigits (width more n : Nat) :
    (fixedDigits (width + more) n).take width = fixedDigits width (n / 10 ^ more) := by
  induction more generalizing n with
  | zero =>
    rw [Nat.pow_zero, Nat.div_one]
    exact List.take_of_length_le (Nat.le_of_eq (length_fixedDigits _ _))
  | succ more ih =>
    rw [← Nat.add_assoc, fixedDigits_succ, List.take_append_of_le_length, ih, Nat.div_div_eq_div_mul,
      Nat.pow_succ, Nat.mul_comm 10]
    rw [length_fixedDigits]
    exact Nat.le_add_right _ _

theorem nat?_fixedNumeral {width n : Nat} (hw : 0 < width) (h : n < 10 ^ width) :
    nat? (fixedNumeral width n) = some n := by
  rw [← numeral_eq_fixedNumeral h, nat?_numeral width n hw]

theorem append_lt_append_iff {a b x y : List Char} (h : a.length = b.length) :
    a ++ x < b ++ y ↔ a < b ∨ a = b ∧ x < y := by
  induction a generalizing b with
  | nil =>
    have hb : b = [] := List.eq_nil_of_length_eq_zero h.symm
    simp [hb]
  | cons c a ih =>
    obtain ⟨d, b, rfl⟩ := List.exists_cons_of_length_eq_add_one h.symm
    have hlength : a.length = b.length := Nat.succ.inj h
    rw [List.cons_append, List.cons_append, List.cons_lt_cons_iff, ih hlength, List.cons_lt_cons_iff,
      List.cons.injEq]
    tauto

theorem digitChar_lt_iff {a b : Nat} (ha : a < 10) (hb : b < 10) : digitChar a < digitChar b ↔ a < b := by
  have hall : ∀ a < 10, ∀ b < 10, digitChar a < digitChar b ↔ a < b := by decide
  exact hall a ha b hb

theorem fixedNumeral_inj {width m n : Nat} (hm : m < 10 ^ width) (hn : n < 10 ^ width) :
    fixedNumeral width m = fixedNumeral width n ↔ m = n := by
  constructor
  · intro h
    have hvalue := congrArg (fun cs => value (cs.map digitValue)) h
    simp only [fixedNumeral] at hvalue
    rwa [map_digitValue_digitChar fun d => lt_of_mem_fixedDigits,
      map_digitValue_digitChar fun d => lt_of_mem_fixedDigits, value_fixedDigits hm,
      value_fixedDigits hn] at hvalue
  · exact congrArg _

theorem fixedNumeral_lt_iff {width m n : Nat} (hm : m < 10 ^ width) (hn : n < 10 ^ width) :
    fixedNumeral width m < fixedNumeral width n ↔ m < n := by
  induction width generalizing m n with
  | zero =>
    rw [Nat.pow_zero, Nat.lt_one_iff] at hm hn
    simp [hm, hn]
  | succ width ih =>
    rw [Nat.pow_succ] at hm hn
    have hm' : m / 10 < 10 ^ width := by omega
    have hn' : n / 10 < 10 ^ width := by omega
    have hlast : [digitChar (m % 10)] < [digitChar (n % 10)] ↔ m % 10 < n % 10 := by
      rw [List.cons_lt_cons_iff, digitChar_lt_iff (Nat.mod_lt _ (by decide)) (Nat.mod_lt _ (by decide))]
      simp
    rw [fixedNumeral_succ, fixedNumeral_succ, append_lt_append_iff, ih hm' hn', fixedNumeral_inj hm' hn',
      hlast]
    · omega
    · rw [length_fixedNumeral, length_fixedNumeral]

structure Slot where
  width : Nat
  gap : List Char

def writeSlots : List Slot → List Nat → List Char
  | s :: slots, n :: ns => fixedNumeral s.width n ++ s.gap ++ writeSlots slots ns
  | _, _ => []

def readSlots : List Slot → List Char → Option (List Nat)
  | [], [] => some []
  | [], _ :: _ => none
  | s :: slots, cs => do
    let n ← nat? (cs.take s.width)
    let rest ← (cs.drop s.width).dropPrefix? s.gap
    let ns ← readSlots slots rest
    return n :: ns

def Fits (slots : List Slot) (ns : List Nat) : Prop :=
  List.Forall₂ (fun s n => n < 10 ^ s.width) slots ns

theorem readSlots_writeSlots {slots : List Slot} {ns : List Nat} (h : Fits slots ns)
    (hw : ∀ s ∈ slots, 0 < s.width) : readSlots slots (writeSlots slots ns) = some ns := by
  induction h with
  | nil => rfl
  | @cons s n slots ns hn _ ih =>
    obtain ⟨hs, hslots⟩ := List.forall_mem_cons.mp hw
    have htake : (fixedNumeral s.width n ++ s.gap ++ writeSlots slots ns).take s.width =
        fixedNumeral s.width n := by
      rw [List.append_assoc]
      exact List.take_left' (length_fixedNumeral _ _)
    have hdrop : (fixedNumeral s.width n ++ s.gap ++ writeSlots slots ns).drop s.width =
        s.gap ++ writeSlots slots ns := by
      rw [List.append_assoc]
      exact List.drop_left' (length_fixedNumeral _ _)
    have hgap : (s.gap ++ writeSlots slots ns).dropPrefix? s.gap = some (writeSlots slots ns) :=
      List.dropPrefix?_append_of_beq _ (beq_self_eq_true s.gap)
    rw [writeSlots, readSlots, htake, nat?_fixedNumeral hs hn, hdrop]
    simp [hgap, ih hslots]

theorem writeSlots_lt_iff {slots : List Slot} {ms ns : List Nat} (hm : Fits slots ms)
    (hn : Fits slots ns) : writeSlots slots ms < writeSlots slots ns ↔ ms < ns := by
  induction hm generalizing ns with
  | nil =>
    cases hn
    simp [writeSlots]
  | @cons s m slots ms hlt _ ih =>
    cases hn with
    | @cons _ n _ ns hlt' hn =>
      have hgap : s.gap ++ writeSlots slots ms < s.gap ++ writeSlots slots ns ↔
          writeSlots slots ms < writeSlots slots ns := by
        rw [append_lt_append_iff rfl, or_iff_right (List.lt_irrefl _), and_iff_right rfl]
      rw [writeSlots, writeSlots, List.append_assoc, List.append_assoc, append_lt_append_iff, hgap, ih hn,
        fixedNumeral_lt_iff hlt hlt', fixedNumeral_inj hlt hlt', List.cons_lt_cons_iff]
      rw [length_fixedNumeral, length_fixedNumeral]

end MessageCatalog.Text
