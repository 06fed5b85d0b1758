import MessageCatalog.Number.Digits
import Mathlib.Data.List.Basic

namespace MessageCatalog

namespace Numerals

def digit? (n : Numerals) (c : Char) : Option Nat :=
  (List.range 10).find? fun d => n.digit d = c

def digits? (n : Numerals) (cs : List Char) : Option (List Nat) :=
  cs.mapM n.digit?

def read? (n : Numerals) (cs : List Char) : Option DigitBody :=
  let kept := cs.filter (· ≠ n.separator)
  match n.digits? (kept.takeWhile (· ≠ n.point)), n.digits? ((kept.dropWhile (· ≠ n.point)).drop 1) with
  | some whole, some fraction => some ⟨whole, fraction⟩
  | _, _ => none

def wholeDigits (n : Numerals) (cs : List Char) : Nat :=
  ((cs.takeWhile (· ≠ n.point)).filter (· ≠ n.separator)).length

structure Lawful (n : Numerals) : Prop where
  point_ne_separator : n.point ≠ n.separator
  digit_ne_point : ∀ d < 10, n.digit d ≠ n.point
  digit_ne_separator : ∀ d < 10, n.digit d ≠ n.separator
  digit_injective : ∀ d < 10, ∀ e < 10, n.digit d = n.digit e → d = e

theorem lawful_iff (n : Numerals) : n.Lawful ↔
    n.point ≠ n.separator ∧ (∀ d < 10, n.digit d ≠ n.point) ∧ (∀ d < 10, n.digit d ≠ n.separator) ∧
      ∀ d < 10, ∀ e < 10, n.digit d = n.digit e → d = e :=
  ⟨fun h => ⟨h.1, h.2, h.3, h.4⟩, fun h => ⟨h.1, h.2.1, h.2.2.1, h.2.2.2⟩⟩

instance (n : Numerals) : Decidable n.Lawful :=
  decidable_of_iff _ n.lawful_iff.symm

theorem lawful_of_mem_table : ∀ row ∈ table, row.2.Lawful := by
  decide +kernel

theorem lawful_root : root.Lawful := by
  decide +kernel

theorem lawful_ofLocale (l : Locale) : (ofLocale l).Lawful := by
  cases h : l.row? table with
  | none =>
    rw [ofLocale, h]
    exact lawful_root
  | some n =>
    rw [ofLocale, h]
    obtain ⟨row, hrow, rfl⟩ := Option.map_eq_some_iff.mp h
    rcases Option.or_eq_some_iff.mp hrow with hrow | ⟨-, hrow⟩ <;>
      exact lawful_of_mem_table row (List.mem_of_find?_eq_some hrow)

variable {n : Numerals} (hn : n.Lawful) {ds : List Nat} (hds : ∀ d ∈ ds, d < 10)

include hn

theorem digit?_digit {d : Nat} (hd : d < 10) : n.digit? (n.digit d) = some d := by
  cases h : n.digit? (n.digit d) with
  | none =>
    have hne := List.find?_eq_none.mp h d (List.mem_range.mpr hd)
    simp at hne
  | some e =>
    have heq : n.digit e = n.digit d := by simpa using List.find?_some h
    have he : e < 10 := List.mem_range.mp (List.mem_of_find?_eq_some h)
    rw [hn.digit_injective e he d hd heq]

include hds

theorem digits?_map : n.digits? (ds.map n.digit) = some ds := by
  induction ds with
  | nil => rfl
  | cons d ds ih =>
    rw [digits?, List.map_cons, List.mapM_cons, digit?_digit hn (hds d List.mem_cons_self)]
    have hrest : (ds.map n.digit).mapM n.digit? = some ds :=
      ih fun e he => hds e (List.mem_cons_of_mem _ he)
    rw [hrest]
    rfl

theorem ne_separator_of_mem {c : Char} (h : c ∈ ds.map n.digit) : c ≠ n.separator := by
  obtain ⟨d, hd, rfl⟩ := List.mem_map.mp h
  exact hn.digit_ne_separator d (hds d hd)

theorem ne_point_of_mem {c : Char} (h : c ∈ ds.map n.digit) : c ≠ n.point := by
  obtain ⟨d, hd, rfl⟩ := List.mem_map.mp h
  exact hn.digit_ne_point d (hds d hd)

theorem filter_map_digit : (ds.map n.digit).filter (· ≠ n.separator) = ds.map n.digit := by
  apply List.filter_eq_self.mpr
  intro c hc
  simpa using ne_separator_of_mem hn hds hc

theorem filter_groups : (n.groups ds).filter (· ≠ n.separator) = ds.map n.digit := by
  induction ds with
  | nil => rfl
  | cons d ds ih =>
    have hd : n.digit d ≠ n.separator := hn.digit_ne_separator d (hds d List.mem_cons_self)
    have hrest := ih fun e he => hds e (List.mem_cons_of_mem _ he)
    rw [groups]
    split
    · rw [List.filter_cons_of_pos (by simpa using hd), List.filter_cons_of_neg (by simp), hrest,
        List.map_cons]
    · rw [List.filter_cons_of_pos (by simpa using hd), hrest, List.map_cons]

theorem ne_point_of_mem_groups {c : Char} (h : c ∈ n.groups ds) : c ≠ n.point := by
  by_cases hc : c = n.separator
  · rw [hc]
    exact hn.point_ne_separator.symm
  · apply ne_point_of_mem hn hds
    rw [← filter_groups hn hds]
    exact List.mem_filter.mpr ⟨h, by simpa using hc⟩

theorem separates_of_groups_eq {before after : List Char}
    (h : n.groups ds = before ++ n.separator :: after) :
    n.separates (after.filter (· ≠ n.separator)).length = true := by
  induction ds generalizing before with
  | nil => simp [groups] at h
  | cons d ds ih =>
    have hd : n.digit d ≠ n.separator := hn.digit_ne_separator d (hds d List.mem_cons_self)
    have hds' : ∀ e ∈ ds, e < 10 := fun e he => hds e (List.mem_cons_of_mem _ he)
    rw [groups] at h
    split at h
    case isTrue hsep =>
      match before, h with
      | [], h => exact absurd (List.cons.inj h).1 hd
      | [_], h =>
        obtain ⟨-, h⟩ := List.cons.inj h
        obtain ⟨-, h⟩ := List.cons.inj h
        rw [← h, filter_groups hn hds', List.length_map]
        exact hsep
      | _ :: _ :: before, h =>
        obtain ⟨-, h⟩ := List.cons.inj h
        obtain ⟨-, h⟩ := List.cons.inj h
        exact ih hds' h
    case isFalse =>
      match before, h with
      | [], h => exact absurd (List.cons.inj h).1 hd
      | _ :: before, h =>
        obtain ⟨-, h⟩ := List.cons.inj h
        exact ih hds' h

theorem filter_whole (grouped : Bool) : (n.whole grouped ds).filter (· ≠ n.separator) = ds.map n.digit := by
  rw [whole]
  split
  · exact filter_groups hn hds
  · exact filter_map_digit hn hds

theorem ne_point_of_mem_whole {grouped : Bool} {c : Char} (h : c ∈ n.whole grouped ds) : c ≠ n.point := by
  rw [whole] at h
  split at h
  · exact ne_point_of_mem_groups hn hds h
  · exact ne_point_of_mem hn hds h

theorem separates_of_whole_eq {grouped : Bool} {before after : List Char}
    (h : n.whole grouped ds = before ++ n.separator :: after) :
    grouped = true ∧ n.separates (after.filter (· ≠ n.separator)).length = true := by
  rw [whole] at h
  split at h
  case isTrue hg => exact ⟨(Bool.and_eq_true_iff.mp hg).1, separates_of_groups_eq hn hds h⟩
  case isFalse =>
    have hmem : n.separator ∈ ds.map n.digit := by
      rw [h]
      exact List.mem_append_right _ List.mem_cons_self
    exact absurd rfl (ne_separator_of_mem hn hds hmem)

end Numerals

namespace DigitBody

def fractionText (n : Numerals) (ds : List Nat) : List Char :=
  if ds.isEmpty then [] else n.point :: ds.map n.digit

variable {n : Numerals} {b : DigitBody} {grouped : Bool}

theorem toList_write : (b.write n grouped).toList = n.whole grouped b.whole ++ fractionText n b.fraction :=
  String.toList_ofList

theorem fractionText_cases (n : Numerals) (ds : List Nat) :
    ds = [] ∧ fractionText n ds = [] ∨ ds ≠ [] ∧ fractionText n ds = n.point :: ds.map n.digit := by
  cases ds with
  | nil => exact .inl ⟨rfl, rfl⟩
  | cons d ds => exact .inr ⟨List.cons_ne_nil _ _, rfl⟩

theorem takeWhile_append_fractionText {cs : List Char} (h : ∀ c ∈ cs, c ≠ n.point) (ds : List Nat) :
    (cs ++ fractionText n ds).takeWhile (· ≠ n.point) = cs := by
  rw [List.takeWhile_append_of_pos (by simpa using h)]
  rcases fractionText_cases n ds with ⟨-, ht⟩ | ⟨-, ht⟩ <;> simp [ht]

theorem dropWhile_append_fractionText {cs : List Char} (h : ∀ c ∈ cs, c ≠ n.point) (ds : List Nat) :
    ((cs ++ fractionText n ds).dropWhile (· ≠ n.point)).drop 1 = ds.map n.digit := by
  rw [List.dropWhile_append_of_pos (by simpa using h)]
  rcases fractionText_cases n ds with ⟨rfl, ht⟩ | ⟨-, ht⟩ <;> simp [ht]

variable (hn : n.Lawful) (hwhole : ∀ d ∈ b.whole, d < 10) (hfraction : ∀ d ∈ b.fraction, d < 10)

include hn

theorem filter_fractionText {ds : List Nat} (hds : ∀ d ∈ ds, d < 10) :
    (fractionText n ds).filter (· ≠ n.separator) = fractionText n ds := by
  rcases fractionText_cases n ds with ⟨-, ht⟩ | ⟨-, ht⟩
  · rw [ht, List.filter_nil]
  · rw [ht, List.filter_cons_of_pos (by simpa using hn.point_ne_separator),
      Numerals.filter_map_digit hn hds]

theorem separator_not_mem_fractionText {ds : List Nat} (hds : ∀ d ∈ ds, d < 10) :
    n.separator ∉ fractionText n ds := by
  rw [← filter_fractionText hn hds]
  simp

include hwhole

theorem point_mem_write_iff : n.point ∈ (b.write n grouped).toList ↔ b.fraction ≠ [] := by
  have hnot : n.point ∉ n.whole grouped b.whole := fun h =>
    Numerals.ne_point_of_mem_whole hn hwhole h rfl
  rw [toList_write, List.mem_append]
  rcases fractionText_cases n b.fraction with ⟨hf, ht⟩ | ⟨hf, ht⟩ <;> rw [ht] <;>
    simp [hf, hnot]

include hfraction

theorem read?_write : n.read? (b.write n grouped).toList = some b := by
  have hpoint : ∀ c ∈ b.whole.map n.digit, c ≠ n.point := fun c => Numerals.ne_point_of_mem hn hwhole
  rw [Numerals.read?, toList_write, List.filter_append, Numerals.filter_whole hn hwhole,
    filter_fractionText hn hfraction]
  simp only [takeWhile_append_fractionText hpoint, dropWhile_append_fractionText hpoint,
    Numerals.digits?_map hn hwhole, Numerals.digits?_map hn hfraction]

theorem separates_of_write_eq {before after : List Char}
    (h : (b.write n grouped).toList = before ++ n.separator :: after) :
    grouped = true ∧ n.point ∉ before ∧ n.separates (n.wholeDigits after) = true := by
  have hnot := separator_not_mem_fractionText hn hfraction
  rw [toList_write] at h
  rcases List.append_eq_append_iff.mp h with ⟨between, -, ht⟩ | ⟨between, hw, ht⟩
  · rw [ht] at hnot
    exact absurd (List.mem_append_right _ List.mem_cons_self) hnot
  · cases between with
    | nil =>
      rw [List.nil_append] at ht
      rw [← ht] at hnot
      exact absurd List.mem_cons_self hnot
    | cons c between =>
      rw [List.cons_append] at ht
      obtain ⟨rfl, rfl⟩ := List.cons.inj ht
      obtain ⟨hgrouped, hseparates⟩ := Numerals.separates_of_whole_eq hn hwhole hw
      have hpoint : ∀ c ∈ n.whole grouped b.whole, c ≠ n.point := fun c =>
        Numerals.ne_point_of_mem_whole hn hwhole
      rw [hw] at hpoint
      refine ⟨hgrouped, fun hp => hpoint _ (List.mem_append_left _ hp) rfl, ?_⟩
      rw [Numerals.wholeDigits, takeWhile_append_fractionText fun c hc =>
        hpoint c (List.mem_append_right _ (List.mem_cons_of_mem _ hc))]
      exact hseparates

end DigitBody

end MessageCatalog
