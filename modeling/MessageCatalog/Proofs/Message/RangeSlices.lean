import MessageCatalog.Proofs.Message.PrintedRange
import MessageCatalog.Proofs.Message.Rendering

namespace MessageCatalog

open Text (Run)
open Traversal

namespace Place

variable {length i : Nat} {p : Place}

inductive Selects (length : Nat) : Place → Nat → Prop
  | fromStart {index : Nat} (h : index < length) : Selects length (.fromStart index) index
  | fromEnd {offset : Nat} (h : offset < length) : Selects length (.fromEnd offset) (length - 1 - offset)

def index (length : Nat) : Place → Int
  | .fromStart index => index
  | .fromEnd offset => (length : Int) - 1 - offset

theorem position_eq_index (h : length ≤ most) (hp : p.number ≤ most) : p.position length = p.index length := by
  cases p with
  | fromStart index =>
    rw [number] at hp
    rw [position, Place.index]
    omega
  | fromEnd offset =>
    rw [number] at hp
    rw [position, Place.index]
    omega

theorem selects_iff (h : length ≤ most) : p.Selects length i ↔ i < length ∧ p.position length = i := by
  constructor
  · rintro (hi | hi)
    · rw [position]
      omega
    · rw [position]
      omega
  · cases p with
    | fromStart index =>
      rw [position]
      rintro ⟨hi, hp⟩
      obtain rfl : index = i := by omega
      exact .fromStart hi
    | fromEnd offset =>
      rw [position]
      rintro ⟨hi, hp⟩
      obtain rfl : i = length - 1 - offset := by omega
      exact .fromEnd (by omega)

theorem resolve_eq_ok_iff : p.resolve length = .ok i ↔ i < length ∧ p.position length = i := by
  constructor
  · intro h
    rw [resolve] at h
    split at h
    · cases h
      omega
    · cases h
  · rintro ⟨hi, hp⟩
    rw [resolve, hp, if_pos (by omega), Int.toNat_natCast]

theorem resolves_iff (h : length ≤ most) : p.Resolves length ↔ ∃ i, p.Selects length i := by
  simp only [selects_iff h]
  constructor
  · rintro ⟨hpos, hlt⟩
    exact ⟨(p.position length).toNat, by omega, by omega⟩
  · rintro ⟨i, hi, hp⟩
    rw [Resolves]
    omega

/-- The place stands for no element. The problem names the position of it, and the length. -/
def Lacks (length : Nat) (p : Place) (e : FormatProblem) : Prop :=
  (∀ i, ¬p.Selects length i) ∧ e = .indexOutOfRange (p.position length) length

theorem misses_iff_lacks {e : FormatProblem} (h : length ≤ most) : p.Misses length e ↔ Lacks length p e := by
  rw [Misses, Lacks, resolves_iff h, not_exists]

def word (n : Nat) : Int64 :=
  Int64.ofNat (min n most)

def wordPosition (length : Nat) : Place → Int64
  | .fromStart index => word index
  | .fromEnd offset => word length - word offset - 1

theorem toInt_word (n : Nat) : (word n).toInt = (min n most : Nat) :=
  Int64.toInt_ofNat_of_lt (by rw [most]; omega)

theorem toInt_word_sub (m n : Nat) : (word m - word n).toInt = (word m).toInt - (word n).toInt := by
  rw [Int64.toInt_sub, toInt_word, toInt_word]
  apply Int.bmod_eq_of_le <;> rw [most] <;> omega

theorem toInt_wordPosition (length : Nat) (p : Place) : (p.wordPosition length).toInt = p.position length := by
  cases p with
  | fromStart index =>
    rw [wordPosition, position, toInt_word]
    omega
  | fromEnd offset =>
    rw [wordPosition, position, Int64.toInt_sub, toInt_word_sub, toInt_word, toInt_word, Int64.toInt_one]
    apply Int.bmod_eq_of_le <;> rw [most] <;> omega

end Place

theorem Text.intercalate_cons (separator t : String) (ts : List String) :
    separator.intercalate (t :: ts) = t ++ String.join (ts.map (separator ++ ·)) := by
  induction ts generalizing t with
  | nil => simp
  | cons u ts ih =>
    rw [String.intercalate_cons_cons, ih, List.map_cons, String.join_cons]
    simp only [String.append_assoc]

namespace RangePattern

variable {elements : List Value} {l : Locale} {t : String}

def elementText (elements : List Value) (l : Locale) (i : Nat) : String :=
  (elements[i]?.map (Value.write l)).getD ""

def joined (elements : List Value) (l : Locale) (separator : String) (first last : Nat) : String :=
  if last < first then ""
  else
    elementText elements l first ++
      String.join ((List.range' (first + 1) (last - first)).map fun i => separator ++ elementText elements l i)

inductive Shows (elements : List Value) (l : Locale) : Run RangeItem → String → Prop
  | text (t : String) : Shows elements l (.text t) t
  | element {place : Place} {i : Nat} {v : Value} (hi : place.Selects elements.length i)
      (hv : elements[i]? = some v) : Shows elements l (.item (.element place)) (v.write l)
  | join {start first last : Nat} {separator : String} {stop : Place}
      (hs : (Place.fromStart start).Selects elements.length first)
      (he : stop.Selects elements.length last) :
    Shows elements l (.item (.join start separator stop)) (joined elements l separator first last)

theorem map_slice (elements : List Value) (l : Locale) (first count : Nat)
    (h : first + count ≤ elements.length) :
    ((elements.drop first).take count).map (Value.write l) =
      (List.range' first count).map (elementText elements l) := by
  induction count generalizing first with
  | zero => rfl
  | succ count ih =>
    have hfirst : first < elements.length := by omega
    rw [List.drop_eq_getElem_cons hfirst, List.take_succ_cons, List.map_cons, ih (first + 1) (by omega),
      List.range'_succ, List.map_cons, elementText, List.getElem?_eq_getElem hfirst]
    rfl

theorem intercalate_slice (separator : String) {first last : Nat} (h : last < elements.length) :
    separator.intercalate (((elements.drop first).take (last + 1 - first)).map (Value.write l)) =
      joined elements l separator first last := by
  rw [joined]
  split
  case isTrue hlt =>
    rw [Nat.sub_eq_zero_of_le hlt]
    rfl
  case isFalse hle =>
    have hcount : last + 1 - first = last - first + 1 := by omega
    rw [map_slice elements l first _ (by omega), hcount, List.range'_succ, List.map_cons,
      Text.intercalate_cons, List.map_map]
    rfl

theorem join_element {i : Nat} {v : Value} (h : elements[i]? = some v) :
    String.join (((elements.drop i).take 1).map (Value.write l)) = v.write l := by
  obtain ⟨hi, rfl⟩ := List.getElem?_eq_some_iff.mp h
  rw [List.drop_eq_getElem_cons hi, List.take_succ_cons, List.take_zero, List.map_singleton, String.join_cons]
  exact String.append_empty

theorem writeItem_eq_ok_iff (h : elements.length ≤ Place.most) {item : RangeItem} :
    writeItem elements l item = .ok t ↔ Shows elements l (.item item) t := by
  cases item with
  | element place =>
    rw [writeItem, bind_eq_ok_iff]
    simp only [Place.resolve_eq_ok_iff, ← Place.selects_iff h]
    constructor
    · rintro ⟨i, hi, ht⟩
      have hv := List.getElem?_eq_getElem ((Place.selects_iff h).mp hi).1
      cases ht
      rw [join_element hv]
      exact .element hi hv
    · rintro (_ | ⟨hi, hv⟩)
      exact ⟨_, hi, congrArg Except.ok (join_element hv)⟩
  | join start separator stop =>
    rw [writeItem, bind_eq_ok_iff]
    simp only [bind_eq_ok_iff, Place.resolve_eq_ok_iff, ← Place.selects_iff h]
    constructor
    · rintro ⟨first, hs, last, he, ht⟩
      cases ht
      rw [intercalate_slice separator ((Place.selects_iff h).mp he).1]
      exact .join hs he
    · rintro (_ | _ | ⟨hs, he⟩)
      exact ⟨_, hs, _, he, congrArg Except.ok (intercalate_slice separator ((Place.selects_iff h).mp he).1)⟩

theorem writeRun_eq_ok_iff (h : elements.length ≤ Place.most) {r : Run RangeItem} :
    writeRun (writeItem elements l) r = .ok t ↔ Shows elements l r t := by
  cases r with
  | item item => exact writeItem_eq_ok_iff h
  | text u =>
    constructor
    · intro ht
      cases ht
      exact .text t
    · intro ht
      cases ht
      rfl

theorem write_slices (p : RangePattern) (elements : List Value) (l : Locale)
    (h : elements.length ≤ Place.most) :
    ((∃ t, p.write elements l = .ok t) ↔ ∀ place ∈ p.places, ∃ i, place.Selects elements.length i) ∧
    (∀ t, p.write elements l = .ok t ↔
      ∃ parts, List.Forall₂ (Shows elements l) p.segments parts ∧ t = String.join parts) ∧
    (∀ e, p.write elements l = .error e ↔ FailsFirst (Place.Lacks elements.length) p.places e) ∧
    (∀ place : Place, place.number ≤ Place.most →
      place.position elements.length = place.index elements.length) ∧
    ∀ length, (∀ place : Place, (place.wordPosition length).toInt = place.position length) ∧
      (∀ offset, (Place.word length - Place.word offset).toInt =
        (Place.word length).toInt - (Place.word offset).toInt) ∧
      ∀ (place : Place) i, place.resolve length = .ok i → i < length := by
  have herror (e : FormatProblem) :
      p.write elements l = .error e ↔ FailsFirst (Place.Lacks elements.length) p.places e :=
    write_eq_error_iff.trans (failsFirst_congr (fun _ _ => Place.misses_iff_lacks h) p.places e)
  refine ⟨?_, fun t => ?_, herror, fun place => Place.position_eq_index h, fun length =>
    ⟨Place.toInt_wordPosition length, Place.toInt_word_sub length,
      fun place i hi => (Place.resolve_eq_ok_iff.mp hi).1⟩⟩
  · simp only [exists_eq_ok_iff, ne_eq, herror, ← not_exists, exists_failsFirst_iff]
    simp [Place.Lacks]
  · rw [write_eq, map_join_eq_ok_iff]
    simp only [writeRun_eq_ok_iff h]

def enumeration : RangePattern :=
  ⟨[.item (.join 0 ", " (.fromEnd 1)), .text " and ", .item (.element (.fromEnd 0))]⟩

def letters : List Value :=
  [.text "a", .text "b", .text "c"]

theorem write_slices_enumeration :
    letters.length ≤ Place.most ∧ enumeration.write letters .germany = .ok "a, b and c" := by
  have hlength : letters.length ≤ Place.most := by decide
  have hjoined : joined letters .germany ", " 0 1 = "a, b" := by decide
  have hlast : (Place.fromEnd 0).Selects letters.length 2 := .fromEnd (by decide)
  refine ⟨hlength, ((write_slices enumeration letters .germany hlength).2.1 _).mpr
    ⟨["a, b", " and ", "c"], ?_, rfl⟩⟩
  refine .cons ?_ (.cons (.text " and ") (.cons ?_ .nil))
  · rw [← hjoined]
    exact .join (.fromStart (by decide)) (.fromEnd (by decide))
  · exact .element hlast rfl

end RangePattern

end MessageCatalog
