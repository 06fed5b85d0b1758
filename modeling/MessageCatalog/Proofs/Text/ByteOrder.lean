import Mathlib.Data.Char
import Mathlib.Data.List.Lex

namespace MessageCatalog.Text

def bytes (s : String) : List UInt8 :=
  s.toByteArray.data.toList

theorem bytes_eq (s : String) : bytes s = s.toList.flatMap String.utf8EncodeChar := by
  have h : s.toByteArray = s.toList.utf8Encode := by
    rw [← String.toByteArray_ofList, String.ofList_toList]
  rw [bytes, h, List.utf8Encode, List.toList_data_toByteArray]

theorem val_lt (c : Char) : c.val.toNat < 0x110000 := by
  rcases c.valid with h | ⟨-, h⟩
  · exact Nat.lt_trans h (by decide)
  · exact h

theorem encodeChar_lt {c d : Char} (h : c < d) (xs ys : List UInt8) :
    String.utf8EncodeChar c ++ xs < String.utf8EncodeChar d ++ ys := by
  have hcd : c.val.toNat < d.val.toNat := h
  have hd : d.val.toNat < 0x110000 := val_lt d
  delta String.utf8EncodeChar
  dsimp only
  generalize c.val.toNat = m at *
  generalize d.val.toNat = n at *
  -- the bytes behind the first are the digits to the base 64
  have h₂ (k : Nat) : k / 4096 = k / 64 / 64 := by omega
  have h₃ (k : Nat) : k / 262144 = k / 64 / 64 / 64 := by omega
  split_ifs <;>
    simp (disch := simp only [UInt8.size]; omega) only [List.cons_append, List.nil_append,
      List.cons_lt_cons_iff, UInt8.lt_iff_toNat_lt, ← UInt8.toNat_inj, UInt8.toNat_ofNat_of_lt', h₂, h₃] <;>
    omega

theorem append_lt_append_left_iff {xs ys zs : List UInt8} : zs ++ xs < zs ++ ys ↔ xs < ys := by
  induction zs with
  | nil => rfl
  | cons z zs ih => simp [ih]

theorem flatMap_encodeChar_lt_iff {xs ys : List Char} :
    xs.flatMap String.utf8EncodeChar < ys.flatMap String.utf8EncodeChar ↔ xs < ys := by
  induction xs generalizing ys with
  | nil =>
    cases ys with
    | nil => simp
    | cons d ys =>
      obtain ⟨b, bs, hb⟩ := List.exists_cons_of_ne_nil (String.utf8EncodeChar_ne_nil (c := d))
      simp [hb]
  | cons c xs ih =>
    cases ys with
    | nil => simp
    | cons d ys =>
      rw [List.flatMap_cons, List.flatMap_cons, List.cons_lt_cons_iff]
      rcases lt_trichotomy c d with h | rfl | h
      · exact iff_of_true (encodeChar_lt h _ _) (.inl h)
      · rw [append_lt_append_left_iff, ih]
        simp
      · refine iff_of_false (List.lt_asymm (encodeChar_lt h _ _)) ?_
        rintro (hcd | ⟨rfl, -⟩)
        · exact lt_asymm h hcd
        · exact lt_irrefl c h

theorem bytes_lt_bytes_iff {s t : String} : bytes s < bytes t ↔ s < t := by
  rw [bytes_eq, bytes_eq, flatMap_encodeChar_lt_iff, String.lt_iff]

def Ascend (texts : List String) : Prop :=
  texts.Pairwise fun s t => bytes s < bytes t

end MessageCatalog.Text
