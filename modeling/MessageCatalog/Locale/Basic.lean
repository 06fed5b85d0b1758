import MessageCatalog.SortedMap
import MessageCatalog.Text.Basic

namespace MessageCatalog

def isLowerLetter (c : Char) : Bool :=
  'a' ≤ c && c ≤ 'z'

def isUpperLetter (c : Char) : Bool :=
  'A' ≤ c && c ≤ 'Z'

def isLanguageCode (cs : List Char) : Bool :=
  (cs.length == 2 || cs.length == 3) && cs.all isLowerLetter

def isRegionCode (cs : List Char) : Bool :=
  (cs.length == 2 && cs.all isUpperLetter) || (cs.length == 3 && cs.all Char.isDigit)

structure Language where
  code : String
  valid : isLanguageCode code.toList = true
  deriving DecidableEq

structure Region where
  code : String
  valid : isRegionCode code.toList = true
  deriving DecidableEq

structure Locale where
  language : Language
  region : Option Region
  deriving DecidableEq

structure LocaleError where
  input : String

def LocaleError.message (e : LocaleError) : String :=
  "invalid locale '" ++ e.input ++ "'"

def Language.read? (cs : List Char) : Option Language :=
  let lowered := cs.map Char.toLower
  if h : isLanguageCode lowered then
    some ⟨String.ofList lowered, by rw [String.toList_ofList]; exact h⟩
  else none

def Region.read? (cs : List Char) : Option Region :=
  let raised := cs.map Char.toUpper
  if h : isRegionCode raised then
    some ⟨String.ofList raised, by rw [String.toList_ofList]; exact h⟩
  else none

namespace Locale

def regionCode (l : Locale) : Option String :=
  l.region.map Region.code

def text (l : Locale) : String :=
  match l.region with
  | none => l.language.code
  | some r => l.language.code ++ "-" ++ r.code

def ofParts? (language : List Char) (country : Option (List Char)) : Option Locale := do
  let language ← Language.read? (Text.trim language)
  match country.map Text.trim with
  | none | some [] => some ⟨language, none⟩
  | some cs => (Region.read? cs).map fun region => ⟨language, some region⟩

def make (language : String) (country : Option String) : Except LocaleError Locale :=
  match ofParts? language.toList (country.map String.toList), country with
  | some l, _ => .ok l
  | none, some c => .error ⟨language ++ "_" ++ c⟩
  | none, none => .error ⟨language⟩

def isSeparator (c : Char) : Bool :=
  c == '-' || c == '_'

def read? (cs : List Char) : Option Locale :=
  let (language, rest) := (Text.trim cs).span fun c => !isSeparator c
  match rest with
  | [] => ofParts? language none
  | _ :: country => if country.any isSeparator then none else ofParts? language (some country)

def parse (text : String) : Except LocaleError Locale :=
  match read? text.toList with
  | some l => .ok l
  | none => .error ⟨text⟩

def row? {α : Type} (rows : List (List String × α)) (l : Locale) : Option α :=
  let listed (tag : String) := rows.find? fun row => row.1.contains tag
  ((listed l.text).or (listed l.language.code)).map (·.2)

def germany : Locale :=
  ⟨⟨"de", by decide +kernel⟩, some ⟨"DE", by decide +kernel⟩⟩

def unitedStates : Locale :=
  ⟨⟨"en", by decide +kernel⟩, some ⟨"US", by decide +kernel⟩⟩

def regionPrecedes : Option String → Option String → Bool
  | none, none => false
  | none, some _ => true
  | some _, none => false
  | some a, some b => KeyOrder.precedes a b

def precedes (a b : Locale) : Bool :=
  KeyOrder.precedes a.language.code b.language.code ||
    (a.language.code == b.language.code && regionPrecedes a.regionCode b.regionCode)

theorem regionPrecedes_irrefl (a : Option String) : regionPrecedes a a = false := by
  cases a with
  | none => rfl
  | some a => exact KeyOrder.irrefl a

theorem regionPrecedes_trans {a b c : Option String} (h₁ : regionPrecedes a b = true)
    (h₂ : regionPrecedes b c = true) : regionPrecedes a c = true := by
  cases c with
  | none => cases b <;> exact absurd h₂ Bool.false_ne_true
  | some c =>
    cases a with
    | none => rfl
    | some a =>
      cases b with
      | none => exact absurd h₁ Bool.false_ne_true
      | some b => exact KeyOrder.trans h₁ h₂

theorem regionPrecedes_total {a b : Option String} (h₁ : regionPrecedes a b = false)
    (h₂ : regionPrecedes b a = false) : a = b := by
  cases a <;> cases b <;> simp only [regionPrecedes] at h₁ h₂ <;> try contradiction
  · rfl
  · exact congrArg some (KeyOrder.total h₁ h₂)

theorem eq_of_codes {a b : Locale} (hl : a.language.code = b.language.code)
    (hr : a.regionCode = b.regionCode) : a = b := by
  obtain ⟨⟨la, _⟩, ra⟩ := a
  obtain ⟨⟨lb, _⟩, rb⟩ := b
  simp only [regionCode] at hl hr
  subst hl
  congr 1
  cases ra <;> cases rb <;> simp at hr
  · rfl
  · congr 1
    exact Region.mk.injEq .. ▸ hr

theorem precedes_iff (a b : Locale) : precedes a b = true ↔
    KeyOrder.precedes a.language.code b.language.code = true ∨
      a.language.code = b.language.code ∧ regionPrecedes a.regionCode b.regionCode = true := by
  simp [precedes]

theorem precedes_trans {a b c : Locale} (h₁ : precedes a b = true) (h₂ : precedes b c = true) :
    precedes a c = true := by
  rw [precedes_iff] at *
  rcases h₁ with h₁ | ⟨e₁, h₁⟩ <;> rcases h₂ with h₂ | ⟨e₂, h₂⟩
  · exact .inl (KeyOrder.trans h₁ h₂)
  · exact .inl (e₂ ▸ h₁)
  · exact .inl (e₁ ▸ h₂)
  · exact .inr ⟨e₁.trans e₂, regionPrecedes_trans h₁ h₂⟩

theorem precedes_total {a b : Locale} (h₁ : precedes a b = false) (h₂ : precedes b a = false) :
    a = b := by
  simp only [← Bool.not_eq_true, precedes_iff, not_or, not_and] at h₁ h₂
  have hl : a.language.code = b.language.code :=
    KeyOrder.total (by simpa using h₁.1) (by simpa using h₂.1)
  refine eq_of_codes hl (regionPrecedes_total ?_ ?_)
  · simpa using h₁.2 hl
  · simpa using h₂.2 hl.symm

instance : KeyOrder Locale where
  precedes := precedes
  irrefl a := by simp [precedes, KeyOrder.irrefl, regionPrecedes_irrefl]
  trans := precedes_trans
  total := precedes_total

end Locale

end MessageCatalog
