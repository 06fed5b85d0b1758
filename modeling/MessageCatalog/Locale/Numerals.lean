import MessageCatalog.Locale.Basic
import MessageCatalog.Text.Integer

namespace MessageCatalog

structure Numerals where
  point : Char
  separator : Char
  firstGroup : Nat
  nextGroup : Nat
  zero : Char
  leastLead : Nat
  deriving DecidableEq

namespace Numerals

def table : List (List String × Numerals) :=
  [ (["de", "pt", "nl", "da", "tr", "el", "ro", "hr", "sr", "ca", "eu", "is", "vi", "id", "az",
      "en-AT", "en-NL", "en-BE", "en-DE", "en-DK", "en-SI"], ⟨',', '.', 3, 3, '0', 1⟩),
    (["de-AT", "pt-AO", "sv", "nb", "no", "nn", "fi", "cs", "sk", "ru", "uk", "lt", "gl", "kk",
      "en-FI", "en-SE", "en-ZA"], ⟨',', '\u00a0', 3, 3, '0', 1⟩),
    (["pt-PT", "pt-MZ", "pl", "hu", "be", "bg", "lv", "et"], ⟨',', '\u00a0', 3, 3, '0', 2⟩),
    (["de-CH", "de-LI", "en-CH"], ⟨'.', '\'', 3, 3, '0', 1⟩),
    (["it", "es", "sl"], ⟨',', '.', 3, 3, '0', 2⟩),
    (["es-MX", "es-US", "es-419"], ⟨'.', ',', 3, 3, '0', 1⟩),
    (["fr"], ⟨',', '\u202f', 3, 3, '0', 1⟩),
    (["hi", "en-IN"], ⟨'.', ',', 3, 2, '0', 1⟩),
    (["fr-CH"], ⟨',', '\'', 3, 3, '0', 1⟩),
    (["it-CH"], ⟨'.', '\'', 3, 3, '0', 2⟩),
    (["ar"], ⟨'٫', '٬', 3, 3, '٠', 1⟩),
    (["fa"], ⟨'٫', '٬', 3, 3, '۰', 1⟩),
    (["bn"], ⟨'.', ',', 3, 2, '০', 1⟩),
    (["ne"], ⟨'.', ',', 3, 2, '०', 1⟩),
    (["my"], ⟨'.', ',', 3, 3, '၀', 1⟩) ]

def root : Numerals :=
  ⟨'.', ',', 3, 3, '0', 1⟩

def ofLocale (l : Locale) : Numerals :=
  (l.row? table).getD root

def digit (n : Numerals) (d : Nat) : Char :=
  Char.ofNat (n.zero.toNat + d)

def separates (n : Numerals) (after : Nat) : Bool :=
  n.firstGroup ≤ after && (after - n.firstGroup) % n.nextGroup == 0

def groups (n : Numerals) : List Nat → List Char
  | [] => []
  | d :: ds =>
    if n.separates ds.length then n.digit d :: n.separator :: groups n ds else n.digit d :: groups n ds

def whole (n : Numerals) (grouped : Bool) (ds : List Nat) : List Char :=
  if grouped && n.firstGroup + n.leastLead ≤ ds.length then n.groups ds else ds.map n.digit

def plain (n : Numerals) (width k : Nat) : List Char :=
  (Text.padded width (Text.digits k)).map n.digit

end Numerals

end MessageCatalog
