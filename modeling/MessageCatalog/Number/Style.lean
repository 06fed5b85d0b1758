import MessageCatalog.Number.Pattern
import MessageCatalog.Text.Basic

namespace MessageCatalog

inductive NumberStyle where
  | default
  | currency
  | percent
  | integer
  | pattern (p : NumberPattern)
  deriving DecidableEq

namespace NumberStyle

def currencyPatterns : List (List String × String) :=
  [ (["de-AT", "de-CH", "de-LI", "it-CH", "en-AT", "en-CH", "en-NL", "pt", "nb", "no", "nn"],
      "¤\u00a0#,##0.00"),
    (["en-BE", "en-DE", "en-DK", "en-FI", "en-SE", "en-SI", "pt-PT", "pt-AO", "pt-MZ", "de", "fr", "es",
      "it", "pl", "cs", "sk", "sv", "da", "fi", "ru", "uk", "be", "el", "hu", "ro", "bg", "hr", "sr",
      "sl", "lt", "lv", "et", "ca", "eu", "gl", "is", "vi", "kk"], "#,##0.00\u00a0¤"),
    (["es-MX", "es-US", "es-419", "en", "zh", "ja", "ko", "tr", "th", "id", "ms", "fil", "hi", "ga",
      "mt", "cy"], "¤#,##0.00"),
    (["nl"], "¤\u00a0#,##0.00;¤\u00a0-#,##0.00") ]

def currencyPattern (l : Locale) : String :=
  (l.row? currencyPatterns).getD "¤\u00a0#,##0.00"

def percentPatterns : List (List String × String) :=
  [ (["de-CH", "de-LI", "fr-CH"], "#,##0%"),
    (["fr"], "#,##0\u202f%"),
    (["tr"], "%#,##0"),
    (["eu"], "%\u00a0#,##0"),
    (["de", "es", "ca", "cs", "sk", "sv", "da", "nb", "no", "nn", "fi", "ru", "be", "ro", "hr", "sl",
      "lt", "is", "gl"], "#,##0\u00a0%") ]

def percentPattern (l : Locale) : String :=
  (l.row? percentPatterns).getD "#,##0%"

def keywords : List (String × NumberStyle) :=
  [("", .default), ("currency", .currency), ("percent", .percent), ("integer", .integer)]

def ofModifier (modifier : String) : Except NumberPatternProblem NumberStyle :=
  match Text.keyword? keywords modifier.toList with
  | some style => .ok style
  | none => (NumberPattern.parse modifier).map .pattern

def localePattern (pattern : String) (fraction : Option Nat) (l : Locale) (x : Numeric) : String :=
  match NumberPattern.parse pattern, fraction with
  | .ok p, none => p.write l x
  | .ok p, some n =>
    { p with layout := { p.layout with minFraction := n, maxFraction := n } }.write l x
  | .error _, _ => x.write .default l

def write (style : NumberStyle) (l : Locale) (x : Numeric) : String :=
  match style with
  | default => x.write .default l
  | integer => x.write .integer l
  | percent => localePattern (percentPattern l) none l x
  | currency => localePattern (currencyPattern l) (some (Currency.ofLocale l).fractionDigits) l x
  | pattern p => p.write l x

end NumberStyle

end MessageCatalog
