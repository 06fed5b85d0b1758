import MessageCatalog.Catalog.Table
import MessageCatalog.Json.Pretty

namespace MessageCatalog

structure ListingRow where
  locale : Locale
  keys : Nat
  skipped : Nat

structure Listing where
  defaultLocale : Locale
  rows : List ListingRow
  warnings : List String

namespace Listing

def ofReport (defaultLocale : Locale) (r : LoadReport) : Listing where
  defaultLocale := defaultLocale
  rows := r.keyCounts.map fun c =>
    ⟨c.1, c.2, (r.skipped.filter fun f => f.locale = c.1).length⟩
  warnings := r.skipped.map PatternFailure.warning

def label (l : Listing) (row : ListingRow) : String :=
  if row.locale = l.defaultLocale then row.locale.text ++ " (default)" else row.locale.text

def cells (l : Listing) (row : ListingRow) : List String :=
  [l.label row, Text.natText row.keys, Text.natText row.skipped]

def header : List String :=
  ["Locale", "Keys", "Skipped"]

def widths : List (List String) → List Nat
  | [] => []
  | row :: rows => rows.foldl (fun ws row => List.zipWith max ws (row.map String.length))
      (row.map String.length)

def pad (width : Nat) (cell : String) : String :=
  " " ++ cell ++ String.ofList (List.replicate (width - cell.length) ' ') ++ " "

def line (ws : List Nat) (row : List String) : String :=
  "│" ++ " ".intercalate (List.zipWith pad ws row) ++ "│"

def rule (left fill right : String) (width : Nat) : String :=
  left ++ String.join (List.replicate width fill) ++ right

def box (l : Listing) : String :=
  let rows := l.rows.map l.cells
  let ws := widths (header :: rows)
  let width := (ws.map (· + 3)).foldr (· + ·) 0 - 1
  "\n".intercalate
    ([rule "┌" "─" "┐" width, line ws header, rule "╞" "═" "╡" width] ++ rows.map (line ws) ++
      [rule "└" "─" "┘" width])

def heading : String := "Skipped patterns:"

def text (paint : String → String) (l : Listing) : String :=
  l.box ++ "\n" ++
    if l.warnings.isEmpty then ""
    else
      "\n" ++ paint heading ++ "\n" ++ String.join (l.warnings.map fun w => "  - " ++ w ++ "\n")

def document (l : Listing) : Json.Document :=
  .object
    [ ("default_locale", .text l.defaultLocale.text),
      ("locales", .list (l.rows.map fun row =>
        .object
          [("locale", .text row.locale.text), ("keys", .number row.keys),
            ("skipped", .number row.skipped)])),
      ("warnings", .list (l.warnings.map .text)) ]

end Listing

end MessageCatalog
