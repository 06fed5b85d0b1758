import MessageCatalog.Main
import MessageCatalog.Catalog.Session
import MessageCatalog.Proofs.Message.PrintedPattern
import MessageCatalog.Proofs.Catalog.Queries
import MessageCatalog.Proofs.Catalog.History
import MessageCatalog.Proofs.Catalog.IdentityEnd
import MessageCatalog.Proofs.Catalog.UnacceptedLocale
import MessageCatalog.Proofs.Message.RangeSlices
import MessageCatalog.Proofs.Catalog.Suggestions
import MessageCatalog.Proofs.Bundle.WrittenProperties
import MessageCatalog.Proofs.Bundle.Escapes
import MessageCatalog.Proofs.Bundle.Entries
import MessageCatalog.Proofs.Catalog.Build
import MessageCatalog.Proofs.Message.Rendering
import MessageCatalog.Proofs.Decimal
import MessageCatalog.Proofs.Number.Digits
import MessageCatalog.Proofs.Number.Reading
import MessageCatalog.Proofs.Number.Body
import MessageCatalog.Proofs.Binary64.Order
import MessageCatalog.Proofs.Message.Selection
import MessageCatalog.Proofs.Message.PrintedRange
import MessageCatalog.Proofs.Calendar.StandardForm
import MessageCatalog.Proofs.Message.Steps
import MessageCatalog.Proofs.Number.Tokens
import MessageCatalog.Proofs.Message.Unquoted
import MessageCatalog.Proofs.Message.Shape
import MessageCatalog.Proofs.Message.Concatenation
import MessageCatalog.Proofs.Number.QuotedAffixes
import MessageCatalog.Proofs.Bundle.Merge
import MessageCatalog.Proofs.Bundle.WrittenManifest
import MessageCatalog.Proofs.Binary64.Rounding
import MessageCatalog.Proofs.Number.Sign
import MessageCatalog.Proofs.Bundle.LineLayout
import MessageCatalog.Proofs.Locale.Currency
import MessageCatalog.Proofs.Calendar.Civil
import MessageCatalog.Proofs.Calendar.EpochMillis
import MessageCatalog.Proofs.Text.FixedWidth
import MessageCatalog.Proofs.Message.Timestamp
import MessageCatalog.Proofs.Text.Occurrences
import MessageCatalog.Proofs.Number.Amount
import MessageCatalog.Proofs.Number.LocaleStyles
import MessageCatalog.Proofs.Catalog.ResolvedArguments
import MessageCatalog.Proofs.Text.Trim
import MessageCatalog.Proofs.Locale.Spellings
import MessageCatalog.Proofs.Catalog.EditDistance
import MessageCatalog.Proofs.Catalog.NearestKeys
import MessageCatalog.Proofs.Binary64.Nearest
import MessageCatalog.Proofs.Binary64.DecimalGrids
import MessageCatalog.Proofs.Binary64.ShortestDecimal
import MessageCatalog.Proofs.Number.ScaledIntegers
import MessageCatalog.Proofs.Number.Layouts
import MessageCatalog.Proofs.Message.LeftmostProblem
import MessageCatalog.Proofs.Message.Unfilled
import MessageCatalog.Proofs.Calendar.Acceptance
import MessageCatalog.Proofs.Calendar.PatternGrammar
import MessageCatalog.Proofs.Catalog.ChainDepth
import MessageCatalog.Proofs.Catalog.ShortKeys
import MessageCatalog.Proofs.Message.PlainTexts
import MessageCatalog.Proofs.Binary64.Integers
import MessageCatalog.Proofs.Message.IntegerLimits
import MessageCatalog.Proofs.Json.Document
import MessageCatalog.Proofs.CommandLine.Printing
import MessageCatalog.Proofs.Locale.TextOrder
import MessageCatalog.Proofs.Text.ByteOrder
import MessageCatalog.Proofs.Catalog.TextOrder
import MessageCatalog.Proofs.CommandLine.Listings
