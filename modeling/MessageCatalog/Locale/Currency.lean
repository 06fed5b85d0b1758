import MessageCatalog.Locale.Basic

namespace MessageCatalog

abbrev SortedTable (α : Type) := Array (String × α)

namespace SortedTable

def searchBetween {α : Type} (table : SortedTable α) (key : String) (low high : Nat) : Option α :=
  if low < high then
    let middle := (low + high) / 2
    match table[middle]? with
    | none => none
    | some (k, a) =>
      if key < k then searchBetween table key low middle
      else if k < key then searchBetween table key (middle + 1) high
      else some a
  else none
termination_by high - low
decreasing_by all_goals omega

def search {α : Type} (table : SortedTable α) (key : String) : Option α :=
  searchBetween table key 0 table.size

end SortedTable

structure Currency where
  symbol : String
  fractionDigits : Nat
  deriving DecidableEq

namespace Currency

def regionCodes : SortedTable String :=
  #[("AD", "EUR"), ("AE", "AED"), ("AF", "AFN"), ("AG", "XCD"), ("AI", "XCD"), ("AL", "ALL"),
    ("AM", "AMD"), ("AO", "AOA"), ("AR", "ARS"), ("AS", "USD"), ("AT", "EUR"), ("AU", "AUD"),
    ("AW", "AWG"), ("AX", "EUR"), ("AZ", "AZN"), ("BA", "BAM"), ("BB", "BBD"), ("BD", "BDT"),
    ("BE", "EUR"), ("BF", "XOF"), ("BG", "EUR"), ("BH", "BHD"), ("BI", "BIF"), ("BJ", "XOF"),
    ("BL", "EUR"), ("BM", "BMD"), ("BN", "BND"), ("BO", "BOB"), ("BQ", "USD"), ("BR", "BRL"),
    ("BS", "BSD"), ("BT", "BTN"), ("BV", "NOK"), ("BW", "BWP"), ("BY", "BYN"), ("BZ", "BZD"),
    ("CA", "CAD"), ("CC", "AUD"), ("CD", "CDF"), ("CF", "XAF"), ("CG", "XAF"), ("CH", "CHF"),
    ("CI", "XOF"), ("CK", "NZD"), ("CL", "CLP"), ("CM", "XAF"), ("CN", "CNY"), ("CO", "COP"),
    ("CR", "CRC"), ("CU", "CUP"), ("CV", "CVE"), ("CW", "XCG"), ("CX", "AUD"), ("CY", "EUR"),
    ("CZ", "CZK"), ("DE", "EUR"), ("DJ", "DJF"), ("DK", "DKK"), ("DM", "XCD"), ("DO", "DOP"),
    ("DZ", "DZD"), ("EC", "USD"), ("EE", "EUR"), ("EG", "EGP"), ("EH", "MAD"), ("ER", "ERN"),
    ("ES", "EUR"), ("ET", "ETB"), ("FI", "EUR"), ("FJ", "FJD"), ("FK", "FKP"), ("FM", "USD"),
    ("FO", "DKK"), ("FR", "EUR"), ("GA", "XAF"), ("GB", "GBP"), ("GD", "XCD"), ("GE", "GEL"),
    ("GF", "EUR"), ("GG", "GBP"), ("GH", "GHS"), ("GI", "GIP"), ("GL", "DKK"), ("GM", "GMD"),
    ("GN", "GNF"), ("GP", "EUR"), ("GQ", "XAF"), ("GR", "EUR"), ("GS", "GBP"), ("GT", "GTQ"),
    ("GU", "USD"), ("GW", "XOF"), ("GY", "GYD"), ("HK", "HKD"), ("HM", "AUD"), ("HN", "HNL"),
    ("HR", "EUR"), ("HT", "HTG"), ("HU", "HUF"), ("ID", "IDR"), ("IE", "EUR"), ("IL", "ILS"),
    ("IM", "GBP"), ("IN", "INR"), ("IO", "USD"), ("IQ", "IQD"), ("IR", "IRR"), ("IS", "ISK"),
    ("IT", "EUR"), ("JE", "GBP"), ("JM", "JMD"), ("JO", "JOD"), ("JP", "JPY"), ("KE", "KES"),
    ("KG", "KGS"), ("KH", "KHR"), ("KI", "AUD"), ("KM", "KMF"), ("KN", "XCD"), ("KP", "KPW"),
    ("KR", "KRW"), ("KW", "KWD"), ("KY", "KYD"), ("KZ", "KZT"), ("LA", "LAK"), ("LB", "LBP"),
    ("LC", "XCD"), ("LI", "CHF"), ("LK", "LKR"), ("LR", "LRD"), ("LS", "LSL"), ("LT", "EUR"),
    ("LU", "EUR"), ("LV", "EUR"), ("LY", "LYD"), ("MA", "MAD"), ("MC", "EUR"), ("MD", "MDL"),
    ("ME", "EUR"), ("MF", "EUR"), ("MG", "MGA"), ("MH", "USD"), ("MK", "MKD"), ("ML", "XOF"),
    ("MM", "MMK"), ("MN", "MNT"), ("MO", "MOP"), ("MP", "USD"), ("MQ", "EUR"), ("MR", "MRU"),
    ("MS", "XCD"), ("MT", "EUR"), ("MU", "MUR"), ("MV", "MVR"), ("MW", "MWK"), ("MX", "MXN"),
    ("MY", "MYR"), ("MZ", "MZN"), ("NA", "NAD"), ("NC", "XPF"), ("NE", "XOF"), ("NF", "AUD"),
    ("NG", "NGN"), ("NI", "NIO"), ("NL", "EUR"), ("NO", "NOK"), ("NP", "NPR"), ("NR", "AUD"),
    ("NU", "NZD"), ("NZ", "NZD"), ("OM", "OMR"), ("PA", "PAB"), ("PE", "PEN"), ("PF", "XPF"),
    ("PG", "PGK"), ("PH", "PHP"), ("PK", "PKR"), ("PL", "PLN"), ("PM", "EUR"), ("PN", "NZD"),
    ("PR", "USD"), ("PS", "ILS"), ("PT", "EUR"), ("PW", "USD"), ("PY", "PYG"), ("QA", "QAR"),
    ("RE", "EUR"), ("RO", "RON"), ("RS", "RSD"), ("RU", "RUB"), ("RW", "RWF"), ("SA", "SAR"),
    ("SB", "SBD"), ("SC", "SCR"), ("SD", "SDG"), ("SE", "SEK"), ("SG", "SGD"), ("SH", "SHP"),
    ("SI", "EUR"), ("SJ", "NOK"), ("SK", "EUR"), ("SL", "SLE"), ("SM", "EUR"), ("SN", "XOF"),
    ("SO", "SOS"), ("SR", "SRD"), ("SS", "SSP"), ("ST", "STN"), ("SV", "USD"), ("SX", "XCG"),
    ("SY", "SYP"), ("SZ", "SZL"), ("TC", "USD"), ("TD", "XAF"), ("TF", "EUR"), ("TG", "XOF"),
    ("TH", "THB"), ("TJ", "TJS"), ("TK", "NZD"), ("TL", "USD"), ("TM", "TMT"), ("TN", "TND"),
    ("TO", "TOP"), ("TR", "TRY"), ("TT", "TTD"), ("TV", "AUD"), ("TW", "TWD"), ("TZ", "TZS"),
    ("UA", "UAH"), ("UG", "UGX"), ("UM", "USD"), ("US", "USD"), ("UY", "UYU"), ("UZ", "UZS"),
    ("VA", "EUR"), ("VC", "XCD"), ("VE", "VES"), ("VG", "USD"), ("VI", "USD"), ("VN", "VND"),
    ("VU", "VUV"), ("WF", "XPF"), ("WS", "WST"), ("XK", "EUR"), ("YE", "YER"), ("YT", "EUR"),
    ("ZA", "ZAR"), ("ZM", "ZMW"), ("ZW", "ZWG")]

def symbols : SortedTable String :=
  #[("ARS", "$"), ("AUD", "$"), ("BDT", "৳"), ("BRL", "R$"), ("CAD", "$"), ("CLP", "$"),
    ("CNY", "¥"), ("COP", "$"), ("CZK", "Kč"), ("DKK", "kr."), ("EUR", "€"), ("GBP", "£"),
    ("GEL", "₾"), ("HKD", "HK$"), ("HUF", "Ft"), ("IDR", "Rp"), ("ILS", "₪"), ("INR", "₹"),
    ("ISK", "kr"), ("JPY", "¥"), ("KRW", "₩"), ("KZT", "₸"), ("MXN", "$"), ("MYR", "RM"),
    ("NGN", "₦"), ("NOK", "kr"), ("NZD", "$"), ("PHP", "₱"), ("PLN", "zł"), ("RUB", "₽"),
    ("SEK", "kr"), ("SGD", "$"), ("THB", "฿"), ("TRY", "₺"), ("TWD", "$"), ("UAH", "₴"),
    ("USD", "$"), ("UYU", "$"), ("VND", "₫"), ("ZAR", "R")]

def undivided : List String :=
  ["AFN", "ALL", "BIF", "CLP", "DJF", "GNF", "IQD", "IRR", "ISK", "JPY", "KMF", "KPW", "KRW", "LAK",
    "LBP", "MGA", "MMK", "PYG", "RSD", "RWF", "SOS", "SYP", "UGX", "VND", "VUV", "XAF", "XOF", "XPF",
    "YER"]

def thousandths : List String :=
  ["BHD", "JOD", "KWD", "LYD", "OMR", "TND"]

def minorDigits (code : String) : Nat :=
  if undivided.contains code then 0 else if thousandths.contains code then 3 else 2

def ofCode (code : String) : Currency :=
  ⟨(symbols.search code).getD code, minorDigits code⟩

def generic : Currency :=
  ⟨"¤", 2⟩

def ofLocale (l : Locale) : Currency :=
  match l.regionCode.bind fun region => regionCodes.search region with
  | some code => ofCode code
  | none => generic

end Currency

end MessageCatalog
