import MessageCatalog.Proofs.Binary64.Order
import MessageCatalog.Proofs.Calendar.StandardForm
import MessageCatalog.Proofs.Number.Body
import MessageCatalog.Proofs.Number.Tokens
import MessageCatalog.Proofs.Text.Runs

namespace MessageCatalog

open FieldPattern (doubled)
open Text (Mark Run)
open Traversal

def Binary64.abs : Binary64 → Binary64
  | nan => nan
  | signed _ rank => signed false rank

namespace Numeric

def abs : Numeric → Numeric
  | integer n => integer n.natAbs
  | double x => double x.abs

def IsBelowZero : Numeric → Prop
  | integer n => n < 0
  | double x => ∃ v, x.value? = some v ∧ v < 0

theorem isNegative_iff (x : Numeric) : x.isNegative = true ↔ x.IsBelowZero := by
  match x with
  | integer n => exact decide_eq_true_iff
  | double .nan => simp [isNegative, Binary64.isNegative, IsBelowZero, Binary64.value?]
  | double (.signed negative rank) =>
    have hpos := Binary64.units_lt_units_iff (a := 0) (b := rank)
    rw [Binary64.units_zero] at hpos
    cases negative <;> simp [isNegative, Binary64.isNegative, IsBelowZero, Binary64.value?, hpos]

theorem abs_cases (x : Numeric) : x.abs = x ∨ x.abs = x.negate := by
  match x with
  | integer n =>
    rcases Int.natAbs_eq n with h | h
    · exact .inl (congrArg integer h.symm)
    · have hneg : (n.natAbs : Int) = -n := by omega
      exact .inr (congrArg integer hneg)
  | double .nan => exact .inl rfl
  | double (.signed false _) => exact .inl rfl
  | double (.signed true _) => exact .inr rfl

theorem body_abs (x : Numeric) (layout : DigitLayout) (numerals : Numerals) :
    x.abs.body layout numerals = x.body layout numerals := by
  rcases abs_cases x with h | h
  · rw [h]
  · rw [h, body_negate]

theorem isNegative_abs (x : Numeric) : x.abs.isNegative = false := by
  match x with
  | integer n =>
    have hpos : ¬(n.natAbs : Int) < 0 := by omega
    exact decide_eq_false hpos
  | double .nan => rfl
  | double (.signed _ _) => rfl

end Numeric

namespace NumberPattern

def quoteAffix (cs : List Char) : List Char :=
  let rest := cs.dropWhile (· == '\'')
  doubled (cs.takeWhile (· == '\'')) ++ if rest.isEmpty then [] else '\'' :: (doubled rest ++ ['\''])

def affixed (before ds after : List Char) : List Char :=
  quoteAffix before ++ (ds ++ quoteAffix after)

variable {cs ds rest : List Char} {c : Char} {stage : Stage} {scale : NumberScale} {ts : List Token}

theorem quoteAffix_apostrophe (cs : List Char) :
    quoteAffix ('\'' :: cs) = '\'' :: '\'' :: quoteAffix cs := by
  simp [quoteAffix, doubled]

theorem quoteAffix_cons (hc : c ≠ '\'') (cs : List Char) :
    quoteAffix (c :: cs) = '\'' :: (doubled (c :: cs) ++ ['\'']) := by
  simp [quoteAffix, doubled, hc]

theorem tokens_quotation (h : rest.head? ≠ some '\'') (cs : List Char) :
    tokens true (doubled cs ++ '\'' :: rest) = cs.map Token.quoted ++ tokens false rest := by
  induction cs with
  | nil => exact tokens_apostrophe h
  | cons c cs ih =>
    by_cases hc : c = '\''
    · have hd : doubled (c :: cs) ++ '\'' :: rest = '\'' :: '\'' :: (doubled cs ++ '\'' :: rest) := by
        simp [doubled, hc]
      rw [hd, tokens_doubled, ih, hc]
      rfl
    · have hd : doubled (c :: cs) ++ '\'' :: rest = c :: (doubled cs ++ '\'' :: rest) := by
        simp [doubled, hc]
      rw [hd, tokens_char hc, ih]
      rfl

theorem tokens_quoteAffix (h : rest.head? ≠ some '\'') (cs : List Char) :
    tokens false (quoteAffix cs ++ rest) = cs.map Token.quoted ++ tokens false rest := by
  induction cs with
  | nil => rfl
  | cons c cs ih =>
    by_cases hc : c = '\''
    · rw [hc, quoteAffix_apostrophe, List.cons_append, List.cons_append, tokens_doubled, ih]
      rfl
    · have hquote : quoteAffix (c :: cs) ++ rest = '\'' :: (doubled (c :: cs) ++ '\'' :: rest) := by
        simp [quoteAffix_cons hc]
      have hhead : (doubled (c :: cs) ++ '\'' :: rest).head? ≠ some '\'' := by simp [doubled, hc]
      rw [hquote, tokens_apostrophe hhead, Bool.not_false, tokens_quotation h]

theorem ne_apostrophe_of_isDigitChar (h : isDigitChar c = true) : c ≠ '\'' := by
  rintro rfl
  exact absurd h (by decide)

theorem head?_nil_ne : ([] : List Char).head? ≠ some c :=
  nofun

theorem tokens_affixed (hds : ∀ c ∈ ds, isDigitChar c = true) (hne : ds ≠ [])
    (h : rest.head? ≠ some '\'') (before after : List Char) :
    tokens false (affixed before ds after ++ rest) = before.map Token.quoted ++
      (ds.map Token.plain ++ (after.map Token.quoted ++ tokens false rest)) := by
  have hplain : '\'' ∉ ds := fun hc => ne_apostrophe_of_isDigitChar (hds _ hc) rfl
  have hhead : (ds ++ (quoteAffix after ++ rest)).head? ≠ some '\'' := by
    obtain ⟨d, ds, rfl⟩ := List.exists_cons_of_ne_nil hne
    rw [List.cons_append, List.head?_cons, ne_eq, Option.some.injEq]
    exact ne_apostrophe_of_isDigitChar (hds d List.mem_cons_self)
  rw [affixed, List.append_assoc, List.append_assoc, tokens_quoteAffix hhead, tokens_plain hplain,
    tokens_quoteAffix h]

theorem scan_quoted_before (cs : List Char) (scale : NumberScale) (ts : List Token) :
    scan .nothing scale (cs.map Token.quoted ++ ts) = (scan .nothing scale ts).map fun r =>
      ({ r.1 with before := cs.map Mark.char ++ r.1.before }, r.2) := by
  induction cs with
  | nil =>
    change scan .nothing scale ts = (scan .nothing scale ts).map id
    cases scan .nothing scale ts <;> rfl
  | cons c cs ih =>
    rw [List.map_cons, List.cons_append, scan, Stage.next, ih]
    cases scan .nothing scale ts <;> rfl

theorem scan_digit (hc : isDigitChar c = true) (hstage : stage ≠ .all) :
    scan stage scale (.plain c :: ts) = (scan .digits scale ts).map fun r => (r.1.digit c, r.2) := by
  have hsemicolon : c ≠ ';' := by
    rintro rfl
    exact absurd hc (by decide)
  rw [scan, if_neg hsemicolon, if_pos hc, if_neg hstage]
  cases scan .digits scale ts <;> rfl

theorem scan_digits (hds : ∀ c ∈ ds, isDigitChar c = true) :
    scan .digits scale (ds.map Token.plain ++ ts) = (scan .digits scale ts).map fun r =>
      ({ r.1 with digits := ds ++ r.1.digits }, r.2) := by
  induction ds with
  | nil =>
    change scan .digits scale ts = (scan .digits scale ts).map id
    cases scan .digits scale ts <;> rfl
  | cons d ds ih =>
    obtain ⟨hd, hds⟩ := List.forall_mem_cons.mp hds
    rw [List.map_cons, List.cons_append, scan_digit hd (by decide), ih hds]
    cases scan .digits scale ts <;> rfl

def IsEnd (ts : List Token) : Prop :=
  ts = [] ∨ ts.head? = some (.plain ';')

theorem scan_end (hend : IsEnd ts) : scan stage scale ts = .ok (⟨[], [], [], scale⟩, ts) := by
  rcases hend with rfl | h
  · rfl
  · obtain ⟨rest, rfl⟩ := List.head?_eq_some_iff.mp h
    rw [scan, if_pos rfl]

theorem scan_quoted_after (hend : IsEnd ts) (hstage : stage ≠ .nothing) (cs : List Char) :
    scan stage scale (cs.map Token.quoted ++ ts) = .ok (⟨[], [], cs.map Mark.char, scale⟩, ts) := by
  induction cs generalizing stage with
  | nil => exact scan_end hend
  | cons c cs ih =>
    have hnext : stage.next = .all := by
      cases stage with
      | nothing => exact absurd rfl hstage
      | digits => rfl
      | all => rfl
    rw [List.map_cons, List.cons_append, scan, hnext, ih (by decide)]
    simp only [bind, Except.bind, pure, Except.pure, Parts.mark, hnext]
    rfl

theorem scan_affixed (hds : ∀ c ∈ ds, isDigitChar c = true) (hne : ds ≠ []) (hend : IsEnd ts)
    (before after : List Char) :
    scan .nothing .one (before.map Token.quoted ++ (ds.map Token.plain ++
      (after.map Token.quoted ++ ts))) =
      .ok (⟨before.map Mark.char, ds, after.map Mark.char, .one⟩, ts) := by
  obtain ⟨d, ds, rfl⟩ := List.exists_cons_of_ne_nil hne
  obtain ⟨hd, hds⟩ := List.forall_mem_cons.mp hds
  rw [scan_quoted_before, List.map_cons, List.cons_append, scan_digit hd (by decide), scan_digits hds,
    scan_quoted_after hend (by decide)]
  simp [Except.map, Parts.digit]

def textAffixes (before after : String) : Affixes :=
  ⟨Run.ofMarks (before.toList.map Mark.char), Run.ofMarks (after.toList.map Mark.char)⟩

theorem affixText_ofMarks (currency : Currency) (t : String) :
    affixText currency (Run.ofMarks (t.toList.map Mark.char)) = t := by
  have hruns : Run.ofMarks (t.toList.map Mark.char) = Run.close (α := AffixSign) t.toList.reverse [] := by
    have hgather := Run.gather_chars (α := AffixSign) [] t.toList []
    rwa [List.append_nil, List.append_nil] at hgather
  rw [hruns]
  by_cases ht : t = ""
  · subst ht
    rfl
  · rw [Run.close_toList_reverse ht]
    simp [affixText]

variable {parts : Parts} {negative : Option Affixes} {layout : DigitLayout}

theorem parse_of_scan (hscan : scan .nothing .one (tokens false cs) = .ok (parts, ts))
    (hnegative : negativeAffixes ts = .ok negative) (hlayout : DigitLayout.parse parts.digits = .ok layout) :
    parse (String.ofList cs) = .ok ⟨parts.affixes, negative, layout, parts.scale⟩ := by
  rw [parse, String.toList_ofList, hscan]
  change (negativeAffixes ts >>= fun negative => DigitLayout.parse parts.digits >>= fun layout =>
    .ok (NumberPattern.mk parts.affixes negative layout parts.scale)) = _
  rw [hnegative, hlayout]
  rfl

theorem parse_affixed (hds : ∀ c ∈ ds, isDigitChar c = true) (hlayout : DigitLayout.parse ds = .ok layout)
    (hhead : rest.head? ≠ some '\'') (hend : IsEnd (tokens false rest))
    (hnegative : negativeAffixes (tokens false rest) = .ok negative) (before after : String) :
    parse (String.ofList (affixed before.toList ds after.toList ++ rest)) =
      .ok ⟨textAffixes before after, negative, layout, .one⟩ := by
  have hne : ds ≠ [] := by
    rintro rfl
    cases hlayout
  have hscan := scan_affixed hds hne hend before.toList after.toList
  rw [← tokens_affixed hds hne hhead] at hscan
  exact parse_of_scan hscan hnegative hlayout

theorem negativeAffixes_affixed (hds : ∀ c ∈ ds, isDigitChar c = true) (hne : ds ≠ [])
    (before after : String) :
    negativeAffixes (.plain ';' :: tokens false (affixed before.toList ds after.toList)) =
      .ok (some (textAffixes before after)) := by
  have htokens := tokens_affixed hds hne head?_nil_ne before.toList after.toList
  have hscan := scan_affixed hds hne (.inl rfl : IsEnd (tokens false [])) before.toList after.toList
  rw [List.append_nil] at htokens
  rw [negativeAffixes, htokens, hscan]
  rfl

theorem write_textAffixes (negative : Option Affixes) (layout : DigitLayout) (before after : String)
    (l : Locale) (x : Numeric) :
    (NumberPattern.mk (textAffixes before after) negative layout .one).write l x =
      match x.isNegative, negative with
      | true, some other => affixText (.ofLocale l) other.before ++ x.body layout (.ofLocale l) ++
          affixText (.ofLocale l) other.after
      | true, none => "-" ++ before ++ x.body layout (.ofLocale l) ++ after
      | false, _ => before ++ x.body layout (.ofLocale l) ++ after := by
  rw [write, NumberScale.factor, Numeric.scale_one]
  cases x.isNegative <;> cases negative <;> simp [textAffixes, affixText_ofMarks]

theorem affixed_empty (ds : List Char) : affixed "".toList ds "".toList = ds := by
  simp [affixed, quoteAffix, doubled]

theorem layout_of_parse (hds : ∀ c ∈ ds, isDigitChar c = true) {plain : NumberPattern}
    (h : parse (String.ofList ds) = .ok plain) : DigitLayout.parse ds = .ok plain.layout := by
  obtain ⟨⟨parts, ts⟩, hscan, h⟩ := bind_eq_ok_iff.mp h
  obtain ⟨negative, -, h⟩ := bind_eq_ok_iff.mp h
  obtain ⟨layout, hlayout, h⟩ := bind_eq_ok_iff.mp h
  cases h
  have hdigits : parts.digits = ds := by
    by_cases hne : ds = []
    · subst hne
      cases hscan
      rfl
    · have htokens := tokens_affixed hds hne head?_nil_ne [] []
      have hall := scan_affixed hds hne (.inl rfl : IsEnd []) [] []
      have hempty : affixed [] ds [] ++ [] = ds := by simp [affixed, quoteAffix, doubled]
      rw [hempty] at htokens
      rw [String.toList_ofList, htokens] at hscan
      cases hall.symm.trans hscan
      rfl
  rwa [hdigits] at hlayout

theorem write_affixed (before after before' after' : String) {ds ns : List Char} {plain : NumberPattern}
    (hds : ∀ c ∈ ds, isDigitChar c = true) (hplain : parse (String.ofList ds) = .ok plain)
    (hns : ∀ c ∈ ns, isDigitChar c = true) (hne : ns ≠ []) :
    ∃ p q, parse (String.ofList (affixed before.toList ds after.toList)) = .ok p ∧
      parse (String.ofList (affixed before.toList ds after.toList ++
        ';' :: affixed before'.toList ns after'.toList)) = .ok q ∧
      p.scale.factor = 1 ∧ q.scale.factor = 1 ∧ p.layout = plain.layout ∧ q.layout = plain.layout ∧
      ∀ l x, (¬x.IsBelowZero → p.write l x = before ++ plain.write l x.abs ++ after ∧
          q.write l x = before ++ plain.write l x.abs ++ after) ∧
        (x.IsBelowZero → p.write l x = "-" ++ before ++ plain.write l x.abs ++ after ∧
          q.write l x = before' ++ plain.write l x.abs ++ after') := by
  have hlayout := layout_of_parse hds hplain
  have hfirst := parse_affixed hds hlayout head?_nil_ne (.inl rfl) rfl
  have hsemicolon : tokens false (';' :: affixed before'.toList ns after'.toList) =
      .plain ';' :: tokens false (affixed before'.toList ns after'.toList) :=
    tokens_char (by decide) false _
  have hnegative := negativeAffixes_affixed hns hne before' after'
  rw [← hsemicolon] at hnegative
  have hsecond := parse_affixed hds hlayout (by simp) (.inr (by rw [hsemicolon]; rfl)) hnegative
  have hbody : plain = ⟨textAffixes "" "", none, plain.layout, .one⟩ := by
    have hparse := hfirst "" ""
    rw [affixed_empty, List.append_nil, hplain] at hparse
    exact Except.ok.inj hparse
  refine ⟨_, _, (List.append_nil _ ▸ hfirst before after :), hsecond before after, rfl, rfl, rfl, rfl, ?_⟩
  intro l x
  have habs : plain.write l x.abs = x.body plain.layout (.ofLocale l) := by
    rw [hbody, write_textAffixes, Numeric.isNegative_abs, Numeric.body_abs]
    simp
  simp only [write_textAffixes, habs, ← Numeric.isNegative_iff]
  constructor
  · intro hx
    rw [Bool.not_eq_true] at hx
    simp [hx]
  · intro hx
    simp [hx, textAffixes, affixText_ofMarks]

theorem write_affixed_percent :
    let ds := "#,##0.00".toList
    let plain : NumberPattern := ⟨⟨[], []⟩, none, ⟨1, 2, 2, true⟩, .one⟩
    (∀ c ∈ ds, isDigitChar c = true) ∧ parse (String.ofList ds) = .ok plain ∧
      (∀ c ∈ ['.'], isDigitChar c = true) ∧ ['.'] ≠ [] ∧
      ∃ p q, parse "'''#%'#,##0.00'‰'''" = .ok p ∧ parse "'''#%'#,##0.00'‰''';'('.');'" = .ok q ∧
        p.write .germany (.integer (-12345)) = "-'#%12.345,00‰'" ∧
        q.write .germany (.integer (-12345)) = "(12.345,00);" := by
  intro ds plain
  have hall : ds.all isDigitChar = true := by decide +kernel
  have hds : ∀ c ∈ ds, isDigitChar c = true := List.all_eq_true.mp hall
  have hplain : parse (String.ofList ds) = .ok plain := by decide +kernel
  have hns : ∀ c ∈ ['.'], isDigitChar c = true := List.forall_mem_singleton.mpr rfl
  refine ⟨hds, hplain, hns, List.cons_ne_nil _ _, ?_⟩
  obtain ⟨p, q, hp, hq, -, -, -, -, hwrite⟩ :=
    write_affixed "'#%" "‰'" "(" ");" hds hplain hns (List.cons_ne_nil _ _)
  have hbelow : (Numeric.integer (-12345)).IsBelowZero := by
    rw [Numeric.IsBelowZero]
    decide
  have hbody : plain.write .germany (Numeric.integer (-12345)).abs = "12.345,00" := by decide +kernel
  obtain ⟨hpositive, hnegative⟩ := (hwrite .germany (.integer (-12345))).2 hbelow
  rw [hbody] at hpositive hnegative
  exact ⟨p, q, hp, hq, hpositive, hnegative⟩

end NumberPattern

end MessageCatalog
