import MessageCatalog.Proofs.Number.Body
import MessageCatalog.Proofs.Number.QuotedAffixes

namespace MessageCatalog

open Traversal

namespace DigitLayout

def InTurn (p q : Char → Prop) (cs : List Char) : Prop :=
  ∃ first second, cs = first ++ second ∧ (∀ c ∈ first, p c) ∧ ∀ c ∈ second, q c

def IsWhole (cs : List Char) : Prop :=
  InTurn (fun c => c = '#' ∨ c = ',') (fun c => c = '0' ∨ c = ',') cs ∧ cs.getLast? ≠ some ','

def IsFraction (cs : List Char) : Prop :=
  InTurn (· = '0') (· = '#') cs

def Joins (whole fraction cs : List Char) : Prop :=
  cs = whole ++ '.' :: fraction ∨ cs = whole ∧ fraction = []

structure Reads (whole fraction cs : List Char) : Prop where
  isWhole : IsWhole whole
  isFraction : IsFraction fraction
  joins : Joins whole fraction cs

def ofParts (whole fraction : List Char) : DigitLayout where
  minInteger := min (whole.count '0') mostDigits
  minFraction := min (fraction.count '0') mostDigits
  maxFraction := min fraction.length mostDigits
  grouped := whole.contains ','

variable {p q : Char → Prop} {c : Char} {cs whole fraction : List Char} {layout : DigitLayout}

theorem InTurn.of_mem (h : InTurn p q cs) (hc : c ∈ cs) : p c ∨ q c := by
  obtain ⟨first, second, rfl, hfirst, hsecond⟩ := h
  exact (List.mem_append.mp hc).imp (hfirst c) (hsecond c)

theorem inTurn_of_forall (h : ∀ c ∈ cs, q c) : InTurn p q cs :=
  ⟨[], cs, rfl, nofun, h⟩

theorem inTurn_cons : InTurn p q (c :: cs) ↔ (q c ∧ ∀ d ∈ cs, q d) ∨ p c ∧ InTurn p q cs := by
  constructor
  · rintro ⟨first, second, heq, hfirst, hsecond⟩
    cases first with
    | nil =>
      rw [List.nil_append] at heq
      exact .inl (List.forall_mem_cons.mp (heq ▸ hsecond))
    | cons d first =>
      obtain ⟨rfl, rfl⟩ := List.cons_eq_cons.mp heq
      obtain ⟨hd, hfirst⟩ := List.forall_mem_cons.mp hfirst
      exact .inr ⟨hd, first, second, rfl, hfirst, hsecond⟩
  · rintro (h | ⟨hc, first, second, rfl, hfirst, hsecond⟩)
    · exact inTurn_of_forall (List.forall_mem_cons.mpr h)
    · exact ⟨c :: first, second, rfl, List.forall_mem_cons.mpr ⟨hc, hfirst⟩, hsecond⟩

theorem wholeProblem?_required_eq_none_iff (h : ∀ c ∈ cs, c = '#' ∨ c = '0' ∨ c = ',') :
    wholeProblem? true cs = none ↔ ∀ c ∈ cs, c = '0' ∨ c = ',' := by
  induction cs with
  | nil => simp [wholeProblem?]
  | cons c cs ih =>
    obtain ⟨hc, hcs⟩ := List.forall_mem_cons.mp h
    rcases hc with rfl | rfl | rfl <;> simp [wholeProblem?, ih hcs]

theorem wholeProblem?_eq_none_iff (h : ∀ c ∈ cs, c = '#' ∨ c = '0' ∨ c = ',') :
    wholeProblem? false cs = none ↔
      InTurn (fun c => c = '#' ∨ c = ',') (fun c => c = '0' ∨ c = ',') cs := by
  induction cs with
  | nil => exact iff_of_true rfl (inTurn_of_forall nofun)
  | cons c cs ih =>
    obtain ⟨hc, hcs⟩ := List.forall_mem_cons.mp h
    rw [inTurn_cons]
    rcases hc with rfl | rfl | rfl
    · simp [wholeProblem?, ih hcs]
    · simp [wholeProblem?, wholeProblem?_required_eq_none_iff hcs]
    · simp only [wholeProblem?, Char.reduceEq, false_and, if_false, decide_false, Bool.or_false, ih hcs,
        or_true, true_and]
      exact (or_iff_right_of_imp inTurn_of_forall).symm

theorem fractionProblem?_optional_eq_none_iff :
    fractionProblem? true cs = none ↔ ∀ c ∈ cs, c = '#' := by
  induction cs with
  | nil => simp [fractionProblem?]
  | cons c cs ih =>
    rw [List.forall_mem_cons, ← ih, fractionProblem?]
    by_cases hz : c = '0'
    · simp [hz]
    · by_cases hh : c = '#' <;> simp [hz, hh]

theorem fractionProblem?_eq_none_iff : fractionProblem? false cs = none ↔ IsFraction cs := by
  induction cs with
  | nil => exact iff_of_true rfl (inTurn_of_forall nofun)
  | cons c cs ih =>
    rw [IsFraction, inTurn_cons, ← IsFraction, ← ih, ← fractionProblem?_optional_eq_none_iff,
      fractionProblem?]
    by_cases hz : c = '0'
    · simp [hz]
    · by_cases hh : c = '#' <;> simp [hz, hh]

theorem not_mem_point_of_isWhole (h : IsWhole whole) : '.' ∉ whole := by
  intro hc
  rcases h.1.of_mem hc with (h | h) | (h | h) <;> exact absurd h (by decide)

theorem not_mem_point_of_isFraction (h : IsFraction fraction) : '.' ∉ fraction := by
  intro hc
  rcases h.of_mem hc with h | h <;> exact absurd h (by decide)

theorem exists_joins (cs : List Char) : ∃ whole fraction, '.' ∉ whole ∧ Joins whole fraction cs := by
  induction cs with
  | nil => exact ⟨[], [], List.not_mem_nil, .inr ⟨rfl, rfl⟩⟩
  | cons c cs ih =>
    by_cases hc : c = '.'
    · exact ⟨[], cs, List.not_mem_nil, .inl (congrArg (· :: cs) hc)⟩
    · obtain ⟨whole, fraction, hwhole, hjoins⟩ := ih
      refine ⟨c :: whole, fraction, List.not_mem_cons_of_ne_of_not_mem (Ne.symm hc) hwhole, ?_⟩
      rcases hjoins with rfl | ⟨rfl, rfl⟩
      · exact .inl rfl
      · exact .inr ⟨rfl, rfl⟩

theorem exists_span (hwhole : '.' ∉ whole) (h : Joins whole fraction cs) :
    ∃ rest, cs.span (· != '.') = (whole, rest) ∧ rest.drop 1 = fraction := by
  have hplain : ∀ c ∈ whole, (c != '.') = true := by
    intro c hc
    exact bne_iff_ne.mpr fun hpoint => hwhole (hpoint ▸ hc)
  rw [List.span_eq_takeWhile_dropWhile]
  rcases h with rfl | ⟨rfl, rfl⟩
  · refine ⟨'.' :: fraction, ?_, rfl⟩
    rw [List.takeWhile_append_of_pos hplain, List.dropWhile_append_of_pos hplain]
    simp
  · refine ⟨[], ?_, rfl⟩
    rw [List.takeWhile_eq_self_iff.mpr hplain, List.dropWhile_eq_nil_iff.mpr hplain]

theorem parse_eq_ok_iff (hwhole : '.' ∉ whole) (h : Joins whole fraction cs) :
    parse cs = .ok layout ↔ cs ≠ [] ∧ whole.getLast? ≠ some ',' ∧ wholeProblem? false whole = none ∧
      fractionProblem? false fraction = none ∧ ofParts whole fraction = layout := by
  obtain ⟨rest, hspan, hrest⟩ := exists_span hwhole h
  simp only [parse, hspan, hrest]
  by_cases hne : cs = []
  · simp [hne]
  by_cases hpoint : '.' ∈ fraction
  · have hproblem : fractionProblem? false fraction ≠ none := by
      rw [ne_eq, fractionProblem?_eq_none_iff]
      exact fun hfraction => not_mem_point_of_isFraction hfraction hpoint
    simp [hne, hpoint, hproblem]
  by_cases hlast : whole.getLast? = some ','
  · simp [hne, hpoint, hlast]
  cases hw : wholeProblem? false whole with
  | some problem => simp [hne, hpoint, hlast]
  | none =>
    cases hf : fractionProblem? false fraction with
    | some problem => simp [hne, hpoint, hlast]
    | none => simp [hne, hpoint, hlast, ofParts]

theorem parse_eq_ok_iff_reads (hne : cs ≠ []) (hcs : ∀ c ∈ cs, c = '#' ∨ c = '0' ∨ c = ',' ∨ c = '.') :
    parse cs = .ok layout ↔ ∃ whole fraction, Reads whole fraction cs ∧ ofParts whole fraction = layout := by
  have hplain {whole fraction : List Char} (hwhole : '.' ∉ whole) (hjoins : Joins whole fraction cs) :
      ∀ c ∈ whole, c = '#' ∨ c = '0' ∨ c = ',' := by
    intro c hc
    have hmem : c ∈ cs := by
      rcases hjoins with rfl | ⟨rfl, -⟩
      · exact List.mem_append_left _ hc
      · exact hc
    rcases hcs c hmem with h | h | h | rfl
    · exact .inl h
    · exact .inr (.inl h)
    · exact .inr (.inr h)
    · exact absurd hc hwhole
  constructor
  · intro h
    obtain ⟨whole, fraction, hwhole, hjoins⟩ := exists_joins cs
    obtain ⟨-, hlast, hw, hf, hlayout⟩ := (parse_eq_ok_iff hwhole hjoins).mp h
    rw [wholeProblem?_eq_none_iff (hplain hwhole hjoins)] at hw
    exact ⟨whole, fraction, ⟨⟨hw, hlast⟩, fractionProblem?_eq_none_iff.mp hf, hjoins⟩, hlayout⟩
  · rintro ⟨whole, fraction, ⟨hw, hf, hjoins⟩, hlayout⟩
    have hwhole := not_mem_point_of_isWhole hw
    refine (parse_eq_ok_iff hwhole hjoins).mpr ⟨hne, hw.2, ?_, fractionProblem?_eq_none_iff.mpr hf, hlayout⟩
    exact (wholeProblem?_eq_none_iff (hplain hwhole hjoins)).mpr hw.1

end DigitLayout

namespace NumberPattern

theorem parse_eq_ok_iff_layout {ds : List Char} {p : NumberPattern}
    (hds : ∀ c ∈ ds, isDigitChar c = true) :
    parse (String.ofList ds) = .ok p ↔
      ∃ layout, DigitLayout.parse ds = .ok layout ∧ ⟨⟨[], []⟩, none, layout, .one⟩ = p := by
  have hparse {layout : DigitLayout} (hlayout : DigitLayout.parse ds = .ok layout) :
      parse (String.ofList ds) = .ok ⟨⟨[], []⟩, none, layout, .one⟩ := by
    have haffixed := parse_affixed hds hlayout head?_nil_ne (.inl rfl) rfl "" ""
    rwa [affixed_empty, List.append_nil] at haffixed
  constructor
  · intro h
    have hlayout := layout_of_parse hds h
    exact ⟨p.layout, hlayout, Except.ok.inj ((hparse hlayout).symm.trans h)⟩
  · rintro ⟨layout, hlayout, rfl⟩
    exact hparse hlayout

theorem parse_layout (text : String) (hne : text ≠ "")
    (htext : ∀ c ∈ text.toList, c = '#' ∨ c = '0' ∨ c = ',' ∨ c = '.') :
    ((∃ p, parse text = .ok p) ↔ ∃ whole fraction, DigitLayout.Reads whole fraction text.toList) ∧
      ∀ p, parse text = .ok p → p.layout.minFraction ≤ p.layout.maxFraction ∧
        ∀ whole fraction, DigitLayout.Reads whole fraction text.toList →
          p.layout.minInteger = min (whole.count '0') 32767 ∧
          p.layout.minFraction = min (fraction.count '0') 32767 ∧
          p.layout.maxFraction = min fraction.length 32767 ∧
          (p.layout.grouped = true ↔ ',' ∈ whole) := by
  have hcs : text.toList ≠ [] := fun h => hne (String.toList_eq_nil_iff.mp h)
  have hds : ∀ c ∈ text.toList, isDigitChar c = true := by
    intro c hc
    rcases htext c hc with rfl | rfl | rfl | rfl <;> rfl
  have hparse (p : NumberPattern) : parse text = .ok p ↔
      ∃ layout, DigitLayout.parse text.toList = .ok layout ∧ ⟨⟨[], []⟩, none, layout, .one⟩ = p := by
    rw [← parse_eq_ok_iff_layout hds, String.ofList_toList]
  have hlayout (layout : DigitLayout) : DigitLayout.parse text.toList = .ok layout ↔
      ∃ whole fraction, DigitLayout.Reads whole fraction text.toList ∧
        DigitLayout.ofParts whole fraction = layout := DigitLayout.parse_eq_ok_iff_reads hcs htext
  constructor
  · constructor
    · rintro ⟨p, hp⟩
      obtain ⟨layout, hok, -⟩ := (hparse p).mp hp
      obtain ⟨whole, fraction, hreads, -⟩ := (hlayout layout).mp hok
      exact ⟨whole, fraction, hreads⟩
    · rintro ⟨whole, fraction, hreads⟩
      exact ⟨_, (hparse _).mpr ⟨_, (hlayout _).mpr ⟨whole, fraction, hreads, rfl⟩, rfl⟩⟩
  · intro p hp
    refine ⟨fraction_le_of_parse hp, fun whole fraction hreads => ?_⟩
    obtain ⟨layout, hok, rfl⟩ := (hparse p).mp hp
    have hparts := (hlayout _).mpr ⟨whole, fraction, hreads, rfl⟩
    cases hok.symm.trans hparts
    exact ⟨rfl, rfl, rfl, List.contains_iff_mem⟩

theorem parse_layout_grouped :
    "#,#0,0.0##" ≠ "" ∧
      (∀ c ∈ "#,#0,0.0##".toList, c = '#' ∨ c = '0' ∨ c = ',' ∨ c = '.') ∧
      DigitLayout.Reads "#,#0,0".toList "0##".toList "#,#0,0.0##".toList ∧
      ∃ p, parse "#,#0,0.0##" = .ok p ∧ p.layout = ⟨2, 1, 3, true⟩ := by
  have hne : "#,#0,0.0##" ≠ "" := by decide
  have htext : ∀ c ∈ "#,#0,0.0##".toList, c = '#' ∨ c = '0' ∨ c = ',' ∨ c = '.' := by simp
  have hreads : DigitLayout.Reads "#,#0,0".toList "0##".toList "#,#0,0.0##".toList :=
    { isWhole := ⟨⟨['#', ',', '#'], ['0', ',', '0'], rfl, by simp, by simp⟩, by decide⟩
      isFraction := ⟨['0'], ['#', '#'], rfl, by simp, by simp⟩
      joins := .inl rfl }
  obtain ⟨hok, hlayout⟩ := parse_layout "#,#0,0.0##" hne htext
  obtain ⟨p, hp⟩ := hok.mpr ⟨_, _, hreads⟩
  obtain ⟨hinteger, hfraction, hmost, hgrouped⟩ := (hlayout p hp).2 _ _ hreads
  have hcomma : p.layout.grouped = true := hgrouped.mpr (by simp)
  refine ⟨hne, htext, hreads, p, hp, ?_⟩
  calc p.layout = ⟨p.layout.minInteger, p.layout.minFraction, p.layout.maxFraction, p.layout.grouped⟩ := rfl
    _ = ⟨2, 1, 3, true⟩ := by rw [hinteger, hfraction, hmost, hcomma]; rfl

end NumberPattern

end MessageCatalog
