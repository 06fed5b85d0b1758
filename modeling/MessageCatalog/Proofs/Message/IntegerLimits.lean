import Mathlib.Data.List.Chain
import MessageCatalog.Proofs.Binary64.Integers
import MessageCatalog.Proofs.Message.Rendering
import MessageCatalog.Proofs.Message.Selection
import MessageCatalog.Proofs.Text.Trim

/-!
Choices with integers as limits. Limits are read, put in order and compared as doubles, and the limit of an
entry that excludes it is moved to the next double. As long as limits stay below `2 ^ 52` and the numbers they are
compared with do not exceed `2 ^ 53`, the label is the one that the integers themselves give.
-/

namespace MessageCatalog

open Binary64 (AtMost Less ofInt)

structure IntegerEntry where
  limit : ℤ
  sign : Char
  relation : LimitRelation
  label : String
  small : limit.natAbs < 2 ^ 52
  isRelation : ChoiceEntry.IsRelation sign relation
  unbarred : '|' ∉ label.toList

namespace IntegerEntry

def text (e : IntegerEntry) : List Char :=
  (Text.intText e.limit).toList ++ e.sign :: e.label.toList

def pattern (es : List IntegerEntry) : String :=
  String.ofList (['|'].intercalate (es.map text))

def Precedes (e f : IntegerEntry) : Prop :=
  e.limit < f.limit ∨ e.limit = f.limit ∧ e.relation = .atLeast ∧ f.relation = .above

def reached (e : IntegerEntry) (n : ℤ) : Bool :=
  match e.relation with
  | .atLeast => e.limit ≤ n
  | .above => e.limit < n

def taken (es : List IntegerEntry) (n : ℤ) : Option IntegerEntry :=
  (es.filter fun e => e.reached n).getLast?.or es.head?

def entry (e : IntegerEntry) : ChoiceEntry :=
  ⟨ofInt e.limit, e.relation, e.label⟩

variable {e f : IntegerEntry} {es : List IntegerEntry} {n : ℤ}

theorem natAbs_limit_le (e : IntegerEntry) : e.limit.natAbs ≤ 2 ^ 53 :=
  e.small.le.trans (by decide)

theorem isWritten (e : IntegerEntry) : ChoiceEntry.IsWritten e.text e.entry := by
  have hint : ∀ c ∈ (Text.intText e.limit).toList,
      Text.isBlank c = false ∧ (ChoiceEntry.relation? c).isNone = true :=
    Text.forall_mem_intText (by decide) (by decide) e.limit
  rw [text, entry, ← String.ofList_toList (s := e.label), String.toList_ofList]
  refine .intro (fun c hc => ChoiceEntry.relation?_isNone_iff.mp (hint c hc).2) e.isRelation ?_
  rw [Text.trim_of_not_blank fun c hc => (hint c hc).1]
  exact .double (Binary64.read?_intText e.natAbs_limit_le) (Binary64.ofInt_ne_nan e.limit)

theorem bar_not_mem_text (e : IntegerEntry) : '|' ∉ e.text := by
  have hint : ∀ c ∈ (Text.intText e.limit).toList, c ≠ '|' :=
    Text.forall_mem_intText (by decide) (by decide) e.limit
  have hsign : '|' ≠ e.sign := by
    intro h
    have hrelation := e.isRelation
    rw [← h] at hrelation
    cases hrelation
  rw [text, List.mem_append, List.mem_cons]
  rintro (h | h | h)
  · exact hint _ h rfl
  · exact hsign h
  · exact e.unbarred h

theorem split_pattern (hne : es ≠ []) : Text.split '|' (pattern es).toList = es.map text := by
  rw [pattern, String.toList_ofList, Text.split_intercalate (by simpa using hne)]
  rw [List.forall_mem_map]
  exact fun e _ => e.bar_not_mem_text

theorem limit_atMost_least (e : IntegerEntry) : AtMost (ofInt e.limit) e.entry.least := by
  rw [entry, ChoiceEntry.least]
  cases e.relation with
  | atLeast => exact (Binary64.atMost_ofInt_iff e.natAbs_limit_le e.natAbs_limit_le).mpr le_rfl
  | above => exact (Binary64.less_next_ofInt e.small).atMost

theorem least_less (hn : n.natAbs ≤ 2 ^ 53) (h : e.limit < n) : Less e.entry.least (ofInt n) := by
  rw [entry, ChoiceEntry.least]
  cases e.relation with
  | atLeast => exact (Binary64.less_ofInt_iff e.natAbs_limit_le hn).mpr h
  | above => exact Binary64.next_ofInt_less e.small hn h

theorem Precedes.ascends (h : e.Precedes f) : Choice.Ascends e.entry f.entry := by
  rcases h with hlt | ⟨hlimit, he, hf⟩
  · exact (least_less f.natAbs_limit_le hlt).trans_atMost f.limit_atMost_least
  · rw [Choice.Ascends, ChoiceEntry.least, ChoiceEntry.least, entry, entry, he, hf, hlimit]
    exact Binary64.less_next_ofInt f.small

theorem limit_le_of_reached (h : e.reached n = true) : e.limit ≤ n := by
  rw [reached] at h
  cases hrelation : e.relation with
  | atLeast =>
    rw [hrelation] at h
    exact of_decide_eq_true h
  | above =>
    rw [hrelation] at h
    exact (of_decide_eq_true h).le

theorem reached_of_limit_lt (h : e.limit < n) : e.reached n = true := by
  rw [reached]
  cases e.relation with
  | atLeast => exact decide_eq_true h.le
  | above => exact decide_eq_true h

theorem reached_of_precedes (h : e.Precedes f) (hf : f.reached n = true) : e.reached n = true := by
  have hle := limit_le_of_reached hf
  rcases h with hlt | ⟨hlimit, he, -⟩
  · exact reached_of_limit_lt (hlt.trans_le hle)
  · rw [reached, he]
    exact decide_eq_true (hlimit.trans_le hle)

theorem least_le_eq (hn : n.natAbs ≤ 2 ^ 53) : e.entry.least.le (ofInt n) = e.reached n := by
  have hreachable : ¬e.entry.IsUnreachable := fun h => Binary64.ofInt_ne_infinity e.small h.2
  rw [Bool.eq_iff_iff, Binary64.le_iff, ← ChoiceEntry.matches_iff (Binary64.ofInt_ne_nan _) hreachable,
    ChoiceEntry.Matches, reached, entry]
  cases e.relation with
  | atLeast => rw [Binary64.atMost_ofInt_iff e.natAbs_limit_le hn, decide_eq_true_eq]
  | above => rw [Binary64.less_ofInt_iff e.natAbs_limit_le hn, decide_eq_true_eq]

theorem select_eq (hes : es.IsChain Precedes) (hn : n.natAbs ≤ 2 ^ 53) :
    (Choice.mk (es.map entry)).select (ofInt n) = ((taken es n).map label).getD "" := by
  let Implied (e f : IntegerEntry) : Prop := f.reached n = true → e.reached n = true
  have htrans : Trans Implied Implied Implied := ⟨fun hef hfg h => hef (hfg h)⟩
  have himplied : es.IsChain Implied := hes.imp fun _ _ => reached_of_precedes
  have hreached := List.isChain_iff_pairwise.mp himplied
  have hlabel : ChoiceEntry.label ∘ entry = label := rfl
  rw [Choice.select, List.takeWhile_map]
  simp only [Function.comp_def, least_le_eq hn]
  rw [Choice.takeWhile_eq_filter hreached, List.getLast?_map, List.head?_map, ← Option.map_or, Option.map_map,
    hlabel, taken]

theorem parse_pattern (hne : es ≠ []) (hes : es.IsChain Precedes) :
    Choice.parse (pattern es) = .ok ⟨es.map entry⟩ := by
  rw [Choice.parse_eq_ok_iff_written, split_pattern hne, List.isChain_map]
  refine ⟨?_, hes.imp fun _ _ => Precedes.ascends⟩
  rw [List.forall₂_map_left_iff, List.forall₂_map_right_iff, List.forall₂_same]
  exact fun e _ => e.isWritten

theorem exists_taken (hne : es ≠ []) (n : ℤ) : ∃ e, taken es n = some e := by
  obtain ⟨e, later, rfl⟩ := List.exists_cons_of_ne_nil hne
  rw [taken]
  cases ((e :: later).filter fun e => e.reached n).getLast? with
  | none => exact ⟨e, rfl⟩
  | some f => exact ⟨f, rfl⟩

theorem writePlaceholder_taken (hne : es ≠ []) (hes : es.IsChain Precedes) :
    ∃ c, Choice.parse (pattern es) = .ok c ∧ c.entries.map ChoiceEntry.label = es.map label ∧
      ∀ (l : Locale) (arguments : List Value) (i : Nat) (n : Int64),
        arguments[i]? = some (.integer n) → n.toInt.natAbs ≤ 2 ^ 53 →
        ∃ e, taken es n.toInt = some e ∧
          MessagePattern.writePlaceholder l (some arguments) ⟨i, .choice c⟩ = .ok e.label := by
  refine ⟨⟨es.map entry⟩, parse_pattern hne hes, ?_, ?_⟩
  · rw [List.map_map]
    rfl
  · intro l arguments i n hi hn
    obtain ⟨e, he⟩ := exists_taken hne n.toInt
    have hselect := select_eq hes hn
    rw [he, Option.map_some, Option.getD_some] at hselect
    have hvalue : ((some arguments).bind fun vs => vs[i]?) = some (.integer n) := hi
    have hnull : Value.integer n ≠ .null := by
      intro h
      cases h
    refine ⟨e, he, ?_⟩
    rw [MessagePattern.writePlaceholder_of_ne_null hvalue hnull, ArgumentFormat.write, ← hselect]
    rfl

def bounds : List IntegerEntry :=
  [⟨0, '#', .atLeast, "none", by decide, .hash, by decide⟩,
    ⟨0, '<', .above, "some < #2", by decide, .less, by decide⟩,
    ⟨4503599627370495, '≤', .atLeast, "≤ all", by decide, .atMost, by decide⟩]

theorem writePlaceholder_taken_bounds :
    bounds ≠ [] ∧ bounds.IsChain Precedes ∧
      pattern bounds = "0#none|0<some < #2|4503599627370495≤≤ all" ∧
      ∃ c, Choice.parse (pattern bounds) = .ok c ∧ ∀ l : Locale, ∀ p ∈ ([(-9007199254740992, "none"), (0, "none"),
          (1, "some < #2"), (4503599627370494, "some < #2"), (4503599627370495, "≤ all"),
          (9007199254740992, "≤ all")] : List (Int64 × String)),
        MessagePattern.writePlaceholder l (some [.integer p.1]) ⟨0, .choice c⟩ = .ok p.2 := by
  have hne : bounds ≠ [] := nofun
  have hes : bounds.IsChain Precedes := by
    simp only [bounds, List.isChain_cons_cons, List.isChain_singleton, Precedes]
    decide
  obtain ⟨c, hparse, -, hwrite⟩ := writePlaceholder_taken hne hes
  refine ⟨hne, hes, by decide +kernel, c, hparse, fun l p hp => ?_⟩
  have htaken : (taken bounds p.1.toInt).map label = some p.2 ∧ p.1.toInt.natAbs ≤ 2 ^ 53 := by
    revert p
    decide
  obtain ⟨e, he, hlabel⟩ := hwrite l [.integer p.1] 0 p.1 rfl htaken.2
  rw [hlabel]
  rw [he, Option.map_some, Option.some.injEq] at htaken
  rw [htaken.1]

end IntegerEntry

end MessageCatalog
