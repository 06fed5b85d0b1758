import Mathlib.Data.List.TakeDrop
import Mathlib.Data.List.TakeWhile
import MessageCatalog.Message.Choice
import MessageCatalog.Proofs.Binary64.Order
import MessageCatalog.Proofs.Text.Split
import MessageCatalog.Proofs.Traversal

namespace MessageCatalog

open Binary64 (AtMost Less IsLeastAbove)

namespace ChoiceEntry

inductive IsRelation : Char → LimitRelation → Prop where
  | hash : IsRelation '#' .atLeast
  | atMost : IsRelation '≤' .atLeast
  | less : IsRelation '<' .above

inductive WritesLimit : List Char → Binary64 → Prop where
  | infinity : WritesLimit ['∞'] (.infinity false)
  | plus : WritesLimit ['+', '∞'] (.infinity false)
  | minus : WritesLimit ['-', '∞'] (.infinity true)
  | double {cs : List Char} {x : Binary64} (h : Binary64.read? cs = some x) (hx : x ≠ .nan) :
      WritesLimit cs x

inductive IsWritten : List Char → ChoiceEntry → Prop where
  | intro {before label : List Char} {c : Char} {limit : Binary64} {relation : LimitRelation}
      (hb : ∀ d ∈ before, ∀ r, ¬IsRelation d r) (hc : IsRelation c relation)
      (hl : WritesLimit (Text.trim before) limit) :
      IsWritten (before ++ c :: label) ⟨limit, relation, String.ofList label⟩

def Matches (e : ChoiceEntry) (x : Binary64) : Prop :=
  match e.relation with
  | .atLeast => AtMost e.limit x
  | .above => Less e.limit x

/-- The least double that matches. Above infinity there is none, and it is infinity itself. -/
inductive HasLeast : ChoiceEntry → Binary64 → Prop where
  | atLeast {limit : Binary64} {label : String} : HasLeast ⟨limit, .atLeast, label⟩ limit
  | above {limit x : Binary64} {label : String} (h : IsLeastAbove limit x) :
      HasLeast ⟨limit, .above, label⟩ x

def IsUnreachable (e : ChoiceEntry) : Prop :=
  e.relation = .above ∧ e.limit = .infinity false

variable {cs : List Char} {c : Char} {e : ChoiceEntry} {x y : Binary64} {r : LimitRelation}

theorem relation?_eq_some_iff : relation? c = some r ↔ IsRelation c r := by
  constructor
  · intro h
    rw [relation?] at h
    split at h
    case isTrue hc =>
      cases h
      rcases hc with rfl | rfl
      · exact .hash
      · exact .atMost
    case isFalse =>
      split at h
      case isTrue hc =>
        cases h
        exact hc ▸ .less
      case isFalse => cases h
  · rintro (_ | _ | _) <;> rfl

theorem relation?_isNone_iff : (relation? c).isNone = true ↔ ∀ r, ¬IsRelation c r := by
  rw [Option.isNone_iff_eq_none, Option.eq_none_iff_forall_ne_some]
  exact forall_congr' fun r => not_congr relation?_eq_some_iff

theorem limit?_eq_some_iff : limit? cs = some x ↔ WritesLimit cs x := by
  constructor
  · intro h
    rw [limit?] at h
    split at h
    case isTrue hc =>
      cases h
      rcases hc with rfl | rfl
      · exact .infinity
      · exact .plus
    case isFalse =>
      split at h
      case isTrue hc =>
        cases h
        exact hc ▸ .minus
      case isFalse =>
        obtain ⟨hread, hx⟩ := Option.filter_eq_some_iff.mp h
        refine .double hread ?_
        rintro rfl
        cases hx
  · rintro (_ | _ | _ | ⟨hread, hx⟩)
    · rfl
    · rfl
    · rfl
    · have hplus : ¬(cs = ['∞'] ∨ cs = ['+', '∞']) := by
        rintro (rfl | rfl) <;> cases hread
      have hminus : cs ≠ ['-', '∞'] := by
        rintro rfl
        cases hread
      rw [limit?, if_neg hplus, if_neg hminus, hread]
      cases x with
      | nan => exact absurd rfl hx
      | signed s r => rfl

theorem WritesLimit.ne_nan (h : WritesLimit cs x) : x ≠ .nan := by
  cases h with
  | double _ hx => exact hx
  | _ => exact nofun

theorem parse_eq_ok_iff : parse cs = .ok e ↔ IsWritten cs e := by
  rw [parse, List.span_eq_takeWhile_dropWhile]
  constructor
  · intro h
    have hcs := List.takeWhile_append_dropWhile (p := fun c => (relation? c).isNone) (l := cs)
    have hbefore (d : Char) (hd : d ∈ cs.takeWhile fun c => (relation? c).isNone) :
        ∀ r, ¬IsRelation d r := by
      have hd' := List.mem_takeWhile_imp hd
      exact relation?_isNone_iff.mp hd'
    cases hrest : cs.dropWhile fun c => (relation? c).isNone with
    | nil =>
      rw [hrest] at h
      cases h
    | cons c label =>
      rw [hrest] at h hcs
      simp only at h
      split at h
      case h_1 limit relation hlimit hrelation =>
        cases h
        rw [← hcs]
        exact .intro hbefore (relation?_eq_some_iff.mp hrelation) (limit?_eq_some_iff.mp hlimit)
      case h_2 => cases h
  · rintro ⟨hb, hc, hl⟩
    have hnone := fun d hd => relation?_isNone_iff.mpr (hb d hd)
    have hsome := relation?_eq_some_iff.mpr hc
    rw [List.takeWhile_append_of_pos hnone, List.dropWhile_append_of_pos hnone,
      List.takeWhile_cons_of_neg (by simp [hsome]), List.dropWhile_cons_of_neg (by simp [hsome]),
      List.append_nil]
    simp only [limit?_eq_some_iff.mpr hl, hsome]

theorem IsWritten.limit_ne_nan (h : IsWritten cs e) : e.limit ≠ .nan := by
  obtain ⟨-, -, hl⟩ := h
  exact hl.ne_nan

theorem least_ne_nan (h : e.limit ≠ .nan) : e.least ≠ .nan := by
  rw [least]
  cases e.relation with
  | atLeast => exact h
  | above => exact Binary64.next_ne_nan h

theorem hasLeast_least (h : e.limit ≠ .nan) : HasLeast e e.least := by
  obtain ⟨limit, relation, label⟩ := e
  cases relation with
  | atLeast => exact .atLeast
  | above => exact .above (Binary64.isLeastAbove_next h)

theorem HasLeast.value?_eq (hx : HasLeast e x) (hy : HasLeast e y) : x.value? = y.value? := by
  cases hx with
  | atLeast =>
    cases hy
    rfl
  | above hx =>
    cases hy with
    | above hy => exact hx.value?_eq hy

theorem matches_iff (h : e.limit ≠ .nan) (hu : ¬e.IsUnreachable) :
    e.Matches x ↔ AtMost e.least x := by
  obtain ⟨limit, relation, label⟩ := e
  cases relation with
  | atLeast => rfl
  | above => exact (Binary64.next_atMost_iff h fun hl => hu ⟨rfl, hl⟩).symm

theorem not_matches_nan : ¬e.Matches .nan := by
  have hle : ¬AtMost e.limit .nan := fun ⟨_, _, _, hb, _⟩ => by cases hb
  rw [Matches]
  split
  · exact hle
  · exact fun h => hle h.atMost

end ChoiceEntry

namespace Choice

open ChoiceEntry

inductive Takes (es : List ChoiceEntry) (x : Binary64) : String → Prop where
  | last {before after : List ChoiceEntry} {e : ChoiceEntry} (hes : es = before ++ e :: after)
      (he : e.Matches x) (hafter : ∀ f ∈ after, ¬f.Matches x) : Takes es x e.label
  | first {after : List ChoiceEntry} {e : ChoiceEntry} (hes : es = e :: after)
      (hnone : ∀ f ∈ es, ¬f.Matches x) : Takes es x e.label

def Ascends (e f : ChoiceEntry) : Prop :=
  Less e.least f.least

variable {pattern : String} {parts : List (List Char)} {es : List ChoiceEntry} {e : ChoiceEntry}
  {x : Binary64}

theorem any_least_le_iff {previous : Option ChoiceEntry} (he : e.limit ≠ .nan)
    (hp : ∀ p ∈ previous, p.limit ≠ .nan) :
    previous.any (fun p => e.least.le p.least) = true ↔ ¬∀ p ∈ previous, Ascends p e := by
  cases previous with
  | none => simp
  | some p =>
    have hp : p.limit ≠ .nan := hp p rfl
    simp only [Option.any_some, Option.mem_def, Option.some.injEq, forall_eq', Ascends]
    rw [Binary64.le_iff, ← Binary64.not_atMost_iff (least_ne_nan he) (least_ne_nan hp), not_not]

theorem isChain_toList_append {previous : Option ChoiceEntry} :
    (previous.toList ++ e :: es).IsChain Ascends ↔
      (∀ p ∈ previous, Ascends p e) ∧ (e :: es).IsChain Ascends := by
  cases previous <;> simp

theorem parseEntries_eq_ok_iff {previous : Option ChoiceEntry}
    (hp : ∀ p ∈ previous, p.limit ≠ .nan) :
    parseEntries previous parts = .ok es ↔
      List.Forall₂ IsWritten parts es ∧ (previous.toList ++ es).IsChain Ascends := by
  induction parts generalizing previous es with
  | nil => cases es <;> cases previous <;> simp [parseEntries]
  | cons cs parts ih =>
    rw [parseEntries, Traversal.bind_eq_ok_iff]
    constructor
    · rintro ⟨e, he, h⟩
      have hwritten := ChoiceEntry.parse_eq_ok_iff.mp he
      have hlimit := hwritten.limit_ne_nan
      split at h
      case isTrue => cases h
      case isFalse hany =>
        rw [any_least_le_iff hlimit hp, not_not] at hany
        obtain ⟨later, hlater, hes⟩ := Traversal.bind_eq_ok_iff.mp h
        cases hes
        obtain ⟨hparts, hchain⟩ := (ih (by simpa using hlimit)).mp hlater
        exact ⟨.cons hwritten hparts, isChain_toList_append.mpr ⟨hany, hchain⟩⟩
    · rintro ⟨hes, hchain⟩
      cases hes with
      | @cons _ e _ later hwritten hparts =>
        have hlimit := hwritten.limit_ne_nan
        obtain ⟨hascends, hchain⟩ := isChain_toList_append.mp hchain
        have hany := (not_congr (any_least_le_iff hlimit hp)).mpr (not_not.mpr hascends)
        have hlater : parseEntries (some e) parts = .ok later :=
          (ih (by simpa using hlimit)).mpr ⟨hparts, hchain⟩
        refine ⟨e, ChoiceEntry.parse_eq_ok_iff.mpr hwritten, ?_⟩
        rw [if_neg hany, hlater]
        rfl

theorem map_value?_of_hasLeast {ls : List Binary64} (h : List.Forall₂ HasLeast es ls)
    (hes : ∀ e ∈ es, e.limit ≠ .nan) : ls.map Binary64.value? = (es.map least).map Binary64.value? := by
  induction h with
  | nil => rfl
  | @cons e l es ls he _ ih =>
    obtain ⟨hlimit, hes⟩ := List.forall_mem_cons.mp hes
    simp only [List.map_cons, he.value?_eq (hasLeast_least hlimit), ih hes]

theorem isChain_ascends_iff (hes : ∀ e ∈ es, e.limit ≠ .nan) :
    es.IsChain Ascends ↔ ∃ ls, List.Forall₂ HasLeast es ls ∧ ls.Pairwise Less := by
  have htrans : Trans Ascends Ascends Ascends := ⟨Less.trans⟩
  rw [List.isChain_iff_pairwise]
  constructor
  · intro h
    refine ⟨es.map least, ?_, List.pairwise_map.mpr h⟩
    rw [List.forall₂_map_right_iff, List.forall₂_same]
    exact fun e he => hasLeast_least (hes e he)
  · rintro ⟨ls, hleast, hls⟩
    -- only the values of doubles are compared
    let ValueLess (a b : Option Int) : Prop := ∃ m n, a = some m ∧ b = some n ∧ m < n
    have hvalues : (ls.map Binary64.value?).Pairwise ValueLess := List.pairwise_map.mpr hls
    rw [map_value?_of_hasLeast hleast hes, List.pairwise_map, List.pairwise_map] at hvalues
    exact hvalues

theorem limit_ne_nan_of_written (h : List.Forall₂ IsWritten parts es) : ∀ e ∈ es, e.limit ≠ .nan := by
  induction h with
  | nil => exact nofun
  | cons hwritten _ ih => exact List.forall_mem_cons.mpr ⟨hwritten.limit_ne_nan, ih⟩

theorem parse_eq_ok_iff_written {c : Choice} :
    parse pattern = .ok c ↔
      List.Forall₂ IsWritten (Text.split '|' pattern.toList) c.entries ∧ c.entries.IsChain Ascends := by
  have hparse : parseEntries none (Text.split '|' pattern.toList) = .ok c.entries ↔ _ :=
    parseEntries_eq_ok_iff nofun
  rw [Option.toList_none, List.nil_append] at hparse
  rw [parse, ← hparse]
  cases parseEntries none (Text.split '|' pattern.toList) with
  | error p => exact ⟨nofun, nofun⟩
  | ok es =>
    simp only [Except.map, Except.ok.injEq]
    exact ⟨fun h => h ▸ rfl, fun h => h ▸ rfl⟩

theorem pairwise_matches (hes : ∀ e ∈ es, e.limit ≠ .nan) (hu : ∀ e ∈ es, ¬e.IsUnreachable)
    (h : es.Pairwise Ascends) : es.Pairwise fun e f => f.Matches x → e.Matches x := by
  refine h.imp_of_mem fun {e f} he hf hef hm => ?_
  rw [matches_iff (hes f hf) (hu f hf)] at hm
  rw [matches_iff (hes e he) (hu e he)]
  exact (hef.trans_atMost hm).atMost

section beginning

variable {α : Type} {p : α → Bool} {l : List α}

theorem eq_false_of_mem_dropWhile (h : l.Pairwise fun a b => p b = true → p a = true) {b : α}
    (hb : b ∈ l.dropWhile p) : p b = false := by
  induction l with
  | nil => cases hb
  | cons a l ih =>
    obtain ⟨ha, hl⟩ := List.pairwise_cons.mp h
    cases hp : p a with
    | true =>
      rw [List.dropWhile_cons_of_pos hp] at hb
      exact ih hl hb
    | false =>
      rw [List.dropWhile_cons_of_neg (by simp [hp])] at hb
      rcases List.mem_cons.mp hb with rfl | hb
      · exact hp
      · cases hpb : p b with
        | true => exact absurd (ha b hb hpb) (by simp [hp])
        | false => rfl

theorem takeWhile_eq_filter (h : l.Pairwise fun a b => p b = true → p a = true) :
    l.takeWhile p = l.filter p := by
  have hbefore : (l.takeWhile p).filter p = l.takeWhile p :=
    List.filter_eq_self.mpr fun _ => List.mem_takeWhile_imp
  have hafter : (l.dropWhile p).filter p = [] := by
    rw [List.filter_eq_nil_iff]
    intro b hb
    rw [eq_false_of_mem_dropWhile h hb]
    exact Bool.false_ne_true
  conv => rhs; rw [← List.takeWhile_append_dropWhile (p := p) (l := l)]
  rw [List.filter_append, hbefore, hafter, List.append_nil]

end beginning

theorem select_takes {c : Choice} (hne : c.entries ≠ [])
    (hm : ∀ e ∈ c.entries, e.Matches x ↔ e.least.le x = true)
    (h : c.entries.Pairwise fun e f => f.Matches x → e.Matches x) :
    Takes c.entries x (c.select x) := by
  have hsplit := List.takeWhile_append_dropWhile (p := fun e : ChoiceEntry => e.least.le x) (l := c.entries)
  have hpass : c.entries.Pairwise fun e f => f.least.le x = true → e.least.le x = true :=
    h.imp_of_mem fun he hf hef => by rwa [hm _ he, hm _ hf] at hef
  have hafter : ∀ f ∈ c.entries.dropWhile fun e => e.least.le x, ¬f.Matches x := by
    intro f hf
    rw [hm f ((List.dropWhile_sublist _).subset hf), eq_false_of_mem_dropWhile hpass hf]
    exact Bool.false_ne_true
  rw [select]
  rcases List.eq_nil_or_concat' (c.entries.takeWhile fun e => e.least.le x) with hnil | ⟨init, e, hlast⟩
  · rw [hnil, List.nil_append] at hsplit
    rw [hsplit] at hafter
    obtain ⟨e, rest, hes⟩ := List.exists_cons_of_ne_nil hne
    rw [hnil, List.getLast?_nil, Option.none_or, hes, List.head?_cons]
    rw [← hes]
    exact .first hes hafter
  · have he : e ∈ c.entries.takeWhile fun e => e.least.le x := by simp [hlast]
    have hreached := List.mem_takeWhile_imp he
    have hmatch := (hm e ((List.takeWhile_sublist _).subset he)).mpr hreached
    rw [hlast, List.append_assoc, List.singleton_append] at hsplit
    rw [hlast, List.getLast?_concat, Option.some_or]
    exact .last hsplit.symm hmatch hafter

/-- A text is a choice exactly if its entries are written as such and their least doubles ascend. If none
is unreachable, a double that matches an entry matches all before it, and the choice takes the label of the
last entry that matches or else the first label; what is not a number matches none. -/
theorem select_takes_of_parse (pattern : String) (c : Choice) :
    (parse pattern = .ok c ↔
      List.Forall₂ IsWritten (Text.split '|' pattern.toList) c.entries ∧
        ∃ ls, List.Forall₂ HasLeast c.entries ls ∧ ls.Pairwise Less) ∧
    (parse pattern = .ok c → (∀ e ∈ c.entries, ¬e.IsUnreachable) → ∀ x : Binary64,
      (c.entries.Pairwise fun e f => f.Matches x → e.Matches x) ∧
      Takes c.entries x (c.select x) ∧ (x = .nan → ∀ e ∈ c.entries, ¬e.Matches x)) := by
  rw [parse_eq_ok_iff_written]
  constructor
  · apply and_congr_right
    exact fun h => isChain_ascends_iff (limit_ne_nan_of_written h)
  · rintro ⟨hwritten, hchain⟩ hu x
    have hes := limit_ne_nan_of_written hwritten
    have htrans : Trans Ascends Ascends Ascends := ⟨Less.trans⟩
    have hpairwise := pairwise_matches (x := x) hes hu (List.isChain_iff_pairwise.mp hchain)
    refine ⟨hpairwise, select_takes ?_ ?_ hpairwise, ?_⟩
    · intro hnil
      rw [hnil, List.forall₂_nil_right_iff] at hwritten
      exact Text.split_ne_nil _ _ hwritten
    · exact fun e he => (matches_iff (hes e he) (hu e he)).trans Binary64.le_iff.symm
    · rintro rfl e -
      exact not_matches_nan

def signs : Choice :=
  ⟨[⟨.infinity true, .atLeast, "none"⟩, ⟨.ofRank false 0, .above, "some"⟩, ⟨.ofInt 2, .atLeast, "many"⟩]⟩

theorem select_takes_of_signs :
    parse "-∞#none|0<some| 2 ≤many" = .ok signs ∧ (∀ e ∈ signs.entries, ¬e.IsUnreachable) ∧
      Takes signs.entries (.ofRank true 0) "none" ∧ Takes signs.entries (.ofRank false 1) "some" := by
  have hparse : parse "-∞#none|0<some| 2 ≤many" = .ok signs := by decide +kernel
  have hu : ∀ e ∈ signs.entries, ¬e.IsUnreachable := by
    simp only [signs, List.forall_mem_cons, IsUnreachable]
    decide +kernel
  have hzero : signs.select (.ofRank true 0) = "none" := by decide +kernel
  have hleast : signs.select (.ofRank false 1) = "some" := by decide +kernel
  refine ⟨hparse, hu, ?_, ?_⟩
  · rw [← hzero]
    exact ((select_takes_of_parse _ signs).2 hparse hu _).2.1
  · rw [← hleast]
    exact ((select_takes_of_parse _ signs).2 hparse hu _).2.1

end Choice

end MessageCatalog
