import MessageCatalog.Proofs.Catalog.ResolvedArguments

namespace MessageCatalog

namespace Catalog

inductive Resolves (m : Catalog) (l : Locale) (key : String) : Locale → MessagePattern → Prop where
  | asked {p : MessagePattern} (ha : m.accepts l = true) (hp : m.table.get? l key = some p) :
      Resolves m l key l p
  | default {p : MessagePattern} (hn : m.accepts l = true → m.table.get? l key = none)
      (hp : m.table.get? m.config.defaultLocale key = some p) :
      Resolves m l key m.config.defaultLocale p

def Answers (m : Catalog) (l : Locale) (key : String) : Prop :=
  m.isIdentity = true ∨ ∃ c p, m.Resolves l key c p

variable {m : Catalog} {l c : Locale} {key : String} {p : MessagePattern}

theorem find?_of_asked (ha : m.accepts l = true) (hp : m.table.get? l key = some p) :
    m.find? l key = some (l, p) := by
  simp only [find?, ha, if_true, hp]

theorem find?_of_default (hn : m.accepts l = true → m.table.get? l key = none) :
    m.find? l key =
      (m.table.get? m.config.defaultLocale key).map fun p => (m.config.defaultLocale, p) := by
  cases ha : m.accepts l with
  | true =>
    have hl : m.table.get? l key = none := hn ha
    simp only [find?, ha, if_true, hl]
    -- a default locale that is the asked one has been tried
    by_cases hd : l = m.config.defaultLocale
    · rw [if_pos hd, ← hd, hl, Option.map_none]
    · rw [if_neg hd]
  | false =>
    simp only [find?, ha, Bool.false_eq_true, if_false, if_true]
    cases m.table.get? m.config.defaultLocale key <;> rfl

theorem find?_eq_some : m.find? l key = some (c, p) ↔ m.Resolves l key c p := by
  constructor
  · intro h
    by_cases hl : m.accepts l = true ∧ ∃ q, m.table.get? l key = some q
    · obtain ⟨ha, q, hq⟩ := hl
      rw [find?_of_asked ha hq] at h
      cases h
      exact .asked ha hq
    · have hn : m.accepts l = true → m.table.get? l key = none := by
        intro ha
        rw [Option.eq_none_iff_forall_ne_some]
        exact fun q hq => hl ⟨ha, q, hq⟩
      rw [find?_of_default hn, Option.map_eq_some_iff] at h
      obtain ⟨q, hq, he⟩ := h
      cases he
      exact .default hn hq
  · intro h
    cases h with
    | asked ha hp => exact find?_of_asked ha hp
    | default hn hp => rw [find?_of_default hn, hp, Option.map_some]

theorem has_iff : m.has l key = true ↔ ∃ c p, m.Resolves l key c p := by
  rw [has, Option.isSome_iff_exists]
  constructor
  · rintro ⟨⟨c, p⟩, h⟩
    exact ⟨c, p, find?_eq_some.mp h⟩
  · rintro ⟨c, p, h⟩
    exact ⟨(c, p), find?_eq_some.mpr h⟩

theorem find?_eq_none : m.find? l key = none ↔ ¬∃ c p, m.Resolves l key c p := by
  rw [← has_iff, has]
  cases m.find? l key <;> simp

theorem answers_iff (hi : m.isIdentity = false) : m.Answers l key ↔ ∃ c p, m.Resolves l key c p := by
  simp [Answers, hi]

theorem not_answers_iff : ¬m.Answers l key ↔ m.isIdentity = false ∧ m.find? l key = none := by
  rw [Answers, not_or, find?_eq_none, Bool.not_eq_true]

end Catalog

namespace Chain

/-- The catalog stands at the place in the chain and answers the key, and none before it does. -/
structure AnswersFirst (chain : Chain) (l : Locale) (key : String) (j : Nat) (m : Catalog) : Prop where
  place : chain[j]? = some m
  answers : m.Answers l key
  least : ∀ i < j, ∀ n, chain[i]? = some n → ¬n.Answers l key

variable {l : Locale} {key : String} {m : Catalog} {ancestors : Chain}

theorem lookup_of_identity (hi : m.isIdentity = true) : lookup l key (m :: ancestors) = .identity := by
  rw [lookup, if_pos hi]

theorem lookup_of_resolves {c : Locale} {p : MessagePattern} (hi : m.isIdentity = false)
    (h : m.Resolves l key c p) : lookup l key (m :: ancestors) = .found (m :: ancestors) c p := by
  simp only [lookup, hi, Bool.false_eq_true, if_false, Catalog.find?_eq_some.mpr h]

theorem lookup_of_not_answers (h : ¬m.Answers l key) :
    lookup l key (m :: ancestors) = lookup l key ancestors := by
  obtain ⟨hi, hf⟩ := Catalog.not_answers_iff.mp h
  simp only [lookup, hi, Bool.false_eq_true, if_false, hf]

theorem lookup_append {passed rest : Chain} (h : ∀ n ∈ passed, ¬n.Answers l key) :
    lookup l key (passed ++ rest) = lookup l key rest := by
  induction passed with
  | nil => rfl
  | cons n passed ih =>
    rw [List.cons_append, lookup_of_not_answers (h n List.mem_cons_self)]
    exact ih fun n hn => h n (List.mem_cons_of_mem _ hn)

theorem lookup_of_answersFirst {chain : Chain} {j : Nat} (h : AnswersFirst chain l key j m) :
    lookup l key chain = lookup l key (chain.drop j) := by
  have hpassed : ∀ n ∈ chain.take j, ¬n.Answers l key := by
    intro n hn
    obtain ⟨i, hi, hg⟩ := List.mem_take_iff_getElem.mp hn
    exact h.least i (by omega) n (hg ▸ List.getElem?_eq_getElem _)
  conv => lhs; rw [← List.take_append_drop j chain]
  exact lookup_append hpassed

theorem lookup_eq_missing {chain : Chain} (h : ∀ n ∈ chain, ¬n.Answers l key) :
    lookup l key chain = .missing := by
  rw [← List.append_nil chain, lookup_append h]
  rfl

theorem answer_of_identity {chain : Chain} {arguments : Chain → List Value}
    (h : lookup l key chain = .identity) : answer l key chain arguments = .ok key := by
  rw [answer, h]

theorem answer_of_found {chain owner : Chain} {c : Locale} {p : MessagePattern}
    {arguments : Chain → List Value} (h : lookup l key chain = .found owner c p) :
    answer l key chain arguments =
      (p.write (some (arguments owner))).mapError (.format key c) := by
  rw [answer, h]

theorem answer_of_missing {chain : Chain} {arguments : Chain → List Value}
    (h : lookup l key chain = .missing) :
    answer l key chain arguments =
      .error (.missing key l ((chain.getLast?.map fun m => m.suggestions l key).getD [])) := by
  rw [answer, h]

theorem answer_of_not_answers {arguments : Chain → List Value} (h : ¬m.Answers l key)
    (ha : ancestors ≠ []) :
    answer l key (m :: ancestors) arguments = answer l key ancestors arguments := by
  have hlast : (m :: ancestors).getLast? = ancestors.getLast? := by
    obtain ⟨n, rest, rfl⟩ := List.exists_cons_of_ne_nil ha
    exact List.getLast?_cons_cons
  simp only [answer, lookup_of_not_answers h, hlast]

theorem drop_of_answersFirst {chain : Chain} {j : Nat} (h : AnswersFirst chain l key j m) :
    chain.drop j = m :: chain.drop (j + 1) := by
  obtain ⟨hj, hm⟩ := List.getElem?_eq_some_iff.mp h.place
  rw [List.drop_eq_getElem_cons hj, hm]

theorem answersFirst_zero : AnswersFirst (m :: ancestors) l key 0 m ↔ m.Answers l key :=
  ⟨fun h => h.answers, fun h => ⟨rfl, h, fun _ hi => absurd hi (Nat.not_lt_zero _)⟩⟩

theorem message?_of_answersFirst (chain : Chain) (l : Locale) (key : String) (arguments : List Value) :
    (∀ j m, AnswersFirst chain l key j m →
      (m.isIdentity = true → chain.message? l key arguments = .ok key) ∧
      (m.isIdentity = false →
        IsResolved l (chain.drop j) (.sequence arguments)
          (.sequence (resolveArguments l arguments (chain.drop j))) ∧
        ∀ c p resolved, m.Resolves l key c p →
          IsResolved l (chain.drop j) (.sequence arguments) (.sequence resolved) →
            chain.message? l key arguments = (p.write (some resolved)).mapError (.format key c))) ∧
    (∀ last, chain.getLast? = some last → (∀ n ∈ chain, ¬n.Answers l key) →
      chain.message? l key arguments = .error (.missing key l (last.suggestions l key))) ∧
    (∀ m ancestors, chain = m :: ancestors → m.isIdentity = false →
      (m.has l key = true ↔ AnswersFirst chain l key 0 m) ∧
      (m.has l key = false → ancestors ≠ [] →
        chain.message? l key arguments = Chain.message? ancestors l key arguments)) := by
  refine ⟨?_, ?_, ?_⟩
  · intro j m h
    have hdrop := drop_of_answersFirst h
    have hlookup := lookup_of_answersFirst h
    constructor
    · intro hi
      apply answer_of_identity
      rw [hlookup, hdrop, lookup_of_identity hi]
    · intro hi
      refine ⟨isResolved_resolveArguments arguments, fun c p resolved hr hresolved => ?_⟩
      rw [hresolved.eq_resolveArguments]
      apply answer_of_found
      rw [hlookup, hdrop, lookup_of_resolves hi hr]
  · intro last hlast h
    rw [message?, answer_of_missing (lookup_eq_missing h), hlast]
    rfl
  · rintro m ancestors rfl hi
    constructor
    · rw [answersFirst_zero, Catalog.answers_iff hi, Catalog.has_iff]
    · intro hh ha
      apply answer_of_not_answers _ ha
      rw [Catalog.answers_iff hi, ← Catalog.has_iff, hh]
      exact Bool.false_ne_true

def timetable (texts : List (String × MessagePattern)) : Catalog where
  isIdentity := false
  config := {}
  table := ⟨SortedMap.empty.insert .germany (SortedMap.empty.insertAll texts)⟩

def changeAt : MessagePattern :=
  ⟨"\x7b0\x7d: \x7b1\x7d", .germany, [.item ⟨0, .untyped⟩, .text ": ", .item ⟨1, .untyped⟩]⟩

theorem message?_of_answersFirst_change :
    let town (t : String) : String × MessagePattern := ("town", ⟨t, .germany, [.text t]⟩)
    let lines := timetable [town "Wels", ("change", changeAt)]
    let chain := [timetable [town "Linz"], lines]
    let arguments := [.deferred "asked" .localeText, .deferred "town" (.message "town" [])]
    let resolved := [.text "en-US", .text "Wels"]
    AnswersFirst chain .unitedStates "change" 1 lines ∧ lines.isIdentity = false ∧
      lines.Resolves .unitedStates "change" .germany changeAt ∧
      IsResolved .unitedStates [lines] (.sequence arguments) (.sequence resolved) ∧
      message? chain .unitedStates "change" arguments = .ok "en-US: Wels" := by
  intro town lines chain arguments resolved
  have hr : lines.Resolves .unitedStates "change" .germany changeAt := Catalog.find?_eq_some.mp (by decide +kernel)
  have hfirst : AnswersFirst chain .unitedStates "change" 1 lines := by
    refine ⟨rfl, .inr ⟨_, _, hr⟩, fun i hi n hn => ?_⟩
    obtain rfl : i = 0 := Nat.lt_one_iff.mp hi
    cases hn
    exact Catalog.not_answers_iff.mpr ⟨rfl, rfl⟩
  have hresolved : IsResolved .unitedStates [lines] (.sequence arguments) (.sequence resolved) := by
    have htown : message [lines] .unitedStates "town" [] = "Wels" := by decide +kernel
    have hvalue : resolve .unitedStates [lines] (.sequence arguments) =
        .sequence [.text "en-US", .text (message [lines] .unitedStates "town" [])] := rfl
    have h : IsResolved .unitedStates [lines] _ _ := isResolved_resolve (.sequence arguments)
    rw [hvalue, htown] at h
    exact h
  have hmessage := ((message?_of_answersFirst chain .unitedStates "change" arguments).1 1 lines hfirst).2 rfl
  exact ⟨hfirst, rfl, hr, hresolved, hmessage.2 _ _ _ hr hresolved⟩

end Chain

end MessageCatalog
