import MessageCatalog.Proofs.Catalog.Resolution

namespace MessageCatalog

theorem Suggestion.mem_of_mem_forKey {key s : String} {candidates : List String}
    (h : s ∈ Suggestion.forKey key candidates) : s ∈ candidates := by
  obtain ⟨n, -, hn⟩ := List.mem_flatMap.mp (List.mem_of_mem_take h)
  exact (List.mem_filter.mp hn).1

namespace Table

theorem mem_keys_iff {t : Table} {l : Locale} {key : String} :
    key ∈ t.keys l ↔ (t.get? l key).isSome = true := by
  rw [keys, get?]
  cases t.patterns.get? l with
  | none => simp
  | some patterns => exact SortedMap.get?_isSome_iff.symm

end Table

namespace Catalog

variable {m : Catalog} {l : Locale} {key s : String}

theorem has_of_default (h : (m.table.get? m.config.defaultLocale key).isSome = true) :
    m.has l key = true := by
  obtain ⟨p, hp⟩ := Option.isSome_iff_exists.mp h
  rw [has_iff]
  by_cases hl : m.accepts l = true ∧ ∃ q, m.table.get? l key = some q
  · obtain ⟨ha, q, hq⟩ := hl
    exact ⟨l, q, .asked ha hq⟩
  · refine ⟨_, p, .default (fun ha => ?_) hp⟩
    rw [Option.eq_none_iff_forall_ne_some]
    exact fun q hq => hl ⟨ha, q, hq⟩

theorem has_of_accepts (ha : m.accepts l = true) (h : (m.table.get? l key).isSome = true) :
    m.has l key = true := by
  obtain ⟨p, hp⟩ := Option.isSome_iff_exists.mp h
  exact has_iff.mpr ⟨l, p, .asked ha hp⟩

theorem has_of_not_accepts (ha : m.accepts l = false) :
    m.has l key = (m.table.get? m.config.defaultLocale key).isSome := by
  have hn : m.accepts l = true → m.table.get? l key = none := fun h => by
    rw [ha] at h
    cases h
  rw [has, find?_of_default hn, Option.isSome_map]

theorem mem_suggestions_of_contains (hc : m.table.containsLocale l = true)
    (h : s ∈ m.suggestions l key) : (m.table.get? l s).isSome = true := by
  rw [suggestions, if_pos hc] at h
  exact Table.mem_keys_iff.mp (Suggestion.mem_of_mem_forKey h)

theorem mem_suggestions_of_not_contains (hc : m.table.containsLocale l = false)
    (h : s ∈ m.suggestions l key) : (m.table.get? m.config.defaultLocale s).isSome = true := by
  rw [suggestions, if_neg (by simp [hc])] at h
  exact Table.mem_keys_iff.mp (Suggestion.mem_of_mem_forKey h)

theorem has_suggestion_iff (h : s ∈ m.suggestions l key) :
    m.has l s = true ↔ m.accepts l = true ∨ m.table.containsLocale l = false ∨
      (m.table.get? m.config.defaultLocale s).isSome = true := by
  constructor
  · intro hs
    cases ha : m.accepts l with
    | true => exact .inl rfl
    | false =>
      rw [has_of_not_accepts ha] at hs
      exact .inr (.inr hs)
  · rintro (ha | hc | hd)
    · cases hc : m.table.containsLocale l with
      | true => exact has_of_accepts ha (mem_suggestions_of_contains hc h)
      | false => exact has_of_default (mem_suggestions_of_not_contains hc h)
    · exact has_of_default (mem_suggestions_of_not_contains hc h)
    · exact has_of_default hd

end Catalog

namespace Chain

variable {chain : Chain} {l c : Locale} {key k s : String} {arguments : List Value}
  {suggestions : List String} {last : Catalog}

theorem lookup_missing_iff : lookup l key chain = .missing ↔ ∀ m ∈ chain, ¬m.Answers l key := by
  refine ⟨fun h => ?_, lookup_eq_missing⟩
  induction chain with
  | nil => simp
  | cons m ancestors ih =>
    have hm : ¬m.Answers l key := by
      rintro (hi | ⟨c, p, hr⟩)
      · rw [lookup_of_identity hi] at h
        cases h
      · cases hi : m.isIdentity with
        | true =>
          rw [lookup_of_identity hi] at h
          cases h
        | false =>
          rw [lookup_of_resolves hi hr] at h
          cases h
    rw [lookup_of_not_answers hm] at h
    exact List.forall_mem_cons.mpr ⟨hm, ih h⟩

theorem message?_missing (h : chain.message? l key arguments = .error (.missing k c suggestions)) :
    lookup l key chain = .missing ∧
      suggestions = (chain.getLast?.map fun m => m.suggestions l key).getD [] := by
  rw [message?] at h
  cases hl : lookup l key chain with
  | missing =>
    rw [answer_of_missing hl] at h
    cases h
    exact ⟨rfl, rfl⟩
  | identity =>
    rw [answer_of_identity hl] at h
    cases h
  | found owner c' p =>
    rw [answer_of_found hl] at h
    cases hw : p.write (some (resolveArguments l arguments owner)) with
    | ok t =>
      rw [hw] at h
      cases h
    | error e =>
      rw [hw] at h
      cases h

theorem message?_ne_missing (hl : chain.getLast? = some last) (h : last.has l s = true)
    (arguments : List Value) (k : String) (c : Locale) (suggestions : List String) :
    chain.message? l s arguments ≠ .error (.missing k c suggestions) := by
  intro hm
  have hall := lookup_missing_iff.mp (message?_missing hm).1
  exact hall last (List.mem_of_getLast? hl) (.inr (Catalog.has_iff.mp h))

/-- Every suggestion for a missing key resolves in the last catalog of the chain exactly if that catalog
accepts the locale, or its table lacks the locale, or the default locale has every suggestion. What resolves
there is not missing in the chain. -/
theorem suggestions_resolve_iff (chain : Chain) (l c : Locale) (key k : String) (arguments : List Value)
    (suggestions : List String) (last : Catalog)
    (h : chain.message? l key arguments = .error (.missing k c suggestions))
    (hl : chain.getLast? = some last) :
    ((∀ s ∈ suggestions, last.has l s = true) ↔
      last.accepts l = true ∨ last.table.containsLocale l = false ∨
        ∀ s ∈ suggestions, (last.table.get? last.config.defaultLocale s).isSome = true) ∧
    ∀ s ∈ suggestions, last.has l s = true → ∀ others k' c' t,
      chain.message? l s others ≠ .error (.missing k' c' t) := by
  obtain ⟨-, rfl⟩ := message?_missing h
  simp only [hl, Option.map_some, Option.getD_some]
  constructor
  · constructor
    · intro hs
      by_cases ha : last.accepts l = true
      · exact .inl ha
      by_cases hc : last.table.containsLocale l = false
      · exact .inr (.inl hc)
      refine .inr (.inr fun s hm => ?_)
      exact ((Catalog.has_suggestion_iff hm).mp (hs s hm)).resolve_left ha |>.resolve_left hc
    · intro hs s hm
      rw [Catalog.has_suggestion_iff hm]
      exact hs.imp_right (Or.imp_right fun hd => hd s hm)
  · exact fun s _ hh others k' c' t => message?_ne_missing hl hh others k' c' t

def greeting (accepted : Option LocaleSet) : Catalog where
  isIdentity := false
  config := { accepted := accepted }
  table := ⟨SortedMap.empty.insert .unitedStates
    (SortedMap.empty.insert "greeting" ⟨"Hello", .unitedStates, [.text "Hello"]⟩)⟩

theorem suggestions_resolve_greeting :
    Chain.message? [greeting none] .unitedStates "greting" [] =
        .error (.missing "greting" .unitedStates ["greeting"]) ∧
      (greeting none).has .unitedStates "greeting" = true := by
  have h : Chain.message? [greeting none] .unitedStates "greting" [] =
      .error (.missing "greting" .unitedStates ["greeting"]) := rfl
  have ha : (greeting none).accepts .unitedStates = true := rfl
  refine ⟨h, ?_⟩
  exact (suggestions_resolve_iff _ _ _ _ _ _ _ _ h rfl).1.mpr (.inl ha) "greeting" List.mem_cons_self

theorem suggestions_not_always_resolve :
    ¬∀ (chain : Chain) (l c : Locale) (key k : String) (arguments : List Value)
      (suggestions : List String) (last : Catalog),
      chain.message? l key arguments = .error (.missing k c suggestions) → chain.getLast? = some last →
        ∀ s ∈ suggestions, last.has l s = true := by
  intro h
  let m := greeting (some (SortedMap.empty.insert .germany ()))
  have hm : Chain.message? [m] .unitedStates "greting" [] =
      .error (.missing "greting" .unitedStates ["greeting"]) := rfl
  have hn : m.has .unitedStates "greeting" = false := rfl
  have hs := h [m] .unitedStates .unitedStates "greting" "greting" [] ["greeting"] m hm rfl "greeting"
    List.mem_cons_self
  rw [hn] at hs
  cases hs

end Chain

end MessageCatalog
