import MessageCatalog.Catalog.Table
import MessageCatalog.Proofs.SortedMap

namespace MessageCatalog

def RawMessages.text? (raw : RawMessages) (l : Locale) (key : String) : Option String :=
  (raw.get? l).bind fun texts => texts.get? key

def PatternFailure.Precedes (f g : PatternFailure) : Prop :=
  KeyOrder.precedes f.locale g.locale = true ∨
    f.locale = g.locale ∧ KeyOrder.precedes f.key g.key = true

namespace Table

def keptOf (l : Locale) (texts : SortedMap String String) : SortedMap String MessagePattern :=
  texts.filterMap fun _ t => (MessagePattern.compile t l).toOption

def failuresOf (l : Locale) (texts : List (String × String)) : List PatternFailure :=
  texts.filterMap fun e =>
    match MessagePattern.compile e.2 l with
    | .ok _ => none
    | .error problem => some ⟨l, e.1, problem⟩

def kept (raw : RawMessages) : Table :=
  ⟨raw.map keptOf⟩

def failures (raw : List (Locale × SortedMap String String)) : List PatternFailure :=
  raw.flatMap fun e => failuresOf e.1 e.2.entries

section Loops

variable {l : Locale} {e : String × String} {texts : List (String × String)}
  {built : SortedMap String MessagePattern × List PatternFailure}

theorem failuresOf_cons_of_ok {p : MessagePattern} (h : MessagePattern.compile e.2 l = .ok p) :
    failuresOf l (e :: texts) = failuresOf l texts := by
  rw [failuresOf, List.filterMap_cons]
  simp only [h]
  rfl

theorem failuresOf_cons_of_error {problem : PatternProblem}
    (h : MessagePattern.compile e.2 l = .error problem) :
    failuresOf l (e :: texts) = ⟨l, e.1, problem⟩ :: failuresOf l texts := by
  rw [failuresOf, List.filterMap_cons]
  simp only [h]
  rfl

theorem compileEntry_of_ok {p : MessagePattern} (h : MessagePattern.compile e.2 l = .ok p)
    (mode : LoadMode) : compileEntry mode l built e = .ok (built.1.insert e.1 p, built.2) := by
  simp only [compileEntry, h]

theorem compileEntry_lenient_of_error {problem : PatternProblem}
    (h : MessagePattern.compile e.2 l = .error problem) :
    compileEntry .lenient l built e = .ok (built.1, built.2 ++ [⟨l, e.1, problem⟩]) := by
  simp only [compileEntry, h]

theorem compileEntry_strict_of_error {problem : PatternProblem}
    (h : MessagePattern.compile e.2 l = .error problem) :
    compileEntry .strict l built e = .error ⟨l, e.1, problem⟩ := by
  simp only [compileEntry, h]

theorem foldlM_compileEntry_lenient
    (hs : texts.Pairwise fun a b => KeyOrder.precedes a.1 b.1 = true)
    {patterns : SortedMap String MessagePattern} (hp : patterns.Before texts)
    (skipped : List PatternFailure) :
    ∃ built : SortedMap String MessagePattern,
      texts.foldlM (compileEntry .lenient l) (patterns, skipped) =
        .ok (built, skipped ++ failuresOf l texts) ∧
      built.entries = patterns.entries ++ texts.filterMap fun e =>
        (MessagePattern.compile e.2 l).toOption.map fun p => (e.1, p) := by
  induction texts generalizing patterns skipped with
  | nil => exact ⟨patterns, by simp [failuresOf, pure, Except.pure], by simp⟩
  | cons e texts ih =>
    obtain ⟨he, htexts⟩ := List.pairwise_cons.mp hs
    rw [List.foldlM_cons, List.filterMap_cons]
    cases hc : MessagePattern.compile e.2 l with
    | error problem =>
      obtain ⟨built, hbuilt, hentries⟩ := ih htexts hp.tail (skipped ++ [⟨l, e.1, problem⟩])
      refine ⟨built, ?_, hentries⟩
      rw [List.append_assoc] at hbuilt
      rw [compileEntry_lenient_of_error hc, failuresOf_cons_of_error hc]
      exact hbuilt
    | ok p =>
      obtain ⟨built, hbuilt, hentries⟩ := ih htexts (hp.insert he p) skipped
      refine ⟨built, ?_, ?_⟩
      · rw [compileEntry_of_ok hc, failuresOf_cons_of_ok hc]
        exact hbuilt
      · rw [hentries, hp.entries_insert, List.append_assoc]
        rfl

theorem compileLocale_lenient (built : Table × List PatternFailure)
    (e : Locale × SortedMap String String) :
    compileLocale .lenient built e =
      .ok (⟨built.1.patterns.insert e.1 (keptOf e.1 e.2)⟩,
        built.2 ++ failuresOf e.1 e.2.entries) := by
  obtain ⟨patterns, hloop, hentries⟩ :=
    foldlM_compileEntry_lenient (l := e.1) e.2.sorted (SortedMap.before_empty _) built.2
  have hpatterns : patterns = keptOf e.1 e.2 := SortedMap.eq_of_entries hentries
  rw [compileLocale, hloop, hpatterns]
  rfl

theorem foldlM_compileLocale_lenient {raw : List (Locale × SortedMap String String)}
    (hs : raw.Pairwise fun a b => KeyOrder.precedes a.1 b.1 = true) {t : Table}
    (ht : t.patterns.Before raw) (skipped : List PatternFailure) :
    ∃ built : Table,
      raw.foldlM (compileLocale .lenient) (t, skipped) = .ok (built, skipped ++ failures raw) ∧
      built.patterns.entries = t.patterns.entries ++ raw.map fun e => (e.1, keptOf e.1 e.2) := by
  induction raw generalizing t skipped with
  | nil => exact ⟨t, by simp [failures, pure, Except.pure], by simp⟩
  | cons e raw ih =>
    obtain ⟨he, hraw⟩ := List.pairwise_cons.mp hs
    obtain ⟨built, hbuilt, hentries⟩ := ih hraw (t := ⟨t.patterns.insert e.1 (keptOf e.1 e.2)⟩)
      (ht.insert he _) (skipped ++ failuresOf e.1 e.2.entries)
    refine ⟨built, ?_, ?_⟩
    · rw [List.foldlM_cons, compileLocale_lenient]
      rw [List.append_assoc] at hbuilt
      exact hbuilt
    · rw [hentries, ht.entries_insert, List.append_assoc]
      rfl

theorem compile_lenient (raw : RawMessages) :
    compile .lenient raw = .ok (kept raw, failures raw.entries) := by
  obtain ⟨built, hloop, hentries⟩ := foldlM_compileLocale_lenient raw.sorted (t := empty) (SortedMap.before_empty _) []
  have hbuilt : built = kept raw := congrArg Table.mk (SortedMap.eq_of_entries hentries)
  rw [compile, hloop, hbuilt]
  rfl

theorem foldlM_compileEntry_strict_of_nil (h : failuresOf l texts = [])
    (built : SortedMap String MessagePattern × List PatternFailure) :
    texts.foldlM (compileEntry .strict l) built = texts.foldlM (compileEntry .lenient l) built := by
  induction texts generalizing built with
  | nil => rfl
  | cons e texts ih =>
    rw [List.foldlM_cons, List.foldlM_cons]
    cases hc : MessagePattern.compile e.2 l with
    | error problem =>
      rw [failuresOf_cons_of_error hc] at h
      cases h
    | ok p =>
      rw [failuresOf_cons_of_ok hc] at h
      rw [compileEntry_of_ok hc, compileEntry_of_ok hc]
      exact ih h _

theorem foldlM_compileEntry_strict_of_cons {f : PatternFailure} {later : List PatternFailure}
    (h : failuresOf l texts = f :: later)
    (built : SortedMap String MessagePattern × List PatternFailure) :
    texts.foldlM (compileEntry .strict l) built = .error f := by
  induction texts generalizing built with
  | nil => cases h
  | cons e texts ih =>
    rw [List.foldlM_cons]
    cases hc : MessagePattern.compile e.2 l with
    | error problem =>
      rw [failuresOf_cons_of_error hc] at h
      cases h
      rw [compileEntry_strict_of_error hc]
      rfl
    | ok p =>
      rw [failuresOf_cons_of_ok hc] at h
      rw [compileEntry_of_ok hc]
      exact ih h _

theorem foldlM_compileLocale_strict_of_nil {raw : List (Locale × SortedMap String String)}
    (h : failures raw = []) (built : Table × List PatternFailure) :
    raw.foldlM (compileLocale .strict) built = raw.foldlM (compileLocale .lenient) built := by
  induction raw generalizing built with
  | nil => rfl
  | cons e raw ih =>
    rw [failures, List.flatMap_cons, List.append_eq_nil_iff] at h
    have hlocale : compileLocale .strict built e = compileLocale .lenient built e := by
      rw [compileLocale, compileLocale, foldlM_compileEntry_strict_of_nil h.1]
    rw [List.foldlM_cons, List.foldlM_cons, hlocale]
    exact bind_congr fun _ => ih h.2 _

theorem foldlM_compileLocale_strict_of_cons {raw : List (Locale × SortedMap String String)}
    {f : PatternFailure} {later : List PatternFailure} (h : failures raw = f :: later)
    (built : Table × List PatternFailure) :
    raw.foldlM (compileLocale .strict) built = .error f := by
  induction raw generalizing built with
  | nil => cases h
  | cons e raw ih =>
    rw [failures, List.flatMap_cons] at h
    rw [List.foldlM_cons, compileLocale]
    cases hf : failuresOf e.1 e.2.entries with
    | nil =>
      rw [hf] at h
      have hlocale := compileLocale_lenient built e
      rw [compileLocale, ← foldlM_compileEntry_strict_of_nil hf] at hlocale
      rw [hlocale]
      exact ih h _
    | cons g rest =>
      rw [hf] at h
      cases h
      rw [foldlM_compileEntry_strict_of_cons hf]
      rfl

end Loops

section Entries

variable {raw : RawMessages} {l : Locale} {texts : SortedMap String String} {f : PatternFailure}

theorem get?_kept_eq_some_iff {key : String} {p : MessagePattern} :
    (kept raw).get? l key = some p ↔
      ∃ t, raw.text? l key = some t ∧ MessagePattern.compile t l = .ok p := by
  have hkept : (kept raw).get? l key =
      (raw.text? l key).bind fun t => (MessagePattern.compile t l).toOption := by
    rw [get?, kept, SortedMap.get?_map, RawMessages.text?, Option.bind_assoc]
    cases raw.get? l with
    | none => rfl
    | some texts => exact SortedMap.get?_filterMap _
  rw [hkept, Option.bind_eq_some_iff]
  apply exists_congr
  intro t
  cases MessagePattern.compile t l <;> simp [Except.toOption]

theorem source_locale_of_compile {t : String} {p : MessagePattern}
    (h : MessagePattern.compile t l = .ok p) : p.locale = l ∧ p.source = t := by
  rw [MessagePattern.compile] at h
  cases hs : MessagePattern.segmentsOf t.toList with
  | error problem =>
    rw [hs] at h
    cases h
  | ok segments =>
    rw [hs] at h
    cases h
    exact ⟨rfl, rfl⟩

theorem mem_failuresOf : f ∈ failuresOf l texts.entries ↔
    f.locale = l ∧ ∃ t, texts.get? f.key = some t ∧ MessagePattern.compile t l = .error f.problem := by
  simp only [failuresOf, List.mem_filterMap]
  constructor
  · rintro ⟨⟨key, t⟩, he, hf⟩
    split at hf
    case h_1 => cases hf
    case h_2 problem hc =>
      cases hf
      exact ⟨rfl, t, SortedMap.get?_eq_some_iff.mpr he, hc⟩
  · rintro ⟨rfl, t, ht, hc⟩
    refine ⟨(f.key, t), SortedMap.get?_eq_some_iff.mp ht, ?_⟩
    rw [hc]

theorem mem_failures : f ∈ failures raw.entries ↔
    ∃ t, raw.text? f.locale f.key = some t ∧
      MessagePattern.compile t f.locale = .error f.problem := by
  simp only [failures, List.mem_flatMap, RawMessages.text?, Option.bind_eq_some_iff]
  constructor
  · rintro ⟨⟨l, texts⟩, he, hf⟩
    obtain ⟨rfl, t, ht, hc⟩ := mem_failuresOf.mp hf
    exact ⟨t, ⟨texts, SortedMap.get?_eq_some_iff.mpr he, ht⟩, hc⟩
  · rintro ⟨t, ⟨texts, htexts, ht⟩, hc⟩
    exact ⟨(f.locale, texts), SortedMap.get?_eq_some_iff.mp htexts, mem_failuresOf.mpr ⟨rfl, t, ht, hc⟩⟩

theorem exists_compile_error_iff {mode : LoadMode} :
    (∃ f, compile mode raw = .error f) ↔
      mode = .strict ∧ ∃ l key t problem,
        raw.text? l key = some t ∧ MessagePattern.compile t l = .error problem := by
  cases mode with
  | lenient => simp [compile_lenient]
  | strict =>
    rw [compile]
    cases hf : failures raw.entries with
    | nil =>
      have hlenient := compile_lenient raw
      rw [compile] at hlenient
      rw [foldlM_compileLocale_strict_of_nil hf, hlenient]
      refine iff_of_false nofun ?_
      rintro ⟨-, l, key, t, problem, ht, hc⟩
      have hmem : ⟨l, key, problem⟩ ∈ failures raw.entries := mem_failures.mpr ⟨t, ht, hc⟩
      rw [hf] at hmem
      cases hmem
    | cons f later =>
      obtain ⟨t, ht, hc⟩ := mem_failures.mp (hf ▸ List.mem_cons_self)
      rw [foldlM_compileLocale_strict_of_cons hf]
      exact iff_of_true ⟨f, rfl⟩ ⟨rfl, f.locale, f.key, t, f.problem, ht, hc⟩

theorem exists_compile_strict_error_iff : (∃ f, compile .strict raw = .error f) ↔ failures raw.entries ≠ [] := by
  rw [exists_compile_error_iff]
  constructor
  · rintro ⟨-, l, key, t, problem, ht, hc⟩
    have hf : ⟨l, key, problem⟩ ∈ failures raw.entries := mem_failures.mpr ⟨t, ht, hc⟩
    exact List.ne_nil_of_mem hf
  · intro h
    obtain ⟨f, hf⟩ := List.exists_mem_of_ne_nil _ h
    obtain ⟨t, ht, hc⟩ := mem_failures.mp hf
    exact ⟨rfl, f.locale, f.key, t, f.problem, ht, hc⟩

theorem pairwise_failuresOf (l : Locale) (texts : SortedMap String String) :
    (failuresOf l texts.entries).Pairwise PatternFailure.Precedes := by
  apply List.pairwise_filterMap.mpr
  apply texts.sorted.imp
  intro a b hab f hf g hg
  split at hf
  case h_1 => cases hf
  case h_2 =>
    split at hg
    case h_1 => cases hg
    case h_2 =>
      cases hf
      cases hg
      exact .inr ⟨rfl, hab⟩

theorem pairwise_failures (raw : RawMessages) :
    (failures raw.entries).Pairwise PatternFailure.Precedes := by
  apply List.pairwise_flatMap.mpr
  refine ⟨fun e _ => pairwise_failuresOf e.1 e.2, raw.sorted.imp fun h f hf g hg => .inl ?_⟩
  rw [(mem_failuresOf.mp hf).1, (mem_failuresOf.mp hg).1]
  exact h

theorem size_add_failuresOf (l : Locale) (texts : SortedMap String String) :
    (keptOf l texts).size + (failuresOf l texts.entries).length = texts.size := by
  simp only [SortedMap.size, SortedMap.filterMap, keptOf]
  induction texts.entries with
  | nil => rfl
  | cons e es ih =>
    rw [List.filterMap_cons, List.length_cons, ← ih]
    cases hc : MessagePattern.compile e.2 l with
    | ok p =>
      rw [failuresOf_cons_of_ok hc]
      simp only [Except.toOption, Option.map_some, List.length_cons]
      omega
    | error problem =>
      rw [failuresOf_cons_of_error hc]
      simp only [Except.toOption, Option.map_none, List.length_cons]
      omega

theorem filter_failuresOf_self (l : Locale) (texts : SortedMap String String) :
    (failuresOf l texts.entries).filter (fun f => f.locale = l) = failuresOf l texts.entries := by
  apply List.filter_eq_self.mpr
  intro f hf
  simpa using (mem_failuresOf.mp hf).1

theorem filter_failuresOf_ne {k : Locale} (h : k ≠ l) (texts : SortedMap String String) :
    (failuresOf k texts.entries).filter (fun f => f.locale = l) = [] := by
  apply List.filter_eq_nil_iff.mpr
  intro f hf
  simpa [(mem_failuresOf.mp hf).1] using h

theorem filter_failures (raw : RawMessages) (l : Locale) :
    (failures raw.entries).filter (fun f => f.locale = l) = failuresOf l (raw.texts l).entries := by
  obtain ⟨es, hsorted⟩ := raw
  simp only [failures, RawMessages.texts, SortedMap.get?]
  induction es with
  | nil => rfl
  | cons e es ih =>
    obtain ⟨he, hes⟩ := List.pairwise_cons.mp hsorted
    rw [List.flatMap_cons, List.filter_append]
    by_cases hl : e.1 = l
    · -- The key of an entry comes once, so the locales after this one are others.
      have hrest :
          (es.flatMap fun e => failuresOf e.1 e.2.entries).filter (fun f => f.locale = l) = [] := by
        rw [List.filter_flatMap, List.flatMap_eq_nil_iff]
        intro x hx
        apply filter_failuresOf_ne
        intro hxl
        have hprecedes := he x hx
        rw [hl, hxl, KeyOrder.irrefl] at hprecedes
        cases hprecedes
      rw [hrest, List.append_nil, List.find?_cons_of_pos (by simpa using hl), hl]
      exact filter_failuresOf_self l e.2
    · rw [filter_failuresOf_ne hl, List.nil_append, List.find?_cons_of_neg (by simpa using hl)]
      exact ih hes

theorem keyCount_add_failures (raw : RawMessages) (l : Locale) :
    (kept raw).keyCount l + ((failures raw.entries).filter fun f => f.locale = l).length =
      (raw.texts l).size := by
  rw [filter_failures, ← size_add_failuresOf l (raw.texts l)]
  congr 1
  rw [keyCount, keys, kept, SortedMap.get?_map, RawMessages.texts]
  cases raw.get? l <;> simp [SortedMap.keys, SortedMap.size, SortedMap.empty, SortedMap.filterMap, keptOf]

end Entries

/-- What a table and the failures that were skipped say of each entry of the raw messages. -/
structure Records (raw : RawMessages) (t : Table) (skipped : List PatternFailure) : Prop where
  locales : t.locales = raw.keys
  found : ∀ l key p, t.get? l key = some p ↔
    ∃ s, raw.text? l key = some s ∧ MessagePattern.compile s l = .ok p
  origin : ∀ l key p, t.get? l key = some p → p.locale = l ∧ raw.text? l key = some p.source
  rejected : ∀ f, f ∈ skipped ↔
    ∃ s, raw.text? f.locale f.key = some s ∧ MessagePattern.compile s f.locale = .error f.problem
  ascending : skipped.Pairwise PatternFailure.Precedes
  counts : ∀ l, t.keyCount l + (skipped.filter fun f => f.locale = l).length = (raw.texts l).size

theorem records_kept (raw : RawMessages) : Records raw (kept raw) (failures raw.entries) where
  locales := SortedMap.keys_map keptOf
  found _ _ _ := get?_kept_eq_some_iff
  origin l key p h := by
    obtain ⟨t, ht, hc⟩ := get?_kept_eq_some_iff.mp h
    obtain ⟨hlocale, hsource⟩ := source_locale_of_compile hc
    exact ⟨hlocale, hsource ▸ ht⟩
  rejected _ := mem_failures
  ascending := pairwise_failures raw
  counts := keyCount_add_failures raw

theorem compile_entrywise (raw : RawMessages) :
    ∃ t skipped, compile .lenient raw = .ok (t, skipped) ∧ Records raw t skipped ∧
      ((∃ built, compile .strict raw = .ok built) ↔ skipped = []) ∧
      (skipped = [] → compile .strict raw = .ok (t, [])) ∧
      (∀ f rest, skipped = f :: rest → compile .strict raw = .error f) := by
  refine ⟨kept raw, failures raw.entries, compile_lenient raw, records_kept raw, ?_⟩
  have hlenient := compile_lenient raw
  rw [compile] at hlenient
  cases hf : failures raw.entries with
  | nil =>
    have hstrict : compile .strict raw = .ok (kept raw, []) := by
      rw [compile, foldlM_compileLocale_strict_of_nil hf, hlenient, hf]
    exact ⟨⟨fun _ => rfl, fun _ => ⟨_, hstrict⟩⟩, fun _ => hstrict, nofun⟩
  | cons f rest =>
    have hstrict : compile .strict raw = .error f := foldlM_compileLocale_strict_of_cons hf _
    refine ⟨⟨?_, nofun⟩, nofun, ?_⟩
    · rintro ⟨built, hbuilt⟩
      rw [hstrict] at hbuilt
      cases hbuilt
    · intro g rest' h
      cases h
      exact hstrict

end Table

end MessageCatalog
