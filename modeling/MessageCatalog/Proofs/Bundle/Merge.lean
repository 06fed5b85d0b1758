import Mathlib.Data.Finset.Card
import MessageCatalog.Bundle.Load
import MessageCatalog.Proofs.SortedMap
import MessageCatalog.Proofs.Traversal

namespace MessageCatalog

open SortedMap Traversal

abbrev Reading : Type :=
  Locale × List (String × String)

namespace RawMessages

variable {raw raw' : RawMessages} {l : Locale} {es : List (String × String)}
variable {reads reads' : List Reading}

theorem texts_add (l' : Locale) :
    (raw.add l es).texts l' = if l' = l then (raw.texts l).insertAll es else raw.texts l' := by
  rw [texts, add, get?_insert]
  split <;> rfl

theorem get?_eq_some_texts (h : l ∈ raw.keys) : raw.get? l = some (raw.texts l) := by
  obtain ⟨t, ht⟩ := Option.isSome_iff_exists.mp (get?_isSome_iff.mpr h)
  rw [texts, ht]
  rfl

theorem texts_of_mem {e : Locale × SortedMap String String} (h : e ∈ raw.entries) :
    raw.texts e.1 = e.2 := by
  rw [texts, get?_eq_some_iff.mpr h]
  rfl

theorem ext_texts (hkeys : ∀ l, l ∈ raw.keys ↔ l ∈ raw'.keys)
    (htexts : ∀ l k, (raw.texts l).get? k = (raw'.texts l).get? k) : raw = raw' := by
  refine ext_get? fun l => ?_
  by_cases hl : l ∈ raw.keys
  · rw [get?_eq_some_texts hl, get?_eq_some_texts ((hkeys l).mp hl), ext_get? (htexts l)]
  · have hl' : l ∉ raw'.keys := fun h => hl ((hkeys l).mpr h)
    rw [get?_eq_none_iff.mpr hl, get?_eq_none_iff.mpr hl']

def messagesOf (l : Locale) (reads : List Reading) : List (String × String) :=
  (reads.filter fun r => r.1 = l).flatMap (·.2)

theorem messagesOf_append (l : Locale) (reads reads' : List Reading) :
    messagesOf l (reads ++ reads') = messagesOf l reads ++ messagesOf l reads' := by
  simp only [messagesOf, List.filter_append, List.flatMap_append]

theorem messagesOf_singleton (l : Locale) (r : Reading) :
    messagesOf l [r] = if r.1 = l then r.2 else [] := by
  by_cases h : r.1 = l <;> simp [messagesOf, h]

/-- The locales are those of the files, and a text is the last of its key among the entries of its locale. -/
structure IsMerge (reads : List Reading) (raw : RawMessages) : Prop where
  locales : ∀ l, l ∈ raw.keys ↔ l ∈ reads.map (·.1)
  texts : ∀ l k, (raw.texts l).get? k = lastValue? k (messagesOf l reads)

theorem isMerge_nil : IsMerge [] empty where
  locales := fun _ => .rfl
  texts := fun _ _ => rfl

theorem IsMerge.add (h : IsMerge reads raw) (r : Reading) :
    IsMerge (reads ++ [r]) (raw.add r.1 r.2) where
  locales := by
    intro l
    rw [RawMessages.add, mem_keys_insert, h.locales, List.map_append, List.mem_append, or_comm]
    simp
  texts := by
    intro l k
    rw [texts_add, messagesOf_append, lastValue?_append, messagesOf_singleton, ← h.texts]
    by_cases hl : l = r.1
    · rw [if_pos hl, if_pos hl.symm, get?_insertAll, hl]
    · rw [if_neg hl, if_neg (Ne.symm hl)]
      rfl

def merge (reads : List Reading) : RawMessages :=
  reads.foldl (fun raw r => raw.add r.1 r.2) empty

theorem isMerge_merge (reads : List Reading) : IsMerge reads (merge reads) := by
  induction reads using List.reverseRecOn with
  | nil => exact isMerge_nil
  | append_singleton reads r ih =>
    rw [merge, List.foldl_append]
    exact ih.add r

theorem IsMerge.unique (h : IsMerge reads raw) (h' : IsMerge reads raw') : raw = raw' :=
  ext_texts (fun l => (h.locales l).trans (h'.locales l).symm)
    fun l k => (h.texts l k).trans (h'.texts l k).symm

def keysOf (l : Locale) (reads : List Reading) : Finset String :=
  ((messagesOf l reads).map (·.1)).toFinset

theorem IsMerge.toFinset_keys (h : IsMerge reads raw) (l : Locale) :
    (raw.texts l).keys.toFinset = keysOf l reads := by
  ext k
  rw [List.mem_toFinset, ← get?_isSome_iff, h.texts, isSome_lastValue?, keysOf, List.mem_toFinset]

theorem IsMerge.size_texts (h : IsMerge reads raw) (l : Locale) :
    (raw.texts l).size = (keysOf l reads).card := by
  rw [← h.toFinset_keys, List.toFinset_card_of_nodup (raw.texts l).nodup_keys, SortedMap.keys, List.length_map]
  rfl

theorem messagesOf_swap {r s : Reading} (hne : r.1 ≠ s.1) (l : Locale) :
    messagesOf l [s, r] = messagesOf l [r, s] := by
  have hsplit (u v : Reading) : messagesOf l [u, v] = messagesOf l [u] ++ messagesOf l [v] :=
    messagesOf_append l [u] [v]
  rw [hsplit, hsplit, messagesOf_singleton, messagesOf_singleton]
  by_cases hr : r.1 = l
  · have hs : s.1 ≠ l := fun hs => hne (hr.trans hs.symm)
    rw [if_neg hs, List.append_nil, List.nil_append]
  · rw [if_neg hr, List.append_nil, List.nil_append]

theorem IsMerge.swap {r s : Reading} (h : IsMerge (reads ++ r :: s :: reads') raw)
    (hne : r.1 ≠ s.1) : IsMerge (reads ++ s :: r :: reads') raw where
  locales := by
    intro l
    rw [h.locales]
    exact ((List.Perm.swap s r reads').append_left reads).map (·.1) |>.mem_iff
  texts := by
    intro l k
    have hparts (u v : Reading) :
        messagesOf l (reads ++ u :: v :: reads') =
          messagesOf l reads ++ (messagesOf l [u, v] ++ messagesOf l reads') := by
      rw [← messagesOf_append, ← messagesOf_append]
      rfl
    rw [h.texts, hparts, hparts, messagesOf_swap hne]

end RawMessages

namespace Bundle

open RawMessages

variable {d d' : Directory} {e : ManifestEntry} {r : Reading}

structure IsRead (d : Directory) (e : ManifestEntry) (r : Reading) : Prop where
  locale : e.locale = .ok r.1
  messages : ∃ text, d e.file = .ok text ∧ Properties.parse text = .ok r.2

/-- The problem of an entry: with its locale, else with its file, else with the text of the file. -/
inductive EntryFails (d : Directory) (e : ManifestEntry) : BundleProblem → Prop where
  | locale {problem : LocaleError} (h : e.locale = .error problem) :
      EntryFails d e (.unknownLocale manifestPath problem)
  | file {l : Locale} {problem : FileProblem} (hl : e.locale = .ok l) (h : d e.file = .error problem) :
      EntryFails d e (.unreadable (Path.trimmed e.file) problem)
  | text {l : Locale} {text : String} {problem : PropertiesProblem} (hl : e.locale = .ok l)
      (ht : d e.file = .ok text) (h : Properties.parse text = .error problem) :
      EntryFails d e (.malformedEntry (Path.trimmed e.file) problem)

theorem readEntry_eq_ok_iff : readEntry d e = .ok r ↔ IsRead d e r := by
  simp only [readEntry, bind_eq_ok_iff, mapError_eq_ok_iff]
  constructor
  · rintro ⟨l, hl, text, ht, es, hes, heq⟩
    cases heq
    exact ⟨hl, text, ht, hes⟩
  · rintro ⟨hl, text, ht, hes⟩
    exact ⟨r.1, hl, text, ht, r.2, hes, rfl⟩

theorem readEntry_eq_error_iff {problem : BundleProblem} :
    readEntry d e = .error problem ↔ EntryFails d e problem := by
  simp only [readEntry, bind_eq_error_iff, mapError_eq_ok_iff, mapError_eq_error_iff]
  constructor
  · rintro (⟨p, hp, rfl⟩ | ⟨l, hl, ⟨p, hp, rfl⟩ | ⟨text, ht, ⟨p, hp, rfl⟩ | ⟨es, -, hes⟩⟩⟩)
    · exact .locale hp
    · exact .file hl hp
    · exact .text hl ht hp
    · cases hes
  · intro h
    cases h with
    | locale hp => exact .inl ⟨_, hp, rfl⟩
    | file hl hp => exact .inr ⟨_, hl, .inl ⟨_, hp, rfl⟩⟩
    | text hl ht hp => exact .inr ⟨_, hl, .inr ⟨_, ht, .inl ⟨_, hp, rfl⟩⟩⟩

theorem IsRead.congr (h : IsRead d e r) (hfile : d' e.file = d e.file) : IsRead d' e r :=
  ⟨h.locale, hfile ▸ h.messages⟩

theorem forall₂_isRead_congr {es : List ManifestEntry} {reads : List Reading}
    (h : List.Forall₂ (IsRead d) es reads) (hfiles : ∀ e ∈ es, d' e.file = d e.file) :
    List.Forall₂ (IsRead d') es reads := by
  induction h with
  | nil => exact .nil
  | cons he _ ih =>
    exact .cons (he.congr (hfiles _ List.mem_cons_self))
      (ih fun e' he' => hfiles e' (List.mem_cons_of_mem _ he'))

variable {m : Manifest} {raw : RawMessages}

theorem manifest_eq_ok_iff :
    manifest d = .ok m ↔ ∃ text, d manifestPath = .ok text ∧ Manifest.parse text = .ok m := by
  simp only [manifest, bind_eq_ok_iff, mapError_eq_ok_iff]

theorem load_eq (hm : manifest d = .ok m) :
    load d = (m.entries.mapM (readEntry d)).map merge := by
  rw [load, hm]
  rfl

theorem mem_locales_iff {es : List ManifestEntry} {reads : List Reading}
    (h : List.Forall₂ (IsRead d) es reads) (l : Locale) :
    l ∈ reads.map (·.1) ↔ ∃ e ∈ es, e.locale = .ok l := by
  induction h with
  | nil => simp
  | @cons e r es reads he hes ih =>
    rw [List.map_cons, List.mem_cons, ih, List.exists_mem_cons_iff, he.locale, Except.ok.injEq, eq_comm]

theorem exists_manifest_of_load (h : load d = .ok raw) : ∃ m, manifest d = .ok m := by
  rw [load, bind_eq_ok_iff] at h
  obtain ⟨m, hm, -⟩ := h
  exact ⟨m, hm⟩

theorem load_eq_error_iff (hm : manifest d = .ok m) {problem : BundleProblem} :
    load d = .error problem ↔ FailsFirst (EntryFails d) m.entries problem := by
  rw [load_eq hm, map_eq_error_iff, mapM_eq_error_iff]
  exact failsFirst_congr (fun _ _ => readEntry_eq_error_iff) m.entries problem

theorem load_eq_ok_iff (hm : manifest d = .ok m) :
    load d = .ok raw ↔ ∃ reads, List.Forall₂ (IsRead d) m.entries reads ∧ IsMerge reads raw := by
  simp only [load_eq hm, map_eq_ok_iff, mapM_eq_ok_iff, readEntry_eq_ok_iff]
  constructor
  · rintro ⟨reads, hreads, rfl⟩
    exact ⟨reads, hreads, isMerge_merge reads⟩
  · rintro ⟨reads, hreads, hmerge⟩
    exact ⟨reads, hreads, (isMerge_merge reads).unique hmerge⟩

theorem exists_load_iff (hm : manifest d = .ok m) :
    (∃ raw, load d = .ok raw) ↔ ∀ e ∈ m.entries, ∀ problem, ¬EntryFails d e problem := by
  simp only [exists_eq_ok_iff, ne_eq, load_eq_error_iff hm, ← not_exists, exists_failsFirst_iff]
  simp

theorem load_swap {before after : List ManifestEntry} {e₁ e₂ : ManifestEntry}
    (hm : manifest d = .ok ⟨before ++ e₁ :: e₂ :: after⟩)
    (hm' : manifest d' = .ok ⟨before ++ e₂ :: e₁ :: after⟩)
    (hfiles : ∀ e ∈ before ++ e₁ :: e₂ :: after, d' e.file = d e.file) (hne : e₁.locale ≠ e₂.locale)
    (h : load d = .ok raw) : load d' = .ok raw := by
  obtain ⟨reads, hreads, hmerge⟩ := (load_eq_ok_iff hm).mp h
  obtain ⟨rs, tail, rfl, hrs, htail⟩ := exists_of_forall₂_append (forall₂_isRead_congr hreads hfiles)
  obtain ⟨r₁, tail, h₁, htail', rfl⟩ := List.forall₂_cons_left_iff.mp htail
  obtain ⟨r₂, rs', h₂, hrs', rfl⟩ := List.forall₂_cons_left_iff.mp htail'
  have hne' : r₁.1 ≠ r₂.1 := by
    intro heq
    exact hne (by rw [h₁.locale, h₂.locale, heq])
  exact (load_eq_ok_iff hm').mpr
    ⟨rs ++ r₂ :: r₁ :: rs', List.rel_append hrs (.cons h₂ (.cons h₁ hrs')), hmerge.swap hne'⟩

theorem load_merges (hm : manifest d = .ok m) :
    (∀ problem, load d = .error problem ↔ FailsFirst (EntryFails d) m.entries problem) ∧
      ((∃ raw, load d = .ok raw) ↔ ∀ e ∈ m.entries, ∀ problem, ¬EntryFails d e problem) ∧
      (∀ raw, load d = .ok raw ↔ ∃ reads, List.Forall₂ (IsRead d) m.entries reads ∧ IsMerge reads raw) ∧
      ∀ d' before e₁ e₂ after raw, m.entries = before ++ e₁ :: e₂ :: after →
        manifest d' = .ok ⟨before ++ e₂ :: e₁ :: after⟩ → (∀ e ∈ m.entries, d' e.file = d e.file) →
          e₁.locale ≠ e₂.locale → load d = .ok raw → load d' = .ok raw := by
  refine ⟨fun _ => load_eq_error_iff hm, exists_load_iff hm, fun _ => load_eq_ok_iff hm, ?_⟩
  intro d' before e₁ e₂ after raw hentries hm' hfiles hne h
  rw [hentries] at hfiles
  have heq : m = ⟨before ++ e₁ :: e₂ :: after⟩ := congrArg Manifest.mk hentries
  exact load_swap (heq ▸ hm) hm' hfiles hne h

def listing (text : String) (files : List File) : Directory :=
  Directory.ofFiles (files ++ [⟨[manifestPath], text.toUTF8⟩])

def greetings : List File :=
  [⟨["de"], "hi=Hallo".toUTF8⟩, ⟨["en"], "hi=Hello".toUTF8⟩]

def german (file : String) : ManifestEntry :=
  ⟨"de", none, file, none⟩

def english : ManifestEntry :=
  ⟨"en", none, "en", none⟩

theorem german_locale_ne_english (file : String) : (german file).locale ≠ english.locale := by
  have h : (Locale.make "de" none).toOption ≠ (Locale.make "en" none).toOption := by decide +kernel
  exact ne_of_apply_ne Except.toOption h

theorem load_merges_german_english :
    ∃ raw, load (listing "[[\"de\",null,\"de\"],[\"en\",null,\"en\"]]" greetings) = .ok raw ∧
      load (listing "[[\"en\",null,\"en\"],[\"de\",null,\"de\"]]" greetings) = .ok raw := by
  let text := "[[\"de\",null,\"de\"],[\"en\",null,\"en\"]]"
  let text' := "[[\"en\",null,\"en\"],[\"de\",null,\"de\"]]"
  have hm : manifest (listing text greetings) = .ok ⟨[german "de", english]⟩ :=
    manifest_eq_ok_iff.mpr ⟨text, by decide +kernel, by decide +kernel⟩
  have hm' : manifest (listing text' greetings) = .ok ⟨[english, german "de"]⟩ :=
    manifest_eq_ok_iff.mpr ⟨text', by decide +kernel, by decide +kernel⟩
  have hfiles : ∀ e ∈ [german "de", english],
      listing text' greetings e.file = listing text greetings e.file := by
    decide +kernel
  have hloads : (load (listing text greetings)).toOption.isSome = true := by decide +kernel
  obtain ⟨-, -, -, hswap⟩ := load_merges hm
  cases hload : load (listing text greetings) with
  | error problem =>
    rw [hload] at hloads
    cases hloads
  | ok raw =>
    exact ⟨raw, rfl, hswap _ [] _ _ [] raw rfl hm' hfiles (german_locale_ne_english "de") hload⟩

theorem swap_not_always_harmless :
    ¬∀ text text' files before e₁ e₂ after raw,
      manifest (listing text files) = .ok ⟨before ++ e₁ :: e₂ :: after⟩ →
        manifest (listing text' files) = .ok ⟨before ++ e₂ :: e₁ :: after⟩ → e₁.locale ≠ e₂.locale →
          load (listing text files) = .ok raw → load (listing text' files) = .ok raw := by
  intro h
  let text := "[[\"de\",null,\"language.json\"],[\"en\",null,\"en\"]]"
  let text' := "[[\"en\",null,\"en\"],[\"de\",null,\"language.json\"]]"
  have hm : manifest (listing text greetings) = .ok ⟨[german manifestPath, english]⟩ :=
    manifest_eq_ok_iff.mpr ⟨text, by decide +kernel, by decide +kernel⟩
  have hm' : manifest (listing text' greetings) = .ok ⟨[english, german manifestPath]⟩ :=
    manifest_eq_ok_iff.mpr ⟨text', by decide +kernel, by decide +kernel⟩
  -- neither manifest holds a separator, so the whole text is the key of its one entry
  let keys (text : String) : Option (List (List String)) :=
    (load (listing text greetings)).toOption.map fun raw => raw.entries.map (·.2.keys)
  have hkeys : keys text = some [[text], ["hi"]] := by decide +kernel
  have hkeys' : keys text' = some [[text'], ["hi"]] := by decide +kernel
  cases hload : load (listing text greetings) with
  | error problem =>
    simp only [keys, hload] at hkeys
    cases hkeys
  | ok raw =>
    have hload' : load (listing text' greetings) = .ok raw :=
      h text text' greetings [] _ _ [] raw hm hm' (german_locale_ne_english manifestPath) hload
    have heq : keys text' = keys text := by simp only [keys, hload, hload']
    rw [hkeys, hkeys'] at heq
    revert heq
    decide +kernel

end Bundle

end MessageCatalog
