import Mathlib.Data.List.Forall2
import MessageCatalog.Bundle.Manifest
import MessageCatalog.Proofs.Json.Text

/-!
Manifests as they are written. An entry is spelled as an object with its members in any order, among others
that are not known, or as a list of its members; the compact text of a manifest spells its entries as objects
without members that are absent. However the entries are spelled, they are read back.
-/

namespace MessageCatalog

namespace Json

def separated : Bool → List (List Char) → List Char
  | _, [] => []
  | isFirst, t :: ts => (if isFirst then [] else [',']) ++ (t ++ separated false ts)

theorem intercalate_cons (t : List Char) (ts : List (List Char)) :
    [','].intercalate (t :: ts) = t ++ separated false ts := by
  induction ts generalizing t with
  | nil => simp [List.intercalate, separated]
  | cons u ts ih =>
    have hstep : [','].intercalate (t :: u :: ts) = t ++ ([','] ++ [','].intercalate (u :: ts)) := by
      simp [List.intercalate]
    rw [hstep, ih, separated, if_neg Bool.false_ne_true]

theorem intercalate_eq (ts : List (List Char)) : [','].intercalate ts = separated true ts := by
  cases ts with
  | nil => rfl
  | cons t ts => rw [intercalate_cons, separated, if_pos rfl, List.nil_append]

theorem length_le_separated {ts : List (List Char)} (h : ∀ t ∈ ts, t ≠ []) (isFirst : Bool) :
    ts.length ≤ (separated isFirst ts).length := by
  induction ts generalizing isFirst with
  | nil => exact Nat.zero_le _
  | cons t ts ih =>
    obtain ⟨ht, hts⟩ := List.forall_mem_cons.mp h
    have hpos := List.length_pos_iff.mpr ht
    have hrest := ih hts false
    simp only [separated, List.length_cons, List.length_append]
    omega

end Json

namespace Manifest

open Json

theorem readString_quote (t : String) (rest : List Char) : readString (quoteChars t ++ rest) = .ok (t, rest) := by
  rw [readString, quoteChars_append, skipBlank_cons (by decide)]
  exact readText_escaped t rest

def writeOptional : Option String → List Char
  | none => ['n', 'u', 'l', 'l']
  | some t => quoteChars t

theorem readOptional_writeOptional (t : Option String) (rest : List Char) :
    readOptional (writeOptional t ++ rest) = .ok (t, rest) := by
  cases t with
  | none =>
    have hskip : skipBlank (writeOptional none ++ rest) = 'n' :: 'u' :: 'l' :: 'l' :: rest :=
      skipBlank_cons (by decide) _
    rw [readOptional, hskip]
    rfl
  | some t =>
    have hread := readString_quote t rest
    rw [quoteChars_append] at hread
    rw [writeOptional, quoteChars_append, readOptional, skipBlank_cons (by decide)]
    exact congrArg (Except.map fun r => (some r.1, r.2)) hread

namespace Member

def name : Member → String
  | .language => "language"
  | .country => "country"
  | .file => "file"
  | .version => "version"

theorem member?_name (k : Member) : member? k.name = some k := by
  cases k <;> rfl

def of (e : ManifestEntry) : Member → Option String
  | .language => some e.language
  | .country => e.country
  | .file => some e.file
  | .version => e.version

end Member

namespace Members

def set (m : Members) (t : Option String) : Member → Members
  | .language => { m with language := t }
  | .country => { m with country := some t }
  | .file => { m with file := t }
  | .version => { m with version := some t }

def text? (m : Members) : Member → Option String
  | .language => m.language
  | .country => m.country.join
  | .file => m.file
  | .version => m.version.join

variable {m : Members} {k l : Member} {t : Option String} {e : ManifestEntry}

theorem has_set (h : k ≠ l) : (m.set t l).has k = m.has k := by
  cases l <;> cases k <;> first | rfl | exact absurd rfl h

theorem text?_set : (m.set t k).text? k = t := by
  cases k <;> rfl

theorem text?_set_of_ne (h : k ≠ l) : (m.set t l).text? k = m.text? k := by
  cases l <;> cases k <;> first | rfl | exact absurd rfl h

theorem entry_of_text? (h : ∀ k, m.text? k = k.of e) : m.entry = .ok e := by
  have hlanguage : m.language = some e.language := h .language
  have hcountry : m.country.join = e.country := h .country
  have hfile : m.file = some e.file := h .file
  have hversion : m.version.join = e.version := h .version
  simp only [entry, hlanguage, hfile, hcountry, hversion]

theorem read_writeOptional (m : Members) (k : Member) (e : ManifestEntry) (rest : List Char) :
    m.read k (writeOptional (k.of e) ++ rest) = .ok (m.set (k.of e) k, rest) := by
  cases k with
  | language => exact congrArg (Except.map _) (readString_quote e.language rest)
  | country => exact congrArg (Except.map _) (readOptional_writeOptional e.country rest)
  | file => exact congrArg (Except.map _) (readString_quote e.file rest)
  | version => exact congrArg (Except.map _) (readOptional_writeOptional e.version rest)

end Members

inductive Field where
  | known (k : Member) (t : Option String)
  | other (name : String) (value : List Char)

namespace Field

def name : Field → String
  | known k _ => k.name
  | other name _ => name

def value : Field → List Char
  | known _ t => writeOptional t
  | other _ value => value

def write (f : Field) : List Char :=
  quoteChars f.name ++ ':' :: f.value

def member? : Field → Option Member
  | known k _ => some k
  | other _ _ => none

def onto (m : Members) : Field → Members
  | known k t => m.set t k
  | other _ _ => m

theorem write_append (f : Field) (rest : List Char) :
    f.write ++ rest = '"' :: (f.name.toList.flatMap escape ++ '"' :: (':' :: (f.value ++ rest))) := by
  rw [write, List.append_assoc, quoteChars_append]
  rfl

end Field

def IsSkipped (value : List Char) : Prop :=
  ∀ c rest, c = ',' ∨ c = '\x7d' → skip (value ++ c :: rest) = .ok (c :: rest)

/-- The members have the texts of the entry, each at most once and those of the entry at least once. An absent
text may be null. -/
structure IsArrangement (e : ManifestEntry) (fs : List Field) : Prop where
  distinct : (fs.filterMap Field.member?).Nodup
  known : ∀ k t, .known k t ∈ fs → t = k.of e
  complete : ∀ k, (k.of e).isSome = true → .known k (k.of e) ∈ fs
  other : ∀ name value, .other name value ∈ fs → member? name = none ∧ IsSkipped value

variable {e : ManifestEntry} {m : Members} {f : Field} {fs : List Field} {fuel : Nat}

theorem text?_foldl {k : Member} {v : Option String} (hv : ∀ t, .known k t ∈ fs → t = v)
    (hk : m.text? k = v ∨ ∃ t, .known k t ∈ fs) : (fs.foldl Field.onto m).text? k = v := by
  induction fs generalizing m with
  | nil => simpa using hk
  | cons f fs ih =>
    have hrest : ∀ t, .known k t ∈ fs → t = v := fun t ht => hv t (List.mem_cons_of_mem f ht)
    refine ih hrest ?_
    cases f with
    | other name value => simpa [Field.onto] using hk
    | known l t =>
      by_cases hl : k = l
      · subst hl
        exact .inl (Members.text?_set.trans (hv t List.mem_cons_self))
      · rw [Field.onto, Members.text?_set_of_ne hl]
        simpa [hl] using hk

theorem IsArrangement.entry_foldl (h : IsArrangement e fs) : (fs.foldl Field.onto {}).entry = .ok e := by
  refine Members.entry_of_text? fun k => text?_foldl (h.known k) ?_
  cases hk : k.of e with
  | none => exact .inl (by cases k <;> rfl)
  | some t => exact .inr ⟨_, h.complete k (by rw [hk]; rfl)⟩

theorem colon_cons (cs : List Char) : colon (':' :: cs) = .ok cs := by
  rw [colon, skipBlank_cons (by decide)]
  rfl

theorem readMember_field (h : IsArrangement e fs) (hf : f ∈ fs)
    (hnew : ∀ k, f.member? = some k → m.has k = false) {c : Char} (hc : c = ',' ∨ c = '\x7d')
    (rest : List Char) :
    readMember m (f.name.toList.flatMap escape ++ '"' :: (':' :: (f.value ++ c :: rest))) =
      .ok (f.onto m, c :: rest) := by
  rw [readMember, readText_escaped]
  cases f with
  | known k t =>
    obtain rfl := h.known k t hf
    have hk : m.has k = false := hnew k rfl
    simp only [bind, Except.bind, Field.name, k.member?_name, hk, Bool.false_eq_true, if_false, colon_cons,
      Field.value, m.read_writeOptional, Field.onto]
  | other name value =>
    obtain ⟨hname, hvalue⟩ := h.other name value hf
    simp only [bind, Except.bind, Field.name, hname, colon_cons, Field.value, hvalue c rest hc, Field.onto]
    rfl

theorem key?_separated (isFirst : Bool) (cs : List Char) :
    key? isFirst ((if isFirst then [] else [',']) ++ '"' :: cs) = .ok (some cs) := by
  cases isFirst <;> simp [key?, skipBlank_cons, isBlank]

theorem readMembers_field (h : IsArrangement e fs) (hf : f ∈ fs)
    (hnew : ∀ k, f.member? = some k → m.has k = false) {c : Char} (hc : c = ',' ∨ c = '\x7d')
    (isFirst : Bool) (rest : List Char) :
    readMembers (fuel + 1) isFirst m ((if isFirst then [] else [',']) ++ (f.write ++ c :: rest)) =
      readMembers fuel false (f.onto m) (c :: rest) := by
  rw [Field.write_append, readMembers, key?_separated]
  simp only [bind, Except.bind, readMember_field h hf hnew hc]

theorem exists_separated (ts : List (List Char)) (last : Char) (rest : List Char) :
    ∃ c cs, separated false ts ++ last :: rest = c :: cs ∧ (c = ',' ∨ c = last) := by
  cases ts with
  | nil => exact ⟨last, rest, rfl, .inr rfl⟩
  | cons t ts => exact ⟨',', _, rfl, .inl rfl⟩

theorem readMembers_close (m : Members) (isFirst : Bool) (rest : List Char) :
    readMembers (fuel + 1) isFirst m ('\x7d' :: rest) = m.entry.map (·, rest) := by
  have hskip : skipBlank ('\x7d' :: rest) = '\x7d' :: rest := skipBlank_cons (by decide) rest
  have hkey : key? isFirst ('\x7d' :: rest) = .ok none := by
    rw [key?, hskip]
    rfl
  rw [readMembers, hkey, hskip]
  cases m.entry <;> rfl

theorem has_onto {k : Member} (h : ∀ l, f.member? = some l → l ≠ k) : (f.onto m).has k = m.has k := by
  cases f with
  | other name value => rfl
  | known l t => exact Members.has_set (h l rfl).symm

theorem readMembers_separated {all : List Field} (h : IsArrangement e all) (hfs : ∀ f ∈ fs, f ∈ all)
    (hdistinct : (fs.filterMap Field.member?).Nodup)
    (hnew : ∀ f ∈ fs, ∀ k, f.member? = some k → m.has k = false) (hfuel : fs.length < fuel) (isFirst : Bool)
    (rest : List Char) :
    readMembers fuel isFirst m (separated isFirst (fs.map Field.write) ++ '\x7d' :: rest) =
      (fs.foldl Field.onto m).entry.map (·, rest) := by
  obtain ⟨fuel, rfl⟩ : ∃ n, fuel = n + 1 := ⟨fuel - 1, by omega⟩
  rw [List.Nodup, List.pairwise_filterMap] at hdistinct
  induction fs generalizing fuel m isFirst with
  | nil => exact readMembers_close m isFirst rest
  | cons f fs ih =>
    obtain ⟨hf, hfs⟩ := List.forall_mem_cons.mp hfs
    obtain ⟨hnewf, hnew⟩ := List.forall_mem_cons.mp hnew
    obtain ⟨hne, hdistinct⟩ := List.pairwise_cons.mp hdistinct
    have hlength : fs.length < fuel := by simpa using hfuel
    obtain ⟨fuel, rfl⟩ : ∃ n, fuel = n + 1 := ⟨fuel - 1, by omega⟩
    have hnew' : ∀ g ∈ fs, ∀ k, g.member? = some k → (f.onto m).has k = false := by
      intro g hg k hk
      rw [has_onto fun l hl => hne g hg l hl k hk, hnew g hg k hk]
    obtain ⟨c, cs, hcs, hc⟩ := exists_separated (fs.map Field.write) '\x7d' rest
    rw [List.map_cons, separated, List.append_assoc, List.append_assoc, hcs,
      readMembers_field h hf hnewf hc, ← hcs, ih hfs hdistinct hnew' false fuel hlength, List.foldl_cons]

def Begins (t : List Char) : Prop :=
  ∃ c cs, t = c :: cs ∧ isBlank c = false ∧ c ≠ ']'

theorem begins_quoteChars (t : String) : Begins (quoteChars t) :=
  ⟨'"', _, rfl, by decide, by decide⟩

theorem begins_writeOptional (t : Option String) : Begins (writeOptional t) := by
  cases t with
  | none => exact ⟨'n', _, rfl, by decide, by decide⟩
  | some t => exact begins_quoteChars t

theorem element?_separated {t : List Char} (h : Begins t) (isFirst : Bool) (rest : List Char) :
    element? isFirst ((if isFirst then [] else [',']) ++ (t ++ rest)) = .ok (some (t ++ rest)) := by
  obtain ⟨c, cs, rfl, hc, hend⟩ := h
  have hcomma : isBlank ',' = false := by decide
  cases isFirst <;> simp [element?, skipBlank_cons, hc, hend, hcomma]

theorem element?_close (isFirst : Bool) (rest : List Char) : element? isFirst (']' :: rest) = .ok none := by
  rw [element?, skipBlank_cons (by decide)]
  rfl

theorem required_first (t : String) (rest : List Char) :
    required readString true (quoteChars t ++ rest) = .ok (t, rest) := by
  have helement : element? true (quoteChars t ++ rest) = .ok (some (quoteChars t ++ rest)) :=
    element?_separated (begins_quoteChars t) true rest
  rw [required, helement]
  exact readString_quote t rest

theorem required_later (t : String) (rest : List Char) :
    required readString false (',' :: (quoteChars t ++ rest)) = .ok (t, rest) := by
  have helement : element? false (',' :: (quoteChars t ++ rest)) = .ok (some (quoteChars t ++ rest)) :=
    element?_separated (begins_quoteChars t) false rest
  rw [required, helement]
  exact readString_quote t rest

theorem optional_writeOptional (t : Option String) (rest : List Char) :
    optional (',' :: (writeOptional t ++ rest)) = .ok (t, rest) := by
  have helement : element? false (',' :: (writeOptional t ++ rest)) = .ok (some (writeOptional t ++ rest)) :=
    element?_separated (begins_writeOptional t) false rest
  rw [optional, helement]
  exact readOptional_writeOptional t rest

theorem optional_close (rest : List Char) : optional (']' :: rest) = .ok (none, ']' :: rest) := by
  rw [optional, element?_close]
  rfl

/-- The entry as an object, or as a list of its members in order. The list may end before a version that is
absent. -/
inductive Spells (e : ManifestEntry) : List Char → Prop
  | object {fs : List Field} (h : IsArrangement e fs) :
    Spells e ('\x7b' :: ([','].intercalate (fs.map Field.write) ++ ['\x7d']))
  | list : Spells e ('[' :: ([','].intercalate [quoteChars e.language, writeOptional e.country,
      quoteChars e.file, writeOptional e.version] ++ [']']))
  | shortList (h : e.version = none) : Spells e ('[' :: ([','].intercalate [quoteChars e.language,
      writeOptional e.country, quoteChars e.file] ++ [']']))

theorem readObject (h : IsArrangement e fs) (rest : List Char) :
    readEntry ('\x7b' :: ([','].intercalate (fs.map Field.write) ++ '\x7d' :: rest)) = .ok (e, rest) := by
  rw [intercalate_eq]
  have hwritten : ∀ t ∈ fs.map Field.write, t ≠ [] := by
    intro t ht
    obtain ⟨f, -, rfl⟩ := List.mem_map.mp ht
    simp [Field.write, quoteChars]
  let text := separated true (fs.map Field.write) ++ '\x7d' :: rest
  have hlength : fs.length < text.length + 1 := by
    have hle := length_le_separated hwritten true
    simp only [text, List.length_append, List.length_map] at hle ⊢
    omega
  have hnew : ∀ f ∈ fs, ∀ k, f.member? = some k → ({} : Members).has k = false := by
    intro f _ k _
    cases k <;> rfl
  have hread : readMembers (text.length + 1) true {} text = .ok (e, rest) := by
    rw [readMembers_separated h (fun f hf => hf) h.distinct hnew hlength, h.entry_foldl]
    rfl
  rw [readEntry, skipBlank_cons (by decide)]
  exact hread

theorem readList_members {tail rest : List Char} (h : optional tail = .ok (e.version, ']' :: rest)) :
    readEntry ('[' :: (quoteChars e.language ++ ',' :: (writeOptional e.country ++
      ',' :: (quoteChars e.file ++ tail)))) = .ok (e, rest) := by
  have hclose : closeList (']' :: rest) = .ok rest := by
    rw [closeList, skipBlank_cons (by decide)]
    rfl
  rw [readEntry, skipBlank_cons (by decide)]
  simp only [readList, required_first, bind, Except.bind, optional_writeOptional, required_later, h, hclose]
  rfl

theorem readEntry_of_spells {t : List Char} (h : Spells e t) (rest : List Char) :
    readEntry (t ++ rest) = .ok (e, rest) := by
  cases h with
  | object h =>
    rw [List.cons_append, List.append_assoc]
    exact readObject h rest
  | list =>
    have hread := readList_members (optional_writeOptional e.version (']' :: rest))
    simpa [List.intercalate] using hread
  | shortList h =>
    have hread := readList_members (h ▸ optional_close rest)
    simpa [List.intercalate] using hread

theorem Spells.begins {t : List Char} (h : Spells e t) : Begins t := by
  cases h with
  | object h => exact ⟨'\x7b', _, rfl, by decide, by decide⟩
  | list => exact ⟨'[', _, rfl, by decide, by decide⟩
  | shortList h => exact ⟨'[', _, rfl, by decide, by decide⟩

variable {es : List ManifestEntry} {ts : List (List Char)}

theorem readEntries_of_spells (h : List.Forall₂ Spells es ts) (hfuel : ts.length < fuel) (isFirst : Bool)
    (rest : List Char) : readEntries fuel isFirst (separated isFirst ts ++ ']' :: rest) = .ok (es, rest) := by
  obtain ⟨fuel, rfl⟩ : ∃ n, fuel = n + 1 := ⟨fuel - 1, by omega⟩
  induction h generalizing fuel isFirst with
  | nil =>
    rw [separated, List.nil_append, readEntries, element?_close, skipBlank_cons (by decide)]
    rfl
  | @cons e t es ts ht hts ih =>
    have hlength : ts.length < fuel := by simpa using hfuel
    obtain ⟨fuel, rfl⟩ : ∃ n, fuel = n + 1 := ⟨fuel - 1, by omega⟩
    rw [separated, List.append_assoc, List.append_assoc, readEntries, element?_separated ht.begins]
    simp only [bind, Except.bind, readEntry_of_spells ht, ih false fuel hlength]
    rfl

theorem ne_nil_of_spells (h : List.Forall₂ Spells es ts) : ∀ t ∈ ts, t ≠ [] := by
  induction h with
  | nil => exact nofun
  | cons ht _ ih =>
    obtain ⟨c, cs, rfl, -⟩ := ht.begins
    exact List.forall_mem_cons.mpr ⟨List.cons_ne_nil c cs, ih⟩

theorem parse_of_spells {m : Manifest} (h : List.Forall₂ Spells m.entries ts) :
    parse (String.ofList ('[' :: ([','].intercalate ts ++ [']']))) = .ok m := by
  rw [intercalate_eq]
  have hlength : ts.length < (separated true ts ++ [']']).length + 1 := by
    have hle := length_le_separated (ne_nil_of_spells h) true
    rw [List.length_append]
    omega
  rw [parse, String.toList_ofList, skipBlank_cons (by decide)]
  simp only [readEntries_of_spells h hlength true []]
  rfl

def fields (e : ManifestEntry) : List Field :=
  [Member.language, .country, .file, .version].filterMap fun k => (k.of e).map fun t => .known k (some t)

theorem isArrangement_fields (e : ManifestEntry) : IsArrangement e (fields e) where
  distinct := by
    obtain ⟨language, country, file, version⟩ := e
    cases country <;> cases version <;> simp [fields, Member.of, Field.member?]
  known := by
    intro k t ht
    simp only [fields, List.mem_filterMap, Option.map_eq_some_iff] at ht
    obtain ⟨l, -, u, hu, hf⟩ := ht
    cases hf
    exact hu.symm
  complete := by
    intro k hk
    obtain ⟨t, ht⟩ := Option.isSome_iff_exists.mp hk
    rw [ht]
    refine List.mem_filterMap.mpr ⟨k, ?_, by rw [ht]; rfl⟩
    cases k <;> simp
  other := by
    intro name value ho
    simp only [fields, List.mem_filterMap, Option.map_eq_some_iff] at ho
    obtain ⟨l, -, u, -, hf⟩ := ho
    cases hf

theorem spells_writeEntry (e : ManifestEntry) : Spells e (writeEntry e) := by
  have hmembers : (members e).map (fun f => writeMember f.1 f.2) = (fields e).map Field.write := by
    obtain ⟨language, country, file, version⟩ := e
    cases country <;> cases version <;> rfl
  rw [writeEntry, hmembers, List.cons_append]
  exact .object (isArrangement_fields e)

theorem parse_write_self (m : Manifest) : parse m.write = .ok m := by
  have hspells : List.Forall₂ Spells m.entries (m.entries.map writeEntry) :=
    List.forall₂_map_right_iff.mpr (List.forall₂_same.mpr fun e _ => spells_writeEntry e)
  exact parse_of_spells hspells

theorem written_reads_back :
    (∀ m : Manifest, parse m.write = .ok m) ∧
    (∀ m m' : Manifest, m.write = m'.write → m = m') ∧
    (∀ text m, parse text = .ok m → parse m.write = .ok m) ∧
    ∀ (m : Manifest) ts, List.Forall₂ Spells m.entries ts →
      parse (String.ofList ('[' :: ([','].intercalate ts ++ [']']))) = .ok m := by
  refine ⟨parse_write_self, fun m m' h => ?_, fun _ m _ => parse_write_self m, fun _ _ => parse_of_spells⟩
  have heq := parse_write_self m
  rw [h, parse_write_self m'] at heq
  exact (Except.ok.inj heq).symm

end Manifest

end MessageCatalog
