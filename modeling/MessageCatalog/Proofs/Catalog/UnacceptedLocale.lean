import MessageCatalog.Proofs.Catalog.Correspondence

namespace MessageCatalog

theorem Catalog.find?_of_not_accepts {m : Catalog} {l : Locale} (ha : m.accepts l = false) (key : String) :
    m.find? l key = m.find? m.config.defaultLocale key := by
  -- the default locale is read as itself, accepted or not
  simp only [find?, ha, Bool.false_eq_true, if_false, ite_self]

namespace Chain

def ReadsAs (l d : Locale) (chain : Chain) : Prop :=
  ∀ m ∈ chain, m.isIdentity = false → m.config.defaultLocale = d ∧ m.accepts l = false

variable {chain : Chain} {l d : Locale} {arguments : List Value}

theorem lookup_readsAs (h : ReadsAs l d chain) (key : String) : lookup l key chain = lookup d key chain := by
  induction chain with
  | nil => rfl
  | cons m ancestors ih =>
    obtain ⟨hm, hancestors⟩ := List.forall_mem_cons.mp h
    rw [lookup, lookup, ih hancestors]
    cases hi : m.isIdentity with
    | true => rfl
    | false =>
      obtain ⟨rfl, ha⟩ := hm hi
      rw [Catalog.find?_of_not_accepts ha]

theorem isKept_readsAs (l d : Locale) : IsKept (fun o o' => ReadsAs l d o ∧ o = o') l d := by
  rintro o _ ⟨h, rfl⟩ key
  rw [lookup_readsAs h]
  cases hf : lookup d key o with
  | missing => exact .missing
  | identity => exact .identity
  | found owner c p => exact .found c p ⟨fun m hm => h m ((suffix_of_lookup hf).mem hm), rfl⟩

theorem message?_readsAs (h : ReadsAs l d chain) (hv : Value.anyWantsLocale arguments = false)
    (key : String) :
    chain.message? l key arguments = chain.message? d key arguments ∨
      ∃ suggestions suggestions', chain.message? l key arguments = .error (.missing key l suggestions) ∧
        chain.message? d key arguments = .error (.missing key d suggestions') := by
  have hl := lookup_readsAs h key
  simp only [message?]
  cases hf : lookup d key chain with
  | missing => exact .inr ⟨_, _, answer_of_missing (hl.trans hf), answer_of_missing hf⟩
  | identity => exact .inl ((answer_of_identity (hl.trans hf)).trans (answer_of_identity hf).symm)
  | found owner c p =>
    have howner : ReadsAs l d owner := fun m hm => h m ((suffix_of_lookup hf).mem hm)
    have harguments : resolveArguments l arguments owner = resolveArguments d arguments owner :=
      resolveArguments_eq (isKept_readsAs l d) ⟨howner, rfl⟩ (.inr hv)
    rw [answer_of_found (hl.trans hf), answer_of_found hf, harguments]
    exact .inl rfl

theorem message_of_not_accepted (chain : Chain) (l d : Locale) (key : String) (arguments : List Value)
    (hd : ∀ m ∈ chain, m.isIdentity = false → m.config.defaultLocale = d)
    (hl : ∀ m ∈ chain, m.isIdentity = false → m.accepts l = false)
    (hv : Value.anyWantsLocale arguments = false) :
    chain.message l key arguments = chain.message d key arguments ∧
    (∀ t, chain.message? l key arguments = .ok t ↔ chain.message? d key arguments = .ok t) ∧
    (∀ k c problem, chain.message? l key arguments = .error (.format k c problem) ↔
      chain.message? d key arguments = .error (.format k c problem)) := by
  have h : ReadsAs l d chain := fun m hm hi => ⟨hd m hm hi, hl m hm hi⟩
  refine ⟨message_eq (isKept_readsAs l d) ⟨h, rfl⟩ (.inr hv), ?_⟩
  rcases message?_readsAs h hv key with heq | ⟨suggestions, suggestions', hm, hm'⟩
  · rw [heq]
    exact ⟨fun _ => .rfl, fun _ _ _ => .rfl⟩
  · rw [hm, hm']
    simp

def german : Locale :=
  { Locale.germany with region := none }

def stations (accepted : Option LocaleSet) : Catalog where
  isIdentity := false
  config := { accepted := accepted }
  table := ⟨SortedMap.empty.insert .germany (SortedMap.empty.insert "next"
    ⟨"\x7b0\x7d: \x7b1\x7d", .germany, [.item ⟨0, .untyped⟩, .text ": ", .item ⟨1, .untyped⟩]⟩)⟩

def stop : List Value :=
  [.text "Linz", .deferred "next" (.message "next" [.integer 3, .deferred "track" (.value (.text "A"))])]

theorem message_of_not_accepted_german :
    let chain := [stations (some (SortedMap.empty.insert .germany ())), stations none]
    (∀ m ∈ chain, m.isIdentity = false → m.config.defaultLocale = .germany) ∧
      (∀ m ∈ chain, m.isIdentity = false → m.accepts german = false) ∧
      Value.anyWantsLocale stop = false ∧
      Chain.message chain german "next" stop = Chain.message chain .germany "next" stop := by
  intro chain
  have hd : ∀ m ∈ chain, m.isIdentity = false → m.config.defaultLocale = .germany := by
    simp [chain, stations]
  have hl : ∀ m ∈ chain, m.isIdentity = false → m.accepts german = false := by
    refine List.forall_mem_cons.mpr ⟨fun _ => ?_, List.forall_mem_singleton.mpr fun _ => ?_⟩
    · decide +kernel
    · decide +kernel
  exact ⟨hd, hl, rfl, (message_of_not_accepted chain german .germany "next" stop hd hl rfl).1⟩

end Chain

end MessageCatalog
