import MessageCatalog.Proofs.Catalog.Correspondence
import MessageCatalog.Proofs.Catalog.Suggestions

namespace MessageCatalog.Chain

variable {chain : Chain} {last : Catalog} {l : Locale}

structure IsExtended (last : Catalog) (o o' : Chain) : Prop where
  tables : ∀ m ∈ o, m.isIdentity = false
  extended : o' = o ++ [last]

theorem lookup_extended (hc : ∀ m ∈ chain, m.isIdentity = false) (hi : last.isIdentity = true)
    (l : Locale) (key : String) :
    lookup l key chain = .missing ∧ lookup l key (chain ++ [last]) = .identity ∨
      ∃ owner c p, IsExtended last owner (owner ++ [last]) ∧ lookup l key chain = .found owner c p ∧
        lookup l key (chain ++ [last]) = .found (owner ++ [last]) c p := by
  induction chain with
  | nil => exact .inl ⟨rfl, lookup_of_identity hi⟩
  | cons m ancestors ih =>
    obtain ⟨hm, hancestors⟩ := List.forall_mem_cons.mp hc
    by_cases ha : m.Answers l key
    · obtain ⟨c, p, hr⟩ := (Catalog.answers_iff hm).mp ha
      exact .inr ⟨m :: ancestors, c, p, ⟨hc, rfl⟩, lookup_of_resolves hm hr, lookup_of_resolves hm hr⟩
    · rw [List.cons_append, lookup_of_not_answers ha, lookup_of_not_answers ha]
      exact ih hancestors

theorem isKept_extended (hi : last.isIdentity = true) : IsKept (IsExtended last) l l := by
  rintro o _ ⟨hc, rfl⟩ key
  rcases lookup_extended hc hi l key with ⟨h, h'⟩ | ⟨owner, c, p, hR, h, h'⟩
  · rw [h, h']
    exact .filled
  · rw [h, h']
    exact .found c p hR

theorem message_append_identity (chain : Chain) (last : Catalog) (l : Locale) (key : String)
    (arguments : List Value) (hc : ∀ m ∈ chain, m.isIdentity = false) (hi : last.isIdentity = true) :
    Chain.message (chain ++ [last]) l key arguments = chain.message l key arguments ∧
    (∀ k c suggestions,
      Chain.message? (chain ++ [last]) l key arguments ≠ .error (.missing k c suggestions)) ∧
    (∀ k c suggestions, chain.message? l key arguments = .error (.missing k c suggestions) →
      Chain.message? (chain ++ [last]) l key arguments = .ok key) ∧
    ((∀ k c suggestions, chain.message? l key arguments ≠ .error (.missing k c suggestions)) →
      Chain.message? (chain ++ [last]) l key arguments = chain.message? l key arguments) := by
  have hkept : IsKept (IsExtended last) l l := isKept_extended hi
  refine ⟨(message_eq hkept ⟨hc, rfl⟩ (.inl rfl)).symm, ?_⟩
  rcases lookup_extended hc hi l key with ⟨h, h'⟩ | ⟨owner, c, p, hR, h, h'⟩
  · have hkey : Chain.message? (chain ++ [last]) l key arguments = .ok key := answer_of_identity h'
    rw [hkey]
    refine ⟨nofun, fun _ _ _ _ => rfl, fun hm => ?_⟩
    exact absurd (answer_of_missing h) (hm _ _ _)
  · have hfound : ∀ k c suggestions,
        chain.message? l key arguments ≠ .error (.missing k c suggestions) := by
      intro k c suggestions hm
      rw [(message?_missing hm).1] at h
      cases h
    have harguments : resolveArguments l arguments owner = resolveArguments l arguments (owner ++ [last]) :=
      resolveArguments_eq hkept hR (.inl rfl)
    have hsame : Chain.message? (chain ++ [last]) l key arguments = chain.message? l key arguments := by
      rw [message?, message?, answer_of_found h, answer_of_found h', harguments]
    rw [hsame]
    exact ⟨hfound, fun k c suggestions hm => absurd hm (hfound k c suggestions), fun _ => rfl⟩

def visits : Catalog where
  isIdentity := false
  config := {}
  table := ⟨SortedMap.empty.insert .germany (SortedMap.empty.insert "visit"
    ⟨"\x7b0\x7d in \x7b1\x7d", .germany, [.item ⟨0, .untyped⟩, .text " in ", .item ⟨1, .untyped⟩]⟩)⟩

def guest : List Value :=
  [.text "Ana", .sequence [.deferred "town" (.message "Ulm" [])]]

theorem message_append_identity_guest :
    (∀ m ∈ [visits], m.isIdentity = false) ∧ Catalog.identity.isIdentity = true ∧
      Chain.message [visits, .identity] .germany "visit" guest = Chain.message [visits] .germany "visit" guest := by
  have hc : ∀ m ∈ [visits], m.isIdentity = false := by simp [visits]
  exact ⟨hc, rfl, (message_append_identity [visits] .identity .germany "visit" guest hc rfl).1⟩

end MessageCatalog.Chain
