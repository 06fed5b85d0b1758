import MessageCatalog.Proofs.Catalog.Resolution

/-!
Chains that are asked side by side. A relation of chains is kept by look-ups if they find the same patterns
in owners that are related again. Then related chains have the same lenient messages: a deferred argument
asks the owner of a pattern, whose own arguments may be deferred in turn.
-/

namespace MessageCatalog

mutual

def Value.wantsLocale : Value → Bool
  | .deferred _ target => target.wantsLocale
  | .sequence items => Value.anyWantsLocale items
  | _ => false

def Deferred.wantsLocale : Deferred → Bool
  | .message _ arguments => Value.anyWantsLocale arguments
  | .localeText => true
  | .value _ => false

def Value.anyWantsLocale : List Value → Bool
  | [] => false
  | v :: vs => v.wantsLocale || Value.anyWantsLocale vs

end

inductive Lookup.Corresponds (R : Chain → Chain → Prop) : Lookup → Lookup → Prop
  | missing : Corresponds R .missing .missing
  | identity : Corresponds R .identity .identity
  | filled : Corresponds R .missing .identity
  | found {o o' : Chain} (c : Locale) (p : MessagePattern) (h : R o o') :
    Corresponds R (.found o c p) (.found o' c p)

namespace Chain

def IsKept (R : Chain → Chain → Prop) (l l' : Locale) : Prop :=
  ∀ o o', R o o' → ∀ key, (lookup l key o).Corresponds R (lookup l' key o')

variable {R : Chain → Chain → Prop} {l l' : Locale} {key : String} {o o' : Chain}
  {arguments : List Value}

theorem orKey_answer_eq {f f' : Chain → List Value}
    (h : (lookup l key o).Corresponds R (lookup l' key o')) (hf : ∀ a b, R a b → f a = f' b) :
    orKey key (answer l key o f) = orKey key (answer l' key o' f') := by
  rw [answer, answer]
  generalize lookup l key o = found at h
  generalize lookup l' key o' = found' at h
  cases h with
  | missing => rfl
  | identity => rfl
  | filled => rfl
  | found c p h => simp only [hf _ _ h]

mutual

theorem resolve_eq (hR : IsKept R l l') :
    ∀ v : Value, l = l' ∨ v.wantsLocale = false → ∀ o o', R o o' → resolve l o v = resolve l' o' v
  | .deferred _ target, hv, o, o', h => by
    rw [resolve, resolve]
    exact resolveTarget_eq hR target hv o o' h
  | .sequence items, hv, o, o', h => by
    rw [resolve, resolve, resolveAll_eq hR items hv o o' h]
  | .null, _, _, _, _ => rfl
  | .text _, _, _, _, _ => rfl
  | .integer _, _, _, _, _ => rfl
  | .double _, _, _, _, _ => rfl
  | .moment _, _, _, _, _ => rfl
  | .shown _, _, _, _, _ => rfl

theorem resolveTarget_eq (hR : IsKept R l l') :
    ∀ target : Deferred, l = l' ∨ target.wantsLocale = false →
      ∀ o o', R o o' → resolveTarget l o target = resolveTarget l' o' target
  | .message key arguments, hv, o, o', h => by
    rw [resolveTarget, resolveTarget]
    -- the arguments are asked of the owner at which the look-up ends
    have harguments := resolveAll_eq hR arguments hv
    refine congrArg Value.text (orKey_answer_eq (hR o o' h key) fun a b hab => ?_)
    rw [harguments a b hab]
  | .localeText, hv, _, _, _ => by
    obtain rfl := hv.resolve_right Bool.noConfusion
    rfl
  | .value _, _, _, _, _ => rfl

theorem resolveAll_eq (hR : IsKept R l l') :
    ∀ vs : List Value, l = l' ∨ Value.anyWantsLocale vs = false →
      ∀ o o', R o o' → resolveAll l o vs = resolveAll l' o' vs
  | [], _, _, _, _ => rfl
  | v :: vs, hv, o, o', h => by
    have hboth : l = l' ∨ v.wantsLocale = false ∧ Value.anyWantsLocale vs = false :=
      hv.imp_right Bool.or_eq_false_iff.mp
    rw [resolveAll, resolveAll, resolve_eq hR v (hboth.imp_right And.left) o o' h,
      resolveAll_eq hR vs (hboth.imp_right And.right) o o' h]

end

theorem resolveArguments_eq (hR : IsKept R l l') (h : R o o')
    (hv : l = l' ∨ Value.anyWantsLocale arguments = false) :
    resolveArguments l arguments o = resolveArguments l' arguments o' := by
  rw [resolveArguments, resolveArguments, resolveAll_eq hR arguments hv o o' h]

theorem message_eq (hR : IsKept R l l') (h : R o o')
    (hv : l = l' ∨ Value.anyWantsLocale arguments = false) :
    o.message l key arguments = o'.message l' key arguments := by
  rw [message, message, message?, message?]
  exact orKey_answer_eq (hR o o' h key) fun a b hab => resolveArguments_eq hR hab hv

theorem suffix_of_lookup {owner : Chain} {c : Locale} {p : MessagePattern}
    (h : lookup l key o = .found owner c p) : owner <:+ o := by
  induction o with
  | nil => cases h
  | cons m ancestors ih =>
    rw [lookup] at h
    split at h
    · cases h
    · split at h
      · cases h
        exact List.suffix_rfl
      · exact (ih h).trans (List.suffix_cons m ancestors)

end Chain

end MessageCatalog
