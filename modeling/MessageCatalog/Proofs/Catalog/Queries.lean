import MessageCatalog.Proofs.Catalog.Resolution
import MessageCatalog.Proofs.Catalog.Steps

namespace MessageCatalog

def Query.name : Query → String
  | .message name _ _ _ | .strictMessage name _ _ _ | .has name _ _ | .locales name => name

namespace Session

inductive Answers (m : Catalog) (chain : Chain) : Query → Answer → Prop where
  | message {name key t : String} {l : Locale} {arguments : List Value}
      (ht : chain.message? l key arguments = .ok t) :
    Answers m chain (.message name l key arguments) (.message t)
  | key {name key : String} {l : Locale} {arguments : List Value} {problem : MessageProblem}
      (hp : chain.message? l key arguments = .error problem) :
    Answers m chain (.message name l key arguments) (.message key)
  | strictMessage (name : String) (l : Locale) (key : String) (arguments : List Value) :
    Answers m chain (.strictMessage name l key arguments)
      (.strictMessage (chain.message? l key arguments))
  | has {name key : String} {l : Locale} {found : Bool}
      (hf : found = true ↔ ∃ c p, m.Resolves l key c p) : Answers m chain (.has name l key) (.has found)
  | locales (name : String) : Answers m chain (.locales name) (.locales m.table.patterns.keys)

variable {s : Session} {h p : Nat} {m n : Catalog} {chain : Chain} {q : Query} {a b : Answer}
  {name child parent key : String} {l : Locale} {arguments : List Value}

theorem Answers.unique (ha : Answers m chain q a) (hb : Answers m chain q b) : a = b := by
  cases ha with
  | message ht =>
    cases hb with
    | message ht' =>
      cases ht.symm.trans ht'
      rfl
    | key hp => cases ht.symm.trans hp
  | key hp =>
    cases hb with
    | message ht => cases hp.symm.trans ht
    | key => rfl
  | strictMessage | locales =>
    cases hb
    rfl
  | has hf =>
    cases hb with
    | has hf' => rw [Bool.eq_iff_iff.mpr (hf.trans hf'.symm)]

theorem chain_eq_ok (hh : s.handles.get? name = some h) : s.chain name = .ok (s.registry.chain h) := by
  rw [Session.chain, handle_eq_ok_iff.mpr hh]
  rfl

theorem ask_strictMessage (hh : s.handles.get? name = some h) :
    s.ask (.strictMessage name l key arguments) =
      .ok (.strictMessage ((s.registry.chain h).message? l key arguments)) := by
  rw [ask, chain_eq_ok hh]
  rfl

theorem ask_message (hh : s.handles.get? name = some h) :
    s.ask (.message name l key arguments) =
      .ok (.message ((s.registry.chain h).message l key arguments)) := by
  rw [ask, chain_eq_ok hh]
  rfl

theorem ask_has (hm : s.catalog name = .ok m) : s.ask (.has name l key) = .ok (.has (m.has l key)) := by
  rw [ask, hm]
  rfl

theorem ask_locales (hm : s.catalog name = .ok m) :
    s.ask (.locales name) = .ok (.locales m.table.patterns.keys) := by
  rw [ask, hm]
  rfl

theorem exists_ask (hh : s.handles.get? q.name = some h) (hm : s.registry.catalog? h = some m) :
    ∃ a, Answers m (s.registry.chain h) q a ∧ s.ask q = .ok a := by
  have hcatalog : s.catalog q.name = .ok m := catalog_eq_ok_iff.mpr ⟨h, hh, hm⟩
  cases q with
  | message name l key arguments =>
    refine ⟨_, ?_, ask_message hh⟩
    rw [Chain.message]
    cases hc : (s.registry.chain h).message? l key arguments with
    | ok t => exact .message hc
    | error problem => exact .key hc
  | strictMessage name l key arguments => exact ⟨_, .strictMessage name l key arguments, ask_strictMessage hh⟩
  | has name l key => exact ⟨_, .has Catalog.has_iff, ask_has hcatalog⟩
  | locales name => exact ⟨_, .locales name, ask_locales hcatalog⟩

theorem step_ask_of_none (hh : s.handles.get? q.name = none) :
    (s.step (.ask q)).2 = .error .noCatalog := by
  have hhandle : s.handle q.name = .error .noCatalog := by rw [handle, hh]
  cases q <;> simp only [Query.name] at hhandle <;> simp only [step, ask, Session.chain, catalog, hhandle] <;> rfl

theorem step_ask (ha : s.ask q = .ok a) : (s.step (.ask q)).2 = .ok (.answered a) := by
  rw [step, ha]
  rfl

/-- The catalog of a handle and the one of its parent. A key that the child lacks is answered by the chain of
the parent, and there first from the table of the parent, whoever asks. -/
structure Follows (s : Session) (h p : Nat) (m n : Catalog) : Prop where
  child : s.registry.catalog? h = some m
  parent : s.registry.catalog? p = some n
  chain_eq : s.registry.chain h = m :: s.registry.chain p
  handsOn : ∀ l key arguments, m.has l key = false →
    (s.registry.chain h).message? l key arguments = (s.registry.chain p).message? l key arguments
  fromTable : ∀ l key arguments c pattern, m.has l key = false → n.isIdentity = false →
    n.Resolves l key c pattern → (s.registry.chain h).message? l key arguments =
      (pattern.write (some (Chain.resolveArguments l arguments (s.registry.chain p)))).mapError
        (.format key c)
  sameReply : ∀ child parent l key arguments, s.handles.get? child = some h →
    s.handles.get? parent = some p → m.has l key = false →
      (s.step (.ask (.message child l key arguments))).2 =
          (s.step (.ask (.message parent l key arguments))).2 ∧
        (s.step (.ask (.strictMessage child l key arguments))).2 =
          (s.step (.ask (.strictMessage parent l key arguments))).2
  replyFromTable : ∀ child l key arguments c pattern, s.handles.get? child = some h →
    m.has l key = false → n.isIdentity = false → n.Resolves l key c pattern →
      ∃ outcome, outcome = (pattern.write
          (some (Chain.resolveArguments l arguments (s.registry.chain p)))).mapError (.format key c) ∧
        (s.step (.ask (.strictMessage child l key arguments))).2 =
          .ok (.answered (.strictMessage outcome)) ∧
        (s.step (.ask (.message child l key arguments))).2 =
          .ok (.answered (.message (outcome.toOption.getD key)))

theorem message?_of_not_has {ancestors : Chain} (hchain : s.registry.chain h = m :: n :: ancestors)
    (hi : m.isIdentity = false) (hh : m.has l key = false) :
    (s.registry.chain h).message? l key arguments = Chain.message? (n :: ancestors) l key arguments := by
  rw [hchain]
  apply Chain.answer_of_not_answers
  · rw [Catalog.answers_iff hi, ← Catalog.has_iff, hh]
    exact Bool.false_ne_true
  · exact List.cons_ne_nil _ _

theorem follows_of_chain (hm : s.registry.catalog? h = some m) (hn : s.registry.catalog? p = some n)
    (hi : m.isIdentity = false) (hchain : s.registry.chain h = m :: s.registry.chain p) :
    Follows s h p m n := by
  obtain ⟨ancestors, hparents⟩ : ∃ ancestors, s.registry.chain p = n :: ancestors := by
    rw [Registry.catalog?, List.head?_eq_some_iff] at hn
    exact hn
  have hands : ∀ l key arguments, m.has l key = false →
      (s.registry.chain h).message? l key arguments =
        (s.registry.chain p).message? l key arguments := by
    intro l key arguments hh
    rw [hparents]
    rw [hparents] at hchain
    exact message?_of_not_has hchain hi hh
  have table : ∀ l key arguments c pattern, m.has l key = false → n.isIdentity = false →
      n.Resolves l key c pattern → (s.registry.chain h).message? l key arguments =
        (pattern.write (some (Chain.resolveArguments l arguments (s.registry.chain p)))).mapError
          (.format key c) := by
    intro l key arguments c pattern hh hin hr
    rw [hands l key arguments hh, hparents]
    exact Chain.answer_of_found (Chain.lookup_of_resolves hin hr)
  exact {
    child := hm
    parent := hn
    chain_eq := hchain
    handsOn := hands
    fromTable := table
    sameReply := fun child parent l key arguments hc hp hh => by
      rw [step_ask (ask_message hc), step_ask (ask_message hp), step_ask (ask_strictMessage hc),
        step_ask (ask_strictMessage hp), Chain.message, Chain.message, hands l key arguments hh]
      exact ⟨rfl, rfl⟩
    replyFromTable := fun child l key arguments c pattern hc hh hin hr => by
      rw [step_ask (ask_message hc), step_ask (ask_strictMessage hc), Chain.message,
        table l key arguments c pattern hh hin hr]
      exact ⟨_, rfl, rfl, rfl⟩ }

end Session

end MessageCatalog
