import MessageCatalog.Catalog.Basic
import Mathlib.Order.Lattice.Nat

namespace MessageCatalog

inductive Edit : List Char → List Char → Prop
  | insert (before : List Char) (c : Char) (after : List Char) :
    Edit (before ++ after) (before ++ c :: after)
  | delete (before : List Char) (c : Char) (after : List Char) :
    Edit (before ++ c :: after) (before ++ after)
  | replace (before : List Char) (c d : Char) (after : List Char) :
    Edit (before ++ c :: after) (before ++ d :: after)

inductive Edits : Nat → List Char → List Char → Prop
  | none (a : List Char) : Edits 0 a a
  | next {n : Nat} {a b c : List Char} (h : Edits n a b) (e : Edit b c) : Edits (n + 1) a c

noncomputable def levenshtein (a b : List Char) : Nat :=
  sInf {n | Edits n a b}

/-- The texts character by character: what is edited is edited once, and at so many places. -/
inductive Aligns : Nat → List Char → List Char → Prop
  | nil : Aligns 0 [] []
  | keep {n : Nat} {a b : List Char} (c : Char) (h : Aligns n a b) : Aligns n (c :: a) (c :: b)
  | replace {n : Nat} {a b : List Char} (c d : Char) (h : Aligns n a b) : Aligns (n + 1) (c :: a) (d :: b)
  | insert {n : Nat} {a b : List Char} (d : Char) (h : Aligns n a b) : Aligns (n + 1) a (d :: b)
  | delete {n : Nat} {a b : List Char} (c : Char) (h : Aligns n a b) : Aligns (n + 1) (c :: a) b

variable {m n diagonal up left : Nat} {a b b' front ds : List Char} {c d : Char} {row : List Nat}

theorem Edit.cons (c : Char) (h : Edit a b) : Edit (c :: a) (c :: b) := by
  cases h with
  | insert before d after => exact .insert (c :: before) d after
  | delete before d after => exact .delete (c :: before) d after
  | replace before d e after => exact .replace (c :: before) d e after

theorem Edit.reverse (h : Edit a b) : Edit a.reverse b.reverse := by
  cases h with
  | insert before d after =>
    simpa using Edit.insert after.reverse d before.reverse
  | delete before d after =>
    simpa using Edit.delete after.reverse d before.reverse
  | replace before d e after =>
    simpa using Edit.replace after.reverse d e before.reverse

theorem Edits.cons (c : Char) (h : Edits n a b) : Edits n (c :: a) (c :: b) := by
  induction h with
  | none a => exact .none (c :: a)
  | next _ e ih => exact .next ih (e.cons c)

theorem Edits.reverse (h : Edits n a b) : Edits n a.reverse b.reverse := by
  induction h with
  | none a => exact .none a.reverse
  | next _ e ih => exact .next ih e.reverse

theorem Aligns.edits (h : Aligns n a b) : Edits n a b := by
  induction h with
  | nil => exact .none []
  | keep c _ ih => exact ih.cons c
  | replace c d _ ih => exact .next (ih.cons c) (.replace [] c d _)
  | insert d _ ih => exact .next ih (.insert [] d _)
  | delete c _ ih => exact .next (ih.cons c) (.delete [] c _)

theorem aligns_refl (a : List Char) : Aligns 0 a a := by
  induction a with
  | nil => exact .nil
  | cons c a ih => exact .keep c ih

theorem Aligns.of_cons (h : Aligns n a (c :: b)) : ∃ m ≤ n + 1, Aligns m a b := by
  generalize hcb : c :: b = target at h
  induction h with
  | nil => cases hcb
  | keep c h =>
    cases hcb
    exact ⟨_, le_rfl, .delete c h⟩
  | replace c d h =>
    cases hcb
    exact ⟨_, Nat.le_succ _, .delete c h⟩
  | insert d h =>
    cases hcb
    exact ⟨_, by omega, h⟩
  | delete c _ ih =>
    obtain ⟨m, hm, h⟩ := ih hcb
    exact ⟨m + 1, by omega, .delete c h⟩

theorem Aligns.replace_head (h : Aligns n a (c :: b)) (d : Char) : ∃ m ≤ n + 1, Aligns m a (d :: b) := by
  generalize hcb : c :: b = target at h
  induction h with
  | nil => cases hcb
  | keep c h =>
    cases hcb
    exact ⟨_, le_rfl, .replace c d h⟩
  | replace c _ h =>
    cases hcb
    exact ⟨_, Nat.le_succ _, .replace c d h⟩
  | insert _ h =>
    cases hcb
    exact ⟨_, Nat.le_succ _, .insert d h⟩
  | delete c _ ih =>
    obtain ⟨m, hm, h⟩ := ih hcb
    exact ⟨m + 1, by omega, .delete c h⟩

theorem Aligns.behind {old new : List Char} (hend : ∀ n a, Aligns n a old → ∃ m ≤ n + 1, Aligns m a new)
    (before : List Char) (h : Aligns n a (before ++ old)) : ∃ m ≤ n + 1, Aligns m a (before ++ new) := by
  generalize hb : before ++ old = target at h
  induction h generalizing before with
  | nil =>
    obtain ⟨rfl, rfl⟩ := List.append_eq_nil_iff.mp hb
    exact hend _ _ .nil
  | @keep n a b c h ih =>
    cases before with
    | nil =>
      obtain rfl : old = _ := hb
      exact hend _ _ (.keep c h)
    | cons e before =>
      obtain ⟨rfl, hrest⟩ := List.cons.inj hb
      obtain ⟨m, hm, hnew⟩ := ih before hrest
      exact ⟨m, hm, .keep e hnew⟩
  | @replace n a b c d h ih =>
    cases before with
    | nil =>
      obtain rfl : old = _ := hb
      exact hend _ _ (.replace c d h)
    | cons e before =>
      obtain ⟨rfl, hrest⟩ := List.cons.inj hb
      obtain ⟨m, hm, hnew⟩ := ih before hrest
      exact ⟨m + 1, by omega, .replace c e hnew⟩
  | @insert n a b d h ih =>
    cases before with
    | nil =>
      obtain rfl : old = _ := hb
      exact hend _ _ (.insert d h)
    | cons e before =>
      obtain ⟨rfl, hrest⟩ := List.cons.inj hb
      obtain ⟨m, hm, hnew⟩ := ih before hrest
      exact ⟨m + 1, by omega, .insert e hnew⟩
  | delete c h ih =>
    obtain ⟨m, hm, hnew⟩ := ih before hb
    exact ⟨m + 1, by omega, .delete c hnew⟩

theorem Aligns.edit (h : Aligns n a b) (e : Edit b b') : ∃ m ≤ n + 1, Aligns m a b' := by
  cases e with
  | insert before c after => exact Aligns.behind (fun _ _ h => ⟨_, le_rfl, .insert c h⟩) before h
  | delete before c after => exact Aligns.behind (fun _ _ h => h.of_cons) before h
  | replace before c d after => exact Aligns.behind (fun _ _ h => h.replace_head d) before h

theorem Edits.aligns (h : Edits n a b) : ∃ m ≤ n, Aligns m a b := by
  induction h with
  | none a => exact ⟨0, le_rfl, aligns_refl a⟩
  | next _ e ih =>
    obtain ⟨m, hm, h⟩ := ih
    obtain ⟨k, hk, h⟩ := h.edit e
    exact ⟨k, by omega, h⟩

def Costs (n : Nat) (a b : List Char) : Prop :=
  Aligns n a b ∧ ∀ m, Aligns m a b → n ≤ m

theorem costs_nil_nil : Costs 0 [] [] :=
  ⟨.nil, fun _ _ => Nat.zero_le _⟩

theorem Costs.delete_nil (h : Costs n a []) (c : Char) : Costs (n + 1) (c :: a) [] := by
  refine ⟨.delete c h.1, fun m hm => ?_⟩
  cases hm with
  | delete _ hm => exact Nat.succ_le_succ (h.2 _ hm)

theorem Costs.insert_nil (h : Costs n [] b) (d : Char) : Costs (n + 1) [] (d :: b) := by
  refine ⟨.insert d h.1, fun m hm => ?_⟩
  cases hm with
  | insert _ hm => exact Nat.succ_le_succ (h.2 _ hm)

theorem costs_cons (hdiagonal : Costs diagonal a b) (hup : Costs up a (d :: b))
    (hleft : Costs left (c :: a) b) :
    Costs (min (min up left + 1) (if c = d then diagonal else diagonal + 1)) (c :: a) (d :: b) := by
  constructor
  · rcases min_choice (min up left + 1) (if c = d then diagonal else diagonal + 1) with h | h
    · rw [h]
      rcases min_choice up left with h | h
      · rw [h]
        exact .delete c hup.1
      · rw [h]
        exact .insert d hleft.1
    · rw [h]
      split
      case isTrue hcd => exact hcd ▸ .keep c hdiagonal.1
      case isFalse => exact .replace c d hdiagonal.1
  · intro m hm
    cases hm with
    | keep _ hm =>
      have := hdiagonal.2 _ hm
      rw [if_pos rfl]
      omega
    | replace _ _ hm =>
      have := hdiagonal.2 _ hm
      split <;> omega
    | insert _ hm =>
      have := hleft.2 _ hm
      split <;> omega
    | delete _ hm =>
      have := hup.2 _ hm
      split <;> omega

inductive IsRow (a : List Char) : List Char → List Char → List Nat → Prop
  | nil (front : List Char) : IsRow a front [] []
  | cons {front : List Char} {d : Char} {ds : List Char} {n : Nat} {row : List Nat}
    (h : Costs n a (d :: front)) (hrow : IsRow a (d :: front) ds row) : IsRow a front (d :: ds) (n :: row)

theorem isRow_nextRow (h : IsRow a front ds row) (hdiagonal : Costs diagonal a front)
    (hleft : Costs left (c :: a) front) :
    IsRow (c :: a) front ds (nextRow c ds row diagonal left) := by
  induction h generalizing diagonal left with
  | nil front => exact .nil front
  | cons h _ ih =>
    have hcosts := costs_cons hdiagonal h hleft
    rw [nextRow]
    exact .cons hcosts (ih h hcosts)

def IsFullRow (a target : List Char) (row : List Nat) : Prop :=
  ∃ n rest, row = n :: rest ∧ Costs n a [] ∧ IsRow a [] target rest

theorem isFullRow_stepRow {target : List Char} (h : IsFullRow a target row) (c : Char) :
    IsFullRow (c :: a) target (stepRow target row c) := by
  obtain ⟨n, rest, rfl, hn, hrest⟩ := h
  have hleft := hn.delete_nil c
  exact ⟨n + 1, _, rfl, hleft, isRow_nextRow hrest hn hleft⟩

theorem isFullRow_foldl {target : List Char} (h : IsFullRow a target row) (cs : List Char) :
    IsFullRow (cs.reverse ++ a) target (cs.foldl (stepRow target) row) := by
  induction cs generalizing a row with
  | nil => exact h
  | cons c cs ih =>
    rw [List.foldl_cons, List.reverse_cons, List.append_assoc]
    exact ih (isFullRow_stepRow h c)

theorem isRow_range' (h : Costs n [] front) (ds : List Char) :
    IsRow [] front ds (List.range' (n + 1) ds.length) := by
  induction ds generalizing n front with
  | nil => exact .nil front
  | cons d ds ih =>
    have hcosts := h.insert_nil d
    rw [List.length_cons, List.range'_succ]
    exact .cons hcosts (ih hcosts)

theorem isFullRow_range (target : List Char) : IsFullRow [] target (List.range (target.length + 1)) := by
  refine ⟨0, List.range' 1 target.length, ?_, costs_nil_nil, isRow_range' costs_nil_nil target⟩
  rw [List.range_eq_range', List.range'_succ]

theorem IsRow.getLast?_cons (h : IsRow a front ds row) (hn : Costs n a front) :
    ∃ m, (n :: row).getLast? = some m ∧ Costs m a (ds.reverse ++ front) := by
  induction h generalizing n with
  | nil front => exact ⟨n, rfl, hn⟩
  | @cons front d ds k row h _ ih =>
    obtain ⟨m, hm, hcosts⟩ := ih h
    rw [List.getLast?_cons_cons, List.reverse_cons, List.append_assoc]
    exact ⟨m, hm, hcosts⟩

theorem costs_editDistance (a b : List Char) : Costs (editDistance a b) a.reverse b.reverse := by
  obtain ⟨n, rest, hrow, hn, hrest⟩ := isFullRow_foldl (isFullRow_range b) a
  obtain ⟨m, hm, hcosts⟩ := hrest.getLast?_cons hn
  rw [editDistance, hrow, hm, Option.getD_some]
  simpa using hcosts

theorem edits_editDistance (a b : List Char) : Edits (editDistance a b) a b := by
  simpa using (costs_editDistance a b).1.edits.reverse

theorem editDistance_le (h : Edits n a b) : editDistance a b ≤ n := by
  obtain ⟨m, hm, haligns⟩ := h.reverse.aligns
  exact ((costs_editDistance a b).2 m haligns).trans hm

theorem editDistance_eq_levenshtein (a b : List Char) : editDistance a b = levenshtein a b := by
  have hmem : editDistance a b ∈ {n | Edits n a b} := edits_editDistance a b
  exact le_antisymm (editDistance_le (Nat.sInf_mem ⟨_, hmem⟩)) (Nat.sInf_le hmem)

theorem levenshtein_eq_zero_iff : levenshtein a b = 0 ↔ a = b := by
  rw [← editDistance_eq_levenshtein]
  constructor
  · intro h
    have hedits := edits_editDistance a b
    rw [h] at hedits
    cases hedits
    rfl
  · rintro rfl
    exact Nat.le_zero.mp (editDistance_le (.none a))

end MessageCatalog
