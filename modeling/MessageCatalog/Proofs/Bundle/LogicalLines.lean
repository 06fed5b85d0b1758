import MessageCatalog.Proofs.Bundle.PropertyLines

namespace MessageCatalog.Properties

def EndsEven (cs : List Char) : Prop :=
  (cs.reverse.takeWhile (· == '\\')).length % 2 = 0

def isIgnored (raw : List Char) : Bool :=
  (raw.dropWhile isPad).isEmpty || isComment (raw.dropWhile isPad)

def isContinued (raw : List Char) : Bool :=
  continues (raw.dropWhile isPad)

def part (raw : List Char) : List Char :=
  if isContinued raw then (raw.dropWhile isPad).dropLast else raw.dropWhile isPad

/-- Physical lines, the first of which has the number, and their logical lines. -/
inductive Groups : Nat → List (List Char) → List LogicalLine → Prop where
  | nil {number : Nat} : Groups number [] []
  | ignored {number : Nat} {raw : List Char} {rest : List (List Char)} {ls : List LogicalLine}
      (h : isIgnored raw = true) (hrest : Groups (number + 1) rest ls) :
      Groups number (raw :: rest) ls
  | joined {number : Nat} {before rest : List (List Char)} {last : List Char} {ls : List LogicalLine}
      (hstart : ∀ raw, (before ++ [last]).head? = some raw → isIgnored raw = false)
      (hbefore : ∀ raw ∈ before, isContinued raw = true)
      (hlast : isContinued last = false ∨ rest = [])
      (hrest : Groups (number + before.length + 1) rest ls) :
      Groups number (before ++ last :: rest) (⟨number, (before ++ [last]).flatMap part⟩ :: ls)

theorem endsEven_iff {cs : List Char} : EndsEven cs ↔ continues cs = false := by
  simp [EndsEven, continues]

theorem EndsEven.append_iff {a b : List Char} (ha : EndsEven a) : EndsEven (a ++ b) ↔ EndsEven b := by
  unfold EndsEven at *
  rw [List.reverse_append, List.takeWhile_append]
  split
  case isTrue hb =>
    -- the whole of the second text is backslashes
    rw [List.length_append, List.length_reverse]
    rw [List.length_reverse] at hb
    omega
  case isFalse => rfl

theorem endsEven_nil : EndsEven [] :=
  rfl

theorem EndsEven.flatten {css : List (List Char)} (h : ∀ cs ∈ css, EndsEven cs) :
    EndsEven css.flatten := by
  induction css with
  | nil => exact endsEven_nil
  | cons cs css ih =>
    obtain ⟨hcs, hcss⟩ := List.forall_mem_cons.mp h
    exact hcs.append_iff.mpr (ih hcss)

theorem endsEven_dropLast {cs : List Char} (h : continues cs = true) : EndsEven cs.dropLast := by
  have hne : cs ≠ [] := by
    rintro rfl
    cases h
  obtain ⟨before, c, rfl⟩ : ∃ before c, cs = before ++ [c] :=
    ⟨_, _, (List.dropLast_concat_getLast hne).symm⟩
  rw [List.dropLast_concat]
  by_cases hc : c = '\\'
  · subst hc
    simp only [continues, EndsEven, List.reverse_append, List.reverse_singleton, List.singleton_append,
      List.takeWhile_cons, beq_self_eq_true, if_true, List.length_cons, beq_iff_eq] at h ⊢
    omega
  · rw [continues_concat hc] at h
    cases h

theorem endsEven_part (raw : List Char) : EndsEven (part raw) := by
  unfold part
  split
  case isTrue h => exact endsEven_dropLast h
  case isFalse h => exact endsEven_iff.mpr (Bool.eq_false_iff.mpr h)

theorem Groups.endsEven {number : Nat} {lines : List (List Char)} {ls : List LogicalLine}
    (h : Groups number lines ls) : ∀ l ∈ ls, EndsEven l.text := by
  induction h with
  | nil => exact nofun
  | ignored _ _ ih => exact ih
  | @joined _ before _ last _ _ _ _ _ ih =>
    refine List.forall_mem_cons.mpr ⟨?_, ih⟩
    apply EndsEven.flatten
    intro cs hcs
    obtain ⟨raw, -, rfl⟩ := List.mem_map.mp hcs
    exact endsEven_part raw

theorem join_ignored {raw : List Char} (h : isIgnored raw = true) (number : Nat)
    (rest : List (List Char)) : join number none (raw :: rest) = join (number + 1) none rest := by
  rw [join, if_pos]
  simpa [isIgnored] using h

theorem join_taken (waiting : Option LogicalLine) (raw : List Char)
    (h : waiting.isSome = true ∨ isIgnored raw = false) (number : Nat) (rest : List (List Char)) :
    join number waiting (raw :: rest) =
      let start := waiting.getD ⟨number, []⟩
      let line : LogicalLine := ⟨start.number, start.text ++ part raw⟩
      if isContinued raw then join (number + 1) (some line) rest
      else line :: join (number + 1) none rest := by
  have hskip : ¬(waiting.isNone ∧
      ((raw.dropWhile isPad).isEmpty ∨ isComment (raw.dropWhile isPad))) := by
    rintro ⟨hn, hi⟩
    rcases h with hs | hs
    · simp_all
    · rw [isIgnored, Bool.or_eq_false_iff] at hs
      simp_all
  rw [join, if_neg hskip]
  cases hc : isContinued raw <;> simp_all [isContinued, part]

structure Finishes (number : Nat) (waiting : LogicalLine) (lines : List (List Char))
    (before : List (List Char)) (last : List Char) (rest : List (List Char)) : Prop where
  split : lines = before ++ last :: rest
  continued : ∀ raw ∈ before, isContinued raw = true
  ends : isContinued last = false ∨ rest = []
  joined : join number (some waiting) lines =
    ⟨waiting.number, waiting.text ++ (before ++ [last]).flatMap part⟩ ::
      join (number + before.length + 1) none rest

theorem exists_finishes (number : Nat) (waiting : LogicalLine) {lines : List (List Char)}
    (h : lines ≠ []) : ∃ before last rest, Finishes number waiting lines before last rest := by
  induction lines generalizing number waiting with
  | nil => exact absurd rfl h
  | cons raw lines ih =>
    have htaken := join_taken (some waiting) raw (.inl rfl) number lines
    cases hc : isContinued raw with
    | false =>
      refine ⟨[], raw, lines, rfl, nofun, .inl hc, ?_⟩
      simpa [hc] using htaken
    | true =>
      by_cases hl : lines = []
      · subst hl
        refine ⟨[], raw, [], rfl, nofun, .inr rfl, ?_⟩
        simpa [hc, join] using htaken
      · obtain ⟨before, last, rest, hsplit, hcontinued, hends, hjoined⟩ :=
          ih (number + 1) ⟨waiting.number, waiting.text ++ part raw⟩ hl
        refine ⟨raw :: before, last, rest, by rw [hsplit, List.cons_append],
          List.forall_mem_cons.mpr ⟨hc, hcontinued⟩, hends, ?_⟩
        have hnumber : number + (raw :: before).length + 1 = number + 1 + before.length + 1 := by
          rw [List.length_cons]
          omega
        rw [htaken, hnumber]
        simp [hc, hjoined]

theorem groups_taken {number : Nat} {raw : List Char} {rest : List (List Char)}
    (hi : isIgnored raw = false)
    (ih : ∀ later : List (List Char), later.length ≤ rest.length →
      ∀ n, Groups n later (join n none later)) :
    Groups number (raw :: rest) (join number none (raw :: rest)) := by
  have hstart : ∀ more : List (List Char), ∀ first, (raw :: more).head? = some first →
      isIgnored first = false := by
    rintro more first ⟨⟩
    exact hi
  have htaken := join_taken none raw (.inr hi) number rest
  cases hc : isContinued raw with
  | false =>
    have hjoin : join number none (raw :: rest) =
        ⟨number, ([] ++ [raw]).flatMap part⟩ :: join (number + 1) none rest := by
      simpa [hc] using htaken
    have hgroup : Groups number ([] ++ raw :: rest) _ :=
      .joined (hstart []) nofun (.inl hc) (ih rest (Nat.le_refl _) _)
    rw [hjoin]
    exact hgroup
  | true =>
    by_cases hr : rest = []
    · subst hr
      have hjoin : join number none [raw] = [⟨number, ([] ++ [raw]).flatMap part⟩] := by
        simpa [hc, join] using htaken
      have hgroup : Groups number ([] ++ [raw]) _ := .joined (hstart []) nofun (.inr rfl) .nil
      rw [hjoin]
      exact hgroup
    · obtain ⟨before, last, later, rfl, hcontinued, hends, hjoined⟩ :=
        exists_finishes (number + 1) ⟨number, part raw⟩ hr
      have hnumber : number + 1 + before.length + 1 = number + (raw :: before).length + 1 := by
        rw [List.length_cons]
        omega
      have hjoin : join number none (raw :: (before ++ last :: later)) =
          ⟨number, ((raw :: before) ++ [last]).flatMap part⟩ ::
            join (number + (raw :: before).length + 1) none later := by
        rw [htaken, ← hnumber]
        simp [hc, hjoined]
      have hlater : later.length ≤ (before ++ last :: later).length := by
        rw [List.length_append, List.length_cons]
        omega
      have hgroup : Groups number ((raw :: before) ++ last :: later) _ :=
        .joined (hstart _) (List.forall_mem_cons.mpr ⟨hc, hcontinued⟩) hends (ih later hlater _)
      rw [hjoin]
      exact hgroup

theorem groups_join (number : Nat) (lines : List (List Char)) :
    Groups number lines (join number none lines) := by
  induction hn : lines.length using Nat.strongRecOn generalizing number lines with
  | ind n ih =>
    cases lines with
    | nil => exact .nil
    | cons raw rest =>
      rw [List.length_cons] at hn
      cases hi : isIgnored raw with
      | true =>
        rw [join_ignored hi]
        exact .ignored hi (ih rest.length (by omega) _ rest rfl)
      | false => exact groups_taken hi fun later hl n => ih later.length (by omega) n later rfl

theorem groups_logicalLines (cs : List Char) : Groups 1 (physicalLines cs) (logicalLines cs) :=
  groups_join 1 (physicalLines cs)

end MessageCatalog.Properties
