import Mathlib.Data.List.TakeWhile
import MessageCatalog.Proofs.Bundle.LogicalLines
import MessageCatalog.Proofs.Traversal

/-!
Layout of properties. A physical line acts only through the logical line that it ends or leaves open, so
entries do not depend on where lines end, on ignored lines between them or on how often a line is continued.
Only the numbers of lines move.
-/

namespace MessageCatalog.Properties

def LogicalLine.moved (f : Nat → Nat) (l : LogicalLine) : LogicalLine :=
  ⟨f l.number, l.text⟩

def step (number : Nat) (waiting : Option LogicalLine) (raw : List Char) :
    Option LogicalLine × Option LogicalLine :=
  if waiting.isNone && isIgnored raw then (none, none)
  else
    let start := waiting.getD ⟨number, []⟩
    let line : LogicalLine := ⟨start.number, start.text ++ part raw⟩
    if isContinued raw then (none, some line) else (some line, none)

def run (number : Nat) (waiting : Option LogicalLine) :
    List (List Char) → List LogicalLine × Option LogicalLine
  | [] => ([], waiting)
  | raw :: rest =>
    let now := step number waiting raw
    let later := run (number + 1) now.2 rest
    (now.1.toList ++ later.1, later.2)

def staysOpen (isOpen : Bool) (raw : List Char) : Bool :=
  (isOpen || !isIgnored raw) && isContinued raw

def isOpenAfter (lines : List (List Char)) : Bool :=
  lines.foldl staysOpen false

section Runs

variable {number number' : Nat} {waiting : Option LogicalLine} {raw : List Char}
  {lines : List (List Char)} {f : Nat → Nat}

theorem step_ignored (h : isIgnored raw = true) : step number none raw = (none, none) := by
  simp [step, h]

theorem step_taken (h : waiting.isSome = true ∨ isIgnored raw = false) :
    step number waiting raw =
      let start := waiting.getD ⟨number, []⟩
      let line : LogicalLine := ⟨start.number, start.text ++ part raw⟩
      if isContinued raw then (none, some line) else (some line, none) := by
  rw [step, if_neg]
  rcases h with h | h
  · simp [Option.isNone_eq_false_iff.mpr h]
  · simp [h]

theorem isSome_step : (step number waiting raw).2.isSome = staysOpen waiting.isSome raw := by
  by_cases h : waiting.isSome = true ∨ isIgnored raw = false
  · rw [step_taken h, staysOpen]
    rcases h with h | h <;> cases isContinued raw <;> simp [h]
  · obtain ⟨hnone, hignored⟩ := not_or.mp h
    rw [Bool.not_eq_true, Option.isSome_eq_false_iff, Option.isNone_iff_eq_none] at hnone
    rw [Bool.not_eq_false] at hignored
    rw [hnone, step_ignored hignored, staysOpen]
    simp [hignored]

theorem step_moved (h : f number = number') :
    step number' (waiting.map (.moved f)) raw =
      ((step number waiting raw).1.map (.moved f), (step number waiting raw).2.map (.moved f)) := by
  unfold step
  cases waiting <;> cases isIgnored raw <;> cases isContinued raw <;> simp [LogicalLine.moved, h]

theorem join_eq_run : join number waiting lines =
    (run number waiting lines).1 ++ (run number waiting lines).2.toList := by
  induction lines generalizing number waiting with
  | nil => simp [join, run]
  | cons raw rest ih =>
    rw [run]
    by_cases h : waiting.isSome = true ∨ isIgnored raw = false
    · rw [join_taken waiting raw h, step_taken h]
      cases isContinued raw <;> simp [ih]
    · obtain ⟨hnone, hignored⟩ := not_or.mp h
      rw [Bool.not_eq_true, Option.isSome_eq_false_iff, Option.isNone_iff_eq_none] at hnone
      rw [Bool.not_eq_false] at hignored
      rw [hnone, join_ignored hignored, step_ignored hignored, ih]
      simp

theorem run_append (more : List (List Char)) : run number waiting (lines ++ more) =
    ((run number waiting lines).1 ++
        (run (number + lines.length) (run number waiting lines).2 more).1,
      (run (number + lines.length) (run number waiting lines).2 more).2) := by
  induction lines generalizing number waiting with
  | nil => simp [run]
  | cons raw rest ih =>
    have hnumber : number + (raw :: rest).length = number + 1 + rest.length := by
      rw [List.length_cons]
      omega
    rw [List.cons_append, run, ih, hnumber, run, List.append_assoc]

theorem run_ignored (h : ∀ raw ∈ lines, isIgnored raw = true) : run number none lines = ([], none) := by
  induction lines generalizing number with
  | nil => rfl
  | cons raw rest ih =>
    obtain ⟨hraw, hrest⟩ := List.forall_mem_cons.mp h
    rw [run, step_ignored hraw, ih hrest]
    rfl

theorem isSome_run : (run number waiting lines).2.isSome = lines.foldl staysOpen waiting.isSome := by
  induction lines generalizing number waiting with
  | nil => rfl
  | cons raw rest ih => rw [run, ih, isSome_step, List.foldl_cons]

def movedRun (f : Nat → Nat) (r : List LogicalLine × Option LogicalLine) :
    List LogicalLine × Option LogicalLine :=
  (r.1.map (.moved f), r.2.map (.moved f))

theorem run_moved (h : ∀ i < lines.length, f (number + i) = number' + i) :
    run number' (waiting.map (.moved f)) lines = movedRun f (run number waiting lines) := by
  induction lines generalizing number number' waiting with
  | nil => rfl
  | cons raw rest ih =>
    have hfirst : f number = number' := h 0 (Nat.succ_pos _)
    have hrest : ∀ i < rest.length, f (number + 1 + i) = number' + 1 + i := by
      intro i hi
      have := h (i + 1) (Nat.succ_lt_succ hi)
      rwa [Nat.add_right_comm, Nat.add_assoc, Nat.add_right_comm number', Nat.add_assoc number']
    rw [run, step_moved hfirst, ih hrest, run]
    cases (step number waiting raw).1 <;> simp [movedRun]

theorem run_append_moved {lines' : List (List Char)} {waiting' : Option LogicalLine}
    (h : run number' waiting' lines' = movedRun f (run number waiting lines)) {more : List (List Char)}
    (hmore : ∀ i < more.length, f (number + lines.length + i) = number' + lines'.length + i) :
    run number' waiting' (lines' ++ more) = movedRun f (run number waiting (lines ++ more)) := by
  have hlater : run (number' + lines'.length) ((run number waiting lines).2.map (.moved f)) more =
      movedRun f (run (number + lines.length) (run number waiting lines).2 more) := run_moved hmore
  simp only [run_append, h, movedRun, hlater, List.map_append]

theorem join_moved {lines' : List (List Char)} {waiting' : Option LogicalLine}
    (h : run number' waiting' lines' = movedRun f (run number waiting lines)) :
    join number' waiting' lines' = (join number waiting lines).map (.moved f) := by
  rw [join_eq_run, join_eq_run, h, movedRun]
  cases (run number waiting lines).2 <;> simp

end Runs

def insertBefore (inserted : Nat → List (List Char)) (lines : List (List Char)) : List (List Char) :=
  (lines.mapIdx fun i raw => inserted i ++ [raw]).flatten

def insertedUpTo (inserted : Nat → List (List Char)) (n : Nat) : Nat :=
  ((List.range n).flatMap inserted).length

theorem insertBefore_cons (inserted : Nat → List (List Char)) (raw : List Char) (rest : List (List Char)) :
    insertBefore inserted (raw :: rest) =
      inserted 0 ++ raw :: insertBefore (fun i => inserted (i + 1)) rest := by
  simp [insertBefore, List.mapIdx_cons]

theorem insertedUpTo_succ (inserted : Nat → List (List Char)) (n : Nat) :
    insertedUpTo inserted (n + 1) = (inserted 0).length + insertedUpTo (fun i => inserted (i + 1)) n := by
  simp [insertedUpTo, List.range_succ_eq_map, List.flatMap_map]

theorem insertedUpTo_map (g : List Char → List Char) (inserted : Nat → List (List Char)) (n : Nat) :
    insertedUpTo (fun i => (inserted i).map g) n = insertedUpTo inserted n := by
  rw [insertedUpTo, ← List.map_flatMap, List.length_map, insertedUpTo]

theorem mem_insertBefore {inserted : Nat → List (List Char)} {lines : List (List Char)} {line : List Char}
    (h : line ∈ insertBefore inserted lines) : (∃ i, line ∈ inserted i) ∨ line ∈ lines := by
  induction lines generalizing inserted with
  | nil => cases h
  | cons raw rest ih =>
    rw [insertBefore_cons, List.mem_append, List.mem_cons] at h
    rcases h with h | rfl | h
    · exact .inl ⟨0, h⟩
    · exact .inr List.mem_cons_self
    · rcases ih h with ⟨i, hi⟩ | hrest
      · exact .inl ⟨i + 1, hi⟩
      · exact .inr (List.mem_cons_of_mem _ hrest)

theorem insertBefore_ne_nil (inserted : Nat → List (List Char)) {lines : List (List Char)}
    (h : lines ≠ []) : insertBefore inserted lines ≠ [] := by
  obtain ⟨raw, rest, rfl⟩ := List.exists_cons_of_ne_nil h
  rw [insertBefore_cons]
  exact List.append_ne_nil_of_right_ne_nil _ (List.cons_ne_nil _ _)

theorem getLast?_insertBefore (inserted : Nat → List (List Char)) (lines : List (List Char)) :
    (insertBefore inserted lines).getLast? = lines.getLast? := by
  induction lines generalizing inserted with
  | nil => rfl
  | cons raw rest ih =>
    rw [insertBefore_cons, List.getLast?_append, List.getLast?_cons, List.getLast?_cons, ih,
      Option.some_or]

theorem map_insertBefore {g : List Char → List Char} (inserted : Nat → List (List Char))
    {lines : List (List Char)} (h : ∀ line ∈ lines, g line = line) :
    (insertBefore inserted lines).map g = insertBefore (fun i => (inserted i).map g) lines := by
  induction lines generalizing inserted with
  | nil => rfl
  | cons raw rest ih =>
    obtain ⟨hraw, hrest⟩ := List.forall_mem_cons.mp h
    rw [insertBefore_cons, insertBefore_cons, List.map_append, List.map_cons, hraw, ih _ hrest]

theorem run_insertBefore {lines : List (List Char)} {inserted : Nat → List (List Char)}
    {number number' : Nat} {waiting : Option LogicalLine} {f : Nat → Nat}
    (hignored : ∀ i, ∀ raw ∈ inserted i, isIgnored raw = true)
    (hclosed : ∀ i < lines.length, inserted i ≠ [] →
      (lines.take i).foldl staysOpen waiting.isSome = false)
    (hf : ∀ i < lines.length, f (number + i) = number' + i + insertedUpTo inserted (i + 1)) :
    run number' (waiting.map (.moved f)) (insertBefore inserted lines) =
      movedRun f (run number waiting lines) := by
  induction lines generalizing inserted number number' waiting with
  | nil => rfl
  | cons raw rest ih =>
    have hskip : run number' (waiting.map (.moved f)) (inserted 0) = ([], waiting.map (.moved f)) := by
      by_cases hnone : inserted 0 = []
      · rw [hnone, run]
      · have hwaiting : waiting = none := by simpa using hclosed 0 (Nat.succ_pos _) hnone
        rw [hwaiting]
        exact run_ignored (hignored 0)
    have hfirst : f number = number' + (inserted 0).length := by
      have := hf 0 (Nat.succ_pos _)
      simpa [insertedUpTo] using this
    have hlater : ∀ i < rest.length, f (number + 1 + i) =
        number' + (inserted 0).length + 1 + i + insertedUpTo (fun i => inserted (i + 1)) (i + 1) := by
      intro i hi
      have := hf (i + 1) (Nat.succ_lt_succ hi)
      rw [insertedUpTo_succ] at this
      rw [show number + 1 + i = number + (i + 1) by omega, this]
      omega
    have hrest : ∀ i < rest.length, inserted (i + 1) ≠ [] →
        (rest.take i).foldl staysOpen (step number waiting raw).2.isSome = false := by
      intro i hi hne
      rw [isSome_step]
      exact hclosed (i + 1) (Nat.succ_lt_succ hi) hne
    rw [insertBefore_cons, run_append, hskip, run, step_moved hfirst,
      ih (fun i => hignored (i + 1)) hrest hlater, run]
    cases (step number waiting raw).1 <;> simp [movedRun]

theorem endsEven_of_pads {cs : List Char} (h : ∀ c ∈ cs, isPad c = true) : EndsEven cs := by
  have hnone : cs.reverse.takeWhile (· == '\\') = [] := by
    rw [List.takeWhile_eq_nil_iff]
    intro hpos hc
    have hmem := h _ (List.mem_reverse.mp (List.get_mem _ ⟨0, hpos⟩))
    rw [eq_of_beq hc] at hmem
    cases hmem
  rw [EndsEven, hnone]
  rfl

theorem EndsEven.dropWhile {cs : List Char} (h : EndsEven cs) : EndsEven (cs.dropWhile isPad) := by
  have hpads : EndsEven (cs.takeWhile isPad) :=
    endsEven_of_pads (List.all_eq_true.mp List.all_takeWhile)
  rwa [← hpads.append_iff, List.takeWhile_append_dropWhile]

theorem dropWhile_append_of_exists {cs : List Char} (h : ∃ c ∈ cs, isPad c = false) (more : List Char) :
    (cs ++ more).dropWhile isPad = cs.dropWhile isPad ++ more ∧ cs.dropWhile isPad ≠ [] := by
  have hne : cs.dropWhile isPad ≠ [] := by
    intro hnil
    obtain ⟨c, hc, hpad⟩ := h
    have := List.dropWhile_eq_nil_iff.mp hnil c hc
    rw [hpad] at this
    cases this
  rw [List.dropWhile_append, if_neg (by simpa using hne)]
  exact ⟨rfl, hne⟩

/-- A place in a physical line where it can be continued. -/
structure IsBreak (u v : List Char) : Prop where
  shown : ∃ c ∈ u, isPad c = false
  even : EndsEven u
  unpadded : ∀ c ∈ v.head?, isPad c = false

namespace IsBreak

variable {u v pads : List Char}

theorem isIgnored_append (h : IsBreak u v) (more : List Char) : isIgnored (u ++ more) = isIgnored u := by
  obtain ⟨hdrop, hne⟩ := dropWhile_append_of_exists h.shown more
  rw [isIgnored, isIgnored, hdrop]
  obtain ⟨c, cs, hcs⟩ := List.exists_cons_of_ne_nil hne
  rw [hcs]
  rfl

theorem isContinued_append (h : IsBreak u v) (more : List Char) :
    isContinued (u ++ more) = continues more := by
  rw [isContinued, (dropWhile_append_of_exists h.shown more).1, Bool.eq_iff_iff, ← not_iff_not,
    Bool.not_eq_true, Bool.not_eq_true, ← endsEven_iff, ← endsEven_iff]
  exact h.even.dropWhile.append_iff

theorem dropWhile_pads (h : IsBreak u v) (hpads : ∀ c ∈ pads, isPad c = true) :
    (pads ++ v).dropWhile isPad = v := by
  rw [List.dropWhile_append_of_pos hpads]
  cases v with
  | nil => rfl
  | cons c cs => rw [List.dropWhile_cons, h.unpadded c rfl, if_neg Bool.false_ne_true]

theorem isContinued_pads (h : IsBreak u v) (hpads : ∀ c ∈ pads, isPad c = true) :
    isContinued (pads ++ v) = continues v := by
  rw [isContinued, h.dropWhile_pads hpads]

theorem part_backslash (h : IsBreak u v) : part (u ++ ['\\']) = u.dropWhile isPad := by
  rw [part, h.isContinued_append, if_pos (by rfl), (dropWhile_append_of_exists h.shown _).1,
    List.dropLast_concat]

theorem part_append (h : IsBreak u v) (hpads : ∀ c ∈ pads, isPad c = true) :
    part (u ++ v) = u.dropWhile isPad ++ part (pads ++ v) := by
  rw [part, part, h.isContinued_append, h.isContinued_pads hpads, h.dropWhile_pads hpads,
    (dropWhile_append_of_exists h.shown v).1]
  split
  case isTrue hc =>
    have hne : v ≠ [] := by
      rintro rfl
      cases hc
    exact List.dropLast_append_of_ne_nil hne
  case isFalse => rfl

theorem run_split (h : IsBreak u v) (hpads : ∀ c ∈ pads, isPad c = true) {number : Nat}
    {waiting : Option LogicalLine} (htaken : waiting.isSome = true ∨ isIgnored (u ++ v) = false) :
    run number waiting [u ++ ['\\'], pads ++ v] = run number waiting [u ++ v] := by
  have hstart : waiting.isSome = true ∨ isIgnored (u ++ ['\\']) = false := by
    rwa [h.isIgnored_append] at htaken ⊢
  have hcontinued : isContinued (u ++ ['\\']) = true := h.isContinued_append _
  simp only [run, step_taken hstart, step_taken htaken, hcontinued, if_true]
  rw [step_taken (.inl rfl), h.isContinued_append, h.isContinued_pads hpads, h.part_append hpads,
    h.part_backslash]
  cases continues v <;> simp

end IsBreak

def ofLines (lines : List (List Char)) : String :=
  String.ofList (['\n'].intercalate lines)

theorem isIgnored_dropReturn {raw : List Char} (h : isIgnored raw = true) :
    isIgnored (dropReturn raw) = true := by
  rw [dropReturn]
  split
  case isTrue hlast =>
    obtain ⟨line, rfl⟩ := List.getLast?_eq_some_iff.mp hlast
    rw [List.dropLast_concat]
    rw [isIgnored, List.dropWhile_append] at h
    rw [isIgnored]
    cases hdrop : line.dropWhile isPad with
    | nil => rfl
    | cons c cs =>
      rw [hdrop] at h
      exact h
  case isFalse => exact h

theorem join_ended {lines : List (List Char)} (h : ∀ last ∈ lines.getLast?, '\r' ∉ last) (number : Nat)
    (waiting : Option LogicalLine) :
    join number waiting (ended lines) = join number waiting (lines.map dropReturn) := by
  induction lines generalizing number waiting with
  | nil => rfl
  | cons raw rest ih =>
    cases rest with
    | nil =>
      rw [ended, List.map_singleton, dropReturn_of_not_mem (h raw rfl)]
      split
      case isTrue hempty =>
        rw [List.isEmpty_iff.mp hempty]
        cases waiting <;> simp [join, continues]
      case isFalse => rfl
    | cons next later =>
      have hlast : ∀ last ∈ (next :: later).getLast?, '\r' ∉ last := by
        rwa [List.getLast?_cons_cons] at h
      rw [ended_cons _ (List.cons_ne_nil _ _), List.map_cons, join, join]
      simp only [ih hlast]

theorem logicalLines_ofLines {lines : List (List Char)} (hne : lines ≠ [])
    (hnewline : ∀ line ∈ lines, '\n' ∉ line) (hlast : ∀ last ∈ lines.getLast?, '\r' ∉ last) :
    logicalLines (ofLines lines).toList = join 1 none (lines.map dropReturn) := by
  rw [logicalLines, physicalLines, ofLines, String.toList_ofList, Text.split_intercalate hne hnewline,
    join_ended hlast]

theorem parse_moved {source source' : String} {f : Nat → Nat}
    (h : logicalLines source'.toList = (logicalLines source.toList).map (.moved f)) :
    parse source' = (parse source).mapError fun p => ⟨f p.line⟩ := by
  rw [parse, parse, h]
  induction logicalLines source.toList with
  | nil => rfl
  | cons l ls ih =>
    have hentry : entry (l.moved f) = (entry l).mapError fun p => ⟨f p.line⟩ := by
      simp only [entry, LogicalLine.moved]
      cases entry? l.text <;> rfl
    rw [List.map_cons, List.mapM_cons, List.mapM_cons, hentry, ih]
    cases entry l with
    | error p => rfl
    | ok e =>
      cases ls.mapM entry with
      | error p => rfl
      | ok es => rfl

structure IsPlain (lines : List (List Char)) : Prop where
  nonempty : lines ≠ []
  no_newline : ∀ line ∈ lines, '\n' ∉ line
  no_return : ∀ line ∈ lines, '\r' ∉ line

theorem isPlain_split {source : String} (h : '\r' ∉ source.toList) :
    IsPlain (Text.split '\n' source.toList) where
  nonempty := Text.split_ne_nil _ _
  no_newline _ hline hmem := (Text.mem_of_mem_split hline hmem).2 rfl
  no_return _ hline hmem := h (Text.mem_of_mem_split hline hmem).1

theorem ofLines_split (source : String) : ofLines (Text.split '\n' source.toList) = source := by
  rw [ofLines, Text.intercalate_split, String.ofList_toList]

namespace IsPlain

variable {lines : List (List Char)}

theorem logicalLines_eq (h : IsPlain lines) :
    logicalLines (ofLines lines).toList = join 1 none lines := by
  have hsame : lines.map dropReturn = lines.map id := by
    apply List.map_congr_left
    intro line hline
    exact dropReturn_of_not_mem (h.no_return line hline)
  rw [logicalLines_ofLines h.nonempty h.no_newline, hsame, List.map_id]
  intro last hlast
  exact h.no_return last (List.mem_of_getLast? hlast)

end IsPlain

theorem logicalLines_split {source : String} (h : '\r' ∉ source.toList) :
    logicalLines source.toList = join 1 none (Text.split '\n' source.toList) := by
  rw [← (isPlain_split h).logicalLines_eq, ofLines_split]

def withReturns (source : String) : String :=
  String.ofList (source.toList.flatMap fun c => if c = '\n' then ['\r', '\n'] else [c])

theorem flatMap_of_not_mem {line : List Char} (h : '\n' ∉ line) :
    (line.flatMap fun c => if c = '\n' then ['\r', '\n'] else [c]) = line := by
  induction line with
  | nil => rfl
  | cons c line ih =>
    obtain ⟨hc, hline⟩ := not_or.mp (List.mem_cons.not.mp h)
    rw [List.flatMap_cons, if_neg (Ne.symm hc), ih hline]
    rfl

theorem physicalLines_withReturns {lines : List (List Char)} (h : IsPlain lines) :
    physicalLines (withReturns (ofLines lines)).toList = physicalLines (ofLines lines).toList := by
  obtain ⟨hne, hnewline, hreturn⟩ := h
  simp only [withReturns, ofLines, String.toList_ofList]
  induction lines with
  | nil => exact absurd rfl hne
  | cons line rest ih =>
    obtain ⟨hn, hnewline⟩ := List.forall_mem_cons.mp hnewline
    obtain ⟨hr, hreturn⟩ := List.forall_mem_cons.mp hreturn
    cases rest with
    | nil => rw [List.intercalate_singleton, flatMap_of_not_mem hn]
    | cons next later =>
      have hn' : '\n' ∉ line ++ ['\r'] := by simp [hn]
      have hcut := physicalLines_append hn' (((['\n'].intercalate (next :: later))).flatMap fun c =>
        if c = '\n' then ['\r', '\n'] else [c])
      rw [dropReturn_concat, ih (List.cons_ne_nil _ _) hnewline hreturn] at hcut
      rw [List.intercalate_cons_cons, List.flatMap_append, List.flatMap_append, flatMap_of_not_mem hn]
      rw [List.append_assoc line ['\n'], List.singleton_append, physicalLines_append hn,
        dropReturn_of_not_mem hr, ← hcut]
      simp

theorem parse_withReturns {source : String} (h : '\r' ∉ source.toList) :
    parse (withReturns source) = parse source := by
  have hlines := physicalLines_withReturns (isPlain_split h)
  rw [ofLines_split] at hlines
  rw [parse, parse, logicalLines, logicalLines, hlines]

theorem parse_insertBefore {source : String} (h : '\r' ∉ source.toList)
    {inserted : Nat → List (List Char)} (hnewline : ∀ i, ∀ raw ∈ inserted i, '\n' ∉ raw)
    (hignored : ∀ i, ∀ raw ∈ inserted i, isIgnored raw = true)
    (hclosed : ∀ i < (Text.split '\n' source.toList).length, inserted i ≠ [] →
      isOpenAfter ((Text.split '\n' source.toList).take i) = false) :
    parse (ofLines (insertBefore inserted (Text.split '\n' source.toList))) =
      (parse source).mapError fun p => ⟨p.line + insertedUpTo inserted p.line⟩ := by
  have hplain := isPlain_split h
  have hsource := logicalLines_split h
  let f : Nat → Nat := fun n => n + insertedUpTo inserted n
  apply parse_moved (f := f)
  generalize Text.split '\n' source.toList = lines at *
  have hnumbers : ∀ i < lines.length, f (1 + i) =
      1 + i + insertedUpTo (fun i => (inserted i).map dropReturn) (i + 1) := by
    intro i _
    rw [insertedUpTo_map, Nat.add_comm 1 i]
  have hmoved : run 1 (Option.map (.moved f) none)
      (insertBefore (fun i => (inserted i).map dropReturn) lines) = movedRun f (run 1 none lines) := by
    apply run_insertBefore _ _ hnumbers
    · intro i raw hraw
      obtain ⟨line, hline, rfl⟩ := List.mem_map.mp hraw
      exact isIgnored_dropReturn (hignored i line hline)
    · intro i hi hne
      exact hclosed i hi fun hnil => hne (by rw [hnil, List.map_nil])
  rw [logicalLines_ofLines (insertBefore_ne_nil _ hplain.nonempty), map_insertBefore, hsource]
  · exact join_moved hmoved
  · exact fun line hline => dropReturn_of_not_mem (hplain.no_return line hline)
  · intro line hline
    rcases mem_insertBefore hline with ⟨i, hi⟩ | hline
    · exact hnewline i line hi
    · exact hplain.no_newline line hline
  · intro last hlast
    rw [getLast?_insertBefore] at hlast
    exact hplain.no_return last (List.mem_of_getLast? hlast)

theorem IsPlain.of_split {before after : List (List Char)} {u v pads : List Char}
    (h : IsPlain (before ++ (u ++ v) :: after)) (hpads : ∀ c ∈ pads, isPad c = true) :
    IsPlain (before ++ (u ++ ['\\']) :: (pads ++ v) :: after) := by
  have hline : ∀ {c : Char}, c ≠ '\\' → isPad c = false →
      (∀ line ∈ before ++ (u ++ v) :: after, c ∉ line) →
      ∀ line ∈ before ++ (u ++ ['\\']) :: (pads ++ v) :: after, c ∉ line := by
    intro c hc hpad hall
    have hnone : c ∉ pads := fun hmem => by simp [hpads c hmem] at hpad
    rw [List.forall_mem_append, List.forall_mem_cons] at hall ⊢
    obtain ⟨hbefore, huv, hafter⟩ := hall
    obtain ⟨hu, hv⟩ := not_or.mp (List.mem_append.not.mp huv)
    have hstart : c ∉ u ++ ['\\'] := by simp [hu, hc]
    have hend : c ∉ pads ++ v := by simp [hnone, hv]
    exact ⟨hbefore, hstart, List.forall_mem_cons.mpr ⟨hend, hafter⟩⟩
  exact ⟨by simp, hline (by decide) (by decide) h.no_newline, hline (by decide) (by decide) h.no_return⟩

theorem parse_split {source : String} (h : '\r' ∉ source.toList) {before after : List (List Char)}
    {u v pads : List Char} (hlines : Text.split '\n' source.toList = before ++ (u ++ v) :: after)
    (hentry : isOpenAfter before = true ∨ isIgnored (u ++ v) = false) (hbreak : IsBreak u v)
    (hpads : ∀ c ∈ pads, isPad c = true) :
    parse (ofLines (before ++ (u ++ ['\\']) :: (pads ++ v) :: after)) =
      (parse source).mapError fun p => ⟨if p.line ≤ before.length + 1 then p.line else p.line + 1⟩ := by
  have hplain := isPlain_split h
  have hsource := logicalLines_split h
  rw [hlines] at hplain hsource
  let f : Nat → Nat := fun n => if n ≤ before.length + 1 then n else n + 1
  apply parse_moved (f := f)
  have hfront : run 1 none (before ++ [u ++ ['\\'], pads ++ v]) = run 1 none (before ++ [u ++ v]) := by
    rw [run_append, run_append, hbreak.run_split hpads]
    rw [isSome_run]
    exact hentry
  have hfixed : run 1 (Option.map (.moved f) none) (before ++ [u ++ v]) =
      movedRun f (run 1 none (before ++ [u ++ v])) := by
    have hsame : ∀ i < (before ++ [u ++ v]).length, f (1 + i) = 1 + i := by
      intro i hi
      rw [List.length_append, List.length_singleton] at hi
      exact if_pos (by omega)
    exact run_moved hsame
  have hnext : ∀ i < after.length, f (1 + (before ++ [u ++ v]).length + i) =
      1 + (before ++ [u ++ ['\\'], pads ++ v]).length + i := by
    intro i _
    simp only [f, List.length_append, List.length_cons, List.length_nil]
    rw [if_neg (by omega)]
    omega
  have hall := run_append_moved (hfront.trans hfixed) hnext
  simp only [List.append_assoc, List.cons_append, List.nil_append] at hall
  rw [(hplain.of_split hpads).logicalLines_eq, hsource, join_moved hall]

theorem parse_relaid {source : String} (h : '\r' ∉ source.toList) :
    ofLines (Text.split '\n' source.toList) = source ∧
    parse (withReturns source) = parse source ∧
    (∀ inserted : Nat → List (List Char), (∀ i, ∀ raw ∈ inserted i, '\n' ∉ raw) →
      (∀ i, ∀ raw ∈ inserted i, isIgnored raw = true) →
      (∀ i < (Text.split '\n' source.toList).length, inserted i ≠ [] →
        isOpenAfter ((Text.split '\n' source.toList).take i) = false) →
      parse (ofLines (insertBefore inserted (Text.split '\n' source.toList))) =
        (parse source).mapError fun p => ⟨p.line + insertedUpTo inserted p.line⟩) ∧
    ∀ (before after : List (List Char)) (u v pads : List Char),
      Text.split '\n' source.toList = before ++ (u ++ v) :: after →
      (isOpenAfter before = true ∨ isIgnored (u ++ v) = false) → IsBreak u v →
      (∀ c ∈ pads, isPad c = true) →
      parse (ofLines (before ++ (u ++ ['\\']) :: (pads ++ v) :: after)) =
        (parse source).mapError fun p =>
          ⟨if p.line ≤ before.length + 1 then p.line else p.line + 1⟩ := by
  refine ⟨ofLines_split source, parse_withReturns h, ?_, ?_⟩
  · intro inserted hnewline hignored hclosed
    exact parse_insertBefore h hnewline hignored hclosed
  · intro before after u v pads hlines hentry hbreak hpads
    exact parse_split h hlines hentry hbreak hpads

theorem parse_relaid_continued :
    '\r' ∉ "a 1\\\n 2\nb=\\u0041".toList ∧
    parse "a 1\\\n 2\nb=\\u0041" = .ok [("a", "12"), ("b", "A")] ∧
    parse "a 1\\\r\n 2\r\nb=\\u0041" = .ok [("a", "12"), ("b", "A")] ∧
    parse "a 1\\\n 2\n\n !x\\\nb=\\u0041" = .ok [("a", "12"), ("b", "A")] ∧
    parse "a 1\\\n 2\nb=\\u00\\\n\t41" = .ok [("a", "12"), ("b", "A")] := by
  have hreturn : '\r' ∉ "a 1\\\n 2\nb=\\u0041".toList := by decide +kernel
  obtain ⟨-, hreturns, hinserted, hsplit⟩ := parse_relaid hreturn
  have hparse : parse "a 1\\\n 2\nb=\\u0041" = .ok [("a", "12"), ("b", "A")] := by rfl
  rw [hparse] at hreturns hinserted hsplit
  refine ⟨hreturn, hparse, hreturns, ?_, ?_⟩
  · refine hinserted (fun i => if i = 2 then [[], " !x\\".toList] else []) ?_ ?_ ?_
    · intro i raw hraw
      split at hraw
      · revert raw
        decide +kernel
      · cases hraw
    · intro i raw hraw
      split at hraw
      · revert raw
        decide +kernel
      · cases hraw
    · decide +kernel
  · refine hsplit ["a 1\\".toList, " 2".toList] [] ['b', '=', '\\', 'u', '0', '0'] ['4', '1'] ['\t']
      ?_ ?_ ?_ ?_
    · rfl
    · decide +kernel
    · refine ⟨⟨'b', List.mem_cons_self, rfl⟩, rfl, ?_⟩
      rintro c ⟨⟩
      rfl
    · exact List.forall_mem_singleton.mpr rfl

end MessageCatalog.Properties
