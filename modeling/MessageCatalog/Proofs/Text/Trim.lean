import MessageCatalog.Text.Basic
import Mathlib.Data.List.DropRight

namespace MessageCatalog.Text

variable {c : Char} {cs before after : List Char}

theorem trimStart_append_cons (hc : isBlank c = false) (before after : List Char) :
    trimStart (before ++ c :: after) = trimStart before ++ c :: after := by
  have hstop : (c :: after).dropWhile isBlank = c :: after :=
    List.dropWhile_cons_of_neg (by rw [hc]; exact Bool.false_ne_true)
  rw [trimStart, trimStart, List.dropWhile_append, hstop]
  split
  case isTrue h => rw [List.isEmpty_iff.mp h, List.nil_append]
  case isFalse => rfl

theorem trimEnd_append_cons (hc : isBlank c = false) (before after : List Char) :
    trimEnd (before ++ c :: after) = before ++ c :: trimEnd after := by
  have hstart := trimStart_append_cons hc after.reverse before.reverse
  rw [trimStart, trimStart] at hstart
  rw [trimEnd, List.reverse_append, List.reverse_cons, List.append_assoc, List.singleton_append, hstart,
    trimEnd]
  simp

theorem trim_append_cons (hc : isBlank c = false) (before after : List Char) :
    trim (before ++ c :: after) = trimStart before ++ c :: trimEnd after := by
  rw [trim, trimStart_append_cons hc, trimEnd_append_cons hc]

theorem trimStart_of_blank (h : ∀ c ∈ cs, isBlank c = true) : trimStart cs = [] :=
  List.dropWhile_eq_nil_iff.mpr h

theorem trimEnd_of_blank (h : ∀ c ∈ cs, isBlank c = true) : trimEnd cs = [] := by
  rw [trimEnd, List.dropWhile_eq_nil_iff.mpr fun c hc => h c (List.mem_reverse.mp hc), List.reverse_nil]

theorem trim_of_blank (h : ∀ c ∈ cs, isBlank c = true) : trim cs = [] := by
  rw [trim, trimStart_of_blank h]
  rfl

theorem blank_or_exists (cs : List Char) : (∀ c ∈ cs, isBlank c = true) ∨
    ∃ before c after, cs = before ++ c :: after ∧ (∀ b ∈ before, isBlank b = true) ∧ isBlank c = false := by
  induction cs with
  | nil => exact .inl (fun _ h => nomatch h)
  | cons c cs ih =>
    cases hc : isBlank c with
    | false => exact .inr ⟨[], c, cs, rfl, (fun _ h => nomatch h), hc⟩
    | true =>
      rcases ih with hall | ⟨before, d, after, rfl, hbefore, hd⟩
      · exact .inl (List.forall_mem_cons.mpr ⟨hc, hall⟩)
      · exact .inr ⟨c :: before, d, after, rfl, List.forall_mem_cons.mpr ⟨hc, hbefore⟩, hd⟩

theorem trim_trimStart (cs : List Char) : trim (trimStart cs) = trim cs := by
  rw [trim, trim, trimStart, trimStart, List.dropWhile_idempotent]

theorem trim_trimEnd (cs : List Char) : trim (trimEnd cs) = trim cs := by
  rcases blank_or_exists cs with h | ⟨before, c, after, rfl, -, hc⟩
  · rw [trimEnd_of_blank h, trim_of_blank h]
    rfl
  · have hend : trimEnd (trimEnd after) = trimEnd after := by
      rw [trimEnd, trimEnd, List.reverse_reverse, List.dropWhile_idempotent]
    rw [trimEnd_append_cons hc, trim_append_cons hc, trim_append_cons hc, hend]

theorem trim_of_not_blank (h : ∀ c ∈ cs, isBlank c = false) : trim cs = cs := by
  cases cs with
  | nil => rfl
  | cons c cs =>
    have hend : trimEnd cs = cs := by
      rw [trimEnd, List.dropWhile_eq_self_iff.mpr, List.reverse_reverse]
      intro hl
      rw [h _ (List.mem_cons_of_mem c (List.mem_reverse.mp (List.getElem_mem hl)))]
      exact Bool.false_ne_true
    have hc := trim_append_cons (h c List.mem_cons_self) [] cs
    rw [hend] at hc
    exact hc

theorem trim_around (hbefore : ∀ c ∈ before, isBlank c = true) (hafter : ∀ c ∈ after, isBlank c = true)
    (cs : List Char) : trim (before ++ cs ++ after) = trim cs := by
  rcases blank_or_exists cs with h | ⟨front, c, back, rfl, hfront, hc⟩
  · rw [trim_of_blank h, trim_of_blank]
    simp only [List.mem_append]
    rintro c ((hc | hc) | hc)
    · exact hbefore c hc
    · exact h c hc
    · exact hafter c hc
  · have hstart : trimStart (before ++ front) = trimStart front := List.dropWhile_append_of_pos hbefore
    have hend : trimEnd (back ++ after) = trimEnd back := by
      rw [trimEnd, List.reverse_append, List.dropWhile_append_of_pos, trimEnd]
      exact fun c hc => hafter c (List.mem_reverse.mp hc)
    rw [← List.append_assoc, List.append_assoc (before ++ front), List.cons_append, trim_append_cons hc,
      trim_append_cons hc, hstart, hend]

theorem trim_trim (cs : List Char) : trim (trim cs) = trim cs :=
  (trim_trimEnd (trimStart cs)).trans (trim_trimStart cs)

theorem mem_of_mem_trimStart (h : c ∈ trimStart cs) : c ∈ cs :=
  (List.dropWhile_sublist _).mem h

theorem mem_of_mem_trimEnd (h : c ∈ trimEnd cs) : c ∈ cs := by
  rw [trimEnd, List.mem_reverse] at h
  exact List.mem_reverse.mp ((List.dropWhile_sublist _).mem h)

theorem mem_of_mem_trim (h : c ∈ trim cs) : c ∈ cs :=
  mem_of_mem_trimStart (mem_of_mem_trimEnd h)

theorem mem_trim (hc : isBlank c = false) (h : c ∈ cs) : c ∈ trim cs := by
  obtain ⟨before, after, rfl⟩ := List.append_of_mem h
  rw [trim_append_cons hc]
  exact List.mem_append_right _ List.mem_cons_self

theorem trim_map {f : Char → Char} (hf : ∀ c, isBlank (f c) = isBlank c) (cs : List Char) :
    trim (cs.map f) = (trim cs).map f := by
  have hcomp : isBlank ∘ f = isBlank := funext hf
  rw [trim, trim, trimStart, trimStart, trimEnd, trimEnd, List.dropWhile_map, ← List.map_reverse,
    List.dropWhile_map, hcomp, List.map_reverse]

end MessageCatalog.Text
