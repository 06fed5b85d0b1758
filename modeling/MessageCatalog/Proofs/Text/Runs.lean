import MessageCatalog.Text.Basic

namespace MessageCatalog.Text

variable {α β : Type}

def Mark.map (f : α → β) : Mark α → Mark β
  | .char c => .char c
  | .item a => .item (f a)

def Mark.item? : Mark α → Option α
  | .char _ => none
  | .item a => some a

namespace Run

def isText : Run α → Bool
  | text _ => true
  | item _ => false

def Normal : List (Run α) → Prop
  | [] => True
  | .text t :: rest => t ≠ "" ∧ (rest.head?.all fun r => !r.isText) ∧ Normal rest
  | .item _ :: rest => Normal rest

def map (f : α → β) : Run α → Run β
  | text t => text t
  | item a => item (f a)

def marks : List (Run α) → List (Mark α)
  | [] => []
  | .text t :: rest => t.toList.map Mark.char ++ marks rest
  | .item a :: rest => .item a :: marks rest

theorem marks_append (rs ss : List (Run α)) : marks (rs ++ ss) = marks rs ++ marks ss := by
  induction rs with
  | nil => rfl
  | cons r rest ih => cases r <;> simp [marks, ih]

theorem marks_map (f : α → β) (rs : List (Run α)) :
    marks (rs.map (Run.map f)) = (marks rs).map (Mark.map f) := by
  induction rs with
  | nil => rfl
  | cons r rest ih => cases r <;> simp [marks, Run.map, Mark.map, ih]

theorem mem_marks {a : α} {rs : List (Run α)} : .item a ∈ marks rs ↔ a ∈ items rs := by
  induction rs with
  | nil => simp [marks, items]
  | cons r rest ih => cases r <;> simp [marks, items, ih]

theorem items_eq (rs : List (Run α)) : items rs = (marks rs).filterMap Mark.item? := by
  induction rs with
  | nil => rfl
  | cons r rest ih =>
    cases r with
    | text t => simp [items, marks, ih, List.filterMap_map, Mark.item?, Function.comp_def]
    | item a => simp [items, marks, ih, Mark.item?]

theorem gather_chars (waiting cs : List Char) (ms : List (Mark α)) :
    gather waiting (cs.map Mark.char ++ ms) = gather (cs.reverse ++ waiting) ms := by
  induction cs generalizing waiting with
  | nil => rfl
  | cons c cs ih =>
    rw [List.map_cons, List.cons_append, gather, ih, List.reverse_cons, List.append_assoc]
    rfl

theorem close_toList_reverse {t : String} (ht : t ≠ "") (rest : List (Run α)) :
    close t.toList.reverse rest = .text t :: rest := by
  have hne : t.toList ≠ [] := fun h => ht (String.toList_eq_nil_iff.mp h)
  simp [close, hne]

theorem ofMarks_marks {rs : List (Run α)} (h : Normal rs) : ofMarks (marks rs) = rs := by
  induction rs with
  | nil => rfl
  | cons r rest ih =>
    cases r with
    | item a =>
      have hrest : gather [] (marks rest) = rest := ih h
      simp only [ofMarks, marks, gather, close, List.isEmpty_nil, if_true, hrest]
    | text t =>
      obtain ⟨ht, hhead, hnormal⟩ := h
      have hrest : gather [] (marks rest) = rest := ih hnormal
      rw [ofMarks, marks, gather_chars, List.append_nil]
      -- what follows the text closes it: an item, or the end
      match rest, hhead, hrest with
      | [], _, _ => exact close_toList_reverse ht []
      | .item a :: rest, _, hrest =>
        simp only [marks, gather, close, List.isEmpty_nil, if_true] at hrest
        rw [marks, gather, hrest]
        exact close_toList_reverse ht _

theorem normal_close {waiting : List Char} {rest : List (Run α)}
    (hhead : rest.head?.all fun r => !r.isText) (hrest : Normal rest) : Normal (close waiting rest) := by
  cases waiting with
  | nil => exact hrest
  | cons c cs =>
    refine ⟨?_, hhead, hrest⟩
    simp [← String.toList_inj]

theorem normal_gather (waiting : List Char) (ms : List (Mark α)) : Normal (gather waiting ms) := by
  induction ms generalizing waiting with
  | nil => exact normal_close rfl trivial
  | cons m ms ih =>
    cases m with
    | char c => exact ih (c :: waiting)
    | item a => exact normal_close rfl (ih [])

theorem normal_ofMarks (ms : List (Mark α)) : Normal (ofMarks ms) :=
  normal_gather [] ms

theorem marks_close (waiting : List Char) (rest : List (Run α)) :
    marks (close waiting rest) = waiting.reverse.map Mark.char ++ marks rest := by
  cases waiting with
  | nil => rfl
  | cons c cs => simp [close, marks]

theorem marks_gather (waiting : List Char) (ms : List (Mark α)) :
    marks (gather waiting ms) = waiting.reverse.map Mark.char ++ ms := by
  induction ms generalizing waiting with
  | nil => exact marks_close waiting []
  | cons m ms ih =>
    cases m with
    | char c => simp [gather, ih]
    | item a => simp [gather, marks_close, marks, ih]

theorem marks_ofMarks (ms : List (Mark α)) : marks (ofMarks ms) = ms :=
  marks_gather [] ms

theorem char_mem_marks {t : String} {c : Char} {rs : List (Run α)} (ht : .text t ∈ rs)
    (hc : c ∈ t.toList) : .char c ∈ marks rs := by
  induction rs with
  | nil => cases ht
  | cons r rest ih =>
    rcases List.mem_cons.mp ht with rfl | hrest
    · exact List.mem_append_left _ (List.mem_map_of_mem hc)
    · cases r with
      | text _ => exact List.mem_append_right _ (ih hrest)
      | item _ => exact List.mem_cons_of_mem _ (ih hrest)

theorem normal_map (f : α → β) {rs : List (Run α)} (h : Normal rs) : Normal (rs.map (Run.map f)) := by
  induction rs with
  | nil => trivial
  | cons r rest ih =>
    cases r with
    | item a => exact ih h
    | text t =>
      obtain ⟨ht, hhead, hnormal⟩ := h
      refine ⟨ht, ?_, ih hnormal⟩
      match rest, hhead with
      | [], _ => rfl
      | .item a :: rest, _ => rfl

theorem ofMarks_map (f : α → β) (ms : List (Mark α)) :
    ofMarks (ms.map (Mark.map f)) = (ofMarks ms).map (map f) := by
  rw [← ofMarks_marks (normal_map f (normal_ofMarks ms)), marks_map, marks_ofMarks]

end Run

end MessageCatalog.Text
