import MessageCatalog.Text.Basic

namespace MessageCatalog.Text

variable {separator : Char}

theorem split_ne_nil (separator : Char) (cs : List Char) : split separator cs ≠ [] := by
  cases cs with
  | nil => simp [split]
  | cons c cs =>
    rw [split]
    split
    · simp
    · split <;> simp

theorem split_cons_of_ne {c : Char} (hc : c ≠ separator) {cs part : List Char}
    {parts : List (List Char)} (h : split separator cs = part :: parts) :
    split separator (c :: cs) = (c :: part) :: parts := by
  rw [split, if_neg hc, h]

theorem split_append_cons (before rest : List Char) :
    split separator (before ++ separator :: rest) = split separator before ++ split separator rest := by
  induction before with
  | nil => simp [split]
  | cons c before ih =>
    by_cases hc : c = separator
    · rw [List.cons_append, split, if_pos hc, ih, split, if_pos hc, List.cons_append]
    · obtain ⟨first, parts, hsplit⟩ := List.exists_cons_of_ne_nil (split_ne_nil separator before)
      rw [hsplit] at ih
      rw [List.cons_append, split_cons_of_ne hc hsplit, List.cons_append]
      exact split_cons_of_ne hc ih

theorem split_of_not_mem {part : List Char} (h : separator ∉ part) : split separator part = [part] := by
  induction part with
  | nil => rfl
  | cons c part ih =>
    have hc : c ≠ separator := fun hc => h (hc ▸ List.mem_cons_self)
    exact split_cons_of_ne hc (ih fun hp => h (List.mem_cons_of_mem _ hp))

theorem split_append {part : List Char} (h : separator ∉ part) (rest : List Char) :
    split separator (part ++ separator :: rest) = part :: split separator rest := by
  rw [split_append_cons, split_of_not_mem h, List.singleton_append]

theorem mem_of_mem_split {cs part : List Char} (h : part ∈ split separator cs) {d : Char} (hd : d ∈ part) :
    d ∈ cs ∧ d ≠ separator := by
  induction cs generalizing part with
  | nil =>
    rw [split, List.mem_singleton] at h
    rw [h] at hd
    cases hd
  | cons c cs ih =>
    by_cases hc : c = separator
    · rw [split, if_pos hc] at h
      rcases List.mem_cons.mp h with rfl | h
      · cases hd
      · exact ⟨List.mem_cons_of_mem _ (ih h hd).1, (ih h hd).2⟩
    · obtain ⟨first, parts, hsplit⟩ := List.exists_cons_of_ne_nil (split_ne_nil separator cs)
      rw [split_cons_of_ne hc hsplit] at h
      rw [hsplit] at ih
      rcases List.mem_cons.mp h with rfl | h
      · rcases List.mem_cons.mp hd with rfl | hd
        · exact ⟨List.mem_cons_self, hc⟩
        · have hfirst := ih List.mem_cons_self hd
          exact ⟨List.mem_cons_of_mem _ hfirst.1, hfirst.2⟩
      · have hlater := ih (List.mem_cons_of_mem _ h) hd
        exact ⟨List.mem_cons_of_mem _ hlater.1, hlater.2⟩

theorem split_intercalate {parts : List (List Char)} (hne : parts ≠ [])
    (h : ∀ part ∈ parts, separator ∉ part) : split separator ([separator].intercalate parts) = parts := by
  induction parts with
  | nil => exact absurd rfl hne
  | cons part parts ih =>
    obtain ⟨hpart, hparts⟩ := List.forall_mem_cons.mp h
    cases parts with
    | nil => rw [List.intercalate_singleton, split_of_not_mem hpart]
    | cons next later =>
      rw [List.intercalate_cons_cons, List.append_assoc, List.singleton_append, split_append hpart,
        ih (List.cons_ne_nil _ _) hparts]

theorem intercalate_split (separator : Char) (cs : List Char) :
    [separator].intercalate (split separator cs) = cs := by
  induction cs with
  | nil => rfl
  | cons c cs ih =>
    obtain ⟨first, parts, hsplit⟩ := List.exists_cons_of_ne_nil (split_ne_nil separator cs)
    rw [hsplit] at ih
    by_cases hc : c = separator
    · rw [split, if_pos hc, hsplit, List.intercalate_cons_cons, ih, hc]
      rfl
    · rw [split_cons_of_ne hc hsplit]
      cases parts with
      | nil => simpa using ih
      | cons next later =>
        rw [List.intercalate_cons_cons] at ih ⊢
        rw [List.cons_append, List.cons_append, ih]

theorem not_mem_intercalate {between : List Char} {parts : List (List Char)} {c : Char} (hs : c ∉ between)
    (h : ∀ part ∈ parts, c ∉ part) : c ∉ between.intercalate parts := by
  induction parts with
  | nil => exact List.not_mem_nil
  | cons part parts ih =>
    obtain ⟨hpart, hparts⟩ := List.forall_mem_cons.mp h
    cases parts with
    | nil => simpa using hpart
    | cons next later =>
      rw [List.intercalate_cons_cons]
      simp only [List.mem_append, not_or]
      exact ⟨⟨hpart, hs⟩, ih hparts⟩

def words (line : List Char) : List (List Char) :=
  (split ' ' line).filter fun word => !word.isEmpty

theorem words_nil : words [] = [] := rfl

theorem words_append_cons (before rest : List Char) :
    words (before ++ ' ' :: rest) = words before ++ words rest := by
  rw [words, split_append_cons, List.filter_append]
  rfl

theorem words_cons (rest : List Char) : words (' ' :: rest) = words rest :=
  words_append_cons [] rest

theorem words_replicate_append (n : Nat) (rest : List Char) :
    words (List.replicate n ' ' ++ rest) = words rest := by
  induction n with
  | zero => rfl
  | succ n ih => rw [List.replicate_succ, List.cons_append, words_cons, ih]

theorem words_of_not_mem {word : List Char} (hne : word ≠ []) (h : ' ' ∉ word) : words word = [word] := by
  rw [words, split_of_not_mem h]
  simpa using hne

end MessageCatalog.Text
