import MessageCatalog.Text.Integer

namespace MessageCatalog.Text

theorem digitsOnto_zero (later : List Nat) : digitsOnto 0 later = later := by
  rw [digitsOnto, if_pos rfl]

theorem digitsOnto_of_pos {n : Nat} (hn : 0 < n) (later : List Nat) :
    digitsOnto n later = digitsOnto (n / 10) (n % 10 :: later) := by
  rw [digitsOnto, if_neg (by omega)]

theorem digitsOnto_eq (n : Nat) (later : List Nat) : digitsOnto n later = digits n ++ later := by
  induction n using Nat.strongRecOn generalizing later with
  | ind n ih =>
    by_cases hn : n = 0
    · rw [hn, digits, digitsOnto_zero, digitsOnto_zero, List.nil_append]
    · have hpos : 0 < n := by omega
      have hlt : n / 10 < n := by omega
      rw [digits, digitsOnto_of_pos hpos, digitsOnto_of_pos hpos, ih _ hlt, ih _ hlt,
        List.append_assoc, List.singleton_append]

theorem digits_zero : digits 0 = [] :=
  digitsOnto_zero []

theorem digits_of_pos {n : Nat} (hn : 0 < n) : digits n = digits (n / 10) ++ [n % 10] := by
  rw [digits, digitsOnto_of_pos hn, digitsOnto_eq]

theorem lt_of_mem_digits {n d : Nat} (h : d ∈ digits n) : d < 10 := by
  induction n using Nat.strongRecOn with
  | ind n ih =>
    by_cases hn : n = 0
    · rw [hn, digits_zero] at h
      cases h
    · rw [digits_of_pos (by omega), List.mem_append, List.mem_singleton] at h
      rcases h with h | rfl
      · exact ih (n / 10) (by omega) h
      · exact Nat.mod_lt _ (by decide)

theorem value_concat (ds : List Nat) (d : Nat) : value (ds ++ [d]) = value ds * 10 + d := by
  simp [value]

theorem value_digits (n : Nat) : value (digits n) = n := by
  induction n using Nat.strongRecOn with
  | ind n ih =>
    by_cases hn : n = 0
    · rw [hn, digits_zero]
      rfl
    · rw [digits_of_pos (by omega), value_concat, ih (n / 10) (by omega)]
      omega

theorem value_replicate_zero (k : Nat) (ds : List Nat) :
    value (List.replicate k 0 ++ ds) = value ds := by
  induction k with
  | zero => rfl
  | succ k ih => exact ih

theorem foldl_eq (n : Nat) (ds : List Nat) :
    ds.foldl (fun n d => n * 10 + d) n = n * 10 ^ ds.length + value ds := by
  induction ds generalizing n with
  | nil => simp [value]
  | cons d ds ih =>
    have hd : value (d :: ds) = d * 10 ^ ds.length + value ds := by
      rw [value, List.foldl_cons, ih, Nat.zero_mul, Nat.zero_add]
    rw [List.foldl_cons, ih, hd, List.length_cons, Nat.pow_succ, Nat.add_mul, Nat.mul_assoc,
      Nat.mul_comm 10, Nat.add_assoc]

theorem value_append (ds es : List Nat) : value (ds ++ es) = value ds * 10 ^ es.length + value es := by
  rw [value, List.foldl_append]
  exact foldl_eq (value ds) es

theorem value_padded (width : Nat) (ds : List Nat) : value (padded width ds) = value ds :=
  value_replicate_zero _ ds

theorem lt_of_mem_padded {width d : Nat} {ds : List Nat} (hds : ∀ d ∈ ds, d < 10)
    (h : d ∈ padded width ds) : d < 10 := by
  rcases List.mem_append.mp h with h | h
  · rw [List.eq_of_mem_replicate h]
    decide
  · exact hds d h

theorem length_padded (width : Nat) (ds : List Nat) : (padded width ds).length = max width ds.length := by
  simp only [padded, List.length_append, List.length_replicate]
  omega

theorem fixedDigitsOnto_eq (width n : Nat) (later : List Nat) :
    fixedDigitsOnto width n later = fixedDigits width n ++ later := by
  induction width generalizing n later with
  | zero => rfl
  | succ width ih =>
    rw [fixedDigits, fixedDigitsOnto, fixedDigitsOnto, ih, ih, List.append_assoc, List.singleton_append]

theorem fixedDigits_succ (width n : Nat) :
    fixedDigits (width + 1) n = fixedDigits width (n / 10) ++ [n % 10] := by
  rw [fixedDigits, fixedDigitsOnto, fixedDigitsOnto_eq]

theorem length_fixedDigits (width n : Nat) : (fixedDigits width n).length = width := by
  induction width generalizing n with
  | zero => rfl
  | succ width ih => rw [fixedDigits_succ, List.length_append, ih, List.length_singleton]

theorem lt_of_mem_fixedDigits {width n d : Nat} (h : d ∈ fixedDigits width n) : d < 10 := by
  induction width generalizing n with
  | zero => cases h
  | succ width ih =>
    rw [fixedDigits_succ, List.mem_append, List.mem_singleton] at h
    rcases h with h | rfl
    · exact ih h
    · exact Nat.mod_lt _ (by decide)

theorem value_fixedDigits {width n : Nat} (h : n < 10 ^ width) : value (fixedDigits width n) = n := by
  induction width generalizing n with
  | zero =>
    have hn : n = 0 := by simpa using h
    rw [hn]
    rfl
  | succ width ih =>
    have hdiv : n / 10 < 10 ^ width := by
      rw [Nat.pow_succ] at h
      omega
    rw [fixedDigits_succ, value_concat, ih hdiv]
    omega

theorem digitValue_digitChar {d : Nat} (hd : d < 10) : digitValue (digitChar d) = d := by
  revert d
  decide

theorem isDigit_digitChar {d : Nat} (hd : d < 10) : (digitChar d).isDigit = true := by
  revert d
  decide

theorem map_digitValue_digitChar {ds : List Nat} (hds : ∀ d ∈ ds, d < 10) :
    (ds.map digitChar).map digitValue = ds := by
  rw [List.map_map]
  conv => rhs; rw [← List.map_id ds]
  apply List.map_congr_left
  intro d hd
  exact digitValue_digitChar (hds d hd)

theorem numeral_ne_nil (width n : Nat) (hw : 0 < width) : numeral width n ≠ [] := by
  intro h
  have hl := congrArg List.length h
  simp only [numeral, padded, List.length_map, List.length_append, List.length_replicate,
    List.length_nil] at hl
  omega

theorem forall_mem_numeral {P : Char → Prop} (h : ∀ d < 10, P (digitChar d)) (width n : Nat) :
    ∀ c ∈ numeral width n, P c := by
  intro c hc
  obtain ⟨d, hd, rfl⟩ := List.mem_map.mp hc
  exact h d (lt_of_mem_padded (fun _ => lt_of_mem_digits) hd)

theorem toList_natText (n : Nat) : (natText n).toList = numeral 1 n := by
  rw [natText, String.toList_ofList]

theorem forall_mem_intText {P : Char → Prop} (hminus : P '-') (h : ∀ d < 10, P (digitChar d)) (n : Int) :
    ∀ c ∈ (intText n).toList, P c := by
  have hnumeral : ∀ c ∈ (natText n.natAbs).toList, P c := by
    rw [toList_natText]
    exact forall_mem_numeral h 1 n.natAbs
  rw [intText]
  split
  case isTrue =>
    rw [String.toList_append]
    exact List.forall_mem_cons.mpr ⟨hminus, hnumeral⟩
  case isFalse => exact hnumeral

theorem isDigit_of_mem_numeral {width n : Nat} {c : Char} (h : c ∈ numeral width n) :
    c.isDigit = true :=
  forall_mem_numeral (P := fun c => c.isDigit = true) (fun _ => isDigit_digitChar) width n c h

theorem value_numeral (width n : Nat) : value ((numeral width n).map digitValue) = n := by
  have hmap : (numeral width n).map digitValue = padded width (digits n) :=
    map_digitValue_digitChar fun d => lt_of_mem_padded fun d => lt_of_mem_digits
  rw [hmap, value_padded, value_digits]

theorem nat?_numeral (width n : Nat) (hw : 0 < width) : nat? (numeral width n) = some n := by
  have hne : (numeral width n).isEmpty = false := by simpa using numeral_ne_nil width n hw
  have hall : (numeral width n).all Char.isDigit = true := by
    rw [List.all_eq_true]
    exact fun c => isDigit_of_mem_numeral
  rw [nat?, hne, hall, value_numeral]
  rfl

theorem nat?_natText (n : Nat) : nat? (natText n).toList = some n := by
  rw [toList_natText, nat?_numeral 1 n Nat.one_pos]

theorem int?_of_digits {cs : List Char} (h : ∀ c ∈ cs, c.isDigit = true) :
    int? cs = (nat? cs).map Int.ofNat := by
  unfold int?
  split
  · have := h '+' List.mem_cons_self
    contradiction
  · have := h '-' List.mem_cons_self
    contradiction
  · rfl

theorem int64?_eq_some {cs : List Char} {n : Int} (h : int? cs = some n)
    (hn : -2 ^ 63 ≤ n ∧ n < 2 ^ 63) : int64? cs = some (Int64.ofInt n) := by
  unfold int64?
  rw [h]
  simp only [Option.bind_some, hn, and_self, if_true]

theorem int64?_numeral {width n : Nat} (hw : 0 < width) (hn : n < 2 ^ 63) :
    int64? (numeral width n) = some (Int64.ofInt n) := by
  apply int64?_eq_some
  · rw [int?_of_digits (fun c => isDigit_of_mem_numeral), nat?_numeral width n hw]
    rfl
  · omega

end MessageCatalog.Text
