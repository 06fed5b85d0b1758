import MessageCatalog.Number.Pattern
import MessageCatalog.Proofs.Traversal

namespace MessageCatalog

open Traversal

namespace DigitLayout

theorem wholeProblem?_ne_unterminated (required : Bool) (cs : List Char) :
    wholeProblem? required cs ≠ some .unterminatedQuote := by
  induction cs generalizing required with
  | nil => exact nofun
  | cons c cs ih =>
    rw [wholeProblem?]
    split
    case isTrue => exact nofun
    case isFalse => exact ih _

theorem fractionProblem?_ne_unterminated (optional : Bool) (cs : List Char) :
    fractionProblem? optional cs ≠ some .unterminatedQuote := by
  induction cs generalizing optional with
  | nil => exact nofun
  | cons c cs ih =>
    rw [fractionProblem?]
    split
    case isTrue =>
      split
      case isTrue => exact nofun
      case isFalse => exact ih _
    case isFalse =>
      split
      case isTrue => exact ih _
      case isFalse => exact nofun

theorem parse_ne_unterminated (cs : List Char) : parse cs ≠ .error .unterminatedQuote := by
  simp only [parse]
  split
  case isTrue => exact nofun
  split
  case isTrue => exact nofun
  split
  case isTrue => exact nofun
  split
  case h_1 problem hproblem =>
    rintro ⟨⟩
    rcases Option.or_eq_some_iff.mp hproblem with h | ⟨-, h⟩
    · exact wholeProblem?_ne_unterminated _ _ h
    · exact fractionProblem?_ne_unterminated _ _ h
  case h_2 => exact nofun

end DigitLayout

namespace NumberPattern

variable {cs : List Char} {stage : Stage} {scale : NumberScale} {ts rest : List Token} {parts : Parts}

theorem tokens_doubled (inQuote : Bool) (cs : List Char) :
    tokens inQuote ('\'' :: '\'' :: cs) = .quoted '\'' :: tokens inQuote cs := by
  rw [tokens]

theorem tokens_apostrophe {inQuote : Bool} (h : cs.head? ≠ some '\'') :
    tokens inQuote ('\'' :: cs) = tokens (!inQuote) cs := by
  rw [tokens]
  rintro rest rfl
  exact h rfl

theorem tokens_char {c : Char} (hc : c ≠ '\'') (inQuote : Bool) (cs : List Char) :
    tokens inQuote (c :: cs) = (if inQuote then .quoted c else .plain c) :: tokens inQuote cs := by
  rw [tokens]
  · exact fun rest h => absurd h hc
  · exact hc

theorem tokens_plain (h : '\'' ∉ cs) (rest : List Char) :
    tokens false (cs ++ rest) = cs.map Token.plain ++ tokens false rest := by
  induction cs with
  | nil => rfl
  | cons c cs ih =>
    obtain ⟨hc, hcs⟩ := List.ne_and_not_mem_of_not_mem_cons h
    rw [List.cons_append, tokens_char hc.symm, ih hcs]
    rfl

theorem tokens_of_not_mem (h : '\'' ∉ cs) : tokens false cs = cs.map Token.plain := by
  have hplain := tokens_plain h []
  rwa [List.append_nil, tokens, if_neg Bool.false_ne_true, List.append_nil] at hplain

theorem joinScale_ne_unterminated (scale : NumberScale) (c : Char) :
    joinScale scale c ≠ .error .unterminatedQuote := by
  rw [joinScale]
  split
  case isTrue => exact nofun
  case isFalse => split <;> exact nofun

theorem scan_cons_cases (stage : Stage) (scale : NumberScale) (t : Token) (ts : List Token) :
    scan stage scale (t :: ts) = .ok (⟨[], [], [], scale⟩, t :: ts) ∨
      (∃ e, scan stage scale (t :: ts) = .error e ∧ (e = .unterminatedQuote → t = .unclosed)) ∨
      ∃ (stage' : Stage) (scale' : NumberScale) (put : Parts → Parts),
        scan stage scale (t :: ts) = (scan stage' scale' ts).map fun r => (put r.1, r.2) := by
  cases t with
  | unclosed => exact .inr (.inl ⟨_, rfl, fun _ => rfl⟩)
  | quoted c => exact .inr (.inr ⟨stage.next, scale, Parts.mark stage (.char c), rfl⟩)
  | plain c =>
    rw [scan]
    split
    case isTrue => exact .inl rfl
    case isFalse =>
      split
      case isTrue =>
        split
        case isTrue => exact .inr (.inl ⟨_, rfl, nofun⟩)
        case isFalse => exact .inr (.inr ⟨.digits, scale, Parts.digit c, rfl⟩)
      case isFalse =>
        cases hscale : joinScale scale c with
        | error e =>
          exact .inr (.inl ⟨e, rfl, fun h => absurd (h ▸ hscale) (joinScale_ne_unterminated scale c)⟩)
        | ok scale' => exact .inr (.inr ⟨stage.next, scale', Parts.mark stage (affixMark c), rfl⟩)

theorem scan_rest_suffix (h : scan stage scale ts = .ok (parts, rest)) : rest <:+ ts := by
  induction ts generalizing stage scale parts with
  | nil =>
    cases h
    exact List.suffix_refl []
  | cons t ts ih =>
    obtain hstop | ⟨e, hfail, -⟩ | ⟨stage', scale', put, hnext⟩ := scan_cons_cases stage scale t ts
    · rw [hstop] at h
      cases h
      exact List.suffix_refl _
    · rw [hfail] at h
      cases h
    · rw [hnext] at h
      obtain ⟨later, hlater, heq⟩ := map_eq_ok_iff.mp h
      cases heq
      exact (ih hlater).trans (List.suffix_cons _ _)

theorem unclosed_mem_of_scan (h : scan stage scale ts = .error .unterminatedQuote) :
    .unclosed ∈ ts := by
  induction ts generalizing stage scale with
  | nil => cases h
  | cons t ts ih =>
    obtain hstop | ⟨e, hfail, hunclosed⟩ | ⟨stage', scale', put, hnext⟩ :=
      scan_cons_cases stage scale t ts
    · rw [hstop] at h
      cases h
    · rw [hfail] at h
      cases h
      exact hunclosed rfl ▸ List.mem_cons_self
    · rw [hnext, map_eq_error_iff] at h
      exact List.mem_cons_of_mem _ (ih h)

theorem unclosed_mem_of_negativeAffixes (h : negativeAffixes ts = .error .unterminatedQuote) :
    .unclosed ∈ ts := by
  cases ts with
  | nil => cases h
  | cons t ts =>
    rcases bind_eq_error_iff.mp h with h | ⟨later, -, h⟩
    · exact List.mem_cons_of_mem _ (unclosed_mem_of_scan h)
    · dsimp only at h
      split at h <;> cases h

theorem parse_ne_unterminated {pattern : String} (h : '\'' ∉ pattern.toList) :
    parse pattern ≠ .error .unterminatedQuote := by
  have hopen : Token.unclosed ∉ tokens false pattern.toList := by
    rw [tokens_of_not_mem h]
    simp
  intro hparse
  rcases bind_eq_error_iff.mp hparse with hscan | ⟨⟨scanned, rest⟩, hscan, hparse⟩
  · exact hopen (unclosed_mem_of_scan hscan)
  rcases bind_eq_error_iff.mp hparse with hnegative | ⟨negative, -, hparse⟩
  · have hmem := unclosed_mem_of_negativeAffixes hnegative
    exact hopen ((scan_rest_suffix hscan).subset hmem)
  rcases bind_eq_error_iff.mp hparse with hlayout | ⟨layout, -, hparse⟩
  · exact DigitLayout.parse_ne_unterminated _ hlayout
  · cases hparse

end NumberPattern

end MessageCatalog
