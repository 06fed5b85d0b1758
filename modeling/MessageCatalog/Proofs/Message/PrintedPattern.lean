import MessageCatalog.Proofs.Message.Scan
import MessageCatalog.Proofs.Text.Numeral
import MessageCatalog.Proofs.Text.Runs
import MessageCatalog.Proofs.Traversal

namespace MessageCatalog

open Text (Mark Run)

structure IsBalanced (cs : List Char) : Prop where
  beginning : ∀ n ≤ cs.length, (cs.take n).count '\x7d' ≤ (cs.take n).count '\x7b'
  whole : cs.count '\x7d' = cs.count '\x7b'

structure IsBareKeyword (cs : List Char) : Prop where
  plain : ∀ c ∈ cs, c ≠ ',' ∧ c ≠ '\x7b' ∧ c ≠ '\x7d'
  head : cs.head? ≠ some ' '

structure PrintedPlaceholder where
  index : Nat
  keyword : String
  modifier : String
  isQuoted : Bool
  index_lt : index < 2 ^ 63
  keyword_plain : '\'' ∉ keyword.toList
  modifier_plain : '\'' ∉ modifier.toList
  bare_keyword : isQuoted = false → IsBareKeyword keyword.toList
  bare_modifier : isQuoted = false → IsBalanced modifier.toList

namespace PrintedPlaceholder

def format (p : PrintedPlaceholder) : Except PatternProblem ArgumentFormat :=
  ArgumentFormat.ofParts p.keyword p.modifier

def printPart (p : PrintedPlaceholder) (cs : List Char) : List Char :=
  if p.isQuoted then '\'' :: cs ++ ['\''] else cs

def print (p : PrintedPlaceholder) : List Char :=
  '\x7b' :: (Text.numeral 1 p.index ++ ',' :: (p.printPart p.keyword.toList ++
    ',' :: (p.printPart p.modifier.toList ++ ['\x7d'])))

def texts (p : PrintedPlaceholder) : PlaceholderTexts :=
  ⟨(Text.numeral 1 p.index).reverse, p.keyword.toList.reverse, p.modifier.toList.reverse⟩

theorem readIndex_numeral {n : Nat} (hn : n < 2 ^ 63) :
    PlaceholderTexts.readIndex (Text.numeral 1 n) = .ok n := by
  have hint : (Int64.ofInt n).toInt = n := Int64.toInt_ofInt_of_le (by omega) (by omega)
  have hpos : ¬Int64.ofInt n < 0 := by
    rw [Int64.lt_iff_toInt_lt, hint, Int64.toInt_zero]
    omega
  simp only [PlaceholderTexts.readIndex, Text.int64?_numeral Nat.one_pos hn, hpos, if_false, hint,
    Int.toNat_natCast]

theorem compile_texts (p : PrintedPlaceholder) :
    p.texts.compile = p.format.map fun f => ⟨p.index, f⟩ := by
  simp only [texts, PlaceholderTexts.compile, List.reverse_reverse, String.ofList_toList,
    readIndex_numeral p.index_lt]
  change (p.format >>= fun f => .ok (Placeholder.mk p.index f)) = _
  cases p.format <;> rfl

end PrintedPlaceholder

namespace MessagePattern

def doubled (cs : List Char) : List Char :=
  cs.flatMap fun c => if c = '\'' then ['\'', '\''] else [c]

def printText : List Char → List Char
  | [] => []
  | c :: cs =>
    if c = '\x7b' then '\'' :: (doubled (c :: cs) ++ ['\'']) else doubled [c] ++ printText cs

def printRun : Run PrintedPlaceholder → List Char
  | .text t => printText t.toList
  | .item p => p.print

def print (ps : List (Run PrintedPlaceholder)) : String :=
  String.ofList (ps.flatMap printRun)

theorem scan_doubled {quoted : Bool} {cs : List Char} (h : quoted = false → '\x7b' ∉ cs)
    (rest : List Char) :
    scan (.text quoted) (doubled cs ++ rest) =
      (scan (.text quoted) rest).map (cs.map Mark.char ++ ·) id := by
  induction cs with
  | nil => rfl
  | cons c cs ih =>
    have hcs := ih fun hq hc => h hq (List.mem_cons_of_mem _ hc)
    by_cases hc : c = '\''
    · subst hc
      have hd : doubled ('\'' :: cs) ++ rest = '\'' :: '\'' :: (doubled cs ++ rest) := rfl
      rw [hd, scan_text_doubled, hcs]
      rfl
    · have hd : doubled (c :: cs) ++ rest = c :: (doubled cs ++ rest) := by simp [doubled, hc]
      have hb : c = '\x7b' → quoted = true := by
        rintro rfl
        cases quoted with
        | true => rfl
        | false => exact absurd List.mem_cons_self (h rfl)
      rw [hd, scan_text_char hc fun h => .inl (hb h), hcs]
      rfl

theorem scan_printText (cs : List Char) {rest : List Char} (h : rest.head? ≠ some '\'') :
    scan (.text false) (printText cs ++ rest) =
      (scan (.text false) rest).map (cs.map Mark.char ++ ·) id := by
  induction cs with
  | nil => rfl
  | cons c cs ih =>
    by_cases hc : c = '\x7b'
    · subst hc
      have hopen : printText ('\x7b' :: cs) ++ rest =
          '\'' :: (doubled ('\x7b' :: cs) ++ '\'' :: rest) := by simp [printText]
      have hhead : (doubled ('\x7b' :: cs) ++ '\'' :: rest).head? ≠ some '\'' := by simp [doubled]
      rw [hopen, scan_text_apostrophe hhead, Bool.not_false, scan_doubled (by simp),
        scan_text_apostrophe h, Bool.not_true]
    · have hcons : printText (c :: cs) ++ rest = doubled [c] ++ (printText cs ++ rest) := by
        simp [printText, hc]
      have hb : false = false → '\x7b' ∉ [c] := fun _ hm => hc (List.mem_singleton.mp hm).symm
      rw [hcons, scan_doubled hb, ih]
      rfl

theorem scan_modifier {cs : List Char} {t : PlaceholderTexts} {depth last : Nat} (ha : '\'' ∉ cs)
    (hb : ∀ n ≤ cs.length, (cs.take n).count '\x7d' ≤ depth + (cs.take n).count '\x7b')
    (hl : cs.count '\x7d' + last = depth + cs.count '\x7b') (rest : List Char) :
    scan (.placeholder .modifier t depth false) (cs ++ rest) =
      scan (.placeholder .modifier (t.addAll cs .modifier) last false) rest := by
  induction cs generalizing t depth with
  | nil =>
    have hd : depth = last := by simpa using hl.symm
    rw [hd]
    rfl
  | cons c cs ih =>
    have hcs : '\'' ∉ cs := fun h => ha (List.mem_cons_of_mem _ h)
    have hnext (n : Nat) (hn : n ≤ cs.length) := hb (n + 1) (Nat.succ_le_succ hn)
    simp only [List.take_succ_cons, List.count_cons] at hnext hl
    by_cases ho : c = '\x7b'
    · subst ho
      simp only [beq_self_eq_true, if_true, Char.reduceBEq, Bool.false_eq_true, if_false] at hnext hl
      rw [List.cons_append, scan_placeholder_open]
      exact ih hcs (fun n hn => by have := hnext n hn; omega) (by omega)
    · by_cases he : c = '\x7d'
      · subst he
        simp only [beq_self_eq_true, if_true, Char.reduceBEq, Bool.false_eq_true, if_false] at hnext hl
        obtain ⟨d, rfl⟩ : ∃ d, depth = d + 1 := by
          have := hnext 0 (Nat.zero_le _)
          exact ⟨depth - 1, by simp at this; omega⟩
        rw [List.cons_append, scan_placeholder_close]
        exact ih hcs (fun n hn => by have := hnext n hn; omega) (by omega)
      · have hc : c ≠ '\'' := fun h => ha (h ▸ List.mem_cons_self)
        simp only [beq_iff_eq, ho, he, if_false, Nat.add_zero] at hnext hl
        rw [List.cons_append, scan_placeholder_char hc (fun _ => rfl) ho he (by simp)]
        exact ih hcs hnext hl

theorem scan_printedKeyword (p : PrintedPlaceholder) (t : PlaceholderTexts) (rest : List Char) :
    scan (.placeholder .keyword t 0 false) (p.printPart p.keyword.toList ++ rest) =
      scan (.placeholder .keyword (t.addAll p.keyword.toList .keyword) 0 false) rest := by
  cases hq : p.isQuoted with
  | true =>
    rw [← scan_placeholder_quotation p.keyword_plain]
    simp [PrintedPlaceholder.printPart, hq]
  | false =>
    have hb := p.bare_keyword hq
    simp only [PrintedPlaceholder.printPart, hq, Bool.false_eq_true, if_false]
    apply scan_placeholder_plain
    · exact fun c hc => ⟨fun h => p.keyword_plain (h ▸ hc), hb.plain c hc⟩
    · exact fun _ _ => hb.head

theorem scan_printedModifier (p : PrintedPlaceholder) (t : PlaceholderTexts) (rest : List Char) :
    scan (.placeholder .modifier t 0 false) (p.printPart p.modifier.toList ++ rest) =
      scan (.placeholder .modifier (t.addAll p.modifier.toList .modifier) 0 false) rest := by
  cases hq : p.isQuoted with
  | true =>
    rw [← scan_placeholder_quotation p.modifier_plain]
    simp [PrintedPlaceholder.printPart, hq]
  | false =>
    have hb := p.bare_modifier hq
    simp only [PrintedPlaceholder.printPart, hq, Bool.false_eq_true, if_false]
    apply scan_modifier p.modifier_plain
    · exact fun n hn => by rw [Nat.zero_add]; exact hb.beginning n hn
    · rw [Nat.add_zero, Nat.zero_add]; exact hb.whole

theorem scan_brace_numeral (n : Nat) (rest : List Char) :
    scan (.text false) ('\x7b' :: (Text.numeral 1 n ++ rest)) =
      scan (.placeholder .index (PlaceholderTexts.empty.addAll (Text.numeral 1 n) .index) 0 false) rest := by
  have hhead : (Text.numeral 1 n ++ rest).head? ≠ some '%' := by
    obtain ⟨d, ds, hn⟩ := List.exists_cons_of_ne_nil (Text.numeral_ne_nil 1 n Nat.one_pos)
    have hd : d.isDigit = true := Text.isDigit_of_mem_numeral (hn ▸ List.mem_cons_self)
    rw [hn, List.cons_append, List.head?_cons, ne_eq, Option.some.injEq]
    rintro rfl
    exact absurd hd (by decide)
  rw [scan_text_brace hhead]
  apply scan_placeholder_plain
  · intro c hc
    have hd := Text.isDigit_of_mem_numeral hc
    refine ⟨?_, ?_, ?_, ?_⟩ <;> rintro rfl <;> exact absurd hd (by decide)
  · intro h
    cases h

theorem scan_printPlaceholder (p : PrintedPlaceholder) (rest : List Char) :
    scan (.text false) (p.print ++ rest) = (scan (.text false) rest).map (.item p.texts :: ·) id := by
  have hprint : p.print ++ rest = '\x7b' :: (Text.numeral 1 p.index ++
      ',' :: (p.printPart p.keyword.toList ++
        ',' :: (p.printPart p.modifier.toList ++ '\x7d' :: rest))) := by
    simp [PrintedPlaceholder.print]
  have htexts : ((PlaceholderTexts.empty.addAll (Text.numeral 1 p.index) .index).addAll
      p.keyword.toList .keyword).addAll p.modifier.toList .modifier = p.texts := by
    simp [PlaceholderTexts.addAll_index, PlaceholderTexts.addAll_keyword,
      PlaceholderTexts.addAll_modifier, PlaceholderTexts.empty, PrintedPlaceholder.texts]
  rw [hprint, scan_brace_numeral, scan_placeholder_comma (by decide)]
  change scan (.placeholder .keyword _ 0 false) _ = _
  rw [scan_printedKeyword, scan_placeholder_comma (by decide)]
  change scan (.placeholder .modifier _ 0 false) _ = _
  rw [scan_printedModifier, scan_placeholder_end, htexts]

theorem scan_printRuns {ps : List (Run PrintedPlaceholder)} (h : Run.Normal ps) :
    scan (.text false) (ps.flatMap printRun) =
      ((Run.marks ps).map (Mark.map PrintedPlaceholder.texts), .text false) := by
  induction ps with
  | nil => rfl
  | cons r rest ih =>
    rw [List.flatMap_cons]
    cases r with
    | item p =>
      rw [printRun, scan_printPlaceholder, ih h]
      rfl
    | text t =>
      obtain ⟨-, hhead, hnormal⟩ := h
      have hplain : (rest.flatMap printRun).head? ≠ some '\'' := by
        match rest, hhead with
        | [], _ => simp
        | .item p :: _, _ => simp [printRun, PrintedPlaceholder.print]
      rw [printRun, scan_printText _ hplain, ih hnormal]
      simp [Run.marks, Mark.map]

theorem segmentsOf_printRuns {ps : List (Run PrintedPlaceholder)} (h : Run.Normal ps) :
    segmentsOf (ps.flatMap printRun) =
      ((Run.marks ps).mapM (compileMark ∘ Mark.map PrintedPlaceholder.texts)).map Run.ofMarks := by
  rw [segmentsOf, scan_printRuns h]
  simp only [List.mapM_map]
  cases (Run.marks ps).mapM (compileMark ∘ Mark.map PrintedPlaceholder.texts) <;> rfl

theorem compile_print {ps : List (Run PrintedPlaceholder)} (h : Run.Normal ps) (l : Locale) :
    compile (print ps) l =
      ((Run.marks ps).mapM (compileMark ∘ Mark.map PrintedPlaceholder.texts)).map fun marks =>
        ⟨print ps, l, Run.ofMarks marks⟩ := by
  rw [compile, print, String.toList_ofList, segmentsOf_printRuns h]
  cases (Run.marks ps).mapM (compileMark ∘ Mark.map PrintedPlaceholder.texts) <;> rfl

theorem compileMark_item {p : PrintedPlaceholder} {r : Except PatternProblem ArgumentFormat}
    (h : p.format = r) :
    (compileMark ∘ Mark.map PrintedPlaceholder.texts) (.item p) =
      r.map fun f => .item ⟨p.index, f⟩ := by
  rw [Function.comp_apply, Mark.map, compileMark, PrintedPlaceholder.compile_texts, h]
  cases r <;> rfl

theorem compile_print_inverse (l : Locale) (ps : List (Run PrintedPlaceholder)) (h : Run.Normal ps) :
    (∀ f : PrintedPlaceholder → ArgumentFormat, (∀ p ∈ Run.items ps, p.format = .ok (f p)) →
      compile (print ps) l = .ok ⟨print ps, l, ps.map (Run.map fun p => ⟨p.index, f p⟩)⟩) ∧
    ∀ before p after problem, ps = before ++ .item p :: after →
      (∀ q ∈ Run.items before, ∃ f, q.format = .ok f) → p.format = .error problem →
      compile (print ps) l = .error problem := by
  constructor
  · intro f hf
    have hmarks : (Run.marks ps).mapM (compileMark ∘ Mark.map PrintedPlaceholder.texts) =
        .ok ((Run.marks ps).map (Mark.map fun p => ⟨p.index, f p⟩)) := by
      apply Traversal.mapM_ok
      intro m hm
      cases m with
      | char c => rfl
      | item p => exact compileMark_item (hf p (Run.mem_marks.mp hm))
    rw [compile_print h, hmarks, ← Run.marks_map, Except.map, Run.ofMarks_marks (Run.normal_map _ h)]
  · rintro before p after problem rfl hbefore hp
    have hmarks : (Run.marks (before ++ .item p :: after)).mapM
        (compileMark ∘ Mark.map PrintedPlaceholder.texts) = .error problem := by
      rw [Run.marks_append, Run.marks]
      apply Traversal.mapM_error
      · intro m hm
        cases m with
        | char c => exact ⟨_, rfl⟩
        | item q =>
          obtain ⟨f, hf⟩ := hbefore q (Run.mem_marks.mp hm)
          exact ⟨_, compileMark_item hf⟩
      · exact compileMark_item hp
    rw [compile_print h, hmarks]
    rfl

theorem compile_print_date :
    let date : PrintedPlaceholder :=
      ⟨0, "date", "short", true, by decide, by decide, by decide, nofun, nofun⟩
    let bare : PrintedPlaceholder :=
      ⟨7, "", "\x7bx\x7d", false, by decide, by decide, by decide,
        fun _ => ⟨by simp, by decide⟩, fun _ => ⟨by decide, by decide⟩⟩
    let ps : List (Run PrintedPlaceholder) :=
      [.text "it's \x7b0\x7d", .item date, .text "'", .item bare]
    print ps = "it''s '\x7b0\x7d'\x7b0,'date','short'\x7d''\x7b7,,\x7bx\x7d\x7d" ∧
      Run.Normal ps ∧ compile (print ps) .germany = .ok ⟨print ps, .germany,
        [.text "it's \x7b0\x7d", .item ⟨0, .date .short⟩, .text "'", .item ⟨7, .untyped⟩]⟩ := by
  intro date bare ps
  have hps : Run.Normal ps := ⟨by decide, rfl, by decide, rfl, trivial⟩
  have hdate : date.format = .ok (.date .short) := by
    have hshort : ArgumentFormat.ofParts "date" "short" = .ok (.date .short) := by decide +kernel
    exact hshort
  have hbare : bare.format = .ok .untyped := by
    have huntyped : ArgumentFormat.ofParts "" "\x7bx\x7d" = .ok .untyped := by decide +kernel
    exact huntyped
  refine ⟨by decide +kernel, hps, ?_⟩
  apply (compile_print_inverse .germany ps hps).1 fun p => if p.isQuoted then .date .short else .untyped
  intro p hp
  simp only [ps, Run.items, List.mem_cons, List.not_mem_nil, or_false] at hp
  rcases hp with rfl | rfl
  · exact hdate
  · exact hbare

end MessagePattern

end MessageCatalog
