import MessageCatalog.Proofs.Message.Concatenation
import MessageCatalog.Proofs.Message.RangeScan

namespace MessageCatalog

open Text (Mark Run)
open Traversal

namespace Text

def unquoted : List Char → List Char
  | [] => []
  | '\'' :: '\'' :: cs => '\'' :: unquoted cs
  | c :: cs => if c = '\'' then unquoted cs else c :: unquoted cs

theorem filter_unquoted (cs : List Char) : (unquoted cs).filter (· ≠ '\'') = cs.filter (· ≠ '\'') := by
  fun_induction unquoted cs with
  | case1 => rfl
  | case2 cs ih => simpa using ih
  | case3 cs h ih => simpa using ih
  | case4 c cs h hc ih => simpa [hc] using ih

theorem unquoted_eq_filter_iff {cs : List Char} :
    unquoted cs = cs.filter (· ≠ '\'') ↔ ¬['\'', '\''] <:+: cs := by
  fun_induction unquoted cs with
  | case1 => simp
  | case2 cs ih =>
    apply iff_of_false
    · intro h
      have hmem : '\'' ∈ ('\'' :: '\'' :: cs).filter (· ≠ '\'') := h ▸ List.mem_cons_self
      simp at hmem
    · simp [List.infix_cons_iff]
  | case3 cs h ih =>
    have hprefix : ¬['\'', '\''] <+: '\'' :: cs := by
      rintro ⟨rest, hrest⟩
      exact h rest rfl (List.cons.inj hrest).2.symm
    simpa [List.infix_cons_iff, hprefix] using ih
  | case4 c cs h hc ih =>
    have hprefix : ¬['\'', '\''] <+: c :: cs := by
      rintro ⟨rest, hrest⟩
      exact hc (List.cons.inj hrest).1.symm
    simpa [List.infix_cons_iff, hprefix, hc] using ih

end Text

variable {cs : List Char}

namespace MessagePattern

theorem scan_of_not_mem (h : '\x7b' ∉ cs) (quoted : Bool) :
    ∃ last, scan (.text quoted) cs = ((Text.unquoted cs).map Mark.char, .text last) := by
  fun_induction Text.unquoted cs generalizing quoted with
  | case1 => exact ⟨quoted, by rw [scan]; rfl⟩
  | case2 cs ih =>
    have hcs : '\x7b' ∉ cs := fun hm => h (List.mem_cons_of_mem _ (List.mem_cons_of_mem _ hm))
    obtain ⟨last, hlast⟩ := ih hcs quoted
    exact ⟨last, by rw [scan_text_doubled, hlast]; rfl⟩
  | case3 cs hd ih =>
    have hhead : cs.head? ≠ some '\'' := by
      intro hhead
      obtain ⟨rest, rfl⟩ := List.head?_eq_some_iff.mp hhead
      exact hd rest rfl rfl
    have hcs : '\x7b' ∉ cs := fun hm => h (List.mem_cons_of_mem _ hm)
    obtain ⟨last, hlast⟩ := ih hcs (!quoted)
    exact ⟨last, by rw [scan_text_apostrophe hhead, hlast]⟩
  | case4 c cs hd hc ih =>
    obtain ⟨hb, hcs⟩ := List.ne_and_not_mem_of_not_mem_cons h
    obtain ⟨last, hlast⟩ := ih hcs quoted
    exact ⟨last, by rw [scan_text_char hc fun hbrace => absurd hbrace.symm hb, hlast]; rfl⟩

theorem exists_compile_of_not_mem {s : String} (h : '\x7b' ∉ s.toList) (l : Locale) :
    ∃ p, compile s l = .ok p ∧
      ∀ arguments, p.write arguments = .ok (String.ofList (Text.unquoted s.toList)) := by
  obtain ⟨last, hscan⟩ := scan_of_not_mem h false
  have hsegments : segmentsOf s.toList = .ok (Run.ofMarks ((Text.unquoted s.toList).map Mark.char)) := by
    refine segmentsOf_eq_ok_iff.mpr ⟨_, ?_, ⟨last, by rw [hscan]⟩, rfl⟩
    rw [hscan, List.mapM_map]
    exact mapM_ok fun _ _ => rfl
  refine ⟨_, compile_eq_ok_iff.mpr ⟨_, hsegments, rfl⟩, fun arguments => ?_⟩
  rw [write, writeSegments_ofMarks, join_writeMark_chars]

end MessagePattern

namespace RangePattern

theorem scan_of_not_mem (h : '\x7b' ∉ cs) (quoted : Bool) :
    ∃ last, scan (.text quoted) cs = ((cs.filter (· ≠ '\'')).map Mark.char, .text last) := by
  induction cs generalizing quoted with
  | nil => exact ⟨quoted, by rw [scan]; rfl⟩
  | cons c cs ih =>
    obtain ⟨hb, hcs⟩ := List.ne_and_not_mem_of_not_mem_cons h
    by_cases hc : c = '\''
    · obtain ⟨last, hlast⟩ := ih hcs (!quoted)
      exact ⟨last, by rw [hc, scan_text_apostrophe, hlast]; rfl⟩
    · obtain ⟨last, hlast⟩ := ih hcs quoted
      refine ⟨last, ?_⟩
      rw [scan_text_char hc fun hbrace => absurd hbrace.symm hb, hlast, List.filter_cons_of_pos (by simpa)]
      rfl

theorem exists_compile_of_not_mem {s : String} (h : '\x7b' ∉ s.toList) :
    ∃ p, compile s = .ok p ∧ ∀ elements l,
      p.write elements l = .ok (String.ofList (s.toList.filter (· ≠ '\''))) := by
  obtain ⟨last, hscan⟩ := scan_of_not_mem h false
  have hmarks : (((s.toList.filter (· ≠ '\'')).map Mark.char).mapM compileMark) =
      .ok ((s.toList.filter (· ≠ '\'')).map Mark.char) := by
    rw [List.mapM_map]
    exact mapM_ok fun _ _ => rfl
  refine ⟨⟨Run.ofMarks ((s.toList.filter (· ≠ '\'')).map Mark.char)⟩, ?_, fun elements l => ?_⟩
  · simp only [compile, hscan, hmarks]
    rfl
  · rw [write_eq, join_mapM_writeRun, Run.marks_ofMarks, join_writeMark_chars]

/-- A text that opens no brace is read as a range pattern and as a message pattern, and either writes its own
text whatever it is given. The range pattern drops the apostrophes, and so does the message pattern, except that
it keeps one of each two together: the texts are the same exactly if no two stand side by side. -/
theorem write_eq_message_iff (s : String) (h : '\x7b' ∉ s.toList) :
    ∃ p t, compile s = .ok p ∧ (∀ elements l, p.write elements l = .ok t) ∧
      t.toList = s.toList.filter (· ≠ '\'') ∧
      ∀ l, ∃ q u, MessagePattern.compile s l = .ok q ∧ (∀ arguments, q.write arguments = .ok u) ∧
        u.toList = Text.unquoted s.toList ∧ u.toList.filter (· ≠ '\'') = t.toList ∧
        (t = u ↔ ¬['\'', '\''] <:+: s.toList) := by
  obtain ⟨p, hp, hwrite⟩ := exists_compile_of_not_mem h
  refine ⟨p, _, hp, hwrite, String.toList_ofList, fun l => ?_⟩
  obtain ⟨q, hq, hwrite⟩ := MessagePattern.exists_compile_of_not_mem h l
  refine ⟨q, _, hq, hwrite, String.toList_ofList, ?_, ?_⟩
  · rw [String.toList_ofList, String.toList_ofList, Text.filter_unquoted]
  · rw [String.ofList_inj, eq_comm, Text.unquoted_eq_filter_iff]

theorem write_eq_message_quoted :
    '\x7b' ∉ "a 'b;' \x7d".toList ∧ ¬['\'', '\''] <:+: "a 'b;' \x7d".toList ∧
      ∃ p q t, compile "a 'b;' \x7d" = .ok p ∧ MessagePattern.compile "a 'b;' \x7d" .germany = .ok q ∧
        p.write [] .germany = .ok t ∧ q.write none = .ok t := by
  have hopen : '\x7b' ∉ "a 'b;' \x7d".toList := by simp
  have hsingle : ¬['\'', '\''] <:+: "a 'b;' \x7d".toList := by decide +kernel
  obtain ⟨p, t, hp, ht, -, hmessage⟩ := write_eq_message_iff "a 'b;' \x7d" hopen
  obtain ⟨q, u, hq, hu, -, -, hsame⟩ := hmessage .germany
  exact ⟨hopen, hsingle, p, q, t, hp, hq, ht [] .germany, hsame.mpr hsingle ▸ hu none⟩

theorem write_not_always_eq_message :
    ¬∀ (s : String) (l : Locale) (elements : List Value) (arguments : Option (List Value)), '\x7b' ∉ s.toList →
      ((compile s).toOption.map fun p => p.write elements l) =
        (MessagePattern.compile s l).toOption.map fun q => q.write arguments := by
  intro h
  have hsame := h "''" .germany [] none (by simp)
  revert hsame
  decide +kernel

end RangePattern

end MessageCatalog
