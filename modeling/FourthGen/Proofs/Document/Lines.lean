import FourthGen.Document.Basic
import Mathlib.Data.List.Infix

set_option autoImplicit false

/-! # The lines of a document

A text is its pieces with line feeds between them. So the first pieces, each with its line feed, are
what stands before a line (`Text.upTo`). The line index of a document is shown to hold the lengths of
these (`Text.getElem?_lineStarts`), and the slices between its offsets to be the lines of the text
(`Document.line?_eq`). -/

namespace FourthGen

namespace Text

theorem divide_eq_splitOnP (sep : Char → Bool) (cs : List Char) : divide sep cs = cs.splitOnP sep := by
  induction cs with
  | nil => rfl
  | cons c cs ih =>
      rw [divide, List.splitOnP_cons_eq_if_modifyHead, ih]
      split
      · rfl
      · split
        · next hnil => exact absurd hnil (List.splitOnP_ne_nil sep cs)
        · next piece rest hpieces => rw [hpieces, List.modifyHead_cons]

/-- The pieces of a text are free of what divides them. -/
theorem not_sep_of_mem_divide {sep : Char → Bool} {cs piece : List Char}
    (h : piece ∈ divide sep cs) {c : Char} (hc : c ∈ piece) : sep c = false := by
  induction cs generalizing piece with
  | nil =>
      rw [divide, List.mem_singleton] at h
      subst h
      cases hc
  | cons d cs ih =>
      rw [divide] at h
      split at h
      · rcases List.mem_cons.1 h with rfl | h
        · cases hc
        · exact ih h hc
      · next hd =>
        split at h
        · next hnil => exact absurd hnil (divide_ne_nil sep cs)
        · next first rest hdivide =>
          rw [hdivide] at ih
          rcases List.mem_cons.1 h with rfl | h
          · rcases List.mem_cons.1 hc with rfl | hc
            · exact Bool.eq_false_iff.2 hd
            · exact ih List.mem_cons_self hc
          · exact ih (List.mem_cons_of_mem _ h) hc

/-- A text up to the end of its first pieces, a line feed behind each. -/
def upTo (n : Nat) (cs : List Char) : List Char := ((pieces cs).take n).flatMap (· ++ ['\n'])

theorem pieces_lineFeed (cs : List Char) : pieces ('\n' :: cs) = [] :: pieces cs := rfl

theorem pieces_cons {c : Char} (hc : c ≠ '\n') {cs piece : List Char} {rest : List (List Char)}
    (h : pieces cs = piece :: rest) : pieces (c :: cs) = (c :: piece) :: rest := by
  have hsep : (c == '\n') = false := beq_eq_false_iff_ne.2 hc
  unfold pieces at h ⊢
  rw [divide, hsep, h]
  rfl

theorem upTo_lineFeed (n : Nat) (cs : List Char) : upTo (n + 1) ('\n' :: cs) = '\n' :: upTo n cs := by
  rw [upTo, pieces_lineFeed, List.take_succ_cons, List.flatMap_cons]
  rfl

theorem upTo_cons {c : Char} (hc : c ≠ '\n') (n : Nat) (cs : List Char) :
    upTo (n + 1) (c :: cs) = c :: upTo (n + 1) cs := by
  obtain ⟨piece, rest, hpieces⟩ := List.exists_cons_of_ne_nil (divide_ne_nil (· == '\n') cs)
  rw [upTo, upTo, pieces_cons hc hpieces, show pieces cs = piece :: rest from hpieces]
  rfl

theorem length_pieces (cs : List Char) : (pieces cs).length = cs.count '\n' + 1 :=
  length_divide (· == '\n') cs

theorem upTo_succ {n : Nat} {cs piece : List Char} (h : (pieces cs)[n]? = some piece) :
    upTo (n + 1) cs = upTo n cs ++ (piece ++ ['\n']) := by
  rw [upTo, upTo, List.take_add_one, h, List.flatMap_append]
  simp

theorem upTo_isPrefix_upTo {n m : Nat} (h : n ≤ m) (cs : List Char) : upTo n cs <+: upTo m cs :=
  List.IsPrefix.flatMap (List.take_prefix_take_left h) _

/-- What stands before a line is a part of the text. -/
theorem upTo_isPrefix {n : Nat} {cs : List Char} (hn : n < (pieces cs).length) :
    upTo n cs <+: cs := by
  rw [length_pieces, Nat.lt_succ_iff] at hn
  induction cs generalizing n with
  | nil =>
      obtain rfl : n = 0 := Nat.le_zero.1 hn
      exact List.prefix_rfl
  | cons c cs ih =>
      cases n with
      | zero => exact List.nil_prefix
      | succ n =>
          by_cases hc : c = '\n'
          · subst hc
            rw [List.count_cons_self] at hn
            rw [upTo_lineFeed, List.prefix_cons_inj]
            exact ih (Nat.le_of_succ_le_succ hn)
          · rw [List.count_cons_of_ne hc] at hn
            rw [upTo_cons hc, List.prefix_cons_inj]
            exact ih hn

/-- All pieces, each with a line feed, are the text with a line feed. -/
theorem upTo_length (cs : List Char) : upTo (pieces cs).length cs = cs ++ ['\n'] := by
  rw [length_pieces]
  induction cs with
  | nil => rfl
  | cons c cs ih =>
      by_cases hc : c = '\n'
      · subst hc
        rw [List.count_cons_self, upTo_lineFeed, ih, List.cons_append]
      · rw [List.count_cons_of_ne hc, upTo_cons hc, ih, List.cons_append]

theorem count_upTo {n : Nat} {cs : List Char} (hn : n ≤ (pieces cs).length) :
    (upTo n cs).count '\n' = n := by
  have hpiece : ∀ piece ∈ (pieces cs).take n,
      (List.count '\n' ∘ fun piece => piece ++ ['\n']) piece = 1 := by
    intro piece hpiece
    have hnot : '\n' ∉ piece := by
      intro hmem
      have := not_sep_of_mem_divide (List.mem_of_mem_take hpiece) hmem
      cases this
    rw [Function.comp_apply, List.count_append, List.count_eq_zero.2 hnot]
    rfl
  have hlen : ((pieces cs).take n).length = n := by rw [List.length_take, Nat.min_eq_left hn]
  unfold upTo
  rw [List.count_flatMap, List.map_congr_left hpiece, List.map_const', hlen, List.sum_replicate_nat,
    Nat.mul_one]

theorem upTo_endsLine (n : Nat) (cs : List Char) :
    upTo n cs = [] ∨ (upTo n cs).getLast? = some '\n' := by
  unfold upTo
  cases hlast : ((pieces cs).take n).getLast? with
  | none =>
      rw [List.getLast?_eq_none_iff] at hlast
      simp [hlast]
  | some piece =>
      obtain ⟨front, hfront⟩ := List.getLast?_eq_some_iff.1 hlast
      simp [hfront]

/-! ## The line index -/

theorem getElem?_startsBehind (offset n : Nat) (cs : List Char) :
    (startsBehind offset cs)[n]? =
      if n + 1 < (pieces cs).length then some (offset + utf8Length (upTo (n + 1) cs)) else none := by
  simp only [length_pieces, Nat.add_lt_add_iff_right]
  induction cs generalizing offset n with
  | nil => simp [startsBehind]
  | cons c cs ih =>
      by_cases hc : c = '\n'
      · subst hc
        rw [startsBehind, if_pos rfl, List.count_cons_self, upTo_lineFeed, utf8Length_cons]
        cases n with
        | zero =>
            simp [upTo]
            rfl
        | succ n =>
            rw [List.getElem?_cons_succ, ih, ← Nat.add_assoc]
            simp only [Nat.add_lt_add_iff_right]
            rfl
      · rw [startsBehind, if_neg hc, ih, List.count_cons_of_ne hc, upTo_cons hc, utf8Length_cons,
          Nat.add_assoc]

/-- The line index holds for every line the length of what stands before it. -/
theorem getElem?_lineStarts (n : Nat) (cs : List Char) :
    (lineStarts cs)[n]? = if n < (pieces cs).length then some (utf8Length (upTo n cs)) else none := by
  cases n with
  | zero => simp [lineStarts, length_pieces, upTo]
  | succ n => rw [lineStarts, List.getElem?_cons_succ, getElem?_startsBehind, Nat.zero_add]

theorem length_startsBehind (offset : Nat) (cs : List Char) :
    (startsBehind offset cs).length = cs.count '\n' := by
  induction cs generalizing offset with
  | nil => rfl
  | cons c cs ih =>
      by_cases hc : c = '\n'
      · subst hc
        rw [startsBehind, if_pos rfl, List.length_cons, ih, List.count_cons_self]
      · rw [startsBehind, if_neg hc, ih, List.count_cons_of_ne hc]

/-- The slice from the start of a line to the line feed before the next one, or to the end of the text. -/
theorem slice_piece {n : Nat} {cs piece : List Char} (h : (pieces cs)[n]? = some piece) :
    slice (utf8Length (upTo n cs)) (((lineStarts cs)[n + 1]?.map (· - 1)).getD (utf8Length cs)) cs =
      piece := by
  have hlt : n < (pieces cs).length := (List.getElem?_eq_some_iff.1 h).1
  rw [getElem?_lineStarts]
  by_cases hnext : n + 1 < (pieces cs).length
  · obtain ⟨rest, hrest⟩ := upTo_isPrefix hnext
    rw [upTo_succ h, List.append_assoc, List.append_assoc] at hrest
    have hstop : utf8Length (upTo (n + 1) cs) - 1 = utf8Length (upTo n cs ++ piece) := by
      rw [upTo_succ h, ← List.append_assoc, utf8Length_append]
      rfl
    have hslice := slice_append (upTo n cs) piece (['\n'] ++ rest)
    rw [hrest, ← hstop] at hslice
    rw [if_pos hnext]
    exact hslice
  · have hlast : n + 1 = (pieces cs).length := Nat.le_antisymm hlt (Nat.le_of_not_lt hnext)
    have hcs := upTo_length cs
    rw [← hlast, upTo_succ h, ← List.append_assoc] at hcs
    have hslice := slice_append (upTo n cs) piece []
    rw [List.append_nil, List.append_cancel_right hcs] at hslice
    rw [if_neg hnext]
    exact hslice

end Text

/-- In a text, the line `n` starts behind `before`: that many line feeds stand before it, the last of
    them right before it. -/
def LineStartsBehind (text : List Char) (n : Nat) (before : List Char) : Prop :=
  before <+: text ∧ before.count '\n' = n ∧ (before = [] ∨ before.getLast? = some '\n')

namespace Document

/-- A document has one more line than its text has line feeds. -/
theorem lineCount_eq (d : Document) : d.lineCount = d.text.toList.count '\n' + 1 := by
  rw [lineCount, lineStarts_eq, Text.lineStarts, List.length_cons, Text.length_startsBehind]

theorem lineCount_eq_length (d : Document) : d.lineCount = (Text.pieces d.text.toList).length := by
  rw [lineCount_eq, Text.length_pieces]

/-- The start of a line is the length of what stands before it. -/
theorem getElem?_lineStarts (d : Document) {n : Nat} (hn : n < d.lineCount) :
    d.lineStarts[n]? = some (Text.utf8Length (Text.upTo n d.text.toList)) := by
  rw [lineCount_eq_length] at hn
  rw [lineStarts_eq, Text.getElem?_lineStarts, if_pos hn]

theorem lineStart_eq (d : Document) {n : Nat} (hn : n < d.lineCount) :
    d.lineStart n = Text.utf8Length (Text.upTo n d.text.toList) := by
  rw [lineStart, getElem?_lineStarts d hn, Option.getD_some]

/-- The lines that are cut out by the line index are the lines of the text. -/
theorem line?_eq (d : Document) (n : Nat) : d.line? n = (Text.lines d.text.toList)[n]? := by
  rw [Text.lines, List.getElem?_map]
  cases hpiece : (Text.pieces d.text.toList)[n]? with
  | none =>
      rw [List.getElem?_eq_none_iff, ← lineCount_eq_length] at hpiece
      rw [line?, List.getElem?_eq_none hpiece]
      rfl
  | some piece =>
      have hn : n < d.lineCount := by
        rw [lineCount_eq_length]
        exact (List.getElem?_eq_some_iff.1 hpiece).1
      rw [line?, getElem?_lineStarts d hn, Option.map_some, ← Text.slice_piece hpiece, lineStarts_eq]
      rfl

/-- The offset of a line counts the bytes of the text before it. -/
theorem lineStart_spec (d : Document) {n : Nat} (hn : n < d.lineCount) :
    ∃ before, LineStartsBehind d.text.toList n before ∧ d.lineStart n = Text.utf8Length before := by
  have hlen : n < (Text.pieces d.text.toList).length := by rwa [← lineCount_eq_length]
  refine ⟨Text.upTo n d.text.toList, ⟨Text.upTo_isPrefix hlen, ?_, ?_⟩, d.lineStart_eq hn⟩
  · exact Text.count_upTo (Nat.le_of_lt hlen)
  · exact Text.upTo_endsLine n _

end Document

end FourthGen
