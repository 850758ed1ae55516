import FourthGen.Lint.Rules
import FourthGen.Proofs.Document.Lines
import FourthGen.Proofs.Token.Append

set_option autoImplicit false

/-! # Line rules look at one line at a time

What the line rules find in a text is what they find in its lines (`mem_lint_iff`). A line feed divides a
text for them in two parts that have nothing to do with each other, and what is found in a line depends on
the characters of the line alone (`lint_line_by_line`). -/

namespace FourthGen

/-! ## Lines of a text -/

namespace Text

theorem pieces_append (a b : List Char) : pieces (a ++ '\n' :: b) = pieces a ++ pieces b := by
  induction a with
  | nil => rfl
  | cons c a ih =>
      by_cases hc : c = '\n'
      · subst hc
        rw [List.cons_append, pieces_lineFeed, pieces_lineFeed, ih, List.cons_append]
      · obtain ⟨piece, rest, hpieces⟩ := List.exists_cons_of_ne_nil (divide_ne_nil (· == '\n') a)
        rw [← pieces] at hpieces
        rw [hpieces, List.cons_append] at ih
        rw [List.cons_append, pieces_cons hc ih, pieces_cons hc hpieces, List.cons_append]

/-- Across a line feed, no line goes on. -/
theorem lines_append (a b : List Char) : lines (a ++ '\n' :: b) = lines a ++ lines b := by
  rw [lines, pieces_append, List.map_append]
  rfl

theorem length_lines (cs : List Char) : (lines cs).length = 1 + cs.count '\n' := by
  rw [lines, List.length_map, pieces, length_divide, Nat.add_comm]
  rfl

end Text

/-- The diagnostic `lines` lines further down. -/
def Diagnostic.down (lines : Nat) (d : Diagnostic) : Diagnostic := ⟨d.problem, d.range.down lines⟩

namespace Lint

/-! ## Numbered lines -/

theorem check_eq_flatMap (first : Nat) (lines : List (List Char)) :
    check first lines = (lines.zipIdx first).flatMap fun x => (findings x.1).map (·.onLine x.2) := by
  induction lines generalizing first with
  | nil => rfl
  | cons line lines ih => rw [check, ih, List.zipIdx_cons, List.flatMap_cons]

theorem check_append (first : Nat) (xs ys : List (List Char)) :
    check first (xs ++ ys) = check first xs ++ check (first + xs.length) ys := by
  rw [check_eq_flatMap, check_eq_flatMap, check_eq_flatMap, List.zipIdx_append, List.flatMap_append]

theorem check_down (first lines : Nat) (xs : List (List Char)) :
    check (first + lines) xs = (check first xs).map (Diagnostic.down lines) := by
  induction xs generalizing first with
  | nil => rfl
  | cons x xs ih =>
      rw [check, check, List.map_append, ← ih, List.map_map, Nat.add_right_comm first 1 lines]
      rfl

/-- What is found in numbered lines is found in one of them. -/
theorem mem_check_iff {first : Nat} {lines : List (List Char)} {d : Diagnostic} :
    d ∈ check first lines ↔
      ∃ n line, lines[n]? = some line ∧ ∃ f ∈ findings line, d = f.onLine (first + n) := by
  rw [check_eq_flatMap, List.mem_flatMap]
  constructor
  · rintro ⟨⟨line, i⟩, hmem, hd⟩
    obtain ⟨f, hf, rfl⟩ := List.mem_map.1 hd
    obtain ⟨hle, hget⟩ := List.mk_mem_zipIdx_iff_le_and_getElem?_sub.1 hmem
    exact ⟨i - first, line, hget, f, hf, by rw [Nat.add_sub_cancel' hle]⟩
  · rintro ⟨n, line, hget, f, hf, rfl⟩
    refine ⟨(line, first + n), ?_, List.mem_map_of_mem hf⟩
    rw [List.mk_mem_zipIdx_iff_le_and_getElem?_sub, Nat.add_sub_cancel_left]
    exact ⟨Nat.le_add_right first n, hget⟩

theorem pairwise_check (first : Nat) (lines : List (List Char)) :
    (check first lines).Pairwise (·.range.start.line ≤ ·.range.start.line) := by
  induction lines generalizing first with
  | nil => exact .nil
  | cons line lines ih =>
      refine List.pairwise_append.2 ⟨?_, ih (first + 1), ?_⟩
      · exact List.pairwise_map.2 (List.pairwise_of_forall fun _ _ => Nat.le_refl first)
      · intro d hd e he
        obtain ⟨f, -, rfl⟩ := List.mem_map.1 hd
        obtain ⟨n, -, -, g, -, rfl⟩ := mem_check_iff.1 he
        show first ≤ first + 1 + n
        omega

theorem filter_onLine (findings : List Finding) (line n : Nat) :
    (findings.map (·.onLine line)).filter (·.range.start.line == n) =
      if line = n then findings.map (·.onLine line) else [] := by
  split
  · next h =>
    refine List.filter_eq_self.2 ?_
    intro d hd
    obtain ⟨f, -, rfl⟩ := List.mem_map.1 hd
    exact beq_iff_eq.2 h
  · next h =>
    refine List.filter_eq_nil_iff.2 ?_
    intro d hd
    obtain ⟨f, -, rfl⟩ := List.mem_map.1 hd
    exact mt beq_iff_eq.1 h

/-- What is found on the line of a number. -/
theorem filter_check (first n : Nat) (lines : List (List Char)) :
    (check first lines).filter (·.range.start.line == first + n) =
      (((lines[n]?).map findings).getD []).map (·.onLine (first + n)) := by
  induction lines generalizing first n with
  | nil => rfl
  | cons line lines ih =>
      rw [check, List.filter_append, filter_onLine]
      cases n with
      | zero =>
          have hrest : (check (first + 1) lines).filter (·.range.start.line == first + 0) = [] := by
            refine List.filter_eq_nil_iff.2 ?_
            intro d hd
            obtain ⟨m, -, -, f, -, rfl⟩ := mem_check_iff.1 hd
            show ¬ (first + 1 + m == first + 0) = true
            rw [beq_iff_eq]
            omega
          rw [hrest, if_pos (Nat.add_zero first).symm, List.append_nil]
          rfl
      | succ n =>
          have hnumber : first + (n + 1) = first + 1 + n := by omega
          rw [if_neg (by omega), List.nil_append, hnumber, ih]
          rfl

end Lint

/-! ## Texts -/

/-- What the line rules find in a text is what they find in its lines. -/
theorem mem_lint_iff {text : String} {d : Diagnostic} :
    d ∈ lint text ↔ ∃ n line, (Text.lines text.toList)[n]? = some line ∧
      ∃ f ∈ Lint.findings line, d = f.onLine n := by
  rw [lint, Lint.mem_check_iff]
  simp only [Nat.zero_add]

/-- What the line rules find on a line of a text is what they find in the line. -/
theorem filter_lint (text : String) (n : Nat) :
    (lint text).filter (·.range.start.line == n) =
      ((((Text.lines text.toList)[n]?).map Lint.findings).getD []).map (·.onLine n) := by
  have hline := Lint.filter_check 0 n (Text.lines text.toList)
  rwa [Nat.zero_add] at hline

/-- What the line rules find in two texts with a line feed between them is what they find in the first
    and what they find in the second, as many lines further down as the first has lines. So they report
    line by line, and what they report of a line is the same in every text with this line in this
    place, whatever its other lines are. -/
theorem lint_line_by_line (a b : String) :
    lint (a ++ "\n" ++ b) =
        lint a ++ (lint b).map (Diagnostic.down (1 + a.toList.count '\n')) ∧
      (lint a).Pairwise (·.range.start.line ≤ ·.range.start.line) ∧
      ∀ n, (Text.lines a.toList)[n]? = (Text.lines b.toList)[n]? →
        (lint a).filter (·.range.start.line == n) = (lint b).filter (·.range.start.line == n) := by
  refine ⟨?_, Lint.pairwise_check 0 _, ?_⟩
  · have htext : (a ++ "\n" ++ b).toList = a.toList ++ '\n' :: b.toList := by simp
    rw [lint, htext, Text.lines_append, Lint.check_append, Text.length_lines, Lint.check_down]
    rfl
  · intro n hn
    rw [filter_lint, filter_lint, hn]

/-- Another second line does not change what is found in the first. -/
theorem lint_line_by_line_edit :
    (Text.lines "x = 1\ny = 2".toList)[0]? = (Text.lines "x = 1\r\nSELECT".toList)[0]? ∧
      (lint "x = 1\ny = 2").filter (·.range.start.line == 0) =
        (lint "x = 1\r\nSELECT").filter (·.range.start.line == 0) := by
  have h : (Text.lines "x = 1\ny = 2".toList)[0]? = (Text.lines "x = 1\r\nSELECT".toList)[0]? := by
    decide
  exact ⟨h, (lint_line_by_line "x = 1\ny = 2" "x = 1\r\nSELECT").2.2 0 h⟩

end FourthGen
