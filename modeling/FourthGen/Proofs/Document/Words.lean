import FourthGen.Proofs.Document.Clamping
import Mathlib.Data.List.DropRight

set_option autoImplicit false

/-! # Words around the cursor

The column of a position names a cursor between two characters of its line (`Text.CursorBetween`). To its
left stands the stem of a word, to its right the tail of one, each as long as there are word characters
(`Text.longest_wordEnd`, `Text.longest_wordStart`). Stem and tail together are a word of the line that
goes on to neither side (`Text.WholeWord`). So a document finds the same word from every place within it
and from its two edges (`Document.words_around_cursor`). -/

namespace FourthGen

namespace Text

/-! ## Cursors -/

/-- The cursor at a column stands between `left` and `right`: what is left of it is as wide as the column,
    or the whole line, and nothing shorter would do. -/
structure CursorBetween (column : Nat) (left right : List Char) : Prop where
  reached : column ≤ utf16Length left ∨ right = []
  shortest : ∀ front, front <+: left → front ≠ left → utf16Length front < column

/-- Every column has a cursor in a line. -/
theorem cursorBetween_splitAtColumn (column : Nat) (line : List Char) :
    CursorBetween column (splitAtColumn column line).1 (splitAtColumn column line).2 := by
  induction line generalizing column with
  | nil =>
      rw [splitAtColumn_nil]
      exact ⟨.inr rfl, fun front hfront hne => absurd (List.prefix_nil.1 hfront) hne⟩
  | cons c line ih =>
      cases column with
      | zero =>
          rw [splitAtColumn_zero]
          exact ⟨.inl (Nat.zero_le _), fun front hfront hne => absurd (List.prefix_nil.1 hfront) hne⟩
      | succ column =>
          obtain ⟨hreached, hshortest⟩ := ih (column + 1 - utf16Width c)
          rw [splitAtColumn_cons]
          constructor
          · refine hreached.imp_left ?_
            intro hle
            rw [utf16Length_cons]
            omega
          · intro front hfront hne
            cases front with
            | nil => exact Nat.succ_pos column
            | cons d front =>
                obtain ⟨rfl, hrest⟩ := List.cons_prefix_cons.1 hfront
                have hlt := hshortest front hrest (fun heq => hne (by rw [heq]))
                rw [utf16Length_cons]
                omega

/-- A line is divided where its cursor stands. -/
theorem CursorBetween.splitAtColumn_eq {column : Nat} {left right : List Char}
    (h : CursorBetween column left right) : splitAtColumn column (left ++ right) = (left, right) := by
  obtain ⟨hreached, hshortest⟩ := h
  rcases List.eq_nil_or_concat' left with rfl | ⟨front, c, rfl⟩
  · rcases hreached with hzero | rfl
    · obtain rfl : column = 0 := Nat.le_zero.1 hzero
      rw [List.nil_append, splitAtColumn_zero]
    · exact splitAtColumn_past (Nat.zero_le _)
  · have hlt : utf16Length front < column := hshortest front (List.prefix_append _ _) (by simp)
    by_cases hle : column ≤ utf16Length (front ++ [c])
    · rw [List.append_assoc]
      exact splitAtColumn_within hlt hle
    · obtain rfl := hreached.resolve_left hle
      rw [List.append_nil]
      exact splitAtColumn_past (by omega)

/-! ## The longest runs of word characters -/

/-- The longest of all lists that have a property. -/
structure Longest (Candidate : List Char → Prop) (part : List Char) : Prop where
  candidate : Candidate part
  length_le : ∀ other, Candidate other → other.length ≤ part.length

/-- An end of `left` that is made of word characters. -/
def WordEnding (left part : List Char) : Prop := part <:+ left ∧ ∀ c ∈ part, isWordChar c = true

/-- A start of `right` that is made of word characters. -/
def WordBeginning (right part : List Char) : Prop := part <+: right ∧ ∀ c ∈ part, isWordChar c = true

theorem longest_wordStart (right : List Char) : Longest (WordBeginning right) (wordStart right) := by
  refine ⟨⟨List.takeWhile_prefix _, fun _ hc => List.mem_takeWhile_imp hc⟩, ?_⟩
  rintro other ⟨⟨rest, rfl⟩, hchars⟩
  rw [wordStart, List.takeWhile_append_of_pos hchars, List.length_append]
  exact Nat.le_add_right _ _

theorem longest_wordEnd (left : List Char) : Longest (WordEnding left) (wordEnd left) := by
  -- read from right to left, an end is a start
  have hmirror (part : List Char) : WordEnding left part ↔ WordBeginning left.reverse part.reverse := by
    simp [WordEnding, WordBeginning, List.reverse_prefix]
  obtain ⟨hcandidate, hlongest⟩ := longest_wordStart left.reverse
  constructor
  · rw [hmirror, wordEnd, List.reverse_reverse]
    exact hcandidate
  · intro other hother
    have hle := hlongest other.reverse ((hmirror other).1 hother)
    rwa [wordEnd, List.length_reverse, ← List.length_reverse]

/-! ## Words that go on to neither side -/

/-- Between `before` and `behind` stands a word that goes on to neither side. -/
structure WholeWord (before word behind : List Char) : Prop where
  ne_nil : word ≠ []
  chars : ∀ c ∈ word, isWordChar c = true
  before : ∀ c, before.getLast? = some c → isWordChar c = false
  behind : ∀ c, behind.head? = some c → isWordChar c = false

theorem wordStart_append {w right : List Char} (hw : ∀ c ∈ w, isWordChar c = true)
    (hright : ∀ c, right.head? = some c → isWordChar c = false) : wordStart (w ++ right) = w :=
  (Lexeme.takeWhile_of_run hw hright).1

theorem wordEnd_append {left w : List Char} (hw : ∀ c ∈ w, isWordChar c = true)
    (hleft : ∀ c, left.getLast? = some c → isWordChar c = false) : wordEnd (left ++ w) = w := by
  have hrun := @wordStart_append w.reverse left.reverse (fun c hc => hw c (List.mem_reverse.1 hc))
    (fun c hc => hleft c (by rwa [← List.head?_reverse]))
  rw [wordStart] at hrun
  rw [wordEnd, List.reverse_append, hrun, List.reverse_reverse]

/-- What stands before the stem of a word ends with no character of a word. -/
theorem exists_before (left : List Char) : ∃ before, left = before ++ wordEnd left ∧
    ∀ c, before.getLast? = some c → isWordChar c = false := by
  refine ⟨left.rdropWhile isWordChar, (List.rdropWhile_append_rtakeWhile).symm, ?_⟩
  intro c hc
  rw [List.rdropWhile, List.getLast?_reverse] at hc
  exact Lexeme.head_dropWhile hc

/-- What stands behind the tail of a word starts with no character of a word. -/
theorem exists_behind (right : List Char) : ∃ behind, right = wordStart right ++ behind ∧
    ∀ c, behind.head? = some c → isWordChar c = false :=
  ⟨right.dropWhile isWordChar, List.takeWhile_append_dropWhile.symm, fun _ => Lexeme.head_dropWhile⟩

end Text

namespace Document

open Text

variable {d : Document} {p : Position} {left right : List Char}

theorem stemAt?_of_cursor (hline : d.line? p.line = some (left ++ right))
    (hcursor : CursorBetween p.character left right) :
    d.stemAt? p = some (String.ofList (wordEnd left)) := by
  rw [stemAt?, hline, Option.map_some, stemAt, hcursor.splitAtColumn_eq]

theorem wordAt?_of_cursor (hline : d.line? p.line = some (left ++ right))
    (hcursor : CursorBetween p.character left right) :
    d.wordAt? p = if wordEnd left ++ wordStart right = [] then none
      else some (String.ofList (wordEnd left ++ wordStart right)) := by
  have hword : wordAt p.character (left ++ right) = wordEnd left ++ wordStart right := by
    simp only [wordAt, hcursor.splitAtColumn_eq]
  simp [wordAt?, hline, hword]

/-- The cursor of a position stands between two parts of its line. The stem at the position is the longest
    end of the left part that is made of word characters. The word is this stem together with the
    longest start of the right part; it goes on to neither side, and if both are empty there is none.
    Wherever the cursor stands in a word, or at its edge, it is this word. -/
theorem words_around_cursor (d : Document) (p : Position) (hp : p.line < d.lineCount) :
    ∃ left right, d.lineText? p.line = some (String.ofList (left ++ right)) ∧
      CursorBetween p.character left right ∧
      d.offsetAt? p = some (d.lineStart p.line + utf8Length left) ∧
      ∃ stem tail, Longest (WordEnding left) stem ∧ Longest (WordBeginning right) tail ∧
        d.stemAt? p = some (String.ofList stem) ∧
        (d.wordAt? p = none ↔ stem = [] ∧ tail = []) ∧
        (∀ word, d.wordAt? p = some word → word.toList = stem ++ tail ∧
          ∃ before behind, left = before ++ stem ∧ right = tail ++ behind ∧
            WholeWord before (stem ++ tail) behind) ∧
        ∀ before start rest behind, left = before ++ start → right = rest ++ behind →
          WholeWord before (start ++ rest) behind →
          d.wordAt? p = some (String.ofList (start ++ rest)) := by
  obtain ⟨line, hline⟩ : ∃ line, d.line? p.line = some line := by
    rw [← Option.ne_none_iff_exists', Ne, line?_eq_none_iff]
    exact Nat.not_le.2 hp
  have hcursor := cursorBetween_splitAtColumn p.character line
  rw [← splitAtColumn_append p.character line] at hline
  generalize (splitAtColumn p.character line).1 = left at hline hcursor
  generalize (splitAtColumn p.character line).2 = right at hline hcursor
  have hstem := stemAt?_of_cursor hline hcursor
  have hword := wordAt?_of_cursor hline hcursor
  have hends := longest_wordEnd left
  have hstarts := longest_wordStart right
  refine ⟨left, right, ?_, hcursor, ?_, wordEnd left, wordStart right, hends, hstarts, hstem, ?_, ?_, ?_⟩
  · rw [lineText?, hline, Option.map_some]
  · rw [offsetAt?, hline, Option.map_some, hcursor.splitAtColumn_eq]
  · rw [hword, ite_eq_left_iff, ← List.append_eq_nil_iff]
    simp
  · intro word hsome
    obtain ⟨before, hleft, hbefore⟩ := exists_before left
    obtain ⟨behind, hright, hbehind⟩ := exists_behind right
    rw [hword] at hsome
    split at hsome
    · cases hsome
    · next hne =>
      cases hsome
      refine ⟨String.toList_ofList, before, behind, hleft, hright, hne, ?_, hbefore, hbehind⟩
      intro c hc
      rcases List.mem_append.1 hc with hc | hc
      · exact hends.candidate.2 c hc
      · exact hstarts.candidate.2 c hc
  · rintro before start rest behind rfl rfl hwhole
    obtain ⟨hne, hchars, hbefore, hbehind⟩ := hwhole
    rw [List.forall_mem_append] at hchars
    rw [hword, wordEnd_append hchars.1 hbefore, wordStart_append hchars.2 hbehind, if_neg hne]

/-- Between the two code units of a letter the cursor stands behind the letter, and within its word. -/
theorem words_around_cursor_letter :
    let d : Document := ⟨"file:///t.4gl", 1, "LET 𝐀b_1 = 2\r\n"⟩
    0 < d.lineCount ∧ d.wordAt? ⟨0, 5⟩ = some "𝐀b_1" := by
  intro d
  have hlt : 0 < d.lineCount := by decide
  obtain ⟨left, right, hline, hcursor, -, stem, tail, -, -, -, -, -, hwhole⟩ :=
    words_around_cursor d ⟨0, 5⟩ hlt
  have hsplit : left ++ right = "LET 𝐀b_1 = 2".toList := by
    have htext : d.lineText? 0 = some "LET 𝐀b_1 = 2" := by decide
    rw [htext, Option.some.injEq] at hline
    rw [hline, String.toList_ofList]
  have hhalves := hcursor.splitAtColumn_eq
  rw [hsplit] at hhalves
  obtain ⟨rfl, rfl⟩ : left = "LET 𝐀".toList ∧ right = "b_1 = 2".toList := by
    rw [← Prod.mk.injEq, ← hhalves]
    decide
  have hchars : ("𝐀".toList ++ "b_1".toList).all isWordChar = true := by decide +kernel
  have hword : WholeWord "LET ".toList ("𝐀".toList ++ "b_1".toList) " = 2".toList := by
    refine ⟨by decide, List.all_eq_true.1 hchars, ?_, ?_⟩
    · rintro c ⟨⟩
      rfl
    · rintro c ⟨⟩
      rfl
  exact ⟨hlt, hwhole _ _ _ _ rfl rfl hword⟩

end Document

end FourthGen
