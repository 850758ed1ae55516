import FourthGen.Proofs.Document.Offsets

set_option autoImplicit false

/-! # Offsets of all positions of a document

A position may name a column that no character of its line starts at: one within a surrogate pair, or one
past the end of the line. `Document.offsetAt?` gives an offset for it nevertheless, behind the pair or at
the end. Told by dividing a line in two, the offset of a column is the length of the line up to there
(`Text.splitAtColumn_utf16Length`), and the divisions are in the order of the columns
(`Text.splitAtColumn_mono`); lines follow each other in the order of their numbers
(`Document.lineEnd_le_lineStart`). -/

namespace FourthGen

namespace Text

/-! ## Dividing a line -/

/-- A column within a character divides behind it. -/
theorem splitAtColumn_within {left right : List Char} {c : Char} {column : Nat}
    (h : utf16Length left < column) (h' : column ≤ utf16Length (left ++ [c])) :
    splitAtColumn column (left ++ c :: right) = (left ++ [c], right) := by
  induction left generalizing column with
  | nil =>
      obtain ⟨n, rfl⟩ : ∃ n, column = n + 1 := ⟨column - 1, by rw [utf16Length_nil] at h; omega⟩
      have hzero : n + 1 - utf16Width c = 0 := by
        simp only [List.nil_append, utf16Length_cons, utf16Length_nil] at h'
        omega
      rw [List.nil_append, splitAtColumn_cons, hzero, splitAtColumn_zero]
      rfl
  | cons d left ih =>
      obtain ⟨n, rfl⟩ : ∃ n, column = n + 1 := ⟨column - 1, by omega⟩
      simp only [List.cons_append, utf16Length_cons] at h h'
      rw [List.cons_append, splitAtColumn_cons, ih (by omega) (by omega)]
      rfl

/-- A column past the end divides at the end. -/
theorem splitAtColumn_past {line : List Char} {column : Nat} (h : utf16Length line ≤ column) :
    splitAtColumn column line = (line, []) := by
  induction line generalizing column with
  | nil => exact splitAtColumn_nil column
  | cons c line ih =>
      have hpos := utf16Width_pos c
      rw [utf16Length_cons] at h
      obtain ⟨n, rfl⟩ : ∃ n, column = n + 1 := ⟨column - 1, by omega⟩
      rw [splitAtColumn_cons, ih (by omega)]

/-- A line is divided further on at a larger column. -/
theorem splitAtColumn_mono {column column' : Nat} (h : column ≤ column') (line : List Char) :
    (splitAtColumn column line).1 <+: (splitAtColumn column' line).1 := by
  induction line generalizing column column' with
  | nil =>
      rw [splitAtColumn_nil]
      exact List.nil_prefix
  | cons c line ih =>
      cases column with
      | zero =>
          rw [splitAtColumn_zero]
          exact List.nil_prefix
      | succ n =>
          obtain ⟨m, rfl⟩ : ∃ m, column' = m + 1 := ⟨column' - 1, by omega⟩
          rw [splitAtColumn_cons, splitAtColumn_cons]
          exact List.cons_prefix_cons.2 ⟨rfl, ih (by omega)⟩

theorem utf8Length_le_of_isPrefix {cs ds : List Char} (h : cs <+: ds) :
    utf8Length cs ≤ utf8Length ds := by
  obtain ⟨rest, rfl⟩ := h
  rw [utf8Length_append]
  exact Nat.le_add_right _ _

/-! ## Pieces and lines -/

theorem pieces_eq_splitOn (cs : List Char) : pieces cs = cs.splitOn '\n' :=
  divide_eq_splitOnP (· == '\n') cs

/-- A line is its piece of the text, but for one carriage return at the end of the piece. -/
theorem dropReturn_eq_iff {piece line : List Char} :
    dropReturn piece = line ↔
      piece = line ++ ['\r'] ∨ (piece = line ∧ piece.getLast? ≠ some '\r') := by
  unfold dropReturn
  split
  · next h =>
    obtain ⟨front, rfl⟩ := List.getLast?_eq_some_iff.1 h
    simp [eq_comm]
  · next h =>
    constructor
    · rintro rfl
      exact .inr ⟨rfl, h⟩
    · rintro (rfl | ⟨rfl, -⟩)
      · simp at h
      · rfl

theorem dropReturn_isPrefix (piece : List Char) : dropReturn piece <+: piece := by
  unfold dropReturn
  split
  · exact List.dropLast_prefix piece
  · exact List.prefix_rfl

end Text

namespace Document

open Text

variable {d : Document} {n : Nat} {line : List Char}

theorem exists_piece_of_line? (h : d.line? n = some line) :
    ∃ piece, (pieces d.text.toList)[n]? = some piece ∧ dropReturn piece = line := by
  rwa [line?_eq, lines, List.getElem?_map, Option.map_eq_some_iff] at h

theorem line?_eq_none_iff : d.line? n = none ↔ d.lineCount ≤ n := by
  rw [line?_eq, lines, List.getElem?_map, Option.map_eq_none_iff, List.getElem?_eq_none_iff,
    lineCount_eq_length]

theorem lt_lineCount_of_line? (h : d.line? n = some line) : n < d.lineCount := by
  rw [← Nat.not_le, ← line?_eq_none_iff, h]
  exact Option.some_ne_none line

/-- A line stands in the text where it starts. -/
theorem exists_split_of_line? (h : d.line? n = some line) :
    ∃ before behind, d.text.toList = before ++ (line ++ behind) ∧
      LineStartsBehind d.text.toList n before ∧ d.lineStart n = utf8Length before := by
  obtain ⟨piece, hpiece, rfl⟩ := exists_piece_of_line? h
  have hlt : n < d.lineCount := lt_lineCount_of_line? h
  obtain ⟨before, hbefore, hstart⟩ := d.lineStart_spec hlt
  obtain ⟨⟨rest, htext⟩, hcount, hends⟩ := hbefore
  -- what stands before the line ends with a line feed, so the line is the start of what follows
  have hlast : lastLine before = [] := by
    rcases hends with rfl | hends
    · rfl
    · obtain ⟨front, rfl⟩ := List.getLast?_eq_some_iff.1 hends
      exact lastLine_lineFeed front
  have hline := (line_of_split before rest).1
  rw [htext, hcount, hpiece, hlast, List.nil_append, Option.some.injEq] at hline
  obtain ⟨behind, hbehind⟩ : dropReturn piece <+: rest := by
    refine (dropReturn_isPrefix piece).trans ?_
    rw [hline]
    exact List.takeWhile_prefix _
  exact ⟨before, behind, by rw [hbehind, htext], ⟨⟨rest, htext⟩, hcount, hends⟩, hstart⟩

theorem offsetAt?_of_line? (h : d.line? n = some line) (column : Nat) :
    d.offsetAt? ⟨n, column⟩ =
      some (d.lineStart n + utf8Length (splitAtColumn column line).1) := by
  rw [offsetAt?, h, Option.map_some]

theorem offsetAt?_of_front {left right : List Char} (h : d.line? n = some (left ++ right)) :
    d.offsetAt? ⟨n, utf16Length left⟩ = some (d.lineStart n + utf8Length left) := by
  rw [offsetAt?_of_line? h, splitAtColumn_utf16Length]

/-- A line ends before the next ones start. -/
theorem lineEnd_le_lineStart (h : d.line? n = some line) {m : Nat} (hm : n < m)
    (hlt : m < d.lineCount) : d.lineStart n + utf8Length line ≤ d.lineStart m := by
  obtain ⟨piece, hpiece, rfl⟩ := exists_piece_of_line? h
  have hline := utf8Length_le_of_isPrefix (dropReturn_isPrefix piece)
  have hstart := utf8Length_le_of_isPrefix (upTo_isPrefix_upTo hm d.text.toList)
  rw [upTo_succ hpiece, utf8Length_append, utf8Length_append] at hstart
  rw [lineStart_eq d (lt_lineCount_of_line? h), lineStart_eq d hlt]
  omega

theorem offsetAt?_mono {p q : Position} {o o' : Nat} (h : p ≤ q) (hp : d.offsetAt? p = some o)
    (hq : d.offsetAt? q = some o') : o ≤ o' := by
  obtain ⟨line, hline, rfl⟩ := Option.map_eq_some_iff.1 hp
  obtain ⟨line', hline', rfl⟩ := Option.map_eq_some_iff.1 hq
  rcases h with h | ⟨h, hcolumn⟩
  · have hend := lineEnd_le_lineStart hline h (lt_lineCount_of_line? hline')
    have hfront : utf8Length (splitAtColumn p.character line).1 ≤ utf8Length line :=
      utf8Length_le_of_isPrefix ⟨_, splitAtColumn_append p.character line⟩
    omega
  · rw [h, hline', Option.some.injEq] at hline
    subst hline
    rw [h]
    exact Nat.add_le_add_left (utf8Length_le_of_isPrefix (splitAtColumn_mono hcolumn line')) _

theorem offsetAt?_eq_none_iff {p : Position} : d.offsetAt? p = none ↔ d.lineCount ≤ p.line := by
  rw [offsetAt?, Option.map_eq_none_iff, line?_eq_none_iff]

/-- Whatever texts a document has had, its lines are the pieces of its text between line feeds, each
    without one carriage return at its end. A position has an offset if the document has its line. The
    offset is the length of the text up to a character boundary of this line: the one at the column of
    the position; the one behind the character, if the column lies within a surrogate pair; the end of
    the line, if the column is past it. Offsets are in the order of positions. -/
theorem offsets_invert_positions (d : Document) :
    d.lineCount = (d.text.toList.splitOn '\n').length ∧
      (∀ n line, d.lineText? n = some line ↔ ∃ piece, (d.text.toList.splitOn '\n')[n]? = some piece ∧
        (piece = line.toList ++ ['\r'] ∨ (piece = line.toList ∧ piece.getLast? ≠ some '\r'))) ∧
      (∀ n, d.lineText? n = none ↔ d.lineCount ≤ n) ∧
      (∀ p, d.offsetAt? p = none ↔ d.lineCount ≤ p.line) ∧
      (∀ n line, d.lineText? n = some line → ∃ before behind,
        d.text.toList = before ++ (line.toList ++ behind) ∧
        LineStartsBehind d.text.toList n before ∧
        (∀ column, ∃ left right, line.toList = left ++ right ∧
          d.offsetAt? ⟨n, column⟩ = some (utf8Length (before ++ left))) ∧
        (∀ left right, line.toList = left ++ right →
          d.offsetAt? ⟨n, utf16Length left⟩ = some (utf8Length (before ++ left))) ∧
        (∀ left c right column, line.toList = left ++ c :: right → utf16Length left < column →
          column ≤ utf16Length (left ++ [c]) →
          d.offsetAt? ⟨n, column⟩ = some (utf8Length (before ++ (left ++ [c])))) ∧
        ∀ column, utf16Length line.toList ≤ column →
          d.offsetAt? ⟨n, column⟩ = some (utf8Length (before ++ line.toList))) ∧
      ∀ p q o o', p ≤ q → d.offsetAt? p = some o → d.offsetAt? q = some o' → o ≤ o' := by
  have htext {n : Nat} {line : String} :
      d.lineText? n = some line ↔ d.line? n = some line.toList := by
    rw [lineText?, Option.map_eq_some_iff]
    constructor
    · rintro ⟨cs, hcs, rfl⟩
      rw [hcs, String.toList_ofList]
    · intro h
      exact ⟨line.toList, h, String.ofList_toList⟩
  refine ⟨?_, ?_, ?_, fun _ => offsetAt?_eq_none_iff, ?_, fun _ _ _ _ => offsetAt?_mono⟩
  · rw [lineCount_eq_length, pieces_eq_splitOn]
  · intro n line
    rw [htext, line?_eq, lines, List.getElem?_map, Option.map_eq_some_iff, pieces_eq_splitOn]
    simp only [dropReturn_eq_iff]
  · intro n
    rw [lineText?, Option.map_eq_none_iff, line?_eq_none_iff]
  · intro n line hline
    rw [htext] at hline
    obtain ⟨before, behind, hsplit, hbefore, hstart⟩ := exists_split_of_line? hline
    -- the offset of a column, by the front part of the line that it cuts off
    have hoffset {column : Nat} {left right : List Char}
        (hcut : splitAtColumn column line.toList = (left, right)) :
        d.offsetAt? ⟨n, column⟩ = some (utf8Length (before ++ left)) := by
      rw [offsetAt?_of_line? hline, hcut, hstart, utf8Length_append]
    refine ⟨before, behind, hsplit, hbefore, ?_, ?_, ?_, ?_⟩
    · intro column
      exact ⟨_, _, (splitAtColumn_append column line.toList).symm, hoffset rfl⟩
    · intro left right hleft
      exact hoffset (by rw [hleft, splitAtColumn_utf16Length])
    · intro left c right column hleft hlt hle
      exact hoffset (by rw [hleft, splitAtColumn_within hlt hle])
    · intro column hle
      exact hoffset (splitAtColumn_past hle)

/-- A column within a character of two code units has the offset of the column behind the character. -/
theorem offsets_invert_positions_pair :
    (⟨"file:///t.4gl", 1, "a😀\r\nb"⟩ : Document).lineText? 0 = some "a😀" ∧
      (⟨"file:///t.4gl", 1, "a😀\r\nb"⟩ : Document).offsetAt? ⟨0, 2⟩ =
        (⟨"file:///t.4gl", 1, "a😀\r\nb"⟩ : Document).offsetAt? ⟨0, 3⟩ := by
  have hline : (⟨"file:///t.4gl", 1, "a😀\r\nb"⟩ : Document).lineText? 0 = some "a😀" := by decide
  obtain ⟨-, -, -, -, hlines, -⟩ := offsets_invert_positions ⟨"file:///t.4gl", 1, "a😀\r\nb"⟩
  obtain ⟨before, behind, -, -, -, hcolumn, hwithin, -⟩ := hlines 0 "a😀" hline
  have hpair := hwithin ['a'] '😀' [] 2 rfl (by decide) (by decide)
  have hbehind := hcolumn ['a', '😀'] [] rfl
  exact ⟨hline, hpair.trans hbehind.symm⟩

end Document

end FourthGen
