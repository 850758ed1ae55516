import FourthGen.Text.Basic

set_option autoImplicit false

/-! # Positions, ranges and spans

A position counts lines and, within the line, UTF-16 code units, both from zero. A range is a pair
of positions, a span a pair of byte offsets. Positions are ordered by line, then by column. -/

namespace FourthGen

/-! ## Positions -/

/-- A place in a text: a line and a column in UTF-16 code units, both counted from zero. -/
structure Position where
  line : Nat
  character : Nat
  deriving DecidableEq, Repr, Inhabited

namespace Position

/-- The first place of any text. -/
def zero : Position := ⟨0, 0⟩

/-- Positions are ordered by line first and by column within a line. -/
instance : LE Position :=
  ⟨fun p q => p.line < q.line ∨ (p.line = q.line ∧ p.character ≤ q.character)⟩

/-- The strict order that goes with `≤`. -/
instance : LT Position :=
  ⟨fun p q => p.line < q.line ∨ (p.line = q.line ∧ p.character < q.character)⟩

theorem le_def (p q : Position) :
    p ≤ q ↔ p.line < q.line ∨ (p.line = q.line ∧ p.character ≤ q.character) := Iff.rfl

theorem lt_def (p q : Position) :
    p < q ↔ p.line < q.line ∨ (p.line = q.line ∧ p.character < q.character) := Iff.rfl

instance (p q : Position) : Decidable (p ≤ q) := decidable_of_iff' _ (le_def p q)

instance (p q : Position) : Decidable (p < q) := decidable_of_iff' _ (lt_def p q)

instance : Min Position := minOfLe

instance : Max Position := maxOfLe

theorem le_refl (p : Position) : p ≤ p := by
  rw [le_def]
  omega

theorem le_trans {p q r : Position} (h : p ≤ q) (k : q ≤ r) : p ≤ r := by
  rw [le_def] at *
  omega

theorem le_total (p q : Position) : p ≤ q ∨ q ≤ p := by
  simp only [le_def]
  omega

theorem le_antisymm {p q : Position} (h : p ≤ q) (k : q ≤ p) : p = q := by
  rw [le_def] at *
  obtain ⟨a, b⟩ := p
  obtain ⟨c, d⟩ := q
  simp only [mk.injEq]
  simp only at h k
  omega

/-- The place after one character: a line feed opens the next line, any other character takes its
    width on the same line. -/
def advance (p : Position) (c : Char) : Position :=
  if c = '\n' then ⟨p.line + 1, 0⟩ else ⟨p.line, p.character + Text.utf16Width c⟩

/-- The place after a whole text that starts at `p`. -/
def after (p : Position) (cs : List Char) : Position := cs.foldl advance p

@[simp] theorem after_nil (p : Position) : p.after [] = p := rfl

@[simp] theorem after_cons (p : Position) (c : Char) (cs : List Char) :
    p.after (c :: cs) = (p.advance c).after cs := rfl

@[simp] theorem after_append (p : Position) (a b : List Char) :
    p.after (a ++ b) = (p.after a).after b := by
  simp [after]

end Position

/-! ## Ranges -/

/-- The stretch of text between two positions. -/
structure Range where
  start : Position
  stop : Position
  deriving DecidableEq, Repr, Inhabited

namespace Range

/-- The range with the two given ends, whichever comes first. -/
def between (p q : Position) : Range := if p ≤ q then ⟨p, q⟩ else ⟨q, p⟩

/-- The smallest range that covers both. -/
def cover (r s : Range) : Range := ⟨min r.start s.start, max r.stop s.stop⟩

/-- Whether a position lies in the range, both ends included: a cursor right behind the last
    character still counts as being on it. -/
def containsInclusive (r : Range) (p : Position) : Bool := decide (r.start ≤ p ∧ p ≤ r.stop)

/-- Whether the whole of `s` lies in `r`. -/
def containsRange (r s : Range) : Bool := decide (r.start ≤ s.start ∧ s.stop ≤ r.stop)

/-- Whether the range covers nothing. -/
def isEmpty (r : Range) : Bool := r.start == r.stop

theorem between_of_le {p q : Position} (h : p ≤ q) : between p q = ⟨p, q⟩ := if_pos h

/-- Whatever ends are given, the range runs forward. -/
theorem between_start_le_stop (p q : Position) : (between p q).start ≤ (between p q).stop := by
  unfold between
  split
  · assumption
  · next h => exact (Position.le_total p q).resolve_left h

end Range

/-! ## Spans -/

/-- A stretch of text by its byte offsets; the byte at `stop` is not part of it. -/
structure Span where
  start : Nat
  stop : Nat
  deriving DecidableEq, Repr, Inhabited

end FourthGen
