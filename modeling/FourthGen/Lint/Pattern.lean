import FourthGen.Text.Basic
import FourthGen.Unicode.Class

set_option autoImplicit false

/-! # Patterns in a line

What the line rules look for is told by patterns. At a place of a line a pattern may match in several
ways, of which the first is preferred: a run is rather long than short, and of two alternatives the
first is rather taken. A search goes from left to right; it tries every place that the last match does
not cover, and what is found there is the preferred way. -/

namespace FourthGen

/-! ## Places of a line -/

/-- A place in a line: the characters before it, the nearest one first, and those behind it. -/
structure Site where
  before : List Char
  rest : List Char
  deriving DecidableEq, Repr

namespace Site

/-- The start of a line. -/
def start (line : List Char) : Site := ⟨[], line⟩

/-- The column of a site. -/
def column (s : Site) : Nat := Text.utf16Length s.before

/-- The site behind a text that follows. -/
def skip (s : Site) (text : List Char) : Site :=
  ⟨text.reverse ++ s.before, s.rest.drop text.length⟩

/-- Whether a word starts or ends at the site. -/
def atEdge (s : Site) : Bool :=
  s.before.head?.any Unicode.isWordPart != s.rest.head?.any Unicode.isWordPart

/-- The sites from one on, from left to right. The end of the line is the last of them. -/
def walk (before : List Char) : (rest : List Char) → List Site
  | [] => [⟨before, []⟩]
  | c :: cs => ⟨before, c :: cs⟩ :: walk (c :: before) cs

end Site

/-- A stretch of a line: the site where it starts, and its characters. -/
structure Stretch where
  site : Site
  text : List Char
  deriving DecidableEq, Repr

/-! ## Patterns -/

/-- A text pattern. -/
inductive Pattern where
  /-- Takes no character. -/
  | empty
  /-- One character of a class. -/
  | one (member : Char → Bool)
  /-- A run of characters of a class, which may be empty. -/
  | many (member : Char → Bool)
  /-- The start or the end of a word. -/
  | edge
  /-- The start of the line. -/
  | lineStart
  /-- The end of the line. -/
  | lineEnd
  /-- One pattern behind the other. -/
  | seq (p q : Pattern)
  /-- One pattern or else the other. -/
  | alt (p q : Pattern)
  /-- A pattern of which it is remembered what it took. -/
  | group (p : Pattern)

namespace Pattern

/-- Patterns one behind the other. -/
def sequence : (ps : List Pattern) → Pattern
  | [] => empty
  | p :: ps => seq p (sequence ps)

/-- The first pattern that matches. -/
def anyOf : (ps : List Pattern) → Pattern
  | [] => one fun _ => false
  | p :: ps => alt p (anyOf ps)

/-- As many characters of a class as told. -/
def times (n : Nat) (member : Char → Bool) : Pattern := sequence (List.replicate n (one member))

/-- A word, up to case folding. -/
def spelling (word : String) : Pattern :=
  sequence (word.toList.map fun c => one fun d => Unicode.foldCase d == Unicode.foldCase c)

/-! ## Ways to match -/

/-- A way in which a pattern matches: the characters that it takes, and what its groups took, in the
    order in which the groups are opened. -/
structure Way where
  text : List Char
  groups : List Stretch
  deriving DecidableEq, Repr

/-- Goes on with another way. -/
def Way.append (w v : Way) : Way := ⟨w.text ++ v.text, w.groups ++ v.groups⟩

/-- The runs of a class at the start of a text, the longest first. -/
def runs (member : Char → Bool) : List Char → List (List Char)
  | [] => [[]]
  | c :: cs => if member c then (runs member cs).map (c :: ·) ++ [[]] else [[]]

/-- The ways in which a pattern matches at a site, the preferred one first. -/
def ways : Pattern → Site → List Way
  | empty, _ => [⟨[], []⟩]
  | one member, s =>
    match s.rest with
    | [] => []
    | c :: _ => if member c then [⟨[c], []⟩] else []
  | many member, s => (runs member s.rest).map (⟨·, []⟩)
  | edge, s => if s.atEdge then [⟨[], []⟩] else []
  | lineStart, s => if s.before.isEmpty then [⟨[], []⟩] else []
  | lineEnd, s => if s.rest.isEmpty then [⟨[], []⟩] else []
  | seq p q, s => (p.ways s).flatMap fun w => (q.ways (s.skip w.text)).map w.append
  | alt p q, s => p.ways s ++ q.ways s
  | group p, s => (p.ways s).map fun w => ⟨w.text, ⟨s, w.text⟩ :: w.groups⟩

/-! ## Search -/

/-- A match: the stretch that the pattern took, and those that its groups took. -/
structure Match extends Stretch where
  groups : List Stretch
  deriving DecidableEq, Repr

/-- The preferred match at a site. -/
def match? (p : Pattern) (s : Site) : Option Match :=
  (p.ways s).head?.map fun w => ⟨⟨s, w.text⟩, w.groups⟩

/-- Whether a pattern matches anywhere in a line. -/
def occursIn (p : Pattern) (line : List Char) : Bool :=
  (Site.walk [] line).any fun s => (p.match? s).isSome

/-- The matches in the rest of a line, of which the next characters, `covered` in number, belong to the
    last match. A match covers at least one character: the patterns of which all matches are looked for
    do not match where there is none. -/
def findFrom (p : Pattern) : (covered : Nat) → (before rest : List Char) → List Match
  | _, _, [] => []
  | covered + 1, before, c :: cs => p.findFrom covered (c :: before) cs
  | 0, before, c :: cs =>
    match p.match? ⟨before, c :: cs⟩ with
    | none => p.findFrom 0 (c :: before) cs
    | some m => m :: p.findFrom (m.text.length - 1) (c :: before) cs

/-- The matches in a line from left to right, one behind the other. -/
def findAll (p : Pattern) (line : List Char) : List Match := p.findFrom 0 [] line

end Pattern

end FourthGen
