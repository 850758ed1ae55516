import FourthGen.Text.Position
import FourthGen.Text.Word

set_option autoImplicit false

/-! # Documents

A document is the latest text of an open file, under its address and version. Clients speak about it
in lines and UTF-16 columns; this file answers by lines, byte offsets and words. -/

namespace FourthGen

/-! ## Source files -/

/-- The file extensions of source files of the language. -/
def fileExtensions : List String := ["4gl", "src"]

/-- The name by which clients call the language. -/
def languageId : String := "fourgl"

/-- Whether an address names a source file, by its extension in any mixture of cases. A query and a
    fragment do not count. -/
def isSourceUri (uri : String) : Bool :=
  let path := uri.toList.takeWhile fun c => c != '?' && c != '#'
  let extension := (path.reverse.takeWhile (· != '.')).reverse
  path.contains '.' && fileExtensions.any (Text.sameWord (String.ofList extension))

/-! ## Documents -/

/-- The number of an open document. A document that is closed and opened again gets a new one. -/
structure DocumentId where
  number : Nat
  deriving DecidableEq, Repr, Inhabited

/-- How a document's number is shown. -/
def DocumentId.display (id : DocumentId) : String := "#" ++ toString id.number

/-- A value put at its place in a table in the order of numbers, instead of any the number had. -/
def DocumentId.insert {α : Type} (id : DocumentId) (value : α) :
    List (DocumentId × α) → List (DocumentId × α)
  | [] => [(id, value)]
  | entry :: rest =>
    if id.number < entry.1.number then (id, value) :: entry :: rest
    else if entry.1 = id then (id, value) :: rest
    else entry :: insert id value rest

/-- A text with the byte offsets at which its lines start. -/
structure IndexedText where
  text : String
  lineStarts : List Nat
  fresh : lineStarts = Text.lineStarts text.toList
  deriving DecidableEq, Repr

namespace IndexedText

/-- A text whose lines have just been looked for. -/
def ofText (text : String) : IndexedText := ⟨text, Text.lineStarts text.toList, rfl⟩

instance : Coe String IndexedText := ⟨ofText⟩

instance : Inhabited IndexedText := ⟨ofText ""⟩

@[simp] theorem text_ofText (text : String) : (ofText text).text = text := rfl

end IndexedText

/-- An open document. -/
structure Document where
  uri : String
  version : Int
  source : IndexedText
  deriving DecidableEq, Repr, Inhabited

namespace Document

/-- The text of a document. -/
def text (d : Document) : String := d.source.text

/-- The byte offsets at which the lines of a document start. -/
def lineStarts (d : Document) : List Nat := d.source.lineStarts

theorem lineStarts_eq (d : Document) : d.lineStarts = Text.lineStarts d.text.toList := d.source.fresh

/-- The document with a new text under a new version. -/
def replace (d : Document) (version : Int) (text : String) : Document :=
  { d with version := version, source := .ofText text }

@[simp] theorem text_mk (uri : String) (version : Int) (text : String) :
    (⟨uri, version, text⟩ : Document).text = text := rfl

@[simp] theorem text_replace (d : Document) (version : Int) (text : String) :
    (d.replace version text).text = text := rfl

/-- The number of lines: one more than there are line feeds. -/
def lineCount (d : Document) : Nat := d.lineStarts.length

/-- A line, without its line feed and a carriage return before it. It runs to the line feed before the
    start of the next line, or to the end of the text. -/
def line? (d : Document) (n : Nat) : Option (List Char) := do
  let start ← d.lineStarts[n]?
  let stop := (d.lineStarts[n + 1]?.map (· - 1)).getD (Text.utf8Length d.text.toList)
  return Text.dropReturn (Text.slice start stop d.text.toList)

/-- A line as a text. -/
def lineText? (d : Document) (n : Nat) : Option String := (d.line? n).map String.ofList

/-- The byte offset at which a line starts. -/
def lineStart (d : Document) (n : Nat) : Nat := d.lineStarts[n]?.getD 0

/-- The byte offset of a position. A column past the end of its line counts as the end. -/
def offsetAt? (d : Document) (p : Position) : Option Nat :=
  (d.line? p.line).map fun line =>
    d.lineStart p.line + Text.utf8Length (Text.splitAtColumn p.character line).1

/-- The word at a position; a position right behind a word is at that word. -/
def wordAt? (d : Document) (p : Position) : Option String := do
  let word := Text.wordAt p.character (← d.line? p.line)
  if word.isEmpty then none else some (String.ofList word)

/-- The part of a word that stands left of a position. -/
def stemAt? (d : Document) (p : Position) : Option String :=
  (d.line? p.line).map fun line => String.ofList (Text.stemAt p.character line)

end Document

end FourthGen
