import FourthGen.Completion
import FourthGen.Diagnostic.Collect
import FourthGen.Document.Store
import FourthGen.Hover
import FourthGen.Symbol.OfSyntax

set_option autoImplicit false

/-! # The workspace

The open documents and the index of their symbols, kept in step: whenever a document changes, its
symbol table is made anew, and when it is closed the table is dropped. Questions about a document
that is not open have empty answers. -/

namespace FourthGen

/-- The open documents and their symbols. -/
structure Workspace where
  documents : DocumentStore
  index : SymbolIndex
  deriving DecidableEq, Repr

/-- The symbols of a text, as those of the given document. -/
def symbolsOfText (id : DocumentId) (text : String) : List Symbol :=
  Symbol.ofItems id (parse text).items

namespace Workspace

/-- Nothing is open. -/
def empty : Workspace := ⟨.empty, .empty⟩

/-- A document was opened or has a new text. -/
def change (w : Workspace) (uri : String) (version : Int) (text : String) :
    DocumentId × Workspace :=
  let (id, documents) := w.documents.upsert uri version text
  (id, ⟨documents, w.index.update id (symbolsOfText id text)⟩)

/-- A document was closed. -/
def close (w : Workspace) (uri : String) : Option DocumentId × Workspace :=
  match w.documents.close uri with
  | (some id, documents) => (some id, ⟨documents, w.index.erase id⟩)
  | (none, _) => (none, w)

/-- The diagnostics of an open document. -/
def diagnostics (w : Workspace) (uri : String) : List Diagnostic :=
  ((w.documents.atUri? uri).map fun d => diagnose d.text).getD []

/-- The completions at a position of an open document. -/
def completionsAt (w : Workspace) (uri : String) (p : Position) : List Completion :=
  (do
    let id ← w.documents.idOf? uri
    let document ← w.documents.get? id
    return completions w.index document id p).getD []

/-- What is shown about the word at a position of an open document. -/
def hoverAt (w : Workspace) (uri : String) (p : Position) : Option String := do
  let id ← w.documents.idOf? uri
  let document ← w.documents.get? id
  hover w.index document id p

/-- The addresses of the open documents, in the order of opening. -/
def openUris (w : Workspace) : List String := w.documents.uris

end Workspace

end FourthGen
