import FourthGen.Document.Basic

set_option autoImplicit false

/-! # The open documents

Two tables: the number of every address that is open, and the document of every number, in the order of
the numbers. Numbers are given out in increasing order and never twice, so that the order of opening is
the order of numbers. -/

namespace FourthGen

/-- The numbers of the open addresses, the documents of these numbers in increasing order, and the number
    that the next document gets. -/
structure DocumentStore where
  ids : List (String × DocumentId)
  documents : List (DocumentId × Document)
  nextNumber : Nat
  deriving DecidableEq, Repr

namespace DocumentStore

/-- No document is open. -/
def empty : DocumentStore := ⟨[], [], 0⟩

/-- The number of the open document at an address. -/
def idOf? (store : DocumentStore) (uri : String) : Option DocumentId :=
  (store.ids.find? (·.1 == uri)).map (·.2)

/-- The open document of a number. -/
def get? (store : DocumentStore) (id : DocumentId) : Option Document :=
  (store.documents.find? (·.1 == id)).map (·.2)

/-- The open document at an address. -/
def atUri? (store : DocumentStore) (uri : String) : Option Document :=
  (store.idOf? uri).bind store.get?

/-- Gives the document of a number a new text. -/
def replace (store : DocumentStore) (id : DocumentId) (version : Int) (text : String) :
    DocumentStore :=
  { store with
    documents := store.documents.map fun e =>
      if e.1 = id then (e.1, e.2.replace version text) else e }

/-- Opens a document that is not open yet, under the next number. -/
def add (store : DocumentStore) (uri : String) (version : Int) (text : String) : DocumentStore where
  ids := (uri, ⟨store.nextNumber⟩) :: store.ids
  documents := DocumentId.insert ⟨store.nextNumber⟩ ⟨uri, version, text⟩ store.documents
  nextNumber := store.nextNumber + 1

/-- Gives the document at an address a new text, and opens it if it is not open. -/
def upsert (store : DocumentStore) (uri : String) (version : Int) (text : String) :
    DocumentId × DocumentStore :=
  match store.idOf? uri with
  | some id => (id, store.replace id version text)
  | none => (⟨store.nextNumber⟩, store.add uri version text)

/-- Forgets an address and the document of its number. -/
def erase (store : DocumentStore) (uri : String) (id : DocumentId) : DocumentStore :=
  { store with
    ids := store.ids.filter (·.1 != uri)
    documents := store.documents.filter (·.1 != id) }

/-- Closes the document at an address, and tells its number if it was open. -/
def close (store : DocumentStore) (uri : String) : Option DocumentId × DocumentStore :=
  match store.idOf? uri with
  | some id => (some id, store.erase uri id)
  | none => (none, store)

/-- The addresses of the open documents, in the order of opening. -/
def uris (store : DocumentStore) : List String := store.documents.map (·.2.uri)

end DocumentStore

end FourthGen
