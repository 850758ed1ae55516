import FourthGen.Reference
import FourthGen.Symbol.Index

set_option autoImplicit false

/-! # Hover texts

What is shown about the word under the cursor, as Markdown. The word is looked for among the
functions that come with the language, the reserved words, the declarations around the cursor and
then the declarations of all documents. -/

namespace FourthGen

namespace Hover

/-- A text of several lines. -/
def lines (ls : List String) : String := "\n".intercalate ls

/-- The heading of a text about a declared name. -/
def heading (s : Symbol) : String := "**" ++ s.name ++ "** (" ++ s.kind.noun ++ ")"

/-- The paragraph that tells the type of a symbol, if it has one. -/
def typeParagraph (s : Symbol) : String := (s.dataType.map ("\n\n**Type:** " ++ ·)).getD ""

/-- What is shown of a function that comes with the language; `shown` is its name. -/
def ofBuiltin (shown : String) (f : Builtin) : String :=
  lines
    ["**" ++ shown ++ "** (Built-in Function)", "", "**Returns:** " ++ f.returnType, "",
     "**Syntax:** `" ++ f.usage ++ "`", "", f.description]

/-- What is shown of a reserved word; `shown` is the word. -/
def ofKeyword (shown description : String) : String :=
  lines ["**" ++ shown ++ "** (Keyword)", "", description]

/-- The remark on what kind of symbol it is. -/
def remark : SymbolKind → String
  | .function => "*User-defined function*"
  | .procedure => "*User-defined procedure*"
  | .var => "*Local variable*"
  | .param => "*Function/procedure parameter*"

/-- What is shown of a declaration at the cursor. -/
def ofSymbol (s : Symbol) : String :=
  heading s ++ typeParagraph s ++ (if s.detail.isEmpty then "" else "\n\n" ++ s.detail)
    ++ "\n\n" ++ remark s.kind

/-- What is shown of a name declared elsewhere, `first` being the first of its declarations. -/
def ofNamed (first : Symbol) (count : Nat) : String :=
  heading first ++ typeParagraph first
    ++ (if 1 < count then "\n\n*Found " ++ toString count ++ " definitions*" else "")

/-- What is shown of a name that is declared nowhere. -/
def ofUnknown (name : String) : String :=
  lines
    ["**" ++ name ++ "**", "", "*Identifier not found in current scope*", "", "This might be:",
     "- An undeclared variable", "- A function or procedure defined elsewhere",
     "- A table or column name", "- A typo in the identifier name"]

end Hover

/-- What is shown about the word at a position. A word that is no name, such as a number, shows
    nothing unless it stands inside a declaration. -/
def hover (index : SymbolIndex) (document : Document) (id : DocumentId) (p : Position) :
    Option String := do
  let word ← document.wordAt? p
  if let some f := Builtin.ofName? word then
    return Hover.ofBuiltin (Text.upper word) f
  else if let some description := keywordDoc? word then
    return Hover.ofKeyword (Text.upper word) description
  else if let some s := index.at? id p then
    return Hover.ofSymbol s
  else
    let found := index.named word none
    if let some first := found.head? then
      return Hover.ofNamed first found.length
    else if Text.isName word then
      return Hover.ofUnknown word
    else
      none

end FourthGen
