import FourthGen.Server.IpAddress

set_option autoImplicit false

/-! # URI references

Which texts are addresses: a URI or a relative reference in the sense of the generic syntax. What
stands in brackets as a host is an IP address of version 6; later versions have no form yet. -/

namespace FourthGen.Uri

/-- The characters that stand for themselves anywhere. -/
def isUnreserved (c : Char) : Bool := c.isAlphanum || "-._~".toList.contains c

/-- The reserved characters that are allowed inside the parts of an address. -/
def isSubDelim (c : Char) : Bool := "!$&'()*+,;=".toList.contains c

/-- Whether a text consists of unreserved characters, percent-encoded bytes, sub-delimiters and the
    characters in `extra`. -/
def allowed (extra : String) : List Char → Bool
  | [] => true
  | '%' :: a :: b :: rest => Text.isHexDigit a && Text.isHexDigit b && allowed extra rest
  | c :: rest => (isUnreserved c || isSubDelim c || extra.toList.contains c) && allowed extra rest

/-- A text divided at the first occurrence of a character, which belongs to neither part. -/
def cutAt (mark : Char) (cs : List Char) : List Char × Option (List Char) :=
  match cs.dropWhile (· != mark) with
  | [] => (cs, none)
  | _ :: rest => (cs.takeWhile (· != mark), some rest)

/-- The name of a scheme: a letter, then letters, digits and a few signs. -/
def isScheme : List Char → Bool
  | [] => false
  | c :: rest => c.isAlpha && rest.all fun d => d.isAlphanum || "+-.".toList.contains d

/-- A host, which a colon and a number may follow. An address in brackets or a name is a host. -/
def isHostPort : List Char → Bool
  | '[' :: rest =>
    let literal := rest.takeWhile (· != ']')
    match rest.dropWhile (· != ']') with
    | [] => false
    | _ :: number =>
      IpAddress.isVersion6 literal
        && (number.isEmpty || (number.head? == some ':' && number.tail.all Char.isDigit))
  | cs =>
    let (host, number) := cutAt ':' cs
    allowed "" host && (number.getD []).all Char.isDigit

/-- The part of an address that names a host: a user, if there is one, and a host. -/
def isAuthority (cs : List Char) : Bool :=
  match cutAt '@' cs with
  | (user, some host) => allowed ":" user && isHostPort host
  | (_, none) => isHostPort cs

/-- What follows the scheme, without query and fragment: a host and a path, or a path. -/
def isHierarchy : List Char → Bool
  | '/' :: '/' :: rest =>
    isAuthority (rest.takeWhile (· != '/')) && allowed ":@/" (rest.dropWhile (· != '/'))
  | cs => allowed ":@/" cs

/-- An address without query and fragment. A colon before the first slash ends a scheme. -/
def isAddress (cs : List Char) : Bool :=
  let start := cs.takeWhile (· != '/')
  if start.contains ':' then
    isScheme (cs.takeWhile (· != ':')) && isHierarchy ((cs.dropWhile (· != ':')).drop 1)
  else isHierarchy cs

/-- Whether a text is a URI or a relative reference. -/
def isReference (text : String) : Bool :=
  let (front, fragment) := cutAt '#' text.toList
  let (address, query) := cutAt '?' front
  isAddress address && (query.all (allowed ":@/?")) && (fragment.all (allowed ":@/?"))

end FourthGen.Uri
