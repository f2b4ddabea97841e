/-
Names of Cedar namespaces: components of ASCII letters, digits and underscores
with double colons between them, none starting with a digit, and the whole no
reserved word in any case.
-/
import ApiAuthz.Fault

namespace ApiAuthz.Namespace

/-- What a component may start with. -/
def isNameStart (c : Char) : Bool := c.isAlpha || c == '_'

/-- What a component is made of. -/
def isNameRest (c : Char) : Bool := c.isAlphanum || c == '_'

/-- One component of a namespace. -/
def isComponent : List Char → Bool
  | [] => false
  | c :: cs => isNameStart c && cs.all isNameRest

/-- The parts between double colons, found from the left. -/
def components : List Char → List (List Char)
  | [] => [[]]
  | ':' :: ':' :: cs => [] :: components cs
  | c :: cs =>
    match components cs with
    | part :: parts => (c :: part) :: parts
    | [] => [[c]]

/-- No component may be one of these, however its letters are cased. -/
def reservedWords : List String := ["if", "in", "is", "__cedar"]

/-- The whole name is a reserved word, letter case aside. -/
def isReserved (s : String) : Bool :=
  reservedWords.contains (String.ofList (s.toList.map Char.toLower))

/-- A text that can name a namespace. -/
def isValid (s : String) : Bool :=
  (components s.toList).all isComponent && !isReserved s

/-- The namespace a value names. What is empty or absent is reported as missing. -/
def ofValue (v : Value) : Attempt String :=
  if !v.truthy then Fault.report .missingNamespace
  else
    match v.text? with
    | none => Fault.wrongKind
    | some s => if isValid s then .ok s else Fault.report (.invalidNamespace s)

end ApiAuthz.Namespace
