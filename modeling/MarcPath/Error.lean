import MarcPath.Numeral

/-! Why something could not be read, built or looked up. The causes are data; their wording is in
the `message` functions of this module. -/
namespace MarcPath

/-- The parts of a path that can be at fault. -/
inductive Part where
  | path
  | field
  | subfield
  | condition
  | position
  | literal
  deriving Repr, DecidableEq

/-- What is wrong with a part. -/
inductive Fault where
  | empty
  | underThree
  | underTwo
  | blank
  | missingField
  | unbalanced
  | missingDollar
  | rangeLength
  | rangeEnds
  | unescaped
  | missingRight
  | unknownOperator
  | tooDeep
  | tag
  | code
  | index
  | position
  | reversed
  | indicators
  | leftover
  deriving Repr, DecidableEq

/-- A rule of the notation that a text breaks: the part, the rule and the offending text. -/
structure Violation where
  part : Part
  fault : Fault
  text : Text
  deriving Repr, DecidableEq

/-- The kinds of value that can be given where a text or a field is expected. -/
inductive Kind where
  | integer
  | decimal
  | boolean
  | nothing
  | text
  | list
  | record
  | path
  | field
  | subfield
  deriving Repr, DecidableEq

inductive Error where
  /-- A text breaks a rule of the notation. -/
  | invalid (violation : Violation)
  | numeral (cause : NumeralError)
  /-- An empty term has no first character to resolve. -/
  | emptyTerm
  /-- A subfield code to look up has more than one character. -/
  | longCode (length : Nat)
  | expectedText (given : Kind)
  | expectedField (given : Kind)
  /-- No object has this name. -/
  | unknownName (name : Text)
  /-- An object of this kind has no such operation or part. -/
  | unsupported (owner : Text) (operation : Text)
  /-- A list has no item at the requested place. -/
  | outOfRange
  /-- An object contains itself, so it has no finite description. -/
  | circular
  deriving Repr, DecidableEq

namespace Part

def label : Part → String
  | path => "MARCspec: "
  | field => "Fieldspec: "
  | subfield => "Subfieldspec: "
  | condition => "Subspec: "
  | position => "PositionOrRange: "
  | literal => "ComparisonString: "

end Part

namespace Fault

def rule : Fault → String
  | empty => "Spec must not be empty."
  | underThree => "Spec length must be at least 3 characters long."
  | underTwo => "Spec length must be at least 2 characters long."
  | blank => "Spec must not contain whitespace."
  | missingField => "Fieldspec must be provided."
  | unbalanced => "Unequal count of opening and closing brackets."
  | missingDollar => "Subfieldspec must start with '$'."
  | rangeLength => "Subfield range must be exactly 3 characters long."
  | rangeEnds =>
    "Invalid subfield range. Start and end must both be lowercase, uppercase or digits."
  | unescaped => "Unescaped character detected."
  | missingRight => "Right hand subterm is missing."
  | unknownOperator => "Invalid operator."
  | tooDeep => "Maximum nesting depth exceeded."
  | tag =>
    "Fieldtag must be 3 characters of digits, '.' and either lowercase or uppercase letters."
  | code => "Subfieldtag must be a single printable ASCII character."
  | index => "Invalid index."
  | position => "Position must be digits or '#'."
  | reversed => "Ending position must be equal or higher than starting position."
  | indicators => "Indicators must be 1 or 2 characters of lowercase letters, digits or '_'."
  | leftover => "Detected useless data fragment."

end Fault

/-- The part, the rule and the offending text, in this order. -/
def Violation.message (violation : Violation) : Text :=
  violation.part.label.toList ++ violation.fault.rule.toList ++ " Tried to parse: ".toList ++
    violation.text

def Kind.name : Kind → String
  | integer => "int"
  | decimal => "float"
  | boolean => "bool"
  | nothing => "NoneType"
  | text => "str"
  | list => "list"
  | record => "dict"
  | path => "MarcSpec"
  | field => "Field"
  | subfield => "Subfield"

def Error.message : Error → Text
  | invalid violation => violation.message
  | numeral cause => cause.message
  | emptyTerm => "string index out of range".toList
  | longCode length =>
    "Method only allows argument to be 1 character long. Got ".toList ++ Nat.toDigits 10 length
  | expectedText given => s!"Method only accepts string as argument. {given.name} given.".toList
  | expectedField given => s!"Method only accepts Field as argument. {given.name} given.".toList
  | unknownName name => name
  | unsupported owner operation =>
    "'".toList ++ owner ++ "' object has no attribute '".toList ++ operation ++ "'".toList
  | outOfRange => "list index out of range".toList
  | circular => "maximum recursion depth exceeded".toList

/-- The failure of a text that breaks a rule. -/
def violates {α : Type} (part : Part) (fault : Fault) (text : Text) : Except Error α :=
  .error (.invalid ⟨part, fault, text⟩)

end MarcPath
