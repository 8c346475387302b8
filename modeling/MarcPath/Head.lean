import MarcPath.Span

/-! Heads name a field or a subfield without its conditions: a tag or code, an optional index, and
what is selected of the value. -/
namespace MarcPath

/-- What a field head selects of the field. -/
inductive Selection where
  | all
  | characters (span : Span)
  | indicators (codes : Text)
  deriving Repr, DecidableEq

structure FieldHead where
  tag : Text
  index : Option Span
  selection : Selection
  deriving Repr, DecidableEq

structure SubfieldHead where
  code : Char
  index : Option Span
  characters : Option Span
  deriving Repr, DecidableEq

namespace Selection

def render : Selection → Text
  | all => []
  | characters span => '/' :: span.render
  | indicators codes => '_' :: codes

end Selection

namespace FieldHead

/-- Three digits, dots and letters of one case. -/
def isTag (tag : Text) : Bool :=
  tag.length == 3 &&
    (tag.all (fun c => c.isDigit || c.isLower || c == '.') ||
      tag.all fun c => c.isDigit || c.isUpper || c == '.')

/-- One or two lowercase letters, digits or underscores. -/
def isIndicators (codes : Text) : Bool :=
  (codes.length == 1 || codes.length == 2) &&
    codes.all fun c => c.isLower || c.isDigit || c == '_'

/-- Reads what follows the index of the field head `whole`. -/
def parseSelection (whole : Text) : Text → Except Error Selection
  | [] => .ok .all
  | '/' :: position => (Span.parse position).map .characters
  | '_' :: codes =>
    if isIndicators codes then .ok (.indicators codes) else violates .field .indicators whole
  | _ => violates .field .leftover whole

def parse (text : Text) : Except Error FieldHead :=
  if text.length < 3 then violates .field .underThree text
  else if text.hasBlank then violates .field .blank text
  else if !isTag (text.take 3) then violates .field .tag text
  else do
    let (index, rest) ← Span.splitIndex .field text (text.drop 3)
    let selection ← parseSelection text rest
    return ⟨text.take 3, index, selection⟩

def render (head : FieldHead) : Text :=
  head.tag ++ Span.renderIndex head.index ++ head.selection.render

def characters (head : FieldHead) : Option Span :=
  match head.selection with
  | .characters span => some span
  | _ => none

def indicators (head : FieldHead) : Option Text :=
  match head.selection with
  | .indicators codes => some codes
  | _ => none

/-- The indicator at a place, unless it is left open or not written. -/
def indicator (head : FieldHead) (place : Nat) : Option Char :=
  (head.indicators.bind fun codes => codes[place]?).filter (· != '_')

/-- The entries of a head in a record. -/
def entries (head : FieldHead) : Except Error (List (Text × Tree)) := do
  let index ← head.index.mapM (Span.entries "index".toList)
  let characters ← head.characters.mapM (Span.entries "char".toList)
  let indicator (name : String) (place : Nat) : List (Text × Tree) :=
    ((head.indicator place).map fun code => (name.toList, .text [code])).toList
  return ("tag".toList, .text head.tag) :: index.getD [] ++ characters.getD [] ++
    indicator "indicator1" 0 ++ indicator "indicator2" 1

end FieldHead

namespace SubfieldHead

/-- Any visible ASCII character can be a code. -/
def isCode (c : Char) : Bool :=
  '!' ≤ c && c ≤ '~'

/-- Reads what follows the index of the subfield head `whole`. -/
def parseCharacters (whole : Text) : Text → Except Error (Option Span)
  | [] => .ok none
  | '/' :: position => (Span.parse position).map some
  | _ => violates .subfield .leftover whole

def parse (text : Text) : Except Error SubfieldHead :=
  match text with
  | dollar :: code :: rest =>
    if dollar != '$' then violates .subfield .missingDollar text
    else if !isCode code then violates .subfield .code text
    else do
      let (index, rest) ← Span.splitIndex .subfield text rest
      let characters ← parseCharacters text rest
      return ⟨code, index, characters⟩
  | _ => violates .subfield .underTwo text

def render (head : SubfieldHead) : Text :=
  '$' :: head.code :: Span.renderIndex head.index ++ Span.renderCharacters head.characters

/-- The entries of a head in a record. -/
def entries (head : SubfieldHead) : Except Error (List (Text × Tree)) := do
  let index ← head.index.mapM (Span.entries "index".toList)
  let characters ← head.characters.mapM (Span.entries "char".toList)
  return ("tag".toList, .text [head.code]) :: index.getD [] ++ characters.getD []

end SubfieldHead
end MarcPath
