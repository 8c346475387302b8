import MarcPath.Error
import MarcPath.Tree.Basic

/-! A span selects one position or an inclusive range of positions: occurrences in an index,
characters in a value. The ends are kept as written, so leading zeros and the digits of any script
survive rendering. -/
namespace MarcPath

/-- The number a numeral stands for, as a result of reading a path. -/
def numberOf (text : Text) : Except Error Int :=
  (Numeral.read text).mapError .numeral

structure Span where
  start : Text
  stop : Option Text
  deriving Repr, DecidableEq

namespace Span

/-- The end written `#` is the last position, whatever its number. -/
def isLast (position : Text) : Bool :=
  position == ['#']

/-- Digits, or the last position. One line feed may follow. -/
def isPosition (text : Text) : Bool :=
  let position := text.chomp
  isLast position || (!position.isEmpty && position.all isDigit)

def render (span : Span) : Text :=
  match span.stop with
  | none => span.start
  | some stop => span.start ++ '-' :: stop

def isRange (span : Span) : Bool :=
  span.stop.isSome

/-- Whether a range with two numbered ends runs backwards. The end is read before the start. -/
def isReversed (span : Span) : Except Error Bool :=
  match span.stop with
  | none => .ok false
  | some stop =>
    if isLast span.start || isLast stop then .ok false
    else do
      let final ← numberOf stop
      let first ← numberOf span.start
      return final < first

/-- Reads `start` or `start-stop`. -/
def parse (text : Text) : Except Error Span :=
  let (start, others) := text.splitOn '-'
  if others.length > 1 || !(start :: others).all isPosition then
    violates .position .position text
  else do
    let span : Span := ⟨start, others.head?⟩
    if ← span.isReversed then violates .position .reversed text else return span

/-- How many positions are covered, where that does not hang on the last one. -/
def length (span : Span) : Except Error (Option Int) :=
  if isLast span.start then .ok none
  else
    match span.stop with
    | none => .ok (some 1)
    | some stop =>
      if isLast stop then .ok none
      else do
        let final ← numberOf stop
        let first ← numberOf span.start
        return some (final - first + 1)

def positionTree (position : Text) : Except Error Tree :=
  if isLast position then .ok (.text position) else (numberOf position).map .number

/-- The entries of a span in a record, each key led by `label`. -/
def entries (label : Text) (span : Span) : Except Error (List (Text × Tree)) := do
  let key (name : String) : Text := label ++ name.toList
  let start ← positionTree span.start
  let stop ← span.stop.mapM positionTree
  let length ← span.length
  return (key "_start", start) ::
    (stop.map (key "_end", ·)).toList ++ (length.map fun count => (key "_length", .number count)).toList

/-- Takes an index in brackets off the front of `rest`. A bracket that is not closed is a fault of
the part that is being read, and is reported with the whole of it. -/
def splitIndex (part : Part) (whole rest : Text) : Except Error (Option Span × Text) :=
  match rest with
  | '[' :: inner =>
    match Text.cutFirst? ']' inner with
    | none => violates part .index whole
    | some (position, after) => (parse position).map fun span => (some span, after)
  | _ => .ok (none, rest)

/-- An optional span after the mark that introduces it. -/
def renderAfter (mark : Text) (close : Text) : Option Span → Text
  | none => []
  | some span => mark ++ span.render ++ close

/-- An optional index in its brackets. -/
def renderIndex (index : Option Span) : Text :=
  renderAfter ['['] [']'] index

/-- An optional character span after its slash. -/
def renderCharacters (characters : Option Span) : Text :=
  renderAfter ['/'] [] characters

end Span
end MarcPath
