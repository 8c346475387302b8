import MarcPath.Path.Inspect
import MarcPath.Path.Tree

/-! A document holds one path to a line; blank lines and comments are skipped. Diagnostics report the
lines that are not paths, and hovering over a line explains it. -/
namespace MarcPath

/-- A stretch of one line, in characters. -/
structure Range where
  line : Int
  start : Nat
  stop : Nat
  deriving Repr, DecidableEq

structure Diagnostic where
  range : Range
  message : Text
  deriving Repr, DecidableEq

/-- The name under which diagnostics are published. -/
def Diagnostic.origin : Text :=
  "marcspec-lsp".toList

/-- Every diagnostic is an error, the first level of severity. -/
def Diagnostic.severity : Nat :=
  1

structure Hover where
  range : Range
  text : Text
  deriving Repr, DecidableEq

namespace Document

/-- The lines of a document, which end at line feeds only. -/
def lines (source : Text) : List Text :=
  let (first, others) := source.splitOn '\n'
  first :: others

/-- Whether a line is meant to hold a path: it is not blank and no comment. -/
def isPathLine (line : Text) : Bool :=
  match line.strip with
  | [] => false
  | first :: _ => first != '#'

def wholeLine (number : Int) (line : Text) : Range :=
  ⟨number, 0, line.length⟩

/-- Where the offending text of a violation stands in its line: at its first occurrence. It is the
whole line if there is no such text, or if it is not a part of the line. -/
def locate (line : Text) (number : Int) (violation : Violation) : Range :=
  if violation.text.isEmpty then wholeLine number line
  else
    match Text.columnOf? violation.text line with
    | none => wholeLine number line
    | some start => ⟨number, start, start + violation.text.length⟩

/-- Reads the path of a line under a limit. -/
def parseLine (maxDepth : Int) (line : Text) : Except Error Path :=
  Path.parse ⟨maxDepth, 0⟩ line

/-- The diagnostic of a line, if it needs one. Only a violation is reported; any other failure is
passed on. -/
def diagnose (maxDepth : Int) (number : Nat) (line : Text) : Except Error (Option Diagnostic) :=
  if !isPathLine line then .ok none
  else
    match parseLine maxDepth line with
    | .ok _ => .ok none
    | .error (.invalid violation) =>
      .ok (some ⟨locate line number violation, violation.message⟩)
    | .error failure => .error failure

/-- The diagnostics of lines that are numbered from `number` on. -/
def diagnoseFrom (maxDepth : Int) (number : Nat) : List Text → Except Error (List Diagnostic)
  | [] => .ok []
  | line :: rest => do
    let first ← diagnose maxDepth number line
    let others ← diagnoseFrom maxDepth (number + 1) rest
    return first.toList ++ others

def diagnostics (maxDepth : Int) (source : Text) : Except Error (List Diagnostic) :=
  diagnoseFrom maxDepth 0 (lines source)

/-- Text set as code. -/
def code (text : Text) : Text :=
  '\x60' :: text ++ ['\x60']

/-- An indicator as it is shown; one that is open is an underscore. -/
def indicatorText (indicator : Option Char) : Text :=
  [indicator.getD '_']

def spanLine (label : String) (span : Option Span) : Text :=
  (span.map fun span => label.toList ++ code span.render ++ ['\n']).getD []

/-- The lines that explain a field: the parts of its head, and how many groups it has. -/
def explainField (field : Field Path) : Text :=
  let head := field.head
  let indicators :=
    (head.indicators.map fun _ =>
      "- Indicator 1: ".toList ++ code (indicatorText (head.indicator 0)) ++
        ", Indicator 2: ".toList ++ code (indicatorText (head.indicator 1)) ++ ['\n']).getD []
  let groups :=
    if field.groups.isEmpty then []
    else "- Subspecs: ".toList ++ Nat.toDigits 10 field.groups.length ++ ['\n']
  spanLine "- Index: " head.index ++ spanLine "- Character position: " head.characters ++
    indicators ++ groups

/-- The line that explains a subfield. -/
def explainSubfield (subfield : Subfield Path) : Text :=
  let groups :=
    if subfield.groups.isEmpty then []
    else " with ".toList ++ Nat.toDigits 10 subfield.groups.length ++ " subspec(s)".toList
  "- ".toList ++ code subfield.head.render ++ groups ++ ['\n']

/-- Markdown that explains a path: its parts, then its data tree. -/
def explain (path : Path) : Except Error Text := do
  let json ← path.json (.lines 2)
  let subfields :=
    if path.subfields.isEmpty then []
    else "\n**Subfields:**\n\n".toList ++ path.subfields.flatMap explainSubfield
  let fence : Text := ['\x60', '\x60', '\x60']
  return "**MARCspec:** ".toList ++ code path.render ++ "\n\n**Field:** ".toList ++
    code path.field.head.render ++ "\n\n".toList ++ explainField path.field ++ subfields ++
    '\n' :: fence ++ "json\n".toList ++ json ++ '\n' :: fence

/-- Markdown for a line: the explanation of its path, or the violation that it holds. -/
def hoverText (maxDepth : Int) (line : Text) : Except Error Text :=
  match parseLine maxDepth line >>= explain with
  | .error (.invalid violation) => .ok ("**Invalid MARCspec**\n\n".toList ++ violation.message)
  | other => other

/-- What is shown for a line. A line that is not meant to hold a path, or is not in the document, has
nothing to show. -/
def hover (maxDepth : Int) (source : Text) (number : Nat) : Except Error (Option Hover) :=
  match (lines source)[number]? with
  | none => .ok none
  | some line =>
    if !isPathLine line then .ok none
    else (hoverText maxDepth line).map fun text => some ⟨wholeLine number line, text⟩

end Document
end MarcPath
