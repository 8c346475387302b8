import MarcPath.Path.Parse

/-! Inspected forms: the text by which a value is shown to someone who debugs a path. They name the
kind of the value and quote its parts. -/
namespace MarcPath

/-- A kind of value and its inspected parts. -/
def inspected (kind : String) (parts : List (String × Text)) : Text :=
  kind.toList ++ '(' ::
    List.intercalate [',', ' '] (parts.map fun (label, value) => label.toList ++ value) ++ [')']

/-- An optional text, quoted where it is there. -/
def inspectedOption : Option Text → Text
  | none => "None".toList
  | some text => text.quoted

def Span.inspect (span : Span) : Text :=
  inspected "PositionOrRange"
    [("start=", span.start.quoted), ("end=", inspectedOption span.stop)]

def Literal.inspect (literal : Literal) : Text :=
  inspected "ComparisonString" [("", literal.raw.quoted)]

/-- A record of a tail: a segment, or the groups of the field where there is no token. -/
def Tail.inspectRecord (token : Option Text) (groups : List Text) : Text :=
  inspected "DataRef"
    [("subfield=", inspectedOption token),
     ("subspecs=", '[' :: List.intercalate [',', ' '] (groups.map Text.quoted) ++ [']'])]

def Path.inspect (path : Path) : Text :=
  inspected "MarcSpec" [("", path.render.quoted)]

def Operand.inspect : Operand Path → Text
  | literal value => inspected "ComparisonTerm" [("literal=", value.inspect)]
  | path value source =>
    inspected "SpecTerm" [("spec=", value.inspect), ("source=", source.quoted)]

def Term.inspect : Term Path → Text
  | absent context => inspected "AbsentTerm" [("context=", context.quoted)]
  | given operand => operand.inspect

variable {ρ : Type}

def Condition.inspect (condition : Condition ρ) : Text :=
  inspected "SubSpec" [("", condition.render.quoted)]

def Field.inspect (field : Field ρ) : Text :=
  inspected "Field" [("", field.render.quoted)]

def Subfield.inspect (subfield : Subfield ρ) : Text :=
  inspected "Subfield" [("", subfield.render.quoted)]

end MarcPath
