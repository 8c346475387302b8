import MarcPath.Argument
import MarcPath.Workspace.Store

/-! A workspace gives names to shared objects. An operation either fails and changes nothing, or gives
the workspace after it; only adding subfields may leave something behind when it fails. -/
namespace MarcPath

/-- A reference to a stored object. -/
inductive Handle where
  | path (id : PathId)
  | field (id : FieldId)
  | subfield (id : SubfieldId)
  deriving Repr, DecidableEq

/-- An object as a plain value. -/
inductive Object where
  | path (value : Path)
  | field (value : Field Path)
  | subfield (value : Subfield Path)

/-- A named object, or an argument from outside. -/
inductive Given where
  | named (name : Text)
  | argument (value : Argument)
  deriving Repr, DecidableEq

inductive Side where
  | left
  | right
  deriving Repr, DecidableEq

structure Workspace where
  store : Store
  names : List (Text × Handle)

def Handle.kind : Handle → Kind
  | path _ => .path
  | field _ => .field
  | subfield _ => .subfield

/-- The failure of an operation that an object of this kind does not have. -/
def Handle.lacks {α : Type} (handle : Handle) (operation : String) : Except Error α :=
  .error (.unsupported handle.kind.name.toList operation.toList)

/-- An item of a list by its place; a negative place counts from the end. -/
def itemAt {α : Type} (items : List α) (place : Int) : Except Error α :=
  let place := if place < 0 then place + items.length else place
  if place < 0 then .error .outOfRange
  else (items[place.toNat]?).elim (.error .outOfRange) .ok

namespace Workspace

def empty : Workspace :=
  ⟨Store.empty, []⟩

def find (workspace : Workspace) (name : Text) : Except Error Handle :=
  (workspace.names.lookup name).elim (.error (.unknownName name)) .ok

/-- Gives a name to an object; a name that is taken moves to it. -/
def bind (name : Text) (handle : Handle) (workspace : Workspace) : Workspace :=
  { workspace with names := (name, handle) :: workspace.names.filter (·.1 != name) }

/-- Changes the store and names what comes of it. -/
def keep {α : Type} (name : Text) (handle : α → Handle) (change : Store.Change α)
    (workspace : Workspace) : Workspace :=
  let (made, store) := change workspace.store
  { workspace with store }.bind name (handle made)

/-- Changes the store alone. -/
def apply (change : Store.Change Unit) (workspace : Workspace) : Workspace :=
  { workspace with store := (change workspace.store).2 }

section Reading

variable (workspace : Workspace)

def render : Handle → Except Error Text
  | .path id => (workspace.store.layer id).map Layer.render
  | .field id => (workspace.store.field id).map Field.render
  | .subfield id => (workspace.store.subfield id).map Subfield.render

/-- An object with all that it refers to. -/
def view : Handle → Except Error Object
  | .path id => (workspace.store.view id).map .path
  | .field id => do
    let field ← workspace.store.field id
    return .field (← field.mapM workspace.store.view)
  | .subfield id => do
    let subfield ← workspace.store.subfield id
    return .subfield (← subfield.mapM workspace.store.view)

/-- The groups attached to a field or subfield. -/
def groups (handle : Handle) : Except Error (List (Group PathId)) :=
  match handle with
  | .path _ => handle.lacks "subspecs"
  | .field id => (workspace.store.field id).map (·.groups)
  | .subfield id => (workspace.store.subfield id).map (·.groups)

end Reading

/-- Reads a path and names it. -/
def readPath (name : Text) (nesting : Nesting) (argument : Argument) (workspace : Workspace) :
    Except Error Workspace := do
  let path ← Path.parse nesting (← argument.asText)
  return workspace.keep name .path (Store.intern path)

def readField (name : Text) (argument : Argument) (workspace : Workspace) :
    Except Error Workspace := do
  let field ← Field.parse (← argument.asText)
  return workspace.keep name .field (Store.addField field)

def readSubfield (name : Text) (argument : Argument) (workspace : Workspace) :
    Except Error Workspace := do
  let subfield ← Subfield.parse (← argument.asText)
  return workspace.keep name .subfield (Store.addSubfield subfield)

/-- Names a path without subfields that shares a stored field. -/
def wrapField (name : Text) (nesting : Nesting) (field : FieldId) (workspace : Workspace) :
    Workspace :=
  workspace.keep name .path (Store.addPath ⟨field, [], nesting⟩)

/-- Makes a path of a field, at a depth under a limit. -/
def wrap (name source : Text) (nesting : Nesting) (workspace : Workspace) :
    Except Error Workspace := do
  match ← workspace.find source with
  | .field id => return workspace.wrapField name nesting id
  | other => .error (.expectedText other.kind)

/-- Makes an outermost path of a field. -/
def setField (name : Text) (given : Given) (workspace : Workspace) : Except Error Workspace := do
  match given with
  | .argument value => .error (.expectedField value.kind)
  | .named source =>
    match ← workspace.find source with
    | .field id => return workspace.wrapField name .top id
    | other => .error (.expectedField other.kind)

/-- What is given, as an object or as an argument. -/
def resolve (workspace : Workspace) : Given → Except Error (Handle ⊕ Argument)
  | .named name => (workspace.find name).map .inl
  | .argument value => .ok (.inr value)

/-- The change that adds subfields to a named path. -/
def addition (target : Text) (given : Given) (workspace : Workspace) :
    Except Error (Store.Attempt Unit) := do
  let handle ← workspace.find target
  let value ← workspace.resolve given
  match handle, value with
  | .path id, .inl (.subfield subfield) => return Store.shareSubfield id subfield
  | .path _, .inl other => .error (.expectedText other.kind)
  | .path id, .inr argument => return Store.addSubfields id (← argument.asText)
  | other, _ => other.lacks "add_subfields"

/-- Adds subfields to a named path. If that fails, objects may be left that nothing refers to. -/
def addSubfields (target : Text) (given : Given) (workspace : Workspace) :
    Except Error Unit × Workspace :=
  match workspace.addition target given with
  | .error cause => (.error cause, workspace)
  | .ok change =>
    let (outcome, store) := change workspace.store
    (outcome, { workspace with store })

/-- Attaches a group to a field or subfield. -/
def attach (target : Text) (nesting : Nesting) (context : Text) (group : Argument)
    (workspace : Workspace) : Except Error Workspace := do
  let handle ← workspace.find target
  let read : Except Error (Group Path) := do
    Group.parseIn nesting context (← group.asText)
  match handle with
  | .path _ => handle.lacks "add_subspec"
  | .field id =>
    let group ← read
    return workspace.apply do Store.modifyField id (·.attach [← Store.internGroup group])
  | .subfield id =>
    let group ← read
    return workspace.apply do Store.modifySubfield id (·.attach [← Store.internGroup group])

/-- The subfields of a path with a code, as they are written. -/
def findSubfields (target : Text) (code : Argument) (workspace : Workspace) :
    Except Error (List Text) := do
  match ← workspace.find target with
  | .path id =>
    let code ← code.asText
    let layer ← workspace.store.layer id
    return (← layer.subfieldsWith code).map Subfield.render
  | other => other.lacks "get_subfield"

/-- Names the field of a path. -/
def takeField (target name : Text) (workspace : Workspace) : Except Error Workspace := do
  match ← workspace.find target with
  | .path id => return workspace.bind name (.field (← workspace.store.path id).field)
  | other => other.lacks "field"

/-- Names a subfield of a path by its place. -/
def takeSubfield (target : Text) (place : Int) (name : Text) (workspace : Workspace) :
    Except Error Workspace := do
  match ← workspace.find target with
  | .path id =>
    let subfield ← itemAt (← workspace.store.path id).subfields place
    return workspace.bind name (.subfield subfield)
  | other => other.lacks "subfields"

/-- A condition of a group by its place, which counts only among alternatives. -/
def conditionAt (group : Group PathId) (place : Int) : Except Error (Condition PathId) :=
  if group.others.isEmpty then .ok group.first else itemAt group.conditions place

/-- The term on a side of a condition. -/
def termOn (condition : Condition PathId) : Side → Term PathId
  | .left => condition.left
  | .right => .given condition.right

/-- Names the path of a term. An absent term stands for its context, which is read anew. -/
def takeNested (target : Text) (entry alternative : Int) (side : Side) (name : Text)
    (workspace : Workspace) : Except Error Workspace := do
  let handle ← workspace.find target
  let group ← itemAt (← workspace.groups handle) entry
  let condition ← conditionAt group alternative
  match termOn condition side with
  | .given (.path id _) => return workspace.bind name (.path id)
  | .given (.literal _) => .error (.unsupported "ComparisonTerm".toList "spec".toList)
  | .absent context =>
    let path ← Path.parse .top context
    return workspace.keep name .path (Store.intern path)

/-- Whether two objects are written alike, and whether they are one. -/
def compare (first second : Text) (workspace : Workspace) : Except Error (Bool × Bool) := do
  let a ← workspace.find first
  let b ← workspace.find second
  let alike := (← workspace.render a) == (← workspace.render b)
  return (a.kind == b.kind && alike, a == b)

end Workspace
end MarcPath
