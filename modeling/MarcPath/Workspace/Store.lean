import MarcPath.Path.Parse
import MarcPath.Path.Tree

/-! A store of shared objects. Paths refer to their field and subfields, and conditions to nested
paths, by number, so a change to one object shows wherever it is used. Rendering an object never
follows a reference to a nested path. -/
namespace MarcPath

structure PathId where
  number : Nat
  deriving Repr, DecidableEq

structure FieldId where
  number : Nat
  deriving Repr, DecidableEq

structure SubfieldId where
  number : Nat
  deriving Repr, DecidableEq

/-- A stored path, with its field and subfields by reference. -/
structure PathRecord where
  field : FieldId
  subfields : List SubfieldId
  nesting : Nesting
  deriving Repr, DecidableEq

structure Store where
  paths : Array PathRecord
  fields : Array (Field PathId)
  subfields : Array (Subfield PathId)

namespace Store

def empty : Store :=
  ⟨#[], #[], #[]⟩

section Access

variable (store : Store)

def path (id : PathId) : Except Error PathRecord :=
  (store.paths[id.number]?).elim (.error .outOfRange) .ok

def field (id : FieldId) : Except Error (Field PathId) :=
  (store.fields[id.number]?).elim (.error .outOfRange) .ok

def subfield (id : SubfieldId) : Except Error (Subfield PathId) :=
  (store.subfields[id.number]?).elim (.error .outOfRange) .ok

/-- A path with its own field and subfields in place, and nested paths by reference. -/
def layer (id : PathId) : Except Error (Layer PathId) := do
  let record ← store.path id
  let field ← store.field record.field
  let subfields ← List.mapM store.subfield record.subfields
  return ⟨field, subfields, record.nesting⟩

/-- Follows references to nested paths for so many levels. -/
def viewWithin : (levels : Nat) → PathId → Except Error Path
  | 0, _ => .error .circular
  | levels + 1, id => do
    let layer ← store.layer id
    return .mk (← layer.mapM (viewWithin levels))

/-- A stored path as a plain value. A chain of distinct paths is no longer than the store, so more
levels than that mean a path inside itself. -/
def view (id : PathId) : Except Error Path :=
  store.viewWithin store.paths.size id

end Access

/-- Changes to a store that bring about a result. -/
abbrev Change := StateM Store

def addField (field : Field PathId) : Change FieldId := fun store =>
  (⟨store.fields.size⟩, { store with fields := store.fields.push field })

def addSubfield (subfield : Subfield PathId) : Change SubfieldId := fun store =>
  (⟨store.subfields.size⟩, { store with subfields := store.subfields.push subfield })

def addPath (record : PathRecord) : Change PathId := fun store =>
  (⟨store.paths.size⟩, { store with paths := store.paths.push record })

/-- Stores a path whose nested paths are stored already. -/
def addLayer (layer : Layer PathId) : Change PathId := do
  let field ← addField layer.field
  let subfields ← List.mapM addSubfield layer.subfields
  addPath ⟨field, subfields, layer.nesting⟩

/-- Stores a path and all paths nested in it, as new objects. -/
def intern : Path → Change PathId :=
  Path.fold fun layer => do addLayer (← layer.mapM id)

/-- Stores the paths nested in a group. -/
def internGroup (group : Group Path) : Change (Group PathId) :=
  (group.map intern).mapM id

def modifyPath (id : PathId) (change : PathRecord → PathRecord) : Change Unit := fun store =>
  ((), { store with paths := store.paths.modify id.number change })

def modifyField (id : FieldId) (change : Field PathId → Field PathId) : Change Unit := fun store =>
  ((), { store with fields := store.fields.modify id.number change })

def modifySubfield (id : SubfieldId) (change : Subfield PathId → Subfield PathId) : Change Unit :=
  fun store => ((), { store with subfields := store.subfields.modify id.number change })

/-- Puts stored subfields behind those of a stored path. -/
def appendSubfields (id : PathId) (added : List SubfieldId) : Change Unit :=
  modifyPath id fun record => { record with subfields := record.subfields ++ added }

/-- Changes that may fail. What was done before a failure stays done. -/
abbrev Attempt := ExceptT Error Change

/-- An answer about the store as it is. -/
def ask {α : Type} (question : Store → Except Error α) : Attempt α := fun store =>
  (question store, store)

/-- Reads a group and stores the paths nested in it. -/
def createGroup (nesting : Nesting) (context text : Text) : Attempt (Group PathId) := do
  internGroup (← Group.parseIn nesting context text)

/-- Reads the subfield of a token and stores it with the groups of its segment. -/
def createSubfield (nesting : Nesting) (base : Text) (groups : List Text) (token : Text) :
    Attempt SubfieldId := do
  let head ← SubfieldHead.parse token
  let groups ← List.mapM (createGroup nesting (base ++ head.render)) groups
  addSubfield ⟨head, groups⟩

def createSegment (nesting : Nesting) (base : Text) (segment : Segment) :
    Attempt (List SubfieldId) := do
  let tokens ← segment.tokens
  List.mapM (createSubfield nesting base segment.groups) tokens

/-- Creates what a tail adds to a path: groups for its field, and subfields. -/
def createTail (nesting : Nesting) (base : Text) (tail : Tail) :
    Attempt (List (Group PathId) × List SubfieldId) := do
  let groups ← List.mapM (createGroup nesting base) tail.groups
  let subfields ← List.mapM (createSegment nesting base) tail.segments
  return (groups, subfields.flatten)

/-- Adds what a tail adds to a stored path. Nothing is attached before all of it has been created. -/
def addTail (id : PathId) (tail : Tail) : Attempt Unit := do
  let record ← ask (·.path id)
  let field ← ask (·.field record.field)
  let (groups, subfields) ← createTail record.nesting field.head.render tail
  modifyField record.field (·.attach groups)
  appendSubfields id subfields

/-- Adds the subfields of a text to a stored path. -/
def addSubfields (id : PathId) (text : Text) : Attempt Unit := do
  addTail id (← Tail.parseAdded text)

/-- Adds a stored subfield to a stored path; both then share it. -/
def shareSubfield (id : PathId) (subfield : SubfieldId) : Attempt Unit := do
  appendSubfields id [subfield]

end Store
end MarcPath
