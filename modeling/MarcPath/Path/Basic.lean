import MarcPath.Field

/-! A path names a field and subfields of a record. A `Layer` is a path with its nested paths left
open; a `Path` is a layer whose nested paths are paths. -/
namespace MarcPath

/-- How deep a path is nested and how deep nesting may go. -/
structure Nesting where
  maxDepth : Int
  depth : Int
  deriving Repr, DecidableEq

structure Layer (ρ : Type) where
  field : Field ρ
  subfields : List (Subfield ρ)
  nesting : Nesting
  deriving Repr

inductive Path where
  | mk (layer : Layer Path)

namespace Nesting

/-- The most levels of nested paths, unless another limit is given. -/
def defaultMaxDepth : Int := 32

/-- An outermost path under the default limit. -/
def top : Nesting :=
  ⟨defaultMaxDepth, 0⟩

/-- The nesting of the paths in the conditions of a path. -/
def deeper (nesting : Nesting) : Nesting :=
  { nesting with depth := nesting.depth + 1 }

/-- How many levels, this one included, the limit still allows. -/
def levels (nesting : Nesting) : Nat :=
  (nesting.maxDepth - nesting.depth + 1).toNat

end Nesting

namespace Layer

variable {ρ σ : Type}

def ofField (nesting : Nesting) (field : Field ρ) : Layer ρ :=
  ⟨field, [], nesting⟩

def render (layer : Layer ρ) : Text :=
  layer.field.render ++ layer.subfields.flatMap Subfield.render

def map (f : ρ → σ) (layer : Layer ρ) : Layer σ :=
  ⟨layer.field.map f, layer.subfields.map (Subfield.map f), layer.nesting⟩

theorem render_map (f : ρ → σ) (layer : Layer ρ) : (layer.map f).render = layer.render := by
  simp [Layer.render, Layer.map, List.flatMap_map, Field.render_map, Subfield.render_map]

def mapM {m : Type → Type} [Monad m] (f : ρ → m σ) (layer : Layer ρ) : m (Layer σ) := do
  let field ← layer.field.mapM f
  let subfields ← List.mapM (Subfield.mapM f) layer.subfields
  return ⟨field, subfields, layer.nesting⟩

/-- The subfields with a code. The code is one character or none, and none finds nothing. -/
def subfieldsWith (code : Text) (layer : Layer ρ) : Except Error (List (Subfield ρ)) :=
  if code.length > 1 then .error (.longCode code.length)
  else .ok (layer.subfields.filter fun subfield => [subfield.head.code] == code)

end Layer

namespace Path

def layer : Path → Layer Path
  | mk layer => layer

def field (path : Path) : Field Path :=
  path.layer.field

def subfields (path : Path) : List (Subfield Path) :=
  path.layer.subfields

def nesting (path : Path) : Nesting :=
  path.layer.nesting

def render (path : Path) : Text :=
  path.layer.render

/-- Paths are equal when they are written alike. -/
instance : BEq Path where
  beq a b := a.render == b.render

end Path
end MarcPath
