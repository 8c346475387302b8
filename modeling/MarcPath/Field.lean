import MarcPath.Condition
import MarcPath.Head

/-! Fields and subfields: a head and the groups of conditions attached to it. -/
namespace MarcPath

structure Field (ρ : Type) where
  head : FieldHead
  groups : List (Group ρ)
  deriving Repr

structure Subfield (ρ : Type) where
  head : SubfieldHead
  groups : List (Group ρ)
  deriving Repr

variable {ρ σ : Type}

namespace Field

def ofHead (head : FieldHead) : Field ρ :=
  ⟨head, []⟩

def parse (text : Text) : Except Error (Field ρ) :=
  (FieldHead.parse text).map ofHead

def render (field : Field ρ) : Text :=
  field.head.render ++ field.groups.flatMap Group.render

/-- Attaches further groups behind those already there. -/
def attach (field : Field ρ) (groups : List (Group ρ)) : Field ρ :=
  { field with groups := field.groups ++ groups }

def map (f : ρ → σ) (field : Field ρ) : Field σ :=
  ⟨field.head, field.groups.map (Group.map f)⟩

theorem render_map (f : ρ → σ) (field : Field ρ) : (field.map f).render = field.render := by
  simp [Field.render, Field.map, List.flatMap_map, Group.render_map]

def mapM {m : Type → Type} [Monad m] (f : ρ → m σ) (field : Field ρ) : m (Field σ) :=
  return ⟨field.head, ← List.mapM (Group.mapM f) field.groups⟩

/-- Fields are equal when they are written alike. -/
instance : BEq (Field ρ) where
  beq a b := a.render == b.render

end Field

namespace Subfield

def ofHead (head : SubfieldHead) : Subfield ρ :=
  ⟨head, []⟩

def parse (text : Text) : Except Error (Subfield ρ) :=
  (SubfieldHead.parse text).map ofHead

def render (subfield : Subfield ρ) : Text :=
  subfield.head.render ++ subfield.groups.flatMap Group.render

/-- Attaches further groups behind those already there. -/
def attach (subfield : Subfield ρ) (groups : List (Group ρ)) : Subfield ρ :=
  { subfield with groups := subfield.groups ++ groups }

def map (f : ρ → σ) (subfield : Subfield ρ) : Subfield σ :=
  ⟨subfield.head, subfield.groups.map (Group.map f)⟩

theorem render_map (f : ρ → σ) (subfield : Subfield ρ) :
    (subfield.map f).render = subfield.render := by
  simp [Subfield.render, Subfield.map, List.flatMap_map, Group.render_map]

def mapM {m : Type → Type} [Monad m] (f : ρ → m σ) (subfield : Subfield ρ) : m (Subfield σ) :=
  return ⟨subfield.head, ← List.mapM (Group.mapM f) subfield.groups⟩

/-- Subfields are equal when they are written alike. -/
instance : BEq (Subfield ρ) where
  beq a b := a.render == b.render

end Subfield
end MarcPath
