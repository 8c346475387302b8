import MarcPath.Literal
import MarcPath.Reference
import MarcPath.TermSet

/-! Conditions restrict a field or subfield by comparing terms. What a nested path is stays open here
(`ρ`): rendering never looks inside one, and reading is given a reader for them. -/
namespace MarcPath

/-- A written term: a literal, or a nested path beside its spelling before it was resolved. -/
inductive Operand (ρ : Type) where
  | literal (value : Literal)
  | path (value : ρ) (source : Text)
  deriving Repr, BEq

/-- A term on the left, which may be left out; it then stands for the context itself. -/
inductive Term (ρ : Type) where
  | absent (context : Text)
  | given (operand : Operand ρ)
  deriving Repr, BEq

/-- A comparison; `source` is the term set as written, if it was read from a text. -/
structure Condition (ρ : Type) where
  left : Term ρ
  operator : Operator
  right : Operand ρ
  source : Option Text
  deriving Repr

/-- One bracketed group: conditions of which any may hold. -/
structure Group (ρ : Type) where
  first : Condition ρ
  others : List (Condition ρ)
  deriving Repr

variable {ρ σ : Type}

namespace Operand

def render : Operand ρ → Text
  | literal value => value.render
  | path _ source => source

def map (f : ρ → σ) : Operand ρ → Operand σ
  | literal value => literal value
  | path value source => path (f value) source

theorem render_map (f : ρ → σ) (operand : Operand ρ) :
    (operand.map f).render = operand.render := by
  cases operand <;> rfl

def mapM {m : Type → Type} [Monad m] (f : ρ → m σ) : Operand ρ → m (Operand σ)
  | literal value => pure (literal value)
  | path value source => return path (← f value) source

/-- Reads a written term. A backslash begins a literal, a marker a relative path. -/
def parse (nested : Text → Except Error ρ) (context term : Text) : Except Error (Operand ρ) :=
  match term with
  | '\\' :: raw => (Literal.ofRaw raw).map literal
  | _ => do
    let text ← if term.head?.any Reference.isMarker then Reference.resolve context term else .ok term
    return path (← nested text) term

end Operand

namespace Term

def render : Term ρ → Text
  | absent _ => []
  | given operand => operand.render

def map (f : ρ → σ) : Term ρ → Term σ
  | absent context => absent context
  | given operand => given (operand.map f)

theorem render_map (f : ρ → σ) (term : Term ρ) : (term.map f).render = term.render := by
  cases term with
  | absent context => rfl
  | given operand => exact operand.render_map f

def mapM {m : Type → Type} [Monad m] (f : ρ → m σ) : Term ρ → m (Term σ)
  | absent context => pure (absent context)
  | given operand => return given (← operand.mapM f)

def parse (nested : Text → Except Error ρ) (context term : Text) : Except Error (Term ρ) :=
  if term.isEmpty then .ok (absent context) else (Operand.parse nested context term).map given

end Term

/-- The two terms in place: an operator of one term may also follow it. -/
def TermSet.terms (set : TermSet) : Text × Text :=
  if set.right.isEmpty && set.operator.any Operator.isUnary then ([], set.left)
  else (set.left, set.right)

namespace Condition

/-- Conditions are equal when they compare the same terms the same way, however they are written. -/
instance [BEq ρ] : BEq (Condition ρ) where
  beq a b := a.left == b.left && a.operator == b.operator && a.right == b.right

/-- A condition without its brackets: as written, or composed of its terms. -/
def termSet (condition : Condition ρ) : Text :=
  condition.source.getD
    (condition.left.render ++ condition.operator.symbol ++ condition.right.render)

def render (condition : Condition ρ) : Text :=
  '{' :: condition.termSet ++ ['}']

def map (f : ρ → σ) (condition : Condition ρ) : Condition σ :=
  ⟨condition.left.map f, condition.operator, condition.right.map f, condition.source⟩

/-- What is written does not depend on the nested paths. -/
theorem termSet_map (f : ρ → σ) (condition : Condition ρ) :
    (condition.map f).termSet = condition.termSet := by
  simp [Condition.termSet, Condition.map, Term.render_map, Operand.render_map]

def mapM {m : Type → Type} [Monad m] (f : ρ → m σ) (condition : Condition ρ) : m (Condition σ) := do
  let left ← condition.left.mapM f
  let right ← condition.right.mapM f
  return ⟨left, condition.operator, right, condition.source⟩

/-- Puts a condition together. The operator is checked before the right term, which has to be
there. -/
def make (left : Option (Term ρ)) (operator : Text) (right : Option (Term ρ))
    (source : Option Text) : Except Error (Condition ρ) :=
  match Operator.ofText? operator, right with
  | none, _ => violates .condition .unknownOperator operator
  | some known, some (.given operand) =>
    .ok ⟨left.getD (.absent []), known, operand, source⟩
  | some _, _ =>
    violates .condition .missingRight ((source.filter (!·.isEmpty)).getD operator)

/-- Reads one condition of the group `group`. Without an operator it asks for presence. -/
def parse (nested : Text → Except Error ρ) (context group termSet : Text) :
    Except Error (Condition ρ) :=
  if (Mark.ofText none termSet).any Mark.isBracket then violates .condition .unescaped group
  else
    let set := TermSet.parse termSet
    let (left, right) := set.terms
    if right.isEmpty then
      violates .condition .missingRight (if termSet.isEmpty then group else termSet)
    else do
      let left ← Term.parse nested context left
      let right ← Operand.parse nested context right
      make (some left) (set.operator.getD .present).symbol (some (.given right)) (some termSet)

end Condition

namespace Group

def conditions (group : Group ρ) : List (Condition ρ) :=
  group.first :: group.others

def render (group : Group ρ) : Text :=
  '{' :: List.intercalate ['|'] (group.conditions.map Condition.termSet) ++ ['}']

def map (f : ρ → σ) (group : Group ρ) : Group σ :=
  ⟨group.first.map f, group.others.map (Condition.map f)⟩

theorem render_map (f : ρ → σ) (group : Group ρ) : (group.map f).render = group.render := by
  simp [Group.render, Group.conditions, Group.map, Condition.termSet_map, Function.comp_def]

def mapM {m : Type → Type} [Monad m] (f : ρ → m σ) (group : Group ρ) : m (Group σ) := do
  let first ← group.first.mapM f
  let others ← List.mapM (Condition.mapM f) group.others
  return ⟨first, others⟩

/-- The text between the brackets of a group. -/
def inner? : Text → Option Text
  | '{' :: rest => if rest.getLast? == some '}' then some rest.dropLast else none
  | _ => none

/-- The term sets of a group, which stand between bars; a bar after a backslash is plain. -/
def alternatives (inner : Text) : Text × List Text :=
  inner.splitAfter (fun before c => c == '|' && before != some '\\') none

def parse (nested : Text → Except Error ρ) (context group : Text) : Except Error (Group ρ) :=
  match inner? group with
  | none => violates .condition .unbalanced group
  | some inner => do
    let (first, others) := alternatives inner
    let first ← Condition.parse nested context group first
    let others ← List.mapM (Condition.parse nested context group) others
    return ⟨first, others⟩

end Group
end MarcPath
