import MarcPath.Error
import MarcPath.Mark

/-! The tail of a path is what follows its field: groups in brackets that belong to the field, then
segments, each a subfield token and the groups that belong to it. -/
namespace MarcPath

/-- A subfield token and its bracketed groups, all as written. -/
structure Segment where
  token : Text
  groups : List Text
  deriving Repr, DecidableEq

structure Tail where
  /-- The groups that stand before the first subfield token. -/
  groups : List Text
  segments : List Segment
  deriving Repr, DecidableEq

/-- A tail that is read from inside a token or a group. -/
structure Tail.Pending where
  /-- What is still to come of the token. -/
  token : Text
  /-- What is still to come of the group that is open. -/
  group : Text
  /-- The further groups of the token. -/
  groups : List Text
  segments : List Segment
  deriving Repr, DecidableEq

namespace Tail

/-- Reads on with `depth` brackets open. Plain characters outside of brackets belong to the token,
so they are out of place until a dollar has begun one. -/
def read (inToken : Bool) : (depth : Nat) → List Mark → Except (Part × Fault) Pending
  | 0, [] => .ok ⟨[], [], [], []⟩
  | 0, .opening :: rest => do
    let next ← read inToken 1 rest
    return { next with group := [], groups := ('{' :: next.group) :: next.groups }
  | 0, .closing :: _ => .error (.path, .unbalanced)
  | 0, .dollar :: rest => do
    let next ← read true 0 rest
    return ⟨[], [], [], ⟨'$' :: next.token, next.groups⟩ :: next.segments⟩
  | 0, .plain c :: rest =>
    if inToken then do
      let next ← read inToken 0 rest
      return { next with token := c :: next.token }
    else .error (.subfield, .missingDollar)
  | _ + 1, [] => .error (.path, .unbalanced)
  | depth + 1, mark :: rest => do
    let next ← read inToken
      (match mark with
        | .opening => depth + 2
        | .closing => depth
        | _ => depth + 1) rest
    return { next with group := mark.char :: next.group }

/-- Reads a whole tail. -/
def parse (text : Text) : Except Error Tail :=
  match read false 0 (Mark.ofText none text) with
  | .ok tail => .ok ⟨tail.groups, tail.segments⟩
  | .error (part, fault) => violates part fault text

end Tail

/-- The codes from one character to another, upwards or downwards. -/
def codesBetween (first last : Char) : List Char :=
  let upwards (low high : Char) : List Char :=
    (List.range (high.toNat - low.toNat + 1)).map fun step => Char.ofNat (low.toNat + step)
  if first ≤ last then upwards first last else (upwards last first).reverse

/-- Whether both characters are lowercase letters, or both uppercase ones, or both digits. -/
def sameClass (first last : Char) : Bool :=
  (first.isLower && last.isLower) || (first.isUpper && last.isUpper) ||
    (first.isDigit && last.isDigit)

/-- The tokens that a range such as `a-c` stands for. -/
def expandRange (range : Text) : Except Error (List Text) :=
  match range with
  | [first, dash, last] =>
    if dash == '-' && sameClass first last then
      .ok ((codesBetween first last).map fun code => ['$', code])
    else violates .subfield .rangeEnds range
  | _ => violates .subfield .rangeLength range

namespace Segment

/-- A token is a range when its first dash follows the dollar and one more character. -/
def isRange (segment : Segment) : Bool :=
  segment.token.findIdx? (· == '-') == some 2

/-- The subfields that a segment speaks of, each by its own token. -/
def tokens (segment : Segment) : Except Error (List Text) :=
  if segment.isRange then expandRange (segment.token.drop 1) else .ok [segment.token]

end Segment
end MarcPath
