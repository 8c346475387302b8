import MarcPath.Proofs.Layer
import MarcPath.Proofs.TermSet

/-! The texts for which the reader of a layer asks the reader of nested paths. A term is asked for as
it stands or behind the start of its context, and neither brings a group along. -/
namespace MarcPath

namespace Operand

/-- What a term stands for before a nested path is read: a literal, or the text of that path. -/
def request (context term : Text) : Except Error (Literal ⊕ Text) :=
  match term with
  | '\\' :: raw => (Literal.ofRaw raw).map .inl
  | _ =>
    if term.head?.any Reference.isMarker then (Reference.resolve context term).map .inr
    else .ok (.inr term)

/-- The operand of a term once its nested path is read. -/
def answer {ρ : Type} (nested : Text → Except Error ρ) (term : Text) :
    Literal ⊕ Text → Except Error (Operand ρ)
  | .inl value => .ok (literal value)
  | .inr text => (nested text).map (path · term)

theorem parse_eq {ρ : Type} (nested : Text → Except Error ρ) (context term : Text) :
    Operand.parse nested context term = request context term >>= answer nested term := by
  unfold Operand.parse
  split
  · rename_i raw
    change _ = (Literal.ofRaw raw).map .inl >>= answer nested ('\\' :: raw)
    cases Literal.ofRaw raw <;> rfl
  · rename_i other
    have same : request context term =
        if term.head?.any Reference.isMarker then (Reference.resolve context term).map .inr
        else .ok (.inr term) := by
      unfold request
      split
      · exact absurd rfl (other _)
      · rfl
    rw [same]
    split
    · cases resolved : Reference.resolve context term with
      | error error => rfl
      | ok text => cases nested text <;> rfl
    · cases nested term <;> rfl

/-- A term that is no literal stands for a path, relative to the context if it begins with a marker. -/
theorem request_cons {first : Char} (other : first ≠ '\\') (context rest : Text) :
    request context (first :: rest) =
      if Reference.isMarker first then (Reference.resolve context (first :: rest)).map .inr
      else .ok (.inr (first :: rest)) := by
  unfold request
  split
  · rename_i raw same
    exact absurd (List.cons.inj same).1 other
  · rfl

/-- A term asks for the text of a nested path. -/
def Asks (context term asked : Text) : Prop :=
  request context term = .ok (.inr asked)

end Operand

/-- A condition asks for what its terms ask for, if every bracket of it is shielded. -/
def Condition.Asks (context termSet asked : Text) : Prop :=
  Text.Unbracketed termSet ∧ ∃ term, term ≠ [] ∧
    (term = (TermSet.parse termSet).terms.1 ∨ term = (TermSet.parse termSet).terms.2) ∧
      Operand.Asks context term asked

/-- A group asks for what its alternatives ask for. -/
def Group.Asks (context group asked : Text) : Prop :=
  ∃ inner, Group.inner? group = some inner ∧
    ∃ termSet ∈ (Group.alternatives inner).1 :: (Group.alternatives inner).2,
      Condition.Asks context termSet asked

/-- The groups of a tail, each with a context in which it is read. -/
inductive Tail.Attaches (base : Text) (tail : Tail) : (context group : Text) → Prop where
  | field {group : Text} (member : group ∈ tail.groups) : Attaches base tail base group
  | subfield {segment : Segment} {tokens : List Text} {token group : Text} {head : SubfieldHead}
      (source : segment ∈ tail.segments) (expanded : segment.tokens = .ok tokens)
      (inside : token ∈ tokens) (read : SubfieldHead.parse token = .ok head)
      (member : group ∈ segment.groups) : Attaches base tail (base ++ head.render) group

/-- A layer asks for what its groups ask for. -/
inductive Layer.Asks (text : Text) : Text → Prop where
  | group {head : FieldHead} {tail : Tail} {context group asked : Text}
      (known : Layer.cut text = .ok (head, tail)) (attached : tail.Attaches head.render context group)
      (asks : Group.Asks context group asked) : Asks text asked

/-- What stands before the last occurrence of a character is a front part. -/
theorem Text.exists_of_beforeLast {mark : Char} {text kept : Text}
    (found : beforeLast mark text = some kept) : ∃ rest, text = kept ++ mark :: rest ∧ mark ∉ rest := by
  induction text generalizing kept with
  | nil => cases found
  | cons c rest ih =>
    unfold beforeLast at found
    split at found
    · rename_i kept' later
      obtain rfl := Option.some.inj found
      obtain ⟨behind, rfl, absent⟩ := ih later
      exact ⟨behind, rfl, absent⟩
    · rename_i none
      split at found
      · rename_i same
        obtain rfl := Option.some.inj found
        exact ⟨rest, by rw [beq_iff_eq.mp same]; rfl, beforeLast_eq_none_iff.mp none⟩
      · cases found

/-- A text can be cut at the last of its occurrences of a character. -/
theorem Text.exists_last {mark : Char} {text : Text} (member : mark ∈ text) :
    ∃ kept rest, text = kept ++ mark :: rest ∧ mark ∉ rest := by
  cases cut : beforeLast mark text with
  | none => exact absurd member (beforeLast_eq_none_iff.mp cut)
  | some kept => exact ⟨kept, exists_of_beforeLast cut⟩

theorem Reference.exists_of_resolve {context term asked : Text}
    (found : resolve context term = .ok asked) : ∃ kept, kept <+: context ∧ asked = kept ++ term := by
  unfold resolve at found
  split at found
  · cases found
  · split at found
    · cases found
    · split at found
      · rename_i marker rest _ first kept cut
        obtain ⟨behind, whole, -⟩ := Text.exists_of_beforeLast cut
        obtain rfl := Except.ok.inj found
        exact ⟨first :: kept, ⟨marker :: behind, whole.symm⟩, rfl⟩
      · obtain rfl := Except.ok.inj found
        exact ⟨context, List.prefix_rfl, rfl⟩

/-- What is asked for is the term, or a front part of the context that the term continues. -/
theorem Operand.Asks.cases {context term asked : Text} (asks : Operand.Asks context term asked) :
    asked = term ∨ ∃ kept marker rest, kept <+: context ∧ Reference.isMarker marker = true ∧
      term = marker :: rest ∧ asked = kept ++ marker :: rest := by
  unfold Operand.Asks Operand.request at asks
  split at asks
  · obtain ⟨literal, -, same⟩ := map_eq_ok_iff.mp asks
    cases same
  · split at asks
    · rename_i marked
      obtain ⟨text, resolved, same⟩ := map_eq_ok_iff.mp asks
      obtain rfl := Sum.inr.inj same
      obtain ⟨kept, front, rfl⟩ := Reference.exists_of_resolve resolved
      cases term with
      | nil => cases marked
      | cons marker rest => exact .inr ⟨kept, marker, rest, front, marked, rfl, rfl⟩
    · exact .inl (Sum.inr.inj (Except.ok.inj asks)).symm

/-- A property of term sets and contexts that they pass on to the texts they ask for. -/
structure Text.Heritable (property : Text → Prop) : Prop where
  front {first second : Text} : property (first ++ second) → property first
  back {first second : Text} : isShielded (lastFrom none first) = false →
    property (first ++ second) → property second
  resume {first rest : Text} {marker : Char} : Reference.isMarker marker = true →
    property first → property (marker :: rest) → property (first ++ marker :: rest)

namespace Text.Heritable

variable {property : Text → Prop} (heritable : Heritable property)
include heritable

theorem of_condition {context termSet asked : Text} (known : property context)
    (known' : property termSet) (asks : Condition.Asks context termSet asked) : property asked := by
  obtain ⟨-, term, -, member, asks⟩ := asks
  have inherited : property term := by
    rcases TermSet.term_cases member with ⟨rest, rfl⟩ | ⟨front, rfl, free⟩
    · exact heritable.front known'
    · exact heritable.back free known'
  rcases asks.cases with rfl | ⟨kept, marker, rest, ⟨behind, rfl⟩, marks, rfl, rfl⟩
  · exact inherited
  · exact heritable.resume marks (heritable.front known) inherited

end Text.Heritable

theorem Tail.Attaches.holds {base context group : Text} {tail : Tail}
    (attached : tail.Attaches base context group) : tail.Holds group := by
  cases attached with
  | field member => exact .inl member
  | subfield source _ _ _ member => exact .inr ⟨_, source, member⟩

theorem Group.Asks.exists_termSet {context group asked : Text} (asks : Group.Asks context group asked) :
    ∃ termSet, termSet <:+: group ∧ Condition.Asks context termSet asked := by
  obtain ⟨inner, cut, termSet, member, asks⟩ := asks
  have inside := Group.infix_of_mem_alternatives member
  rw [Group.inner?_eq_some_iff.mp cut]
  exact ⟨termSet, inside.trans ⟨['{'], ['}'], by simp⟩, asks⟩

/-- The subfield heads that the tokens of a tail are read as. -/
def Tail.Names (tail : Tail) (head : SubfieldHead) : Prop :=
  ∃ segment ∈ tail.segments, ∃ tokens, segment.tokens = .ok tokens ∧
    ∃ token ∈ tokens, SubfieldHead.parse token = .ok head

/-- What a layer asks for takes over the properties of its heads and of its term sets. -/
theorem Text.Heritable.of_layer {property : Text → Prop} (heritable : Heritable property)
    {text asked : Text} (asks : Layer.Asks text asked)
    (heads : ∀ head tail, Layer.cut text = .ok (head, tail) →
      property head.render ∧ ∀ named, tail.Names named → property named.render)
    (termSets : ∀ head tail, Layer.cut text = .ok (head, tail) → ∀ group, tail.Holds group →
      ∀ termSet, termSet <:+: group → Text.Unbracketed termSet → property termSet) :
    property asked := by
  obtain ⟨known, attached, asks⟩ := asks
  obtain ⟨termSet, inside, asks⟩ := asks.exists_termSet
  obtain ⟨base, names⟩ := heads _ _ known
  have inherited := termSets _ _ known _ attached.holds termSet inside asks.1
  refine heritable.of_condition ?_ inherited asks
  cases attached with
  | field member => exact base
  | subfield source expanded token read member =>
    have named := names _ ⟨_, source, _, expanded, _, token, read⟩
    rw [SubfieldHead.render_eq] at named ⊢
    exact heritable.resume rfl base named

end MarcPath
