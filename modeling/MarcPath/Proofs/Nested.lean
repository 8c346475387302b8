import MarcPath.Proofs.Ask
import MarcPath.Proofs.Strip

/-! The texts of nested paths. They hold no blank and no bracket that is not shielded, so a path that
is nested has no groups and nests nothing; and their runs of digits are runs of the text around them. -/
namespace MarcPath

namespace Text

theorem heritable_unbracketed : Heritable Unbracketed where
  front := .of_append_left
  back free whole := whole.of_append_right free
  resume marks known continued := by
    refine known.append ?_ continued
    constructor <;> rintro rfl <;> revert marks <;> decide

theorem heritable_solid : Heritable fun text => text.hasBlank = false where
  front := hasBlank_of_infix (List.prefix_append _ _).isInfix
  back _ := hasBlank_of_infix (List.suffix_append _ _).isInfix
  resume _ known continued := by
    rw [hasBlank, List.any_append, ← hasBlank, ← hasBlank, known, continued]
    rfl

theorem heritable_digitsWithin (limit : Nat) : Heritable (DigitsWithin limit) where
  front known := known.of_part (List.prefix_append _ _).isInfix
  back _ known := known.of_part (List.suffix_append _ _).isInfix
  resume {first rest marker} marks known continued := by
    have apart : isDigit marker = false := by
      simp only [Reference.isMarker, Bool.or_eq_true, beq_iff_eq] at marks
      rcases marks with ((rfl | rfl) | rfl) | rfl <;> decide
    exact known.append_cons apart (continued.of_part (List.suffix_cons _ _).isInfix)

end Text

theorem Tail.exists_token {tail : Tail} {head : SubfieldHead} (named : tail.Names head) :
    ∃ segment ∈ tail.segments, head.render = segment.token ∨
      ∃ code, code.isAlphanum = true ∧ head.render = ['$', code] := by
  obtain ⟨segment, source, tokens, expanded, token, inside, read⟩ := named
  refine ⟨segment, source, ?_⟩
  rw [(SubfieldHead.of_parse read).1]
  exact (Segment.mem_tokens expanded inside).imp And.right id

namespace Layer

variable {text asked : Text} {head : FieldHead} {tail : Tail} {named : SubfieldHead}

theorem infix_of_cut (known : cut text = .ok (head, tail)) : head.render <:+: text := by
  obtain ⟨-, -, read, -⟩ := cut_eq_ok_iff.mp known
  rw [(FieldHead.of_parse read).1]
  exact (List.takeWhile_prefix _).isInfix

theorem infix_of_holds {group : Text} (known : cut text = .ok (head, tail))
    (holds : tail.Holds group) : group <:+: text := by
  obtain ⟨-, -, -, rest⟩ := cut_eq_ok_iff.mp known
  exact (Tail.infix_of_holds rest holds).trans (List.dropWhile_suffix _).isInfix

/-- Without groups a token stands in the text as it is. -/
theorem infix_of_segment {segment : Segment} (known : cut text = .ok (head, tail))
    (none : ∀ group, ¬ tail.Holds group) (source : segment ∈ tail.segments) :
    segment.token <:+: text := by
  obtain ⟨-, -, -, rest⟩ := cut_eq_ok_iff.mp known
  exact (Tail.infix_of_token rest none source).trans (List.dropWhile_suffix _).isInfix

theorem solid_of_segment {segment : Segment} (known : cut text = .ok (head, tail))
    (source : segment ∈ tail.segments) : segment.token.hasBlank = false := by
  obtain ⟨-, solid, -, rest⟩ := cut_eq_ok_iff.mp known
  rw [Text.solid_iff] at solid ⊢
  intro c member
  refine solid c ((List.dropWhile_suffix _).subset ((Tail.render_perm rest).subset ?_))
  refine List.mem_append_right _ (List.mem_flatMap.mpr ⟨segment, source, ?_⟩)
  exact List.mem_append_left _ member

theorem solid_of_token {segment : Segment} {tokens : List Text} {token : Text}
    (known : cut text = .ok (head, tail)) (source : segment ∈ tail.segments)
    (expanded : segment.tokens = .ok tokens) (inside : token ∈ tokens) : token.hasBlank = false := by
  rcases Segment.mem_tokens expanded inside with ⟨-, rfl⟩ | ⟨code, letter, rfl⟩
  · exact solid_of_segment known source
  · have blank : isBlank '$' = false := by decide
    simp [Text.hasBlank, isBlank_of_isAlphanum letter, blank]

theorem solid_of_names (known : cut text = .ok (head, tail)) (names : tail.Names named) :
    named.render.hasBlank = false := by
  obtain ⟨segment, source, tokens, expanded, token, inside, read⟩ := names
  rw [(SubfieldHead.of_parse read).1]
  exact solid_of_token known source expanded inside

/-- No token of the tail of a text has a longer run of digits. A token is put together from what stands
before and behind its groups, so this can fail where no run of the text is longer. -/
def TokensWithin (limit : Nat) (text : Text) : Prop :=
  ∀ head tail, cut text = .ok (head, tail) → ∀ segment ∈ tail.segments,
    Text.DigitsWithin limit segment.token

/-- The runs of digits of a token that names a subfield are those of its segment. -/
theorem digitsWithin_of_names {limit : Nat} (positive : 1 ≤ limit) (names : tail.Names named)
    (tokens : ∀ segment ∈ tail.segments, Text.DigitsWithin limit segment.token) :
    Text.DigitsWithin limit named.render := by
  obtain ⟨segment, source, same | ⟨code, -, same⟩⟩ := Tail.exists_token names
  · exact same ▸ tokens segment source
  · have single : Text.DigitsWithin limit [code] := .of_length_le positive
    have none : Text.DigitsWithin limit [] := .of_length_le (Nat.zero_le limit)
    exact same ▸ none.append_cons (by decide) single

namespace Asks

theorem unbracketed (asks : Asks text asked) : Text.Unbracketed asked := by
  refine Text.heritable_unbracketed.of_layer asks ?_ fun _ _ _ _ _ _ _ flat => flat
  intro head tail known
  obtain ⟨-, -, read, -⟩ := cut_eq_ok_iff.mp known
  refine ⟨.inert (FieldHead.of_parse read).2.isInert, ?_⟩
  rintro named ⟨_, _, _, _, _, _, read⟩
  exact (SubfieldHead.of_parse read).2.unbracketed

theorem solid (asks : Asks text asked) : asked.hasBlank = false := by
  apply Text.heritable_solid.of_layer asks
  · intro head tail known
    have solid := (cut_eq_ok_iff.mp known).2.1
    exact ⟨Text.hasBlank_of_infix (infix_of_cut known) solid, fun _ => solid_of_names known⟩
  · intro head tail known group holds termSet inside _
    have solid := (cut_eq_ok_iff.mp known).2.1
    exact Text.hasBlank_of_infix (inside.trans (infix_of_holds known holds)) solid

theorem digitsWithin {limit : Nat} (positive : 1 ≤ limit) (asks : Asks text asked)
    (within : Text.DigitsWithin limit text) (tokens : TokensWithin limit text) :
    Text.DigitsWithin limit asked := by
  apply (Text.heritable_digitsWithin limit).of_layer asks
  · intro head tail known
    exact ⟨within.of_part (infix_of_cut known), fun named names =>
      digitsWithin_of_names positive names (tokens head tail known)⟩
  · intro head tail known group holds termSet inside _
    exact within.of_part (inside.trans (infix_of_holds known holds))

end Asks

theorem flat_of_cut (flat : Text.Unbracketed text) (known : cut text = .ok (head, tail)) :
    Text.Unbracketed (tailText text) := by
  obtain ⟨-, -, read, -⟩ := cut_eq_ok_iff.mp known
  obtain ⟨written, head⟩ := FieldHead.of_parse read
  rw [← headText_append_tailText text] at flat
  apply flat.of_append_right
  rw [← written]
  exact Text.isShielded_lastFrom rfl head.isInert

/-- Where every bracket is shielded a layer has no groups. -/
theorem not_holds_of_cut {group : Text} (flat : Text.Unbracketed text)
    (known : cut text = .ok (head, tail)) : ¬ tail.Holds group :=
  Tail.not_holds (cut_eq_ok_iff.mp known).2.2.2 (flat_of_cut flat known)

theorem not_asks (flat : Text.Unbracketed text) : ¬ Asks text asked := by
  rintro ⟨known, attached, -⟩
  exact not_holds_of_cut flat known attached.holds

variable {ρ : Type} {nested : Text → Except Error ρ} {nesting : Nesting} {layer : Layer ρ}

/-- Every group of a layer that is read is a group of its tail. -/
theorem Read.holds (read : Read nested nesting text layer) :
    ∃ tail, cut text = .ok (layer.field.head, tail) ∧
      (∀ group ∈ layer.field.groups, tail.Holds group.render) ∧
      ∀ subfield ∈ layer.subfields, ∀ group ∈ subfield.groups, tail.Holds group.render := by
  obtain ⟨tail, parts, rest, groups, reads, same⟩ := read.parts
  refine ⟨tail, cut_eq_ok_iff.mpr ⟨read.long, read.solid, read.head, rest⟩, ?_, ?_⟩
  · intro group member
    left
    rw [← groups_eq groups]
    exact List.mem_map_of_mem member
  · intro subfield inside group member
    obtain ⟨segment, source, part, found, inside⟩ := exists_segment reads same inside
    obtain ⟨token, read, -⟩ := Segment.exists_token found inside
    have groups := congrArg Segment.groups (Segment.segment_of_subfield read)
    refine .inr ⟨segment, source, ?_⟩
    rw [← groups]
    exact List.mem_map_of_mem member

theorem Read.groups_eq_nil (read : Read nested nesting text layer) (flat : Text.Unbracketed text) :
    layer.field.groups = [] ∧ ∀ subfield ∈ layer.subfields, subfield.groups = [] := by
  obtain ⟨tail, known, field, subfields⟩ := read.holds
  constructor
  · apply List.eq_nil_iff_forall_not_mem.mpr
    intro group member
    exact not_holds_of_cut flat known (field group member)
  · intro subfield inside
    apply List.eq_nil_iff_forall_not_mem.mpr
    intro group member
    exact not_holds_of_cut flat known (subfields subfield inside group member)

end Layer
end MarcPath
