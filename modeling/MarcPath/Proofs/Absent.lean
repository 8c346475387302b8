import MarcPath.Proofs.Owner
import MarcPath.Proofs.Single

/-! Terms that are left out. In their place stands the context of their condition, which is read anew: as
the owner of the condition, without any conditions. -/
namespace MarcPath

variable {ρ : Type} {nested : Text → Except Error ρ} {context other : Text}

theorem Term.context_of_absent {term : Text} (found : Term.parse nested context term = .ok (.absent other)) :
    other = context := by
  unfold Term.parse at found
  split at found
  · exact (Term.absent.inj (Except.ok.inj found)).symm
  · obtain ⟨operand, -, same⟩ := map_eq_ok_iff.mp found
    cases same

/-- A term that is left out stands for the context in which its group was read. -/
theorem Group.context_of_absent {text : Text} {group : Group ρ} {condition : Condition ρ}
    (found : Group.parse nested context text = .ok group) (inside : condition ∈ group.conditions)
    (absent : condition.left = .absent other) : other = context := by
  obtain ⟨termSet, read⟩ := exists_read found inside
  exact Term.context_of_absent (absent ▸ read.left)

namespace SubfieldHead

variable {head : SubfieldHead}

/-- What is written of one subfield is no range: a bracket or a slash follows its code, if anything. -/
theorem isRange_render (head : SubfieldHead) (groups : List Text) :
    Segment.isRange ⟨head.render, groups⟩ = false := by
  have behind : ∀ c ∈ head.rest.head?, c ≠ '-' := by
    unfold rest
    cases head.index <;> cases head.characters <;>
      simp [Span.renderIndex, Span.renderCharacters, Span.renderAfter]
  rw [render_eq]
  cases following : head.rest with
  | nil => exact Segment.isRange_pair head.code groups
  | cons c later =>
    have other : (c == '-') = false := by simpa [following] using behind
    have dollar : ('$' == '-') = false := rfl
    simp only [Segment.isRange, List.findIdx?_cons, dollar, other]
    cases head.code == '-' <;> cases later.findIdx? (· == '-') <;> simp

/-- A subfield head is the token of a segment. -/
theorem WellFormed.segment (known : head.WellFormed) : Segment.WellFormed ⟨head.render, []⟩ := by
  refine ⟨⟨head.code :: head.rest, rfl, ?_⟩, by simp⟩
  intro mark member
  rcases List.mem_cons.mp member with rfl | member
  · rw [Mark.ofChar_shielded rfl]
    rfl
  · exact Mark.ofText_inert known.isInert _ mark member

/-- A subfield head without blanks is a subfield without groups that reads back. -/
theorem composed {base token : Text} (read : SubfieldHead.parse token = .ok head)
    (solid : head.render.hasBlank = false) :
    (Subfield.ofHead head).Composed nested base := by
  obtain ⟨rfl, known⟩ := of_parse read
  have found : Segment.subfield nested base [] head.render = .ok (Subfield.ofHead head) := by
    rw [Segment.subfield_of_no_groups, read]
    rfl
  exact ⟨by simpa [Subfield.render, Subfield.ofHead] using solid, known.segment,
    fun more => absurd rfl more, Segment.subfields_segment found (head.isRange_render [])⟩

end SubfieldHead

namespace Owner

variable {owner : Owner} {nesting : Nesting}

/-- The path of an owner, without any conditions. -/
def path (nesting : Nesting) (owner : Owner) : Path :=
  .mk ⟨.ofHead owner.field, owner.subfield.toList.map Subfield.ofHead, nesting⟩

/-- The tree of an owner, with all conditions left out. -/
def tree (owner : Owner) : Except Error Tree := do
  let field ← owner.field.entries
  let subfields ← List.mapM (fun head => head.entries.map .record) owner.subfield.toList
  return .record (("field".toList, .record field) :: Tree.listEntry "subfields" subfields)

theorem render_path (nesting : Nesting) (owner : Owner) : (owner.path nesting).render = owner.render := by
  obtain ⟨field, _ | subfield⟩ := owner <;>
    simp [path, Path.render, Path.layer, Layer.render, Field.render, Field.ofHead, Subfield.render,
      Subfield.ofHead, Owner.render]

theorem bare_path (nesting : Nesting) (owner : Owner) : (owner.path nesting).Bare := by
  refine ⟨rfl, ?_⟩
  intro subfield member
  obtain ⟨head, -, rfl⟩ := List.mem_map.mp member
  rfl

/-- Without groups, the record of a head is its entries. -/
private theorem record_of_no_groups (head : Except Error (List (Text × Tree))) :
    (do
      let entries ← head
      let groups ← List.mapM (Group.tree Path.tree) []
      return Tree.record (entries ++ Tree.listEntry "subspecs" groups)) = head.map .record := by
  cases head with
  | error error => rfl
  | ok entries => exact congrArg (Except.ok ∘ Tree.record) (List.append_nil entries)

theorem tree_path (nesting : Nesting) (owner : Owner) : (owner.path nesting).tree = owner.tree := by
  have field : (Field.ofHead owner.field).tree Path.tree = owner.field.entries.map .record :=
    record_of_no_groups owner.field.entries
  have subfield (head : SubfieldHead) :
      (Subfield.ofHead head).tree Path.tree = head.entries.map .record :=
    record_of_no_groups head.entries
  rw [path, Path.tree_mk, Layer.tree]
  simp only [field, subfield, List.mapM_map, Function.comp_def]
  unfold tree
  cases owner.field.entries <;> rfl

/-- The text of an owner without blanks is read as the path of that owner. -/
theorem Legit.parse_render (legit : owner.Legit) (room : nesting.depth ≤ nesting.maxDepth)
    (solid : owner.render.hasBlank = false) :
    Path.parse nesting owner.render = .ok (owner.path nesting) := by
  obtain ⟨field, part⟩ := owner
  obtain ⟨base, read⟩ := legit.field
  obtain ⟨rfl, known⟩ := FieldHead.of_parse read
  cases part with
  | none =>
    have alone : Owner.render ⟨field, none⟩ = field.render := List.append_nil _
    rw [alone] at solid ⊢
    rw [Path.parse_head room known.isInert solid (FieldHead.length_of_parse read), read]
    rfl
  | some head =>
    obtain ⟨token, read'⟩ := legit.subfield head rfl
    have back := Text.hasBlank_of_infix (List.suffix_append field.render head.render).isInfix solid
    have found := Path.parse_single room read (SubfieldHead.composed read' back)
    rwa [Subfield.render, Subfield.ofHead, List.flatMap_nil, List.append_nil] at found

end Owner

namespace Path

variable {path inner : Path} {nesting : Nesting} {text : Text} {owner : Owner} {condition : Condition Path}

/-- The conditions of a path, each with what it is attached to. -/
inductive Owns (path : Path) : Owner → Condition Path → Prop where
  | field {group : Group Path} {condition : Condition Path} (attached : group ∈ path.field.groups)
      (inside : condition ∈ group.conditions) : Owns path ⟨path.field.head, none⟩ condition
  | subfield {subfield : Subfield Path} {group : Group Path} {condition : Condition Path}
      (part : subfield ∈ path.subfields) (attached : group ∈ subfield.groups)
      (inside : condition ∈ group.conditions) : Owns path ⟨path.field.head, some subfield.head⟩ condition

theorem Bare.not_owns (bare : path.Bare) : ¬ path.Owns owner condition := by
  rintro (⟨attached, -⟩ | ⟨part, attached, -⟩)
  · simp [bare.1] at attached
  · simp [bare.2 _ part] at attached

/-- A path that stands in a condition has no conditions of its own. -/
theorem bare_of_inside (found : Path.parse nesting text = .ok path) (inside : Inside inner path) :
    inner.Bare := by
  have admits (text : Text) : Layer.Admits (fun _ => True) text :=
    .of_numeral (fun _ _ _ _ => trivial) (fun _ => trivial) text
  have outcome : Outcome _ _ (Path.parse nesting text) :=
    parse_flat_outcome (fun _ _ => trivial) admits text
  rw [found] at outcome
  cases inside with
  | direct member => exact (outcome inner member).2
  | deeper member inside => exact absurd inside (outcome _ member).2.not_inside

/-- What a condition of a path is attached to can be read, and is written as its context. -/
theorem Owns.of_parse (found : Path.parse nesting text = .ok path) (owns : path.Owns owner condition) :
    owner.Legit ∧ owner.render.hasBlank = false ∧
      ∀ context, condition.left = .absent context → context = owner.render := by
  obtain ⟨-, read⟩ := parse_eq_ok_iff.mp found
  obtain ⟨composed, -⟩ := read.composed
  cases owns with
  | field attached inside =>
    have written : Owner.render ⟨path.field.head, none⟩ = path.field.head.render := List.append_nil _
    rw [written]
    refine ⟨⟨⟨_, composed.field.head⟩, by simp⟩, FieldHead.solid_of_parse composed.field.head, ?_⟩
    intro context absent
    obtain ⟨text, -, read⟩ := exists_of_mem_mapM composed.field.read attached
    exact Group.context_of_absent read inside absent
  | @subfield subfield group _ part attached inside =>
    have known := composed.subfields subfield part
    obtain ⟨token, groups, reads⟩ := known.parts
    have back := Text.hasBlank_of_infix (List.prefix_append _ _).isInfix known.solid
    refine ⟨⟨⟨_, composed.field.head⟩, by simpa using token⟩, ?_, ?_⟩
    · exact FieldHead.solid_append composed.field.head back
    · intro context absent
      obtain ⟨text, -, read⟩ := exists_of_mem_mapM reads attached
      exact Group.context_of_absent read inside absent

/-- A term that is left out, in any condition of a path, stands for what the condition is attached to: read
anew, its context is the field of the path, or the field with that one subfield, and no conditions. It is
written as the context, and has the tree that they have without their conditions. -/
theorem absent_is_owner (found : Path.parse nesting text = .ok path) (part : IsPart inner path)
    (owns : inner.Owns owner condition) {context : Text} (absent : condition.left = .absent context) :
    ∃ value, Path.parse .top context = .ok value ∧ value.render = context ∧ value.Bare ∧
      value.tree = owner.tree := by
  rcases part with rfl | inside
  · obtain ⟨legit, solid, same⟩ := owns.of_parse found
    obtain rfl := same context absent
    have room : Nesting.top.depth ≤ Nesting.top.maxDepth := by decide
    exact ⟨owner.path .top, legit.parse_render room solid, owner.render_path .top, owner.bare_path .top,
      owner.tree_path .top⟩
  · exact absurd owns (bare_of_inside found inside).not_owns

/-- The code is a dollar here, and the second of two alternatives leaves its left term out. -/
theorem absent_is_owner_of_alternative :
    ∃ path owner condition, Path.parse .top "245[1]$$[0]{/1|![2]}".toList = .ok path ∧
      path.Owns owner condition ∧ condition.left = .absent "245[1]$$[0]".toList ∧
      ∃ value, Path.parse .top "245[1]$$[0]".toList = .ok value ∧
        value.render = "245[1]$$[0]".toList ∧ value.Bare ∧ value.tree = owner.tree := by
  obtain ⟨path, subfield, group, condition, found, part, attached, inside, absent⟩ :
      ∃ path subfield group condition, Path.parse .top "245[1]$$[0]{/1|![2]}".toList = .ok path ∧
        path.subfields = [subfield] ∧ subfield.groups = [group] ∧ group.others = [condition] ∧
        condition.left = .absent "245[1]$$[0]".toList := ⟨_, _, _, _, rfl, rfl, rfl, rfl, rfl⟩
  have source : subfield ∈ path.subfields := by simp [part]
  have member : group ∈ subfield.groups := by simp [attached]
  have second : condition ∈ group.conditions := List.mem_cons_of_mem _ (by simp [inside])
  have owns := Owns.subfield source member second
  exact ⟨path, _, _, found, owns, absent, absent_is_owner found (.inl rfl) owns absent⟩

end Path
end MarcPath
