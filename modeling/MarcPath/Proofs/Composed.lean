import MarcPath.Proofs.Layer
import MarcPath.Proofs.Strip

/-! Parts of a layer that read back on their own: a field with its groups, and a subfield with the groups
of its segment. What is read from a text is made of such parts. A layer made of them is written as a text
that reads back as the same layer, unless a token that ends in a shield stands in front of another. -/
namespace MarcPath

variable {ρ : Type} {nested : Text → Except Error ρ} {base text : Text}

/-- A field that reads back: its head from what is written of it, its groups in the context of that. -/
structure Field.Composed (nested : Text → Except Error ρ) (field : Field ρ) : Prop where
  head : FieldHead.parse field.head.render = .ok field.head
  solid : field.render.hasBlank = false
  isGroup : ∀ group ∈ field.groups, IsGroup group.render
  read : List.mapM (Group.parse nested field.head.render) (field.groups.map Group.render) =
    .ok field.groups

/-- A subfield that reads back from a segment of its own. -/
structure Subfield.Composed (nested : Text → Except Error ρ) (base : Text) (subfield : Subfield ρ) :
    Prop where
  solid : subfield.render.hasBlank = false
  wellFormed : subfield.segment.WellFormed
  ended : subfield.groups ≠ [] → isShielded subfield.head.render.getLast? = false
  read : Segment.subfields nested base subfield.segment = .ok [subfield]

/-- A subfield that is read back was read from a token, its groups in the context of that token. -/
theorem Subfield.Composed.parts {base : Text} {subfield : Subfield ρ}
    (composed : subfield.Composed nested base) :
    (∃ token, SubfieldHead.parse token = .ok subfield.head) ∧
      ∃ groups, List.mapM (Group.parse nested (base ++ subfield.head.render)) groups =
        .ok subfield.groups := by
  obtain ⟨tokens, -, reads, -⟩ := Segment.of_subfields composed.read
  obtain ⟨token, -, read⟩ := exists_of_mem_mapM reads (List.mem_singleton.mpr rfl)
  obtain ⟨head, groups⟩ := Segment.subfield_eq_ok_iff.mp read
  exact ⟨⟨token, head⟩, _, groups⟩

/-- A layer made of parts that read back. -/
structure Layer.Composed (nested : Text → Except Error ρ) (layer : Layer ρ) : Prop where
  field : layer.field.Composed nested
  subfields : ∀ subfield ∈ layer.subfields, subfield.Composed nested layer.field.head.render

theorem FieldHead.solid_append {head : FieldHead} (read : FieldHead.parse base = .ok head)
    (solid : text.hasBlank = false) : (base ++ text).hasBlank = false := by
  rw [Text.hasBlank, List.any_append, ← Text.hasBlank, ← Text.hasBlank, solid, solid_of_parse read]
  rfl

/-- A text is cut where its tail begins, whether both parts can be read or not. -/
theorem Layer.cut_of_inert {front tail : Text} (inert : ∀ c ∈ front, isInert c = true)
    (long : 3 ≤ front.length) (solid : (front ++ tail).hasBlank = false)
    (begins : tail = [] ∨ ∃ c rest, tail = c :: rest ∧ Layer.startsTail c = true) :
    Layer.cut (front ++ tail) = (do
      let head ← FieldHead.parse front
      let tail ← Tail.parse tail
      return (head, tail)) := by
  obtain ⟨first, second⟩ := Layer.headText_append inert begins
  have nonempty : front ≠ [] := by
    intro none
    rw [none] at long
    cases long
  have enough : ¬ (front ++ tail).length < 3 := by
    rw [List.length_append]
    omega
  rw [Layer.cut, first, second, if_neg (by simp [nonempty]), if_neg enough, if_neg (by simp [solid]),
    if_neg (by simp [nonempty])]

/-- Behind a field head that reads back, the rest of a text is its tail. -/
theorem Layer.cut_append {head : FieldHead} {tail : Text} (read : FieldHead.parse base = .ok head)
    (solid : tail.hasBlank = false)
    (begins : tail = [] ∨ ∃ c rest, tail = c :: rest ∧ Layer.startsTail c = true) :
    Layer.cut (base ++ tail) = (Tail.parse tail).map (head, ·) := by
  obtain ⟨rfl, known⟩ := FieldHead.of_parse read
  rw [cut_of_inert known.isInert (FieldHead.length_of_parse read) (FieldHead.solid_append read solid)
    begins, read]
  cases Tail.parse tail <;> rfl

/-- A head that reads back is a field without groups that does. -/
theorem Field.Composed.ofHead {head : FieldHead} (read : FieldHead.parse head.render = .ok head) :
    (Field.ofHead head).Composed nested where
  head := read
  solid := by simpa [Field.render, Field.ofHead] using FieldHead.solid_of_parse read
  isGroup := by simp [Field.ofHead]
  read := rfl

/-- A letter or digit with groups that read back is a subfield that reads back. -/
theorem Subfield.composed_of_code {code : Char} {groups : List (Group ρ)}
    (letter : code.isAlphanum = true) (solid : ∀ group ∈ groups, group.render.hasBlank = false)
    (isGroup : ∀ group ∈ groups, IsGroup group.render)
    (read : List.mapM (Group.parse nested (base ++ ['$', code])) (groups.map Group.render) = .ok groups) :
    Subfield.Composed nested base ⟨⟨code, none, none⟩, groups⟩ := by
  have written : SubfieldHead.render ⟨code, none, none⟩ = ['$', code] := rfl
  have inert := isInert_of_isAlphanum letter
  have found : Segment.subfield nested base (groups.map Group.render) ['$', code] =
      .ok ⟨⟨code, none, none⟩, groups⟩ :=
    Segment.subfield_eq_ok_iff.mpr ⟨SubfieldHead.parse_code letter, written.symm ▸ read⟩
  have plain : ∀ mark ∈ Mark.ofText (some '$') [code], mark.isPlain = true :=
    Mark.ofText_inert (by simpa using inert) _
  refine ⟨?_, ⟨⟨[code], written, plain⟩, ?_⟩, ?_, ?_⟩
  · rw [Subfield.render, written, Text.hasBlank, List.any_append, Bool.or_eq_false_iff]
    have dollar : isBlank '$' = false := by decide
    refine ⟨by simp [dollar, isBlank_of_isAlphanum letter], ?_⟩
    rw [List.any_flatMap, List.any_eq_false]
    intro group member
    exact Bool.eq_false_iff.mp (solid group member)
  · intro group member
    obtain ⟨known, inside, rfl⟩ := List.mem_map.mp member
    exact isGroup known inside
  · intro _
    exact isShield_of_isInert inert
  · exact Segment.subfields_segment found (Segment.isRange_pair code _)

namespace Tail

variable {tail : Tail} {parts : List (List (Subfield ρ))}

theorem Separated.ended {segments : List Segment} (separated : Separated segments) {segment : Segment}
    (member : segment ∈ segments) (more : segment.groups ≠ []) :
    isShielded segment.token.getLast? = false := by
  induction segments with
  | nil => cases member
  | cons first rest ih =>
    rcases List.mem_cons.mp member with rfl | member
    · exact separated.1 (.inl more)
    · exact ih separated.2 member

/-- The characters of the subfields of a tail are those of its text, and letters, digits and dollars. -/
theorem solid_of_parts (cut : Tail.parse text = .ok tail) (solid : text.hasBlank = false)
    (reads : List.mapM (Segment.subfields nested base) tail.segments = .ok parts)
    {subfield : Subfield ρ} (member : subfield ∈ parts.flatten) : subfield.render.hasBlank = false := by
  obtain ⟨part, known, inside⟩ := List.mem_flatten.mp member
  obtain ⟨segment, source, found⟩ := exists_of_mem_mapM reads known
  rw [Text.hasBlank, List.any_eq_false] at solid ⊢
  intro c member
  rcases Segment.mem_render_segment found inside member with member | letter | rfl
  · apply solid c
    apply (Tail.render_perm cut).subset
    exact List.mem_append_right _ (List.mem_flatMap.mpr ⟨segment, source, member⟩)
  · simp [isBlank_of_isAlphanum letter]
  · decide

/-- What the segments of a tail are read as are subfields that read back, and what is written of them
keeps apart as they did in the text. -/
theorem composed_of_parts (cut : Tail.parse text = .ok tail) (solid : text.hasBlank = false)
    (reads : List.mapM (Segment.subfields nested base) tail.segments = .ok parts) :
    (∀ subfield ∈ parts.flatten, subfield.Composed nested base) ∧
      Separated (parts.flatten.map Subfield.segment) := by
  have scan := Tail.parse_eq_ok_iff.mp cut
  have separated := Segment.separated_of_parted (mapM_eq_ok_iff.mp reads) scan.parted
  refine ⟨?_, separated⟩
  intro subfield member
  obtain ⟨part, known, inside⟩ := List.mem_flatten.mp member
  obtain ⟨segment, source, found⟩ := exists_of_mem_mapM reads known
  refine ⟨solid_of_parts cut solid reads member,
    Segment.wellFormed_segment (scan.wellFormed segment source) found inside, ?_,
    Segment.subfields_segment_of_mem found inside⟩
  intro more
  exact separated.ended (List.mem_map_of_mem member) (by simpa [Subfield.segment] using more)

end Tail

namespace Layer

variable {nesting : Nesting} {layer : Layer ρ}

namespace Read

theorem composed (read : Read nested nesting text layer) :
    layer.Composed nested ∧ Tail.Separated layer.tail.segments := by
  obtain ⟨tail, parts, cut, groups, reads, same⟩ := read.parts
  obtain ⟨written, -⟩ := FieldHead.of_parse read.head
  have front : (headText text).hasBlank = false :=
    Text.hasBlank_of_infix (List.takeWhile_prefix _).isInfix read.solid
  have back : (tailText text).hasBlank = false :=
    Text.hasBlank_of_infix (List.dropWhile_suffix _).isInfix read.solid
  obtain ⟨subfields, separated⟩ := Tail.composed_of_parts cut back reads
  have known := groups_eq groups
  refine ⟨⟨⟨by rw [written, read.head], ?_, ?_, ?_⟩, same ▸ subfields⟩, ?_⟩
  · have attached : layer.field.groups.flatMap Group.render = tail.groups.flatten := by
      rw [List.flatMap_def]
      exact congrArg List.flatten known
    rw [Field.render, written, attached, Text.hasBlank, List.any_append, Bool.or_eq_false_iff]
    refine ⟨front, ?_⟩
    rw [Text.hasBlank, List.any_eq_false] at back
    rw [List.any_eq_false]
    intro c member
    exact back c ((Tail.render_perm cut).subset (List.mem_append_left _ member))
  · intro group member
    apply (Tail.parse_eq_ok_iff.mp cut).groups_isGroup
    exact known ▸ List.mem_map_of_mem member
  · rw [show layer.field.groups.map Group.render = tail.groups from known, groups]
  · rw [Layer.tail, same]
    exact separated

end Read

namespace Composed

theorem solid_render (composed : layer.Composed nested) : layer.render.hasBlank = false := by
  have field := composed.field.solid
  have subfields : ∀ subfield ∈ layer.subfields, ∀ c ∈ subfield.render, ¬ isBlank c = true :=
    fun subfield member => List.any_eq_false.mp (composed.subfields subfield member).solid
  rw [Text.hasBlank, List.any_eq_false] at field ⊢
  intro c member
  rcases List.mem_append.mp member with member | member
  · exact field c member
  · obtain ⟨subfield, inside, member⟩ := List.mem_flatMap.mp member
    exact subfields subfield inside c member

theorem wellFormed_tail (composed : layer.Composed nested) :
    (∀ group ∈ layer.tail.groups, IsGroup group) ∧
      ∀ segment ∈ layer.tail.segments, segment.WellFormed := by
  constructor
  · intro group member
    obtain ⟨known, inside, rfl⟩ := List.mem_map.mp member
    exact composed.field.isGroup known inside
  · intro segment member
    obtain ⟨subfield, inside, rfl⟩ := List.mem_map.mp member
    exact (composed.subfields subfield inside).wellFormed

/-- Such a layer is written as its head and then its tail. -/
theorem cut_render (composed : layer.Composed nested) :
    headText layer.render = layer.field.head.render ∧ tailText layer.render = layer.tail.render := by
  obtain ⟨isGroup, wellFormed⟩ := composed.wellFormed_tail
  have inert := (FieldHead.of_parse composed.field.head).2.isInert
  rw [render_eq]
  exact headText_append inert (Tail.render_begins isGroup wellFormed)

/-- Written, such a layer reads back as itself, if its tokens keep apart. -/
theorem read_render (composed : layer.Composed nested)
    (separated : Tail.Separated layer.tail.segments) :
    Read nested layer.nesting layer.render layer := by
  obtain ⟨isGroup, wellFormed⟩ := composed.wellFormed_tail
  obtain ⟨front, back⟩ := composed.cut_render
  have long := FieldHead.length_of_parse composed.field.head
  refine ⟨?_, composed.solid_render, front ▸ composed.field.head, ⟨layer.tail, ?_, ?_⟩, rfl⟩
  · rw [render_eq, List.length_append]
    omega
  · rw [back]
    exact Tail.parse_render isGroup wellFormed separated
  · refine Tail.additions_eq_ok_iff.mpr ⟨composed.field.read, layer.subfields.map ([·]), ?_, by
      simp [← List.flatMap_def]⟩
    apply mapM_eq_ok_iff.mpr
    rw [Layer.tail, List.forall₂_map_left_iff, List.forall₂_map_right_iff, List.forall₂_same]
    intro subfield member
    exact (composed.subfields subfield member).read

end Composed
end Layer
end MarcPath
