import MarcPath.Proofs.Resolved
import MarcPath.Proofs.RoundTrip

/-! Subfields on their own. A subfield of a path is read from its own text as it was read among the
others, so no subfield has a say in what another one is; nor have the letters of a range, each of which
is read as if it had been written out with the groups of the range. -/
namespace MarcPath

variable {ρ : Type} {nested : Text → Except Error ρ}

/-- The segments that a segment stands for: one for each of its tokens, with all of its groups. -/
def Segment.spelled (segment : Segment) : Except Error (List Segment) :=
  segment.tokens.map (List.map (Segment.mk · segment.groups))

/-- A layer of a field without groups and a single subfield. -/
def Layer.single (nesting : Nesting) (head : FieldHead) (subfield : Subfield ρ) : Layer ρ :=
  ⟨.ofHead head, [subfield], nesting⟩

namespace Layer

variable {nesting : Nesting} {text : Text} {layer : Layer ρ} {head : FieldHead}
  {subfield : Subfield ρ}

@[simp] theorem render_single (nesting : Nesting) (head : FieldHead) (subfield : Subfield ρ) :
    (single nesting head subfield).render = head.render ++ subfield.render := by
  simp [single, render, Field.render, Field.ofHead]

/-- A layer of one subfield is made of parts that read back, and has no tokens to keep apart. -/
theorem composed_single (nesting : Nesting) (read : FieldHead.parse head.render = .ok head)
    (composed : subfield.Composed nested head.render) :
    (single nesting head subfield).Composed nested ∧
      Tail.Separated (single nesting head subfield).tail.segments := by
  refine ⟨⟨.ofHead read, ?_⟩, ?_, trivial⟩
  · intro other member
    obtain rfl := List.mem_singleton.mp member
    exact composed
  · rintro (more | more)
    · exact composed.ended (by simpa [Subfield.segment] using more)
    · exact absurd rfl more

/-- The subfields of a layer are the segments of its text, with ranges spelled out. -/
theorem Read.exists_spelled (read : Read nested nesting text layer) {tail : Tail}
    (cut : Tail.parse (tailText text) = .ok tail) :
    ∃ spelled, List.mapM Segment.spelled tail.segments = .ok spelled ∧
      layer.subfields.map Subfield.segment = spelled.flatten := by
  obtain ⟨_, parts, cut', -, reads, same⟩ := read.parts
  obtain rfl := Except.ok.inj (cut.symm.trans cut')
  refine ⟨parts.map (List.map Subfield.segment), ?_, by rw [same, List.map_flatten]⟩
  apply mapM_eq_ok_iff.mpr
  rw [List.forall₂_map_right_iff]
  apply (mapM_eq_ok_iff.mp reads).imp
  intro segment part found
  obtain ⟨tokens, expanded, -, segments⟩ := Segment.of_subfields found
  rw [Segment.spelled, expanded, segments]
  rfl

end Layer

namespace Path

variable {nesting : Nesting} {text : Text} {path : Path}

/-- Behind the field head, a subfield that reads back is the text of a path with nothing else in it. -/
theorem parse_single {head : FieldHead} {subfield : Subfield Path}
    (room : nesting.depth ≤ nesting.maxDepth) (read : FieldHead.parse head.render = .ok head)
    (composed : subfield.Composed (Path.parse nesting.deeper) head.render) :
    Path.parse nesting (head.render ++ subfield.render) = .ok (.mk (.single nesting head subfield)) := by
  obtain ⟨composed, separated⟩ := Layer.composed_single nesting read composed
  have found := parse_of_composed room composed separated
  rwa [Layer.render_single] at found

/-- The conditions of a subfield are resolved in a context of its own, the field head and its own head. -/
theorem resolvedIn_of_parse (found : Path.parse nesting text = .ok path) {subfield : Subfield Path}
    (member : subfield ∈ path.subfields) {group : Group Path} (attached : group ∈ subfield.groups) :
    group.ResolvedIn (Path.parse nesting.deeper) (path.field.head.render ++ subfield.head.render) := by
  obtain ⟨-, read⟩ := parse_eq_ok_iff.mp found
  obtain ⟨composed, -⟩ := read.composed
  obtain ⟨c, rest, begins, letter⟩ := (FieldHead.of_parse read.head).2.exists_first
  obtain ⟨-, groups, reads⟩ := (composed.subfields subfield member).parts
  obtain ⟨written, -, known⟩ := exists_of_mem_mapM reads attached
  have head : path.field.head.render = c :: rest := begins
  have first : (path.field.head.render ++ subfield.head.render).head? = some c := by
    rw [head]
    rfl
  exact Group.resolvedIn_of_parse first letter known

/-- Each subfield of a path is what its own text is read as behind the field head, and its conditions are
resolved in the context of those two heads and of nothing else. Subfields stand in the order of the
segments they come from; one that comes from a range is what its code is read as when it is written out
with the groups of the range. -/
theorem subfields_stand_alone (found : Path.parse nesting text = .ok path) :
    (∀ subfield ∈ path.subfields,
      Path.parse nesting (path.field.head.render ++ subfield.render) =
          .ok (.mk (.single nesting path.field.head subfield)) ∧
        ∀ group ∈ subfield.groups, group.ResolvedIn (Path.parse nesting.deeper)
          (path.field.head.render ++ subfield.head.render)) ∧
      ∃ tail spelled, Tail.parse (Layer.tailText text.strip) = .ok tail ∧
        List.mapM Segment.spelled tail.segments = .ok spelled ∧
        List.Forall₂ (fun (segment : Segment) subfield => subfield.segment = segment ∧
          Path.parse nesting (path.field.head.render ++ segment.render) =
            .ok (.mk (.single nesting path.field.head subfield))) spelled.flatten path.subfields := by
  obtain ⟨room, read⟩ := parse_eq_ok_iff.mp found
  obtain ⟨composed, -⟩ := read.composed
  have alone : ∀ subfield ∈ path.subfields,
      Path.parse nesting (path.field.head.render ++ subfield.render) =
        .ok (.mk (.single nesting path.field.head subfield)) :=
    fun subfield member => parse_single room composed.field.head (composed.subfields subfield member)
  refine ⟨?_, ?_⟩
  · intro subfield member
    exact ⟨alone subfield member, fun group => resolvedIn_of_parse found member⟩
  · obtain ⟨tail, -, cut, -⟩ := read.parts
    obtain ⟨spelled, known, segments⟩ := read.exists_spelled cut
    have segments : path.subfields.map Subfield.segment = spelled.flatten := segments
    refine ⟨tail, spelled, cut, known, ?_⟩
    rw [← segments, List.forall₂_map_left_iff, List.forall₂_same]
    intro subfield member
    rw [Subfield.render_segment]
    exact ⟨rfl, alone subfield member⟩

/-- Both letters of this range have a condition on their own first character, which is continued, and on
another subfield, which takes their place. -/
theorem subfields_stand_alone_of_range :
    ∃ path first second, Path.parse .top "245$a-b{/0=$c}".toList = .ok path ∧
      path.subfields = [first, second] ∧
      Path.parse .top "245$a{/0=$c}".toList = .ok (.mk (.single .top path.field.head first)) ∧
      Path.parse .top "245$b{/0=$c}".toList = .ok (.mk (.single .top path.field.head second)) ∧
      (∀ group ∈ first.groups, group.ResolvedIn (Path.parse Nesting.top.deeper) "245$a".toList) ∧
      ∀ group ∈ second.groups, group.ResolvedIn (Path.parse Nesting.top.deeper) "245$b".toList := by
  obtain ⟨path, first, second, found, both, head⟩ : ∃ path first second,
      Path.parse .top "245$a-b{/0=$c}".toList = .ok path ∧ path.subfields = [first, second] ∧
        path.field.head.render = "245".toList := ⟨_, _, _, rfl, rfl, rfl⟩
  have read : Tail.parse (Layer.tailText (Text.strip "245$a-b{/0=$c}".toList)) =
      .ok ⟨[], [⟨"$a-b".toList, ["{/0=$c}".toList]⟩]⟩ := by decide
  obtain ⟨alone, tail, spelled, cut, known, stand⟩ := subfields_stand_alone found
  obtain rfl := Except.ok.inj (read.symm.trans cut)
  obtain rfl : [[⟨"$a".toList, ["{/0=$c}".toList]⟩, ⟨"$b".toList, ["{/0=$c}".toList]⟩]] = spelled :=
    Except.ok.inj known
  rw [both, head] at stand alone
  obtain ⟨⟨written, one⟩, rest⟩ := List.forall₂_cons.mp stand
  obtain ⟨⟨written', other⟩, -⟩ := List.forall₂_cons.mp rest
  have token : first.head.render = "$a".toList := congrArg Segment.token written
  have token' : second.head.render = "$b".toList := congrArg Segment.token written'
  have resolved := (alone first (by simp)).2
  have resolved' := (alone second (by simp)).2
  rw [token] at resolved
  rw [token'] at resolved'
  exact ⟨path, first, second, found, both, one, other, resolved, resolved'⟩

end Path
end MarcPath
