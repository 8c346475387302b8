import MarcPath.Proofs.Single

/-! How a path is written, from the text it was read from: its head as it stands, the groups of the field
as they stand, and its segments in order, with ranges spelled out. -/
namespace MarcPath.Path

variable {nesting : Nesting} {text : Text} {path : Path}

/-- A path is written as its field head, the groups of its field, and then its segments, each once for
every token that it stands for and each time with all of its groups. The head, the tokens and the groups
are written just as they were, whatever is in them. -/
theorem render_spelled (found : Path.parse nesting text = .ok path) :
    ∃ tail spelled, Tail.parse (Layer.tailText text.strip) = .ok tail ∧
      List.mapM Segment.spelled tail.segments = .ok spelled ∧
      path.render = Layer.headText text.strip ++
        (tail.groups.flatten ++ spelled.flatten.flatMap Segment.render) ∧
      path.field.head.render = Layer.headText text.strip ∧
      path.field.groups.map Group.render = tail.groups ∧
      path.subfields.map Subfield.segment = spelled.flatten := by
  obtain ⟨-, read⟩ := parse_eq_ok_iff.mp found
  obtain ⟨tail, parts, cut, reads, -⟩ := read.parts
  obtain ⟨spelled, known, segments⟩ := read.exists_spelled cut
  have head : path.field.head.render = Layer.headText text.strip := (FieldHead.of_parse read.head).1
  have groups : path.field.groups.map Group.render = tail.groups := Layer.Read.groups_eq reads
  refine ⟨tail, spelled, cut, known, ?_, head, groups, segments⟩
  calc path.render
      = path.field.head.render ++ path.layer.tail.render := path.layer.render_eq
    _ = path.field.head.render ++
          ((path.field.groups.map Group.render).flatten ++
            (path.subfields.map Subfield.segment).flatMap Segment.render) := rfl
    _ = _ := by rw [head, groups, show path.subfields.map Subfield.segment = _ from segments]

/-- The alternatives belong to the field, the groups of the range to both of its letters. -/
theorem render_spelled_of_range :
    ∃ path, Path.parse .top " 245[01]_1{$x|!$y}$c-d{/0=/1}{$e}$|[#] ".toList = .ok path ∧
      path.render = "245[01]_1{$x|!$y}$c{/0=/1}{$e}$d{/0=/1}{$e}$|[#]".toList ∧
      path.field.head.render = "245[01]_1".toList ∧
      path.field.groups.map Group.render = ["{$x|!$y}".toList] ∧
      path.subfields.map Subfield.segment =
        [⟨"$c".toList, ["{/0=/1}".toList, "{$e}".toList]⟩,
          ⟨"$d".toList, ["{/0=/1}".toList, "{$e}".toList]⟩, ⟨"$|[#]".toList, []⟩] := by
  obtain ⟨path, found⟩ : ∃ path,
      Path.parse .top " 245[01]_1{$x|!$y}$c-d{/0=/1}{$e}$|[#] ".toList = .ok path := ⟨_, rfl⟩
  obtain ⟨tail, spelled, cut, known, written, head, groups, segments⟩ := render_spelled found
  have read : Tail.parse (Layer.tailText (Text.strip " 245[01]_1{$x|!$y}$c-d{/0=/1}{$e}$|[#] ".toList)) =
      .ok ⟨["{$x|!$y}".toList],
        [⟨"$c-d".toList, ["{/0=/1}".toList, "{$e}".toList]⟩, ⟨"$|[#]".toList, []⟩]⟩ := by decide
  obtain rfl := Except.ok.inj (read.symm.trans cut)
  obtain rfl : [[⟨"$c".toList, ["{/0=/1}".toList, "{$e}".toList]⟩,
      ⟨"$d".toList, ["{/0=/1}".toList, "{$e}".toList]⟩], [⟨"$|[#]".toList, []⟩]] = spelled :=
    Except.ok.inj known
  exact ⟨path, found, written, head, groups, segments⟩

end MarcPath.Path
