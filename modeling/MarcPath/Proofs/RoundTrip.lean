import MarcPath.Proofs.Composed
import MarcPath.Proofs.Limit

/-! Reading and writing paths. A path that is written and read again is the same path. What is
written is the text that was read, unless a token went on after one of its groups. -/
namespace MarcPath.Path

variable {nesting : Nesting} {text : Text} {path : Path}

theorem parse_eq_ok_iff :
    Path.parse nesting text = .ok path ↔ nesting.depth ≤ nesting.maxDepth ∧
      Layer.Read (Path.parse nesting.deeper) nesting text.strip path.layer := by
  rw [parse_eq]
  by_cases beyond : nesting.maxDepth < nesting.depth
  · rw [if_pos beyond]
    constructor
    · intro found
      cases found
    · rintro ⟨room, -⟩
      omega
  · rw [if_neg beyond, map_eq_ok_iff]
    constructor
    · rintro ⟨layer, found, rfl⟩
      exact ⟨by omega, Layer.parseStripped_eq_ok_iff.mp found⟩
    · rintro ⟨-, read⟩
      obtain ⟨layer⟩ := path
      exact ⟨layer, Layer.parseStripped_eq_ok_iff.mpr read, rfl⟩

/-- Behind a field head, a path is what its tail adds. -/
theorem parse_append {base : Text} {head : FieldHead} (room : nesting.depth ≤ nesting.maxDepth)
    (read : FieldHead.parse base = .ok head) (solid : text.hasBlank = false)
    (begins : text = [] ∨ ∃ c rest, text = c :: rest ∧ Layer.startsTail c = true) :
    Path.parse nesting (base ++ text) = (do
      let tail ← Tail.parse text
      let additions ← tail.additions (Path.parse nesting.deeper) base
      return .mk (.assemble nesting head additions)) := by
  obtain ⟨rfl, -⟩ := FieldHead.of_parse read
  rw [parse_eq, if_neg (by omega), Text.strip_eq_self (FieldHead.solid_append read solid),
    Layer.parseStripped_eq, Layer.cut_append read solid begins]
  cases Tail.parse text with
  | error error => rfl
  | ok tail =>
    change ((tail.additions (Path.parse nesting.deeper) head.render).map
      (Layer.assemble nesting head)).map mk = (do
        let additions ← tail.additions (Path.parse nesting.deeper) head.render
        return .mk (.assemble nesting head additions))
    cases tail.additions (Path.parse nesting.deeper) head.render <;> rfl

/-- A path whose parts read back is written as a text that reads back as that path, if its tokens keep
apart. -/
theorem parse_of_composed {layer : Layer Path} (room : layer.nesting.depth ≤ layer.nesting.maxDepth)
    (composed : layer.Composed (Path.parse layer.nesting.deeper))
    (separated : Tail.Separated layer.tail.segments) :
    Path.parse layer.nesting layer.render = .ok (.mk layer) := by
  have solid : layer.render.strip = layer.render := Text.strip_eq_self composed.solid_render
  exact parse_eq_ok_iff.mpr ⟨room, solid.symm ▸ composed.read_render separated⟩

theorem parse_render (found : Path.parse nesting text = .ok path) :
    Path.parse nesting path.render = .ok path := by
  obtain ⟨layer⟩ := path
  obtain ⟨room, read⟩ := parse_eq_ok_iff.mp found
  obtain ⟨composed, separated⟩ := read.composed
  obtain rfl : layer.nesting = nesting := read.nesting
  exact parse_of_composed room composed separated

/-- With as many levels or more, what was read is read again. The other nesting is reached by moving the
depth and setting the limit. -/
theorem parse_of_levels {other : Nesting} (le : nesting.levels ≤ other.levels)
    (found : Path.parse nesting text = .ok path) :
    ∃ moved, Path.parse other text = .ok (path.mapNesting moved) := by
  let moved : Nesting → Nesting := fun inner =>
    ⟨other.maxDepth, inner.depth + (other.depth - nesting.depth)⟩
  have reaches : moved nesting = other := by
    rcases other with ⟨limit, depth⟩
    simp [moved]
  have steps (inner : Nesting) : moved inner.deeper = (moved inner).deeper := by
    simp only [moved, Nesting.deeper]
    congr 1
    omega
  rcases parse_refines (g := moved) steps (by rwa [reaches]) text with ⟨error, failed, -⟩ | same
  · rw [found] at failed
    cases failed
  · rw [reaches, found] at same
    exact ⟨moved, same⟩

/-- What is read at two nestings from one text is written alike and has one tree. -/
theorem alike_of_parse {other : Nesting} {path' : Path} (found : Path.parse nesting text = .ok path)
    (found' : Path.parse other text = .ok path') :
    path'.render = path.render ∧ path'.tree = path.tree := by
  rcases Nat.le_total nesting.levels other.levels with le | le
  · obtain ⟨moved, same⟩ := parse_of_levels le found
    obtain rfl := Except.ok.inj (found'.symm.trans same)
    exact ⟨render_mapNesting moved path, tree_mapNesting moved path⟩
  · obtain ⟨moved, same⟩ := parse_of_levels le found'
    obtain rfl := Except.ok.inj (found.symm.trans same)
    exact ⟨(render_mapNesting moved path').symm, (tree_mapNesting moved path').symm⟩

/-- A path that was read is written as a text that reads back as the very same path. So the text
says all there is: of paths that are written alike, either none has a tree or all have the same. -/
theorem reparse (found : Path.parse nesting text = .ok path) :
    Path.parse nesting path.render = .ok path ∧
      ∀ other text' path', Path.parse other text' = .ok path' → (path' == path) = true →
        path'.render = path.render ∧ path'.tree = path.tree := by
  refine ⟨parse_render found, ?_⟩
  intro other text' path' found' alike
  have same : path'.render = path.render := beq_iff_eq.mp alike
  have again := parse_render found'
  rw [same] at again
  exact ⟨same, (alike_of_parse (parse_render found) again).2⟩

theorem reparse_of_resumed_token :
    ∃ path, Path.parse .top "245$a{$b}/0".toList = .ok path ∧
      Path.parse .top path.render = .ok path ∧
      ∀ other text' path', Path.parse other text' = .ok path' → (path' == path) = true →
        path'.render = path.render ∧ path'.tree = path.tree := by
  obtain ⟨path, found⟩ : ∃ path, Path.parse .top "245$a{$b}/0".toList = .ok path := ⟨_, rfl⟩
  exact ⟨path, found, reparse found⟩

/-- A path without ranges is written as it was read, the blanks around it dropped, exactly if no
token went on after one of its groups. -/
theorem render_eq_strip_iff (found : Path.parse nesting text = .ok path)
    (single : ∀ tail, Tail.parse (Layer.tailText text.strip) = .ok tail →
      ∀ segment ∈ tail.segments, segment.isRange = false) :
    path.render = text.strip ↔ ¬ Tail.Resumes (Layer.tailText text.strip) := by
  obtain ⟨-, read⟩ := parse_eq_ok_iff.mp found
  obtain ⟨tail, cut, -⟩ := read.tail
  have written : path.render = Layer.headText text.strip ++ tail.render := by
    rw [render, Layer.render_eq, read.tail_eq cut (single tail cut), (FieldHead.of_parse read.head).1]
  rw [← Tail.render_eq_iff cut, written]
  constructor
  · intro same
    have whole := Layer.headText_append_tailText text.strip
    exact List.append_cancel_left (same.trans whole.symm)
  · intro same
    rw [same, Layer.headText_append_tailText]

theorem render_eq_strip_iff_of_groups :
    ∃ path, Path.parse .top "245$a{$b}$c".toList = .ok path ∧
      (path.render = Text.strip "245$a{$b}$c".toList ↔
        ¬ Tail.Resumes (Layer.tailText (Text.strip "245$a{$b}$c".toList))) := by
  have read : Tail.parse (Layer.tailText (Text.strip "245$a{$b}$c".toList)) =
      .ok ⟨[], [⟨"$a".toList, ["{$b}".toList]⟩, ⟨"$c".toList, []⟩]⟩ := by decide
  obtain ⟨path, found⟩ : ∃ path, Path.parse .top "245$a{$b}$c".toList = .ok path := ⟨_, rfl⟩
  refine ⟨path, found, render_eq_strip_iff found ?_⟩
  intro tail cut
  obtain rfl := Except.ok.inj (read.symm.trans cut)
  decide

/-- The slash follows the group here, and is written in front of it. -/
theorem render_of_resumed_token :
    (Path.parse .top "245$a{$b}/0".toList).map Path.render = .ok "245$a/0{$b}".toList := by
  decide

end MarcPath.Path
