import MarcPath.Proofs.Subterm

/-! Indicators as a term of a condition. Such a term is put behind what stands before the last underscore
of its field. An underscore introduces indicators, but it may also be one of them, and then the indicators
are cut within themselves. -/
namespace MarcPath

namespace FieldHead

variable {base codes kept rest : Text} {head : FieldHead}

/-- The tag and the index of a field head, without what it selects. -/
def stem (head : FieldHead) : Text :=
  head.tag ++ Span.renderIndex head.index

theorem WellFormed.stem_ne_nil (known : head.WellFormed) : head.stem ≠ [] := by
  intro none
  have three := known.length_tag
  rw [(List.append_eq_nil_iff.mp none).1] at three
  cases three

theorem WellFormed.underscore_not_mem (known : head.WellFormed) : '_' ∉ head.stem := by
  intro member
  rcases List.mem_append.mp member with member | member
  · have letter := isAlphanum_of_isTag known.tag member
    revert letter
    decide
  · cases written : head.index with
    | none => simp [written, Span.renderIndex, Span.renderAfter] at member
    | some span =>
      have absent := (known.index span written).not_mem (c := '_') (by unfold Span.IsSpanChar; decide)
      simp [written, Span.renderIndex, Span.renderAfter, absent] at member

/-- A character that indicators can be written with, of one case or the other. -/
def IsSpelled (c : Char) : Prop :=
  c.isAlphanum = true ∨ c = '_'

theorem IsSpelled.isHeadChar {c : Char} (known : IsSpelled c) : MarcPath.isHeadChar c = true := by
  rcases known with letter | rfl
  · exact isHeadChar_of_isAlphanum letter
  · decide

theorem solid_of_spelled (known : ∀ c ∈ codes, IsSpelled c) : codes.hasBlank = false := by
  refine List.any_eq_false.mpr ?_
  intro c member
  rcases known c member with letter | rfl
  · rw [isBlank_of_isAlphanum letter]
    decide
  · decide

theorem solid_stem (read : FieldHead.parse base = .ok head) (known : ∀ c ∈ codes, IsSpelled c) :
    (head.stem ++ '_' :: codes).hasBlank = false := by
  obtain ⟨rfl, -⟩ := of_parse read
  have front := Text.hasBlank_of_infix (List.prefix_append head.stem _).isInfix (solid_of_parse read)
  have back : Text.hasBlank ('_' :: codes) = false :=
    solid_of_spelled (List.forall_mem_cons.mpr ⟨.inr rfl, known⟩)
  rw [Text.hasBlank] at front back ⊢
  rw [List.any_append, front, back]
  rfl

/-- A tag and an index are read as they are with any indicators behind them. -/
theorem parse_stem (read : FieldHead.parse base = .ok head) (known : ∀ c ∈ codes, IsSpelled c) :
    FieldHead.parse (head.stem ++ '_' :: codes) =
      if isIndicators codes then .ok ⟨head.tag, head.index, .indicators codes⟩
      else violates .field .indicators (head.stem ++ '_' :: codes) := by
  obtain ⟨-, wellFormed⟩ := of_parse read
  have three := wellFormed.length_tag
  have front : (head.stem ++ '_' :: codes).take 3 = head.tag := by
    rw [stem, List.append_assoc, List.take_left' three]
  have back : (head.stem ++ '_' :: codes).drop 3 = Span.renderIndex head.index ++ '_' :: codes := by
    rw [stem, List.append_assoc, List.drop_left' three]
  have long : ¬ (head.stem ++ '_' :: codes).length < 3 := by
    simp only [stem, List.length_append, three]
    omega
  have whole := solid_stem read known
  rw [FieldHead.parse, if_neg long, if_neg (by simp [whole]), front,
    if_neg (by simp [wellFormed.tag]), back, Span.splitIndex_render wellFormed.index (by simp)]
  change (do
    let selection ← parseSelection (head.stem ++ '_' :: codes) ('_' :: codes)
    return FieldHead.mk head.tag head.index selection) = _
  by_cases good : isIndicators codes = true
  · simp [parseSelection, good, bind, Except.bind, pure, Except.pure]
  · simp [parseSelection, good, violates, bind, Except.bind]

/-- Indicators without an underscore are replaced. -/
theorem resolve_replaced (known : head.WellFormed) (value : head.characters = none)
    (absent : ∀ written ∈ head.indicators, '_' ∉ written) (codes : Text) :
    Reference.resolve head.render ('_' :: codes) = .ok (head.stem ++ '_' :: codes) := by
  cases chosen : head.selection with
  | all =>
    have written : head.render = head.stem := by rw [render, chosen]; exact List.append_nil _
    rw [written]
    exact Reference.resolve_of_absent known.stem_ne_nil known.underscore_not_mem codes
  | characters span => simp [characters, chosen] at value
  | indicators old =>
    have written : head.render = head.stem ++ '_' :: old := by rw [render, chosen]; rfl
    rw [written]
    exact Reference.resolve_of_last known.stem_ne_nil (absent old (by simp [indicators, chosen])) codes

/-- Of indicators with an underscore, those before the last one are kept. -/
theorem resolve_kept (written : head.indicators = some (kept ++ '_' :: rest)) (absent : '_' ∉ rest)
    (codes : Text) :
    Reference.resolve head.render ('_' :: codes) = .ok (head.stem ++ '_' :: (kept ++ '_' :: codes)) := by
  have parts : head.render = (head.stem ++ '_' :: kept) ++ '_' :: rest := by
    cases chosen : head.selection with
    | all => simp [indicators, chosen] at written
    | characters span => simp [indicators, chosen] at written
    | indicators old =>
      simp only [indicators, chosen, Option.some.injEq] at written
      rw [render, chosen, written]
      simp [stem, Selection.render]
  rw [parts, Reference.resolve_of_last (by simp) absent]
  simp

end FieldHead

namespace Path

variable {nesting : Nesting} {base term text codes found : Text} {head : FieldHead}

/-- A text of a field alone is read as its head is. -/
theorem parse_head (room : nesting.depth ≤ nesting.maxDepth) (inert : ∀ c ∈ text, isInert c = true)
    (solid : text.hasBlank = false) (long : 3 ≤ text.length) :
    Path.parse nesting text =
      (FieldHead.parse text).map fun head => .mk ⟨⟨head, []⟩, [], nesting⟩ := by
  have cut : Layer.cut text = (do
      let head ← FieldHead.parse text
      let tail ← Tail.parse []
      return (head, tail)) := by
    have whole : (text ++ []).hasBlank = false := by rwa [List.append_nil]
    simpa using Layer.cut_of_inert inert long whole (.inl rfl)
  rw [parse_eq, if_neg (by omega), Text.strip_eq_self solid, Layer.parseStripped_eq, cut]
  cases FieldHead.parse text <;> rfl

/-- A term alone in a group behind a field is the one condition of the field. -/
theorem parse_append_term (room : nesting.depth ≤ nesting.maxDepth)
    (read : FieldHead.parse base = .ok head) (known : ∀ c ∈ term, isHeadChar c = true)
    (solid : term.hasBlank = false) (nonempty : term ≠ []) :
    Path.parse nesting (base ++ '{' :: (term ++ ['}'])) =
      (Operand.parse (Path.parse nesting.deeper) base term).map fun right =>
        .mk ⟨⟨head, [⟨⟨.absent base, .present, right, some term⟩, []⟩]⟩, [], nesting⟩ := by
  have inert : ∀ c ∈ term, isInert c = true := fun c member => isInert_of_isHeadChar (known c member)
  have guarded := Text.Guarded.of_isHeadChar known none
  have ended : isShielded term.getLast? = false := by
    rw [← Text.lastFrom_eq_getLast? none nonempty]
    exact Text.isShielded_lastFrom rfl inert
  have absent : '|' ∉ term := by
    intro member
    have letter := known '|' member
    revert letter
    decide
  rw [parse_append_group room read (Text.solid_group solid) (.of_guarded guarded ended nonempty),
    Group.parse_single (Group.alternatives_eq_self absent), Condition.parse_guarded guarded nonempty]
  cases Operand.parse (Path.parse nesting.deeper) base term <;> rfl

/-- The path of a field with one condition: that the field has the indicators `found`, which were written
as the term `codes`. -/
def askingIndicators (nesting : Nesting) (base : Text) (head : FieldHead) (codes found : Text) : Path :=
  let value : Path := .mk ⟨⟨⟨head.tag, head.index, .indicators found⟩, []⟩, [], nesting.deeper⟩
  .mk ⟨⟨head, [⟨⟨.absent base, .present, .path value ('_' :: codes), some ('_' :: codes)⟩, []⟩]⟩, [],
    nesting⟩

theorem askingIndicators_inj {first second : Text}
    (same : askingIndicators nesting base head codes first =
      askingIndicators nesting base head codes second) : first = second := by
  simpa [askingIndicators] using same

/-- What becomes of the term is decided by the indicators that it is resolved to. -/
theorem parse_indicators (room : nesting.depth < nesting.maxDepth)
    (read : FieldHead.parse base = .ok head) (known : ∀ c ∈ codes, FieldHead.IsSpelled c)
    (spelled : ∀ c ∈ found, FieldHead.IsSpelled c)
    (resolved : Reference.resolve base ('_' :: codes) = .ok (head.stem ++ '_' :: found)) :
    Path.parse nesting (base ++ '{' :: ('_' :: codes ++ ['}'])) =
      if FieldHead.isIndicators found then .ok (askingIndicators nesting base head codes found)
      else violates .field .indicators (head.stem ++ '_' :: found) := by
  obtain ⟨rfl, wellFormed⟩ := FieldHead.of_parse read
  have term : ∀ c ∈ '_' :: codes, FieldHead.IsSpelled c := List.forall_mem_cons.mpr ⟨.inr rfl, known⟩
  have inert : ∀ c ∈ head.stem ++ '_' :: found, isInert c = true := by
    intro c member
    apply isInert_of_isHeadChar
    rcases List.mem_append.mp member with member | member
    · exact wellFormed.isHeadChar c (List.mem_append_left _ member)
    · rcases List.mem_cons.mp member with rfl | member
      · decide
      · exact (spelled c member).isHeadChar
  have long : 3 ≤ (head.stem ++ '_' :: found).length := by
    simp only [FieldHead.stem, List.length_append, wellFormed.length_tag]
    omega
  have deeper : nesting.deeper.depth ≤ nesting.deeper.maxDepth := by
    simp only [Nesting.deeper]
    omega
  have asked : Operand.request head.render ('_' :: codes) = .ok (.inr (head.stem ++ '_' :: found)) := by
    change (Reference.resolve head.render ('_' :: codes)).map Sum.inr = _
    rw [resolved]
    rfl
  rw [parse_append_term (by omega) read (fun c member => (term c member).isHeadChar)
    (FieldHead.solid_of_spelled term) (by simp), Operand.parse_eq, asked]
  change ((Path.parse nesting.deeper (head.stem ++ '_' :: found)).map _).map _ = _
  rw [parse_head deeper inert (FieldHead.solid_stem read spelled) long, FieldHead.parse_stem read spelled]
  by_cases good : FieldHead.isIndicators found = true
  · rw [if_pos good, if_pos good]
    rfl
  · rw [if_neg good, if_neg good]
    rfl

/-- Indicators written as the term of a condition take the place of those of the field, if these have no
underscore among them. Otherwise they follow what stands before the last of those underscores: the path
asks for indicators that nobody wrote, or there are too many of them to be read. -/
theorem subterm_of_indicators (room : nesting.depth < nesting.maxDepth)
    (read : FieldHead.parse base = .ok head) (value : head.characters = none)
    (known : FieldHead.isIndicators codes = true) :
    (Path.parse nesting (base ++ '{' :: ('_' :: codes ++ ['}'])) =
        .ok (askingIndicators nesting base head codes codes) ↔
      ∀ written ∈ head.indicators, '_' ∉ written) ∧
    ∀ kept rest, head.indicators = some (kept ++ '_' :: rest) → '_' ∉ rest →
      Path.parse nesting (base ++ '{' :: ('_' :: codes ++ ['}'])) =
        if FieldHead.isIndicators (kept ++ '_' :: codes) then
          .ok (askingIndicators nesting base head codes (kept ++ '_' :: codes))
        else violates .field .indicators (head.stem ++ '_' :: (kept ++ '_' :: codes)) := by
  obtain ⟨rfl, wellFormed⟩ := FieldHead.of_parse read
  have spelled : ∀ c ∈ codes, FieldHead.IsSpelled c :=
    fun c member => FieldHead.isAlphanum_of_isIndicators known member
  have within : ∀ kept rest, head.indicators = some (kept ++ '_' :: rest) → '_' ∉ rest →
      Path.parse nesting (head.render ++ '{' :: ('_' :: codes ++ ['}'])) =
        if FieldHead.isIndicators (kept ++ '_' :: codes) then
          .ok (askingIndicators nesting head.render head codes (kept ++ '_' :: codes))
        else violates .field .indicators (head.stem ++ '_' :: (kept ++ '_' :: codes)) := by
    intro kept rest written absent
    refine parse_indicators room read spelled ?_ (FieldHead.resolve_kept written absent codes)
    intro c member
    rcases List.mem_append.mp member with member | member
    · exact FieldHead.isAlphanum_of_isIndicators (wellFormed.indicators _ written) (by simp [member])
    · exact List.forall_mem_cons.mpr ⟨.inr rfl, spelled⟩ c member
  refine ⟨⟨?_, ?_⟩, within⟩
  · intro same written source member
    obtain ⟨kept, rest, rfl, absent⟩ := Text.exists_last member
    rw [within kept rest source absent] at same
    by_cases good : FieldHead.isIndicators (kept ++ '_' :: codes) = true
    · rw [if_pos good] at same
      have longer := congrArg List.length (askingIndicators_inj (Except.ok.inj same))
      simp only [List.length_append, List.length_cons] at longer
      omega
    · rw [if_neg good] at same
      cases same
  · intro absent
    rw [parse_indicators room read spelled spelled (FieldHead.resolve_replaced wellFormed value absent codes),
      if_pos known]

/-- The field has an index and both indicators, and the term has an underscore of its own. -/
theorem subterm_of_indicators_of_index :
    ∃ head, FieldHead.parse "650[0-3]_17".toList = .ok head ∧
      Path.parse .top ("650[0-3]_17".toList ++ '{' :: ('_' :: "_2".toList ++ ['}'])) =
        .ok (askingIndicators .top "650[0-3]_17".toList head "_2".toList "_2".toList) := by
  obtain ⟨head, read, value, written⟩ : ∃ head, FieldHead.parse "650[0-3]_17".toList = .ok head ∧
      head.characters = none ∧ head.indicators = some "17".toList := ⟨_, rfl, rfl, rfl⟩
  have room : Nesting.top.depth < Nesting.top.maxDepth := by decide
  have absent : ∀ old ∈ head.indicators, '_' ∉ old := by
    rw [written]
    decide
  exact ⟨head, read, (subterm_of_indicators room read value (by decide)).1.mpr absent⟩

/-- A second indicator that is left open stays in front of the term, which then has three characters. A
first one that is left open makes the term a second indicator. -/
theorem no_subterm_of_open_indicator :
    (∃ head, FieldHead.parse "856_4_".toList = .ok head ∧ head.characters = none ∧
      FieldHead.isIndicators "1".toList = true ∧
      Path.parse .top "856_4_{_1}".toList = violates .field .indicators "856_4_1".toList) ∧
    ∃ head, FieldHead.parse "245__".toList = .ok head ∧ head.characters = none ∧
      Path.parse .top "245__{_1}".toList =
        .ok (askingIndicators .top "245__".toList head "1".toList "_1".toList) := by
  refine ⟨⟨_, rfl, rfl, by decide, rfl⟩, ?_⟩
  exact ⟨_, rfl, rfl, rfl⟩

end Path
end MarcPath
