import MarcPath.Proofs.Serialise

/-! Which texts are read as paths with legible heads: those in which neither a run of digits nor one
that a token is put together with is too long. -/
namespace MarcPath

variable {limit : Nat} {text asked : Text}

namespace Layer

theorem tokensWithin_of_flat (flat : Text.Unbracketed text) (within : Text.DigitsWithin limit text) :
    TokensWithin limit text := by
  intro head tail known segment source
  exact within.of_part (infix_of_segment known (fun _ => not_holds_of_cut flat known) source)

variable {ρ : Type} {nested : Text → Except Error ρ} {nesting : Nesting} {layer : Layer ρ}

theorem Read.names (read : Read nested nesting text layer) :
    ∃ tail, cut text = .ok (layer.field.head, tail) ∧
      ∀ subfield ∈ layer.subfields, tail.Names subfield.head := by
  obtain ⟨tail, parts, rest, -, reads, same⟩ := read.parts
  refine ⟨tail, cut_eq_ok_iff.mpr ⟨read.long, read.solid, read.head, rest⟩, ?_⟩
  intro subfield inside
  obtain ⟨segment, source, part, found, member⟩ := exists_segment reads same inside
  obtain ⟨tokens, expanded, reads, -⟩ := Segment.of_subfields found
  obtain ⟨token, known, read⟩ := exists_of_mem_mapM reads member
  exact ⟨segment, source, tokens, expanded, token, known, (Segment.subfield_eq_ok_iff.mp read).1⟩

theorem Read.legible (read : Read nested nesting text layer) (positive : 1 ≤ limit)
    (within : Text.DigitsWithin limit text) (tokens : TokensWithin limit text) :
    layer.Legible limit := by
  obtain ⟨tail, known, names⟩ := read.names
  have inside := infix_of_cut known
  refine ⟨⟨(FieldHead.of_parse read.head).2, Text.hasBlank_of_infix inside read.solid,
    within.of_part inside⟩, ?_⟩
  intro subfield member
  have named := names subfield member
  refine ⟨?_, solid_of_names known named, digitsWithin_of_names positive named (tokens _ _ known)⟩
  obtain ⟨segment, source, tokens, expanded, token, inside, read⟩ := named
  exact (SubfieldHead.of_parse read).2

end Layer

/-- An error that names a rule which a text breaks. -/
def Error.IsInvalid (error : Error) : Prop :=
  ∃ violation, error = .invalid violation

theorem Layer.admits_invalid (le : limit ≤ Numeral.maxDigits)
    (within : Text.DigitsWithin limit text) (tokens : TokensWithin limit text) :
    Admits Error.IsInvalid text := by
  have invalid {part : Text} (short : Text.DigitsWithin limit part) (error : Error)
      (misread : Misread part error) : error.IsInvalid := by
    cases misread with
    | invalid inside ordinary => exact ⟨_, rfl⟩
    | numeral cause long => exact absurd (short.mono le) long
  exact ⟨fun _ _ _ _ _ => ⟨_, rfl⟩, invalid (within.of_part (List.takeWhile_prefix _).isInfix),
    fun head tail known segment source => invalid (tokens head tail known segment source)⟩

/-- A tree is written exactly if none of its numbers has too many digits. -/
theorem Tree.exists_json_iff (tree : Tree) (layout : Layout) :
    (∃ json, tree.json layout = .ok json) ↔
      ∀ number ∈ tree.numbers, number.natAbs < 10 ^ Numeral.maxDigits := by
  have power (digits : Nat) : Nat.pow 10 digits = 10 ^ digits := rfl
  have fits : tree.numbers.all Numeral.fits = true ↔
      ∀ number ∈ tree.numbers, number.natAbs < 10 ^ Numeral.maxDigits := by
    simp only [List.all_eq_true, Numeral.fits, power, decide_eq_true_eq]
  rw [← fits, Tree.json]
  by_cases known : tree.numbers.all Numeral.fits = true
  · simp [known]
  · simp [known]

theorem Tree.Sound.exists_json {tree : Tree} (sound : Sound limit tree)
    (small : limit < Numeral.maxDigits) (layout : Layout) : ∃ json, tree.json layout = .ok json := by
  apply (tree.exists_json_iff layout).mpr
  intro number member
  have below : 10 ^ limit < 10 ^ Numeral.maxDigits := Nat.pow_lt_pow_right (by decide) small
  exact (sound.natAbs_le number member).trans_lt below

/-- At the limit itself only a length can be too large, and only if it counts all the numbers. -/
theorem Tree.Sound.exists_json_iff_ne {tree : Tree} (sound : Sound Numeral.maxDigits tree)
    (layout : Layout) : (∃ json, tree.json layout = .ok json) ↔
      ∀ number ∈ tree.numbers, number.natAbs ≠ 10 ^ Numeral.maxDigits := by
  rw [tree.exists_json_iff]
  constructor
  · intro below number member
    exact (below number member).ne
  · intro apart number member
    exact (sound.natAbs_le number member).lt_of_ne (apart number member)

namespace Path

variable {nesting : Nesting} {path : Path}

theorem parse_legible (nesting : Nesting) (positive : 1 ≤ limit) (le : limit ≤ Numeral.maxDigits)
    (within : Text.DigitsWithin limit text) (tokens : Layer.TokensWithin limit text.strip) :
    Outcome (fun path => ∀ inner, IsPart inner path → inner.layer.Legible limit)
      Error.IsInvalid (Path.parse nesting text) := by
  have stripped := within.of_part (Text.infix_of_strip text)
  have nested (asked : Text) (asks : Layer.Asks text.strip asked) :
      Outcome (fun inner => inner.layer.Legible limit ∧ inner.Bare) Error.IsInvalid
        (Path.parse nesting.deeper asked) := by
    have inherited := asks.digitsWithin positive stripped tokens
    have tokens' := Layer.tokensWithin_of_flat asks.unbracketed inherited
    have admits := Layer.admits_invalid le inherited tokens'
    exact (parse_asked_outcome asks (fun _ => ⟨_, rfl⟩) admits).mono fun inner ⟨read, bare⟩ =>
      ⟨read.legible positive inherited tokens', bare⟩
  have outcome := parse_outcome (fun _ => ⟨_, rfl⟩) (Layer.admits_invalid le stripped tokens) nested
  refine outcome.with_ok.mono fun path ⟨known, found⟩ => ?_
  intro inner part
  rcases part with rfl | inside
  · exact (parse_eq_ok_iff.mp found).2.legible positive stripped tokens
  · cases inside with
    | direct member => exact (known inner member).1
    | deeper member inside => exact absurd inside (known _ member).2.not_inside

theorem tree_outcome (le : limit ≤ Numeral.maxDigits) (path : Path)
    (legible : ∀ inner, IsPart inner path → inner.layer.Legible limit) :
    Outcome (Tree.Sound limit) (fun _ => False) path.tree := by
  refine @induct (fun path => (∀ inner, IsPart inner path → inner.layer.Legible limit) →
    Outcome (Tree.Sound limit) (fun _ => False) path.tree) ?_ path legible
  intro layer ih legible
  rw [tree_mk]
  apply Layer.tree_outcome le (legible _ (.inl rfl))
  intro inner member
  apply ih inner member
  intro other part
  exact legible other (part.trans (.inr (.direct member)))

private theorem exists_head_entries {layer : Layer Path} {tree : Tree}
    (found : layer.tree Path.tree = .ok tree) {subfield : Subfield Path}
    (member : subfield ∈ layer.subfields) : ∃ entries, subfield.head.entries = .ok entries := by
  obtain ⟨_, -, found⟩ := bind_eq_ok_iff.mp found
  obtain ⟨_, trees, -⟩ := bind_eq_ok_iff.mp found
  obtain ⟨_, -, found⟩ := exists_of_mem_items trees member
  obtain ⟨entries, read, -⟩ := bind_eq_ok_iff.mp found
  exact ⟨entries, read⟩

/-- A path has no tree if one of its tokens has a run of digits that is too long. -/
theorem tokensWithin_of_tree {tree : Tree} (found : Path.parse nesting text = .ok path)
    (described : path.tree = .ok tree) : Layer.TokensWithin Numeral.maxDigits text.strip := by
  obtain ⟨layer⟩ := path
  rw [tree_mk] at described
  have read : Layer.Read _ nesting text.strip layer := (parse_eq_ok_iff.mp found).2
  intro head tail known segment source
  obtain ⟨-, solid, -, rest⟩ := Layer.cut_eq_ok_iff.mp known
  obtain ⟨tail', parts, rest', -, reads, same⟩ := read.parts
  obtain rfl : tail = tail' := Except.ok.inj (rest.symm.trans rest')
  obtain ⟨part, inside, subfields⟩ := exists_of_mem_items reads source
  obtain ⟨tokens, expanded, each, -⟩ := Segment.of_subfields subfields
  by_cases ranged : segment.isRange = true
  · refine .of_length_le ((Segment.length_of_isRange expanded ranged).trans ?_)
    simp [Numeral.maxDigits]
  · have single : segment.token ∈ tokens := by
      rw [Segment.tokens, if_neg ranged] at expanded
      simp [← Except.ok.inj expanded]
    obtain ⟨subfield, member, token⟩ := exists_of_mem_items each single
    obtain ⟨parsed, -⟩ := Segment.subfield_eq_ok_iff.mp token
    obtain ⟨entries, named⟩ := exists_head_entries described
      (same ▸ List.mem_flatten.mpr ⟨part, inside, member⟩)
    obtain ⟨written, wellFormed⟩ := SubfieldHead.of_parse parsed
    have free := Layer.solid_of_token known source expanded single
    rw [← written] at free ⊢
    exact SubfieldHead.digitsWithin_of_entries wellFormed free named

theorem json_eq_of_tree {tree : Tree} (described : path.tree = .ok tree) (layout : Layout) :
    path.json layout = tree.json layout := by
  rw [Path.json, described]
  rfl

theorem exists_tree (le : limit ≤ Numeral.maxDigits)
    (legible : ∀ inner, IsPart inner path → inner.layer.Legible limit) {inner : Path}
    (part : IsPart inner path) : ∃ tree, inner.tree = .ok tree ∧ tree.Sound limit :=
  (tree_outcome le inner fun other part' => legible other (part'.trans part)).exists_ok

/-- A text without long runs of digits is read, or it breaks a rule; and what is read can be written,
as it is and as a tree in which every length is right. The one exception is a token that is put
together with a longer run than the text has anywhere. If that is too long for a numeral, the path has
no tree or is not read at all; if it is just short enough, the tree is there, but a length in it may be
one more than what can be written. -/
theorem parse_and_write (nesting : Nesting) (within : Text.DigitsWithin 4299 text) :
    (Layer.TokensWithin 4299 text.strip →
      (∀ error, Path.parse nesting text = .error error → error.IsInvalid) ∧
        ∀ path, Path.parse nesting text = .ok path → ∀ inner, IsPart inner path →
          ∃ tree, inner.tree = .ok tree ∧ tree.Sound 4299 ∧
            ∀ layout, ∃ json, inner.json layout = .ok json) ∧
      (∀ error, Path.parse nesting text = .error error →
        error.IsInvalid ∨ ¬ Layer.TokensWithin Numeral.maxDigits text.strip) ∧
      ∀ path, Path.parse nesting text = .ok path →
        ((∃ tree, path.tree = .ok tree) ↔ Layer.TokensWithin Numeral.maxDigits text.strip) ∧
          (Layer.TokensWithin Numeral.maxDigits text.strip → ∀ inner, IsPart inner path →
            ∃ tree, inner.tree = .ok tree ∧ tree.Sound Numeral.maxDigits ∧
              ∀ layout, (∃ json, inner.json layout = .ok json) ↔
                ∀ number ∈ tree.numbers, number.natAbs ≠ 10 ^ Numeral.maxDigits) := by
  have within' : Text.DigitsWithin Numeral.maxDigits text := within.mono (by decide)
  refine ⟨?_, ?_, ?_⟩
  · intro tokens
    have outcome := parse_legible nesting (by decide) (by decide) within tokens
    constructor
    · intro error failed
      rw [failed] at outcome
      exact outcome
    · intro path found inner part
      rw [found] at outcome
      obtain ⟨tree, described, sound⟩ := exists_tree (by decide) outcome part
      refine ⟨tree, described, sound, ?_⟩
      intro layout
      rw [json_eq_of_tree described]
      exact sound.exists_json (by decide) layout
  · intro error failed
    by_cases tokens : Layer.TokensWithin Numeral.maxDigits text.strip
    · have outcome := parse_legible nesting (by decide) le_rfl within' tokens
      rw [failed] at outcome
      exact .inl outcome
    · exact .inr tokens
  · intro path found
    have written (tokens : Layer.TokensWithin Numeral.maxDigits text.strip) {inner : Path}
        (part : IsPart inner path) :
        ∃ tree, inner.tree = .ok tree ∧ tree.Sound Numeral.maxDigits := by
      have outcome := parse_legible nesting (by decide) le_rfl within' tokens
      rw [found] at outcome
      exact exists_tree le_rfl outcome part
    refine ⟨⟨?_, ?_⟩, ?_⟩
    · intro ⟨tree, described⟩
      exact tokensWithin_of_tree found described
    · intro tokens
      obtain ⟨tree, described, -⟩ := written tokens (.inl rfl)
      exact ⟨tree, described⟩
    · intro tokens inner part
      obtain ⟨tree, described, sound⟩ := written tokens part
      refine ⟨tree, described, sound, ?_⟩
      intro layout
      rw [json_eq_of_tree described]
      exact sound.exists_json_iff_ne layout

theorem parse_and_write_of_range :
    ∃ path, Path.parse .top "245$a/0-2{/1=$b}".toList = .ok path ∧ ∀ inner, IsPart inner path →
      ∃ tree, inner.tree = .ok tree ∧ tree.Sound 4299 ∧
        ∀ layout, ∃ json, inner.json layout = .ok json := by
  have within : Text.DigitsWithin 4299 "245$a/0-2{/1=$b}".toList := .of_length_le (by decide)
  have cut : Layer.cut (Text.strip "245$a/0-2{/1=$b}".toList) =
      .ok (⟨"245".toList, none, .all⟩, ⟨[], [⟨"$a/0-2".toList, ["{/1=$b}".toList]⟩]⟩) := by decide
  have tokens : Layer.TokensWithin 4299 (Text.strip "245$a/0-2{/1=$b}".toList) := by
    intro head tail known segment source
    obtain ⟨rfl, rfl⟩ := Prod.mk.inj (Except.ok.inj (cut.symm.trans known))
    obtain rfl := List.mem_singleton.mp source
    exact .of_length_le (by decide)
  obtain ⟨path, found⟩ : ∃ path, Path.parse .top "245$a/0-2{/1=$b}".toList = .ok path := ⟨_, rfl⟩
  exact ⟨path, found, ((parse_and_write .top within).1 tokens).2 path found⟩

end Path
end MarcPath
