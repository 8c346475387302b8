import MarcPath.Proofs.Depth
import MarcPath.Proofs.Guarded

/-! Paths without conditions. Such a path is a field head and the tokens of its subfields, and is read the
same at any depth; of its characters only the codes of subfields could mean anything elsewhere. -/
namespace MarcPath

variable {ρ : Type} {nested : Text → Except Error ρ} {nesting : Nesting} {base text : Text}

theorem codesBetween_ne_nil (first last : Char) : codesBetween first last ≠ [] := by
  unfold codesBetween
  split <;> simp

namespace Segment

variable {segment : Segment}

theorem tokens_ne_nil {tokens : List Text} (found : segment.tokens = .ok tokens) : tokens ≠ [] := by
  unfold Segment.tokens at found
  split at found
  · unfold expandRange at found
    split at found
    · split at found
      · obtain rfl := Except.ok.inj found
        simpa using codesBetween_ne_nil _ _
      · cases found
    · cases found
  · obtain rfl := Except.ok.inj found
    simp

theorem subfield_of_no_groups (token : Text) :
    Segment.subfield nested base [] token = (SubfieldHead.parse token).map Subfield.ofHead := by
  unfold Segment.subfield
  cases SubfieldHead.parse token <;> rfl

/-- A segment without groups is read whatever nested paths and its context are. -/
theorem exists_subfields_of_no_groups {σ : Type} {nested' : Text → Except Error σ} {base' : Text}
    (none : segment.groups = []) {subfields : List (Subfield ρ)}
    (found : Segment.subfields nested base segment = .ok subfields) :
    ∃ again, Segment.subfields nested' base' segment = .ok again := by
  obtain ⟨tokens, expanded, reads, -⟩ := of_subfields found
  have each : ∀ token ∈ tokens, Outcome (fun _ => True) (fun _ => False)
      (Segment.subfield nested' base' segment.groups token) := by
    intro token member
    obtain ⟨subfield, -, read⟩ := exists_of_mem_items reads member
    rw [none, subfield_of_no_groups, (subfield_eq_ok_iff.mp read).1]
    trivial
  obtain ⟨others, again, -⟩ := (Outcome.mapM each).exists_ok
  refine ⟨others, ?_⟩
  rw [Segment.subfields, expanded]
  exact again

end Segment

/-- A dollar and a code, with characters behind them that mean nothing outside of heads. -/
def IsToken (token : Text) : Prop :=
  ∃ code rest, token = '$' :: code :: rest ∧ ∀ c ∈ rest, isHeadChar c = true

theorem IsToken.guarded {token : Text} (known : IsToken token) (before : Option Char) :
    Text.Guarded before token := by
  obtain ⟨code, rest, rfl, headChars⟩ := known
  exact ⟨.inr (.inr rfl), .inl rfl, .of_isHeadChar headChars _⟩

private theorem isAlphanum_of_sameClass {first last : Char} (same : sameClass first last = true) :
    last.isAlphanum = true := by
  simp only [sameClass, Bool.or_eq_true, Bool.and_eq_true] at same
  rw [isAlphanum_iff]
  tauto

/-- What is read as subfields is a token, of a single subfield or of a range. -/
theorem Segment.isToken {segment : Segment} (known : segment.WellFormed) {subfields : List (Subfield ρ)}
    (found : Segment.subfields nested base segment = .ok subfields) : IsToken segment.token := by
  obtain ⟨tokens, expanded, reads, -⟩ := of_subfields found
  by_cases ranged : segment.isRange = true
  · obtain ⟨body, token, -⟩ := known.token
    rw [Segment.tokens, if_pos ranged, token, List.drop_one, List.tail_cons] at expanded
    unfold expandRange at expanded
    split at expanded
    · rename_i first dash last
      split at expanded
      · rename_i valid
        rw [Bool.and_eq_true, beq_iff_eq] at valid
        obtain ⟨rfl, same⟩ := valid
        refine ⟨first, ['-', last], token, ?_⟩
        have letter := isHeadChar_of_isAlphanum (isAlphanum_of_sameClass same)
        have dash : isHeadChar '-' = true := by decide
        simp [letter, dash]
      · cases expanded
    · cases expanded
  · rw [Segment.tokens, if_neg ranged] at expanded
    obtain rfl := Except.ok.inj expanded
    obtain ⟨subfield, -, read⟩ := exists_of_mem_items reads (List.mem_singleton.mpr rfl)
    obtain ⟨parsed, -⟩ := subfield_eq_ok_iff.mp read
    obtain ⟨written, head⟩ := SubfieldHead.of_parse parsed
    exact ⟨subfield.head.code, subfield.head.rest, written.symm, head.isHeadChar⟩

namespace Tail

theorem separated_of_isToken {segments : List Segment} (parted : Parted segments)
    (tokens : ∀ segment ∈ segments, IsToken segment.token) : Separated segments := by
  induction segments with
  | nil => trivial
  | cons segment rest ih =>
    refine ⟨?_, ih parted.2 fun other member => tokens other (by simp [member])⟩
    intro more
    obtain ⟨code, behind, token, headChars⟩ := tokens segment (by simp)
    rw [token]
    by_cases none : behind = []
    · subst none
      by_contra shielded
      rw [Bool.not_eq_false] at shielded
      obtain ⟨alone, last⟩ := parted.1 code token shielded
      exact more.elim (absurd alone) (absurd last)
    · have last := headChars _ (List.getLast_mem none)
      rw [List.getLast?_cons_cons, List.getLast?_cons, List.getLast?_eq_getLast_of_ne_nil none]
      exact isShield_of_isInert (isInert_of_isHeadChar last)

theorem Separated.ended_of_append {front back : List Segment} (separated : Separated (front ++ back))
    (more : back ≠ []) : ∀ segment ∈ front, isShielded segment.token.getLast? = false := by
  induction front with
  | nil => simp
  | cons first rest ih =>
    obtain ⟨ends, separated⟩ := separated
    intro segment member
    rcases List.mem_cons.mp member with rfl | member
    · exact ends (.inr (by simp [more]))
    · exact ih separated segment member

/-- A group alone is the tail of a path without subfields. -/
theorem parse_group {group : Text} (known : IsGroup group) : Tail.parse group = .ok ⟨[group], []⟩ := by
  have alone : ∀ other ∈ [group], IsGroup other := by simpa using known
  have found := @parse_render ⟨[group], []⟩ alone (by simp) trivial
  simpa [Tail.render] using found

end Tail

namespace Path

variable {head : FieldHead}

/-- A path of a field and one group is read as that group is. -/
theorem parse_append_group {group : Text} (room : nesting.depth ≤ nesting.maxDepth)
    (read : FieldHead.parse base = .ok head) (solid : group.hasBlank = false) (known : IsGroup group) :
    Path.parse nesting (base ++ group) =
      (Group.parse (Path.parse nesting.deeper) base group).map fun group =>
        .mk ⟨⟨head, [group]⟩, [], nesting⟩ := by
  have begins : ∃ c rest, group = c :: rest ∧ Layer.startsTail c = true := by
    obtain ⟨body, rfl, -⟩ := known
    exact ⟨'{', body, rfl, rfl⟩
  rw [parse_append room read solid (.inr begins), Tail.parse_group known]
  change (do
    let additions ← Tail.additions (Path.parse nesting.deeper) base ⟨[group], []⟩
    return Path.mk (.assemble nesting head additions)) = _
  simp only [Tail.additions, List.mapM_cons, List.mapM_nil]
  cases Group.parse (Path.parse nesting.deeper) base group <;> rfl

end Path

/-- A text that is a field head and tokens, each of them read as subfields whatever is around it. -/
structure Layer.Plain (text : Text) (head : FieldHead) (segments : List Segment) : Prop where
  parses : FieldHead.parse head.render = .ok head
  solid : text.hasBlank = false
  text_eq : text = head.render ++ segments.flatMap Segment.token
  groups : ∀ segment ∈ segments, segment.groups = []
  wellFormed : ∀ segment ∈ segments, segment.WellFormed
  isToken : ∀ segment ∈ segments, IsToken segment.token
  separated : Tail.Separated segments
  subfields : ∀ {ρ : Type} (nested : Text → Except Error ρ) (base : Text), ∀ segment ∈ segments,
    ∃ subfields, Segment.subfields nested base segment = .ok subfields

namespace Path

variable {head : FieldHead} {segments : List Segment}

/-- A path of a field head and tokens is read as its tokens are. -/
theorem parse_tokens (room : nesting.depth ≤ nesting.maxDepth)
    (read : FieldHead.parse head.render = .ok head)
    (solid : Text.hasBlank (segments.flatMap Segment.token) = false)
    (groups : ∀ segment ∈ segments, segment.groups = [])
    (wellFormed : ∀ segment ∈ segments, segment.WellFormed) (separated : Tail.Separated segments) :
    Path.parse nesting (head.render ++ segments.flatMap Segment.token) =
      (List.mapM (Segment.subfields (Path.parse nesting.deeper) head.render) segments).map fun parts =>
        .mk ⟨⟨head, []⟩, parts.flatten, nesting⟩ := by
  have written : Tail.render ⟨[], segments⟩ = segments.flatMap Segment.token :=
    List.flatMap_congr fun segment member => by simp [Segment.render, groups segment member]
  have cut := @Tail.parse_render ⟨[], segments⟩ (by simp) wellFormed separated
  have begins := @Tail.render_begins ⟨[], segments⟩ (by simp) wellFormed
  rw [written] at cut begins
  rw [parse_append room read solid begins, cut]
  change (do
    let additions ← Tail.additions (Path.parse nesting.deeper) head.render ⟨[], segments⟩
    return Path.mk (.assemble nesting head additions)) = _
  simp only [Tail.additions, List.mapM_nil]
  cases List.mapM (Segment.subfields (Path.parse nesting.deeper) head.render) segments <;> rfl

end Path

/-- What is read as a layer without groups is such a text. -/
theorem Layer.Read.plain {layer : Layer ρ} (read : Read nested nesting text layer)
    (field : layer.field.groups = []) (subfields : ∀ subfield ∈ layer.subfields, subfield.groups = []) :
    ∃ segments, Layer.Plain text layer.field.head segments := by
  obtain ⟨tail, parts, cut, attached, reads, same⟩ := read.parts
  obtain ⟨written, -⟩ := FieldHead.of_parse read.head
  have scan := Tail.parse_eq_ok_iff.mp cut
  have none : tail.groups = [] := by
    rw [← groups_eq attached, Layer.tail, field]
    rfl
  have groups : ∀ segment ∈ tail.segments, segment.groups = [] := by
    intro segment source
    obtain ⟨part, inside, found⟩ := exists_of_mem_items reads source
    obtain ⟨tokens, expanded, each, segments⟩ := Segment.of_subfields found
    obtain ⟨token, member⟩ := List.exists_mem_of_ne_nil _ (Segment.tokens_ne_nil expanded)
    obtain ⟨subfield, source, read⟩ := exists_of_mem_items each member
    have written := congrArg Segment.groups (Segment.segment_of_subfield read)
    rw [← written, Subfield.segment, subfields subfield (same ▸ List.mem_flatten.mpr ⟨part, inside, source⟩)]
    rfl
  have isToken : ∀ segment ∈ tail.segments, IsToken segment.token := by
    intro segment source
    obtain ⟨part, -, found⟩ := exists_of_mem_items reads source
    exact Segment.isToken (scan.wellFormed segment source) found
  refine ⟨tail.segments, written.symm ▸ read.head, read.solid, ?_, groups, scan.wellFormed, isToken,
    Tail.separated_of_isToken scan.parted isToken, ?_⟩
  · have tokens : tail.segments.flatMap Segment.token = tailText text := scan.text_eq ⟨none, groups⟩
    rw [written, tokens, headText_append_tailText]
  · -- No groups are left to ask for a nested path, and the context is only for those.
    intro σ nested' base' segment source
    obtain ⟨part, -, found⟩ := exists_of_mem_items reads source
    exact Segment.exists_subfields_of_no_groups (groups segment source) found

namespace Layer.Plain

variable {head : FieldHead} {segments : List Segment}

theorem guarded (plain : Plain text head segments) : Text.Guarded none text := by
  have tokens (before : Option Char) {segments : List Segment}
      (isToken : ∀ segment ∈ segments, IsToken segment.token) :
      Text.Guarded before (segments.flatMap Segment.token) := by
    induction segments generalizing before with
    | nil => trivial
    | cons segment rest ih =>
      exact .append ((isToken segment (by simp)).guarded before)
        (ih _ fun other member => isToken other (by simp [member]))
  rw [plain.text_eq]
  exact .append (.of_isHeadChar (FieldHead.of_parse plain.parses).2.isHeadChar none)
    (tokens _ plain.isToken)

theorem exists_first (plain : Plain text head segments) :
    ∃ c rest, text = c :: rest ∧ (c.isAlphanum = true ∨ c = '.') := by
  obtain ⟨c, rest, begins, letter⟩ := (FieldHead.of_parse plain.parses).2.exists_first
  exact ⟨c, _, by rw [plain.text_eq, begins]; rfl, letter⟩

theorem exists_parse (plain : Plain text head segments) (room : nesting.depth ≤ nesting.maxDepth) :
    ∃ path, Path.parse nesting text = .ok path := by
  have solid := plain.solid
  rw [plain.text_eq] at solid ⊢
  have tokens := Text.hasBlank_of_infix (List.suffix_append _ _).isInfix solid
  rw [Path.parse_tokens room plain.parses tokens plain.groups plain.wellFormed plain.separated]
  have each : ∀ segment ∈ segments, Outcome (fun _ => True) (fun _ => False)
      (Segment.subfields (Path.parse nesting.deeper) head.render segment) := by
    intro segment member
    obtain ⟨subfields, found⟩ := plain.subfields (Path.parse nesting.deeper) head.render segment member
    rw [found]
    trivial
  obtain ⟨parts, found, -⟩ := (Outcome.mapM each).exists_ok
  rw [found]
  exact ⟨_, rfl⟩

/-- A bar among tokens is a code, and what stands before the first one ends in a dollar. -/
private theorem exists_token_of_bar {segments : List Segment}
    (isToken : ∀ segment ∈ segments, IsToken segment.token)
    (bar : '|' ∈ segments.flatMap Segment.token) :
    ∃ front segment back rest, segments = front ++ segment :: back ∧ segment.token = '$' :: '|' :: rest ∧
      '|' ∉ front.flatMap Segment.token := by
  induction segments with
  | nil => cases bar
  | cons segment others ih =>
    obtain ⟨code, rest, token, headChars⟩ := isToken segment (by simp)
    have later : '|' ∉ rest := fun member => absurd (headChars _ member) (by decide)
    by_cases same : code = '|'
    · exact ⟨[], segment, others, rest, rfl, same ▸ token, by simp⟩
    · have none : '|' ∉ segment.token := by
        rw [token]
        simp [later, Ne.symm same]
      have behind : '|' ∈ others.flatMap Segment.token :=
        (List.mem_append.mp bar).resolve_left none
      obtain ⟨front, other, back, rest, rfl, token, absent⟩ :=
        ih (fun other member => isToken other (by simp [member])) behind
      refine ⟨segment :: front, other, back, rest, rfl, token, ?_⟩
      rw [List.flatMap_cons, List.mem_append, not_or]
      exact ⟨none, absent⟩

/-- What stands before the first bar ends in a dollar, which is a subfield without a code. -/
theorem exists_of_bar (plain : Plain text head segments) (bar : '|' ∈ text) :
    ∃ front rest, text = front ++ '|' :: rest ∧ '|' ∉ front ∧ front.getLast? = some '$' ∧
      ∀ nesting, nesting.depth ≤ nesting.maxDepth →
        Path.parse nesting front = violates .subfield .underTwo ['$'] := by
  obtain ⟨-, known⟩ := FieldHead.of_parse plain.parses
  have absent : '|' ∉ head.render := fun member => absurd (known.isHeadChar _ member) (by decide)
  rw [plain.text_eq] at bar
  obtain ⟨front, segment, back, rest, rfl, token, before⟩ :=
    exists_token_of_bar plain.isToken ((List.mem_append.mp bar).resolve_left absent)
  have whole : text = (head.render ++ (front.flatMap Segment.token ++ ['$'])) ++
      '|' :: (rest ++ back.flatMap Segment.token) := by
    rw [plain.text_eq]
    simp [token]
  refine ⟨head.render ++ (front.flatMap Segment.token ++ ['$']), _, whole, ?_, by simp, ?_⟩
  · simp [absent, before]
  · -- Cut off before its code, the token of the bar is a dollar alone.
    intro nesting room
    have tokens : front.flatMap Segment.token ++ ['$'] =
        (front ++ [Segment.mk ['$'] []]).flatMap Segment.token := by simp
    have solid : Text.hasBlank (front.flatMap Segment.token ++ ['$']) = false := by
      refine Text.hasBlank_of_infix ⟨head.render, '|' :: (rest ++ back.flatMap Segment.token), ?_⟩
        plain.solid
      rw [whole]
    have ended := Tail.Separated.ended_of_append plain.separated (by simp)
    rw [tokens] at solid ⊢
    rw [Path.parse_tokens room plain.parses solid ?_ ?_ (.append ended ⟨by simp, trivial⟩)]
    · have reads : ∀ segment ∈ front, ∃ subfields,
          Segment.subfields (Path.parse nesting.deeper) head.render segment = .ok subfields :=
        fun segment member => plain.subfields _ _ segment (by simp [member])
      rw [mapM_append_of_error reads rfl]
      rfl
    · intro other member
      rcases List.mem_append.mp member with member | member
      · exact plain.groups other (by simp [member])
      · rw [List.mem_singleton.mp member]
    · intro other member
      rcases List.mem_append.mp member with member | member
      · exact plain.wellFormed other (by simp [member])
      · rw [List.mem_singleton.mp member]
        exact ⟨⟨[], rfl, by simp [Mark.ofText]⟩, by simp⟩

end Layer.Plain

end MarcPath
