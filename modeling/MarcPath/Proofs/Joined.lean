import MarcPath.Proofs.Legible

/-! Digits on both sides of a group. They make up one position, and its numeral is as long as both runs
together. -/
namespace MarcPath

variable {digits first second : Text}

private theorem isInert_of_digits (all : digits.all isDigit = true) :
    ∀ c ∈ digits, isInert c = true :=
  fun c member => Span.IsSpanChar.isInert (.inl (List.all_eq_true.mp all c member))

theorem Span.isPosition_of_digits (all : digits.all isDigit = true) (nonempty : digits ≠ []) :
    isPosition digits = true := by
  rw [isPosition, Text.chomp_eq_self (Text.solid_of_digits all), all]
  simp [nonempty]

/-- A run of digits as a span. -/
theorem Span.parse_digits (all : digits.all isDigit = true) (nonempty : digits ≠ []) :
    Span.parse digits = .ok ⟨digits, none⟩ := by
  have known : WellFormed ⟨digits, none⟩ := ⟨isPosition_of_digits all nonempty, by simp, rfl⟩
  exact Span.parse_render known

/-- The token of a subfield with a run of digits for its characters. -/
def digitsToken (digits : Text) : Text :=
  '$' :: 'a' :: '/' :: digits

theorem SubfieldHead.parse_digitsToken (all : digits.all isDigit = true) (nonempty : digits ≠ []) :
    SubfieldHead.parse (digitsToken digits) = .ok ⟨'a', none, some ⟨digits, none⟩⟩ := by
  have cut : SubfieldHead.parse (digitsToken digits) = (do
      let characters ← (Span.parse digits).map some
      return ⟨'a', none, characters⟩) := rfl
  rw [cut, Span.parse_digits all nonempty]
  rfl

theorem Segment.isRange_digitsToken (digits : Text) (groups : List Text) :
    Segment.isRange ⟨digitsToken digits, groups⟩ = false := by
  simp only [Segment.isRange, digitsToken, List.findIdx?_cons]
  cases List.findIdx? (fun c => c == '-') digits <;> simp

/-- A path with a group in the middle of a position. -/
def joinedText (first second : Text) : Text :=
  "245".toList ++ (digitsToken first ++ ("{245}".toList ++ second))

def joinedTail (first second : Text) : Tail :=
  ⟨[], [⟨digitsToken (first ++ second), ["{245}".toList]⟩]⟩

/-- What is behind the group belongs to the token in front of it. -/
theorem Tail.parse_joined (inert : ∀ c ∈ first, isInert c = true)
    (inert' : ∀ c ∈ second, isInert c = true) :
    Tail.parse (digitsToken first ++ ("{245}".toList ++ second)) = .ok (joinedTail first second) := by
  have rest : Tail.Scan (some '}') true second ⟨second, [], [], []⟩ := by
    have done : Tail.Scan (Text.lastFrom (some '}') second) true [] ⟨[], [], [], []⟩ := .done
    simpa using done.append_token (Mark.ofText_inert inert' (some '}'))
  have closes : Mark.Closes 0 (Mark.ofText (some '{') "245\x7d".toList) :=
    .other rfl (.other rfl (.other rfl .last))
  have free : isShielded (Text.lastFrom (some '/') first) = false := Text.isShielded_lastFrom rfl inert
  have scan : Tail.Scan (some '/') true (first ++ ("{245}".toList ++ second))
      ⟨first ++ second, [], ["{245}".toList], []⟩ :=
    (Tail.Scan.group free closes rest).append_token (Mark.ofText_inert inert (some '/'))
  apply Tail.parse_eq_ok_iff.mpr
  exact .dollar rfl (.plain rfl (.plain rfl scan))

theorem solid_joinedText (solid : first.hasBlank = false) (solid' : second.hasBlank = false) :
    (joinedText first second).hasBlank = false := by
  rw [Text.hasBlank] at solid solid' ⊢
  simp only [joinedText, digitsToken, List.any_append, List.any_cons, solid, solid']
  decide

theorem Layer.cut_joined (inert : ∀ c ∈ first, isInert c = true)
    (inert' : ∀ c ∈ second, isInert c = true) (solid : first.hasBlank = false)
    (solid' : second.hasBlank = false) :
    Layer.cut (joinedText first second) =
      .ok (⟨"245".toList, none, .all⟩, joinedTail first second) := by
  refine Layer.cut_eq_ok_iff.mpr ⟨?_, solid_joinedText solid solid', rfl, Tail.parse_joined inert inert'⟩
  simp [joinedText]

theorem Layer.cut_joined_digits (all : first.all isDigit = true) (all' : second.all isDigit = true) :
    Layer.cut (joinedText first second) =
      .ok (⟨"245".toList, none, .all⟩, joinedTail first second) :=
  Layer.cut_joined (isInert_of_digits all) (isInert_of_digits all') (Text.solid_of_digits all)
    (Text.solid_of_digits all')

/-- Such a path is read, whatever the runs of digits are. -/
theorem Path.exists_parse_joined (all : first.all isDigit = true) (all' : second.all isDigit = true)
    (nonempty : first ++ second ≠ []) :
    ∃ path, Path.parse .top (joinedText first second) = .ok path := by
  have digits : (first ++ second).all isDigit = true := by simp [all, all']
  let head : SubfieldHead := ⟨'a', none, some ⟨first ++ second, none⟩⟩
  have token : SubfieldHead.parse (digitsToken (first ++ second)) = .ok head :=
    SubfieldHead.parse_digitsToken digits nonempty
  -- The condition is absolute, so its context does not matter to how it is read.
  obtain ⟨group, read⟩ : ∃ group, Group.parse (Path.parse Nesting.top.deeper)
      ("245".toList ++ head.render) "{245}".toList = .ok group := ⟨_, rfl⟩
  have attached : Segment.subfield (Path.parse Nesting.top.deeper) "245".toList ["{245}".toList]
      (digitsToken (first ++ second)) = .ok ⟨head, [group]⟩ :=
    Segment.subfield_eq_ok_iff.mpr ⟨token, mapM_eq_ok_iff.mpr (.cons read .nil)⟩
  have subfields := Segment.subfields_segment attached
    (Segment.segment_of_subfield attached ▸ Segment.isRange_digitsToken _ _)
  rw [Segment.segment_of_subfield attached] at subfields
  have additions : (joinedTail first second).additions (Path.parse Nesting.top.deeper)
      "245".toList = .ok ⟨[], [⟨head, [group]⟩]⟩ :=
    Tail.additions_eq_ok_iff.mpr
      ⟨rfl, [[⟨head, [group]⟩]], mapM_eq_ok_iff.mpr (.cons subfields .nil), rfl⟩
  obtain ⟨long, solid, parsed, cut⟩ := Layer.cut_eq_ok_iff.mp (Layer.cut_joined_digits all all')
  refine ⟨.mk ⟨⟨⟨"245".toList, none, .all⟩, []⟩, [⟨head, [group]⟩], .top⟩, ?_⟩
  refine Path.parse_eq_ok_iff.mpr ⟨by decide, ?_⟩
  rw [Text.strip_eq_self solid]
  exact ⟨long, solid, parsed, ⟨_, cut, additions⟩, rfl⟩

/-- It has a tree only if both runs together are short enough to be one numeral. -/
theorem Path.length_le_of_tree_joined {path : Path} {tree : Tree} (all : first.all isDigit = true)
    (all' : second.all isDigit = true)
    (found : Path.parse .top (joinedText first second) = .ok path)
    (described : path.tree = .ok tree) : first.length + second.length ≤ Numeral.maxDigits := by
  have cut := Layer.cut_joined_digits all all'
  have tokens := tokensWithin_of_tree found described
  rw [Text.strip_eq_self (Layer.cut_eq_ok_iff.mp cut).2.1] at tokens
  have token := tokens _ _ cut _ List.mem_cons_self
  have short := token (first ++ second) ⟨['$', 'a', '/'], [], by simp [digitsToken]⟩
    (by simp [all, all'])
  rwa [List.length_append] at short

/-- Both ends of a range are read as numbers, so neither may have too many digits. -/
theorem Span.parse_of_long (all : digits.all isDigit = true)
    (long : Numeral.maxDigits < digits.length) :
    Span.parse ('0' :: '-' :: digits) = .error (.numeral (.tooManyDigits digits.length)) := by
  have nonempty : digits ≠ [] := by
    rintro rfl
    cases long
  have position := isPosition_of_digits all nonempty
  have cut : Text.splitOn '-' ('0' :: '-' :: digits) = (['0'], [digits]) := by
    have pieces := @Text.splitOn_append '-' ['0'] (by decide) digits
    rwa [Text.splitOn_eq_self (dash_not_mem position)] at pieces
  have numbered : isLast digits = false := by
    by_contra last
    rw [Bool.not_eq_false, isLast, beq_iff_eq] at last
    rw [last] at all
    revert all
    decide
  have zero : isPosition ['0'] = true ∧ isLast ['0'] = false := by decide
  have failed : isReversed ⟨['0'], some digits⟩ = .error (.numeral (.tooManyDigits digits.length)) := by
    simp only [isReversed, zero, numbered, Bool.or_false, Bool.false_eq_true, ↓reduceIte]
    rw [numberOf_digits all nonempty, if_pos long]
    rfl
  simp [Span.parse, cut, zero, position, failed, bind, Except.bind]

private theorem solid_range (all : digits.all isDigit = true) :
    Text.hasBlank ('0' :: '-' :: digits) = false := by
  have known := Text.solid_of_digits all
  have free : isBlank '0' = false ∧ isBlank '-' = false := by decide
  rw [Text.hasBlank] at known ⊢
  simp [free, known]

theorem solid_joinedDigits (all : first.all isDigit = true) (all' : second.all isDigit = true) :
    (joinedText first second).hasBlank = false :=
  solid_joinedText (Text.solid_of_digits all) (Text.solid_of_digits all')

theorem solid_joinedRange (all : first.all isDigit = true) (all' : second.all isDigit = true) :
    (joinedText ('0' :: '-' :: first) second).hasBlank = false :=
  solid_joinedText (solid_range all) (Text.solid_of_digits all')

/-- A range that a token is put together with is not read if its end has too many digits. -/
theorem Path.parse_joined_of_long {nesting : Nesting} (room : nesting.depth ≤ nesting.maxDepth)
    (all : first.all isDigit = true) (all' : second.all isDigit = true)
    (long : Numeral.maxDigits < first.length + second.length) :
    Path.parse nesting (joinedText ('0' :: '-' :: first) second) =
      .error (.numeral (.tooManyDigits (first.length + second.length))) := by
  have free : isInert '0' = true ∧ isInert '-' = true := by decide
  have inert : ∀ c ∈ '0' :: '-' :: first, isInert c = true :=
    List.forall_mem_cons.mpr ⟨free.1, List.forall_mem_cons.mpr ⟨free.2, isInert_of_digits all⟩⟩
  have failed : SubfieldHead.parse (digitsToken ('0' :: '-' :: first ++ second)) =
      .error (.numeral (.tooManyDigits (first.length + second.length))) := by
    have cut : SubfieldHead.parse (digitsToken ('0' :: '-' :: first ++ second)) = (do
        let characters ← (Span.parse ('0' :: '-' :: (first ++ second))).map some
        return ⟨'a', none, characters⟩) := rfl
    rw [cut, Span.parse_of_long (by simp [all, all']) (by rwa [List.length_append]), List.length_append]
    rfl
  rw [Path.parse_eq, if_neg (by omega), Text.strip_eq_self (solid_joinedRange all all'),
    Layer.parseStripped_eq,
    Layer.cut_joined inert (isInert_of_digits all') (solid_range all) (Text.solid_of_digits all')]
  change (Except.map _ (Tail.additions _ _ (joinedTail ('0' :: '-' :: first) second))).map _ = _
  rw [joinedTail, Tail.additions, List.mapM_nil, List.mapM_cons,
    Segment.subfields_of_error (Segment.isRange_digitsToken _ _) failed]
  rfl

/-- In the text itself the runs stand apart. -/
theorem Text.digitsWithin_joined {limit : Nat} (room : 3 ≤ limit) (left : DigitsWithin limit first)
    (right : DigitsWithin limit second) : DigitsWithin limit (joinedText first second) := by
  have tag : DigitsWithin limit "245".toList := .of_length_le room
  have code : DigitsWithin limit ['a'] := .of_length_le (by simp; omega)
  have group := tag.append_cons (by decide : isDigit '}' = false) right
  have position := left.append_cons (by decide : isDigit '{' = false) group
  have token := code.append_cons (by decide : isDigit '/' = false) position
  exact tag.append_cons (by decide : isDigit '$' = false) token

theorem all_replicate (count : Nat) : (List.replicate count '1').all isDigit = true := by
  have digit : isDigit '1' = true := by decide
  simp [digit]

/-- No run of digits in this text is too long, but the path that it is read as has no tree. -/
theorem no_tree_of_joined_digits :
    Text.DigitsWithin 4299 (joinedText (List.replicate 4299 '1') ['1', '1']) ∧
      ∃ path, Path.parse .top (joinedText (List.replicate 4299 '1') ['1', '1']) = .ok path ∧
        ¬ ∃ tree, path.tree = .ok tree := by
  have ones := all_replicate 4299
  have ones' : ['1', '1'].all isDigit = true := by decide
  have short : (List.replicate 4299 '1').length ≤ 4299 := by rw [List.length_replicate]
  refine ⟨Text.digitsWithin_joined (by decide) (.of_length_le short) (.of_length_le (by decide)), ?_⟩
  obtain ⟨path, found⟩ := Path.exists_parse_joined ones ones' fun none =>
    absurd (List.append_eq_nil_iff.mp none).2 (by decide)
  refine ⟨path, found, ?_⟩
  rintro ⟨tree, described⟩
  have within := Path.length_le_of_tree_joined ones ones' found described
  rw [List.length_replicate] at within
  exact absurd within (by decide)

end MarcPath
