import MarcPath.Proofs.Diagnostics

/-! Hovering and diagnostics. The two read a line alike, but only hovering writes down the tree of its path;
so they agree on every line of a document exactly if each line is read or breaks a rule, and what is read
has a tree that can be written. -/
namespace MarcPath

/-- The diagnostics of one line. -/
def Diagnostic.ofLine (place : Int) (found : List Diagnostic) : List Diagnostic :=
  found.filter (·.range.line == place)

private theorem Diagnostic.ofLine_eq_nil_of_lt {found : List Diagnostic} {place : Int}
    (behind : ∀ other ∈ found, place < other.range.line) : ofLine place found = [] := by
  rw [ofLine, List.filter_eq_nil_iff]
  intro other member
  have apart := behind other member
  simpa using apart.ne'

/-- Among diagnostics in the order of their lines there is one at most for each line. -/
theorem Diagnostic.ofLine_eq_singleton {found : List Diagnostic} {diagnostic : Diagnostic}
    (ordered : found.Pairwise fun earlier later => earlier.range.line < later.range.line)
    (member : diagnostic ∈ found) : ofLine diagnostic.range.line found = [diagnostic] := by
  induction ordered with
  | nil => cases member
  | @cons first rest behind ordered ih =>
    rcases List.mem_cons.mp member with rfl | member
    · have none : rest.filter _ = [] := ofLine_eq_nil_of_lt behind
      rw [ofLine, List.filter_cons_of_pos (by simp), none]
    · have apart := behind diagnostic member
      rw [ofLine, List.filter_cons_of_neg (by simpa using apart.ne)]
      exact ih member

/-- A range that lies inside of another one. -/
structure Range.Inside (inner outer : Range) : Prop where
  line : inner.line = outer.line
  start : outer.start ≤ inner.start
  stop : inner.stop ≤ outer.stop

namespace Document

/-- What an editor shows for a line. -/
inductive Verdict where
  | silent
  | broken
  | explained

/-- What is shown for a line by hovering over it, beside the diagnostics of the document. -/
inductive Shows (maxDepth : Int) (source : Text) (found : List Diagnostic) (number : Nat) :
    Verdict → Prop where
  | silent (other : ∀ line, (lines source)[number]? = some line → isPathLine line = false)
      (hovered : hover maxDepth source number = .ok none)
      (reported : Diagnostic.ofLine number found = []) :
      Shows maxDepth source found number .silent
  | broken {line : Text} {diagnostic : Diagnostic} (stands : (lines source)[number]? = some line)
      (hovered : hover maxDepth source number = .ok (some ⟨wholeLine number line,
        "**Invalid MARCspec**\n\n".toList ++ diagnostic.message⟩))
      (reported : Diagnostic.ofLine number found = [diagnostic])
      (inside : diagnostic.range.Inside (wholeLine number line)) :
      Shows maxDepth source found number .broken
  | explained {line text : Text} {path : Path} (stands : (lines source)[number]? = some line)
      (read : parseLine maxDepth line = .ok path) (explains : explain path = .ok text)
      (hovered : hover maxDepth source number = .ok (some ⟨wholeLine number line, text⟩))
      (reported : Diagnostic.ofLine number found = []) :
      Shows maxDepth source found number .explained

variable {maxDepth : Int} {source line : Text} {found : List Diagnostic} {number : Nat}
  {violation : Violation} {verdict verdict' : Verdict}

/-- A line is shown in one way only. -/
theorem Shows.unique (shown : Shows maxDepth source found number verdict)
    (shown' : Shows maxDepth source found number verdict') : verdict = verdict' := by
  cases shown with
  | silent other hovered reported =>
    cases shown' with
    | silent _ _ _ => rfl
    | broken _ hovered' _ _ => cases hovered.symm.trans hovered'
    | explained _ _ _ hovered' _ => cases hovered.symm.trans hovered'
  | broken stands hovered reported inside =>
    cases shown' with
    | silent _ hovered' _ => cases hovered.symm.trans hovered'
    | broken _ _ _ _ => rfl
    | explained _ _ _ _ reported' => cases reported.symm.trans reported'
  | explained stands read explains hovered reported =>
    cases shown' with
    | silent _ hovered' _ => cases hovered.symm.trans hovered'
    | broken _ _ reported' _ => cases reported.symm.trans reported'
    | explained _ _ _ _ _ => rfl

theorem ofLine_of_breaks (known : diagnostics maxDepth source = .ok found)
    (stands : (lines source)[number]? = some line) (breaks : Breaks maxDepth line violation) :
    Diagnostic.ofLine number found = [report number line violation] := by
  have member : report number line violation ∈ found :=
    (mem_of_diagnoseFrom known).mpr ⟨number, line, violation, stands, breaks, by rw [Nat.zero_add]⟩
  have single := Diagnostic.ofLine_eq_singleton (pairwise_of_diagnoseFrom known) member
  rwa [line_report] at single

theorem ofLine_of_not_breaks (known : diagnostics maxDepth source = .ok found)
    (sound : ∀ line violation, (lines source)[number]? = some line → ¬ Breaks maxDepth line violation) :
    Diagnostic.ofLine number found = [] := by
  rw [Diagnostic.ofLine, List.filter_eq_nil_iff]
  intro diagnostic member same
  obtain ⟨place, line, violation, stands, breaks, rfl⟩ := (mem_of_diagnoseFrom known).mp member
  rw [line_report, beq_iff_eq, Nat.zero_add, Int.natCast_inj] at same
  exact sound line violation (same ▸ stands) breaks

theorem ofLine_of_read {path : Path} (known : diagnostics maxDepth source = .ok found)
    (stands : (lines source)[number]? = some line) (read : parseLine maxDepth line = .ok path) :
    Diagnostic.ofLine number found = [] := by
  apply ofLine_of_not_breaks known
  intro line' violation stands' breaks
  obtain rfl := Option.some.inj (stands.symm.trans stands')
  have failed := breaks.2
  rw [read] at failed
  cases failed

theorem hover_of_path (stands : (lines source)[number]? = some line) (path : isPathLine line = true) :
    hover maxDepth source number =
      (hoverText maxDepth line).map fun text => some ⟨wholeLine number line, text⟩ := by
  simp [hover, stands, path]

theorem shows_silent (known : diagnostics maxDepth source = .ok found)
    (other : ∀ line, (lines source)[number]? = some line → isPathLine line = false) :
    Shows maxDepth source found number .silent := by
  refine .silent other ?_ (ofLine_of_not_breaks known ?_)
  · unfold hover
    split
    · rfl
    · rename_i line stands
      simp [other line stands]
  · intro line violation stands breaks
    have path := breaks.1
    rw [other line stands] at path
    cases path

theorem shows_broken (known : diagnostics maxDepth source = .ok found)
    (stands : (lines source)[number]? = some line) (breaks : Breaks maxDepth line violation) :
    Shows maxDepth source found number .broken := by
  have selects := locate_selects line number violation
  refine .broken stands ?_ (ofLine_of_breaks known stands breaks)
    ⟨selects.line, Nat.zero_le _, selects.within⟩
  rw [hover_of_path stands breaks.1, hoverText, breaks.2]
  rfl

theorem shows_explained {path : Path} {text : Text} (known : diagnostics maxDepth source = .ok found)
    (stands : (lines source)[number]? = some line) (read : parseLine maxDepth line = .ok path)
    (explains : explain path = .ok text) : Shows maxDepth source found number .explained := by
  refine .explained stands read explains ?_ (ofLine_of_read known stands read)
  have said : (parseLine maxDepth line >>= explain) = .ok text := by
    rw [read]
    exact explains
  rw [hover_of_path stands (isPathLine_of_parse read), hoverText, said]
  rfl

/-- A path is explained exactly if its tree can be written. -/
theorem exists_explain_iff {path : Path} :
    (∃ text, explain path = .ok text) ↔ ∃ json, path.json (.lines 2) = .ok json := by
  unfold explain
  cases path.json (.lines 2) with
  | ok json => exact ⟨fun _ => ⟨json, rfl⟩, fun _ => ⟨_, rfl⟩⟩
  | error error =>
    constructor
    · rintro ⟨text, found⟩
      cases found
    · rintro ⟨json, found⟩
      cases found

/-- A line that is read as a path whose tree can be written, or breaks a rule. -/
def Explicable (maxDepth : Int) (line : Text) : Prop :=
  Checkable maxDepth line ∧
    ∀ path, parseLine maxDepth line = .ok path → ∃ json, path.json (.lines 2) = .ok json

/-- Each line of a document is shown in one way, if hovering over it and the diagnostics agree. -/
def Agrees (maxDepth : Int) (source : Text) : Prop :=
  ∃ found, diagnostics maxDepth source = .ok found ∧
    ∀ number, ∃! verdict, Shows maxDepth source found number verdict

theorem exists_shows (known : diagnostics maxDepth source = .ok found)
    (explicable : ∀ line ∈ lines source, Explicable maxDepth line) (number : Nat) :
    ∃ verdict, Shows maxDepth source found number verdict := by
  cases stands : (lines source)[number]? with
  | none =>
    refine ⟨_, shows_silent known ?_⟩
    intro line stands'
    rw [stands] at stands'
    cases stands'
  | some line =>
    obtain ⟨checkable, writable⟩ := explicable line (List.mem_of_getElem? stands)
    by_cases path : isPathLine line = true
    · cases read : parseLine maxDepth line with
      | ok path =>
        obtain ⟨text, explains⟩ := exists_explain_iff.mpr (writable path read)
        exact ⟨_, shows_explained known stands read explains⟩
      | error error =>
        obtain ⟨violation, rfl⟩ := checkable path error read
        exact ⟨_, shows_broken known stands ⟨path, read⟩⟩
    · refine ⟨_, shows_silent known ?_⟩
      intro line' stands'
      obtain rfl := Option.some.inj (stands.symm.trans stands')
      simpa using path

theorem TextAndTokensWithin.explicable (within : TextAndTokensWithin 4299 source) :
    ∀ line ∈ lines source, Explicable maxDepth line := by
  intro line member
  refine ⟨within.checkable (by decide) (by decide) line member, ?_⟩
  intro path found
  have outcome : Outcome _ _ (parseLine maxDepth line) :=
    within.parseLine_legible (by decide) (by decide) member
  rw [found] at outcome
  obtain ⟨tree, described, sound⟩ := Path.exists_tree (by decide) outcome (.inl rfl)
  rw [Path.json_eq_of_tree described]
  exact sound.exists_json (by decide) _

/-- Hovering and diagnostics agree on every line of a document exactly if each of its lines is read or
breaks a rule, and the tree of each path that is read can be written. That is so if neither the source nor
a token of a line has a run of digits that is too long. -/
theorem hover_agrees (maxDepth : Int) (source : Text) :
    (Agrees maxDepth source ↔ ∀ line ∈ lines source, Explicable maxDepth line) ∧
      (TextAndTokensWithin 4299 source → Agrees maxDepth source) := by
  have agrees (all : ∀ line ∈ lines source, Explicable maxDepth line) : Agrees maxDepth source := by
    obtain ⟨found, known⟩ :=
      exists_diagnoseFrom_iff.mpr fun line member => (all line member).1
    refine ⟨found, known, ?_⟩
    intro number
    obtain ⟨verdict, shown⟩ := exists_shows known all number
    exact ⟨verdict, shown, fun other shown' => shown'.unique shown⟩
  refine ⟨⟨?_, agrees⟩, fun within => agrees within.explicable⟩
  rintro ⟨found, known, each⟩ line member
  refine ⟨exists_diagnoseFrom_iff.mp ⟨found, known⟩ line member, ?_⟩
  intro path read
  obtain ⟨number, stands⟩ := List.mem_iff_getElem?.mp member
  obtain ⟨verdict, shown, -⟩ := each number
  -- A line that is read is neither passed over nor reported, so it must have been explained.
  cases shown with
  | silent other hovered reported =>
    have path := isPathLine_of_parse read
    rw [other line stands] at path
    cases path
  | broken stands' hovered reported inside =>
    rw [ofLine_of_read known stands read] at reported
    cases reported
  | explained stands' read' explains hovered reported =>
    obtain rfl := Option.some.inj (stands.symm.trans stands')
    obtain rfl := Except.ok.inj (read.symm.trans read')
    exact exists_explain_iff.mp ⟨_, explains⟩

/-- The lines are a broken one, a comment and a range. -/
theorem hover_agrees_of_range : Agrees 32 "24\n#$\n245$a/0-9".toList := by
  have all : lines "24\n#$\n245$a/0-9".toList = ["24".toList, "#$".toList, "245$a/0-9".toList] := by
    decide
  refine (hover_agrees 32 _).2 ⟨.of_length_le (by decide), ?_⟩
  rw [all]
  intro line member
  have flat : ∀ line ∈ ["24".toList, "#$".toList, "245$a/0-9".toList],
      (Mark.ofText none (Text.strip line)).any Mark.isBracket = false ∧
        (Text.strip line).length ≤ 4299 := by decide
  obtain ⟨flat, short⟩ := flat line member
  exact Layer.tokensWithin_of_flat (Text.unbracketed_of_any (by simp [flat])) (.of_length_le short)

/-- The line is read, and no diagnostic reports it; but its path has no tree, so it is not explained. -/
theorem no_verdict_of_joined_digits :
    let source := joinedText (List.replicate 4299 '1') ['1', '1']
    Text.DigitsWithin 4299 source ∧ diagnostics 32 source = .ok [] ∧
      ∀ verdict, ¬ Shows 32 source [] 0 verdict := by
  intro source
  have ones := all_replicate 4299
  have ones' : ['1', '1'].all isDigit = true := by decide
  have solid : source.hasBlank = false := solid_joinedDigits ones ones'
  have single := lines_of_solid solid
  obtain ⟨path, read⟩ : ∃ path, parseLine 32 source = .ok path :=
    Path.exists_parse_joined ones ones' fun none =>
      absurd (List.append_eq_nil_iff.mp none).2 (by decide)
  have known := isPathLine_of_parse read
  refine ⟨Text.digitsWithin_joined (by decide) (.of_length_le ?_) (.of_length_le (by decide)),
    diagnostics_of_read solid read, ?_⟩
  · rw [List.length_replicate]
  · intro verdict shown
    cases shown with
    | silent other hovered reported =>
      rw [other source (by rw [single]; rfl)] at known
      cases known
    | broken stands hovered reported inside => cases reported
    | explained stands read' explains hovered reported =>
      rw [single] at stands
      obtain rfl := Option.some.inj stands
      obtain rfl := Except.ok.inj (read.symm.trans read')
      obtain ⟨json, written⟩ := exists_explain_iff.mp ⟨_, explains⟩
      obtain ⟨tree, described, -⟩ := bind_eq_ok_iff.mp written
      have within := Path.length_le_of_tree_joined ones ones' read described
      rw [List.length_replicate] at within
      exact absurd within (by decide)

end Document
end MarcPath
