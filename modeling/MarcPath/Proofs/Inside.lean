import MarcPath.Proofs.Acceptance
import MarcPath.Proofs.Place
import MarcPath.Proofs.Plain
import MarcPath.Proofs.RoundTrip

/-! Where the operators of a path stand: inside of its groups. Outside of them there are only heads, which
are written with other characters, and codes, which follow a dollar. A term has no groups of its own, so
the only terms with operators in them are literals, and nothing that is read begins with one. -/
namespace MarcPath

namespace Operator

variable {c : Char}

/-- Characters of a kind spell no operator if the four that do are of another kind. -/
theorem not_of_mem {kind : Char → Bool} (symbol : c ∈ ['=', '~', '?', '!'])
    (apart : ['=', '~', '?', '!'].all (!kind ·) = true) : kind c = false := by
  simpa using List.all_eq_true.mp apart c symbol

theorem not_isHeadChar (symbol : c ∈ ['=', '~', '?', '!']) : isHeadChar c = false :=
  not_of_mem symbol rfl

theorem not_isMarker (symbol : c ∈ ['=', '~', '?', '!']) : Reference.isMarker c = false :=
  not_of_mem symbol rfl

theorem not_isBlank (symbol : c ∈ ['=', '~', '?', '!']) : isBlank c = false :=
  not_of_mem symbol rfl

end Operator

theorem isInert_of_isBlank {c : Char} (blank : isBlank c = true) : isInert c = true :=
  isInert_of_holds blank rfl

/-- A character of a text in two parts stands in the second part or in the first. -/
theorem Text.append_eq_append_cons {first second front rest : Text} {c : Char}
    (parts : first ++ second = front ++ c :: rest) :
    (∃ passed, front = first ++ passed ∧ second = passed ++ c :: rest) ∨
      ∃ left, first = front ++ c :: left := by
  rcases List.append_eq_append_iff.mp parts with ⟨passed, rfl, behind⟩ | ⟨left, rfl, behind⟩
  · exact .inl ⟨passed, rfl, behind⟩
  · cases left with
    | nil => exact .inl ⟨[], by simp, behind.symm⟩
    | cons other left =>
      obtain ⟨rfl, -⟩ := List.cons.inj behind
      exact .inr ⟨left, rfl⟩

namespace Mark

theorem balance_of_flat {marks : List Mark} (flat : ∀ mark ∈ marks, mark.isBracket = false) :
    balance marks = 0 := by
  induction marks with
  | nil => rfl
  | cons mark rest ih =>
    rw [balance_flat (flat mark (by simp)), ih fun other member => flat other (by simp [member])]

theorem balance_of_inert {before : Option Char} {text : Text} (inert : ∀ c ∈ text, isInert c = true) :
    balance (ofText before text) = 0 := by
  apply balance_of_flat
  intro mark member
  have plain := ofText_inert inert before mark member
  cases mark <;> simp_all [isPlain, isBracket]

theorem balance_append_of_inert {first : Text} (inert : ∀ c ∈ first, isInert c = true) (rest : Text) :
    balance (ofText none (first ++ rest)) = balance (ofText none rest) := by
  have same : isShielded (Text.lastFrom none first) = isShielded none :=
    Text.isShielded_lastFrom rfl inert
  rw [ofText_append, balance_append, balance_of_inert inert, Int.zero_add, ofText_congr same]

end Mark

/-- A part is no more shielded by what stands before it than it is as a text of its own. -/
theorem Text.unshielded_of_append {first second : Text}
    (free : isShielded (lastFrom none (first ++ second)) = false) :
    isShielded (lastFrom none second) = false := by
  cases second with
  | nil => rfl
  | cons c rest => rwa [lastFrom_append] at free

namespace Tail

/-- What follows is the rest of a token: of one that has its code, or of a dollar that it gives one. -/
def Continues (before : Option Char) (token : Text) : Prop :=
  (∀ c ∈ token, isHeadChar c = true) ∨ (isShielded before = true ∧ ∀ c ∈ token.drop 1, isHeadChar c = true)

theorem Continues.of_isToken {token : Text} (known : IsToken ('$' :: token)) :
    Continues (some '$') token := by
  obtain ⟨code, rest, parts, headChars⟩ := known
  obtain rfl := (List.cons.inj parts).2
  exact .inr ⟨rfl, headChars⟩

/-- A character that stands for an operator is inside of a group, if all tokens are read. -/
theorem Scan.inside {before : Option Char} {inToken : Bool} {text front rest : Text} {pending : Pending}
    {c : Char} (scan : Scan before inToken text pending) (token : Continues before pending.token)
    (tokens : ∀ segment ∈ pending.segments, IsToken segment.token) (parts : text = front ++ c :: rest)
    (symbol : c ∈ ['=', '~', '?', '!']) (free : isShielded (Text.lastFrom before front) = false) :
    0 < Mark.balance (Mark.ofText before front) := by
  induction scan generalizing front with
  | done => simp at parts
  | @group before inToken body text next unshielded closes later ih =>
    have token' : Continues (some '}') next.token := by
      rcases token with headChars | ⟨shielded, -⟩
      · exact .inl headChars
      · rw [unshielded] at shielded
        cases shielded
    cases front with
    | nil =>
      obtain ⟨rfl, -⟩ := List.cons.inj parts
      exact absurd symbol (by decide)
    | cons first front =>
      obtain ⟨rfl, others⟩ := List.cons.inj parts
      have opened : Mark.ofChar before '{' = .opening := by simp [Mark.ofChar, unshielded]
      rw [Mark.ofText, opened, Mark.balance]
      rcases Text.append_eq_append_cons others with ⟨passed, rfl, behind⟩ | ⟨left, rfl⟩
      · -- The group is passed as a whole, and its brackets are balanced.
        have later := ih token' tokens behind (by simpa [Text.lastFrom, closes.lastFrom_eq] using free)
        rw [Mark.ofText_append, Mark.balance_append, closes.balance_eq, closes.lastFrom_eq]
        omega
      · have inside := closes.open_before_last (Mark.ofText_append (some '{') front (c :: left))
          (by simp [Mark.ofText])
        omega
  | @dollar before inToken text next unshielded later ih =>
    cases front with
    | nil =>
      obtain ⟨rfl, -⟩ := List.cons.inj parts
      exact absurd symbol (by decide)
    | cons first front =>
      obtain ⟨rfl, others⟩ := List.cons.inj parts
      have later := ih (.of_isToken (tokens _ List.mem_cons_self))
        (fun segment member => tokens segment (by simp [member])) others free
      rwa [Mark.ofText_dollar unshielded, Mark.balance_flat rfl]
  | @plain before other text next plain later ih =>
    cases front with
    | nil =>
      obtain ⟨rfl, -⟩ := List.cons.inj parts
      rcases token with headChars | ⟨shielded, -⟩
      · have headChar := headChars other (by simp)
        rw [Operator.not_isHeadChar symbol] at headChar
        cases headChar
      · rw [Text.lastFrom, shielded] at free
        cases free
    | cons first front =>
      obtain ⟨rfl, others⟩ := List.cons.inj parts
      have token' : Continues (some other) next.token := by
        rcases token with headChars | ⟨-, headChars⟩
        · exact .inl fun c member => headChars c (by simp [member])
        · exact .inl headChars
      rw [Mark.ofText, plain, Mark.balance_flat rfl]
      exact ih token' tokens others free

end Tail

variable {ρ : Type} {nested : Text → Except Error ρ} {nesting : Nesting} {text front rest : Text} {c : Char}

/-- In a text that is read as a layer, brackets are balanced, and operators stand between them. -/
theorem Layer.Read.inside {layer : Layer ρ} (read : Read nested nesting text layer)
    (parts : text = front ++ c :: rest) (symbol : c ∈ ['=', '~', '?', '!'])
    (free : isShielded (Text.lastFrom none front) = false) :
    Mark.balance (Mark.ofText none text) = 0 ∧ 0 < Mark.balance (Mark.ofText none front) := by
  obtain ⟨tail, segments, cut, -, reads, -⟩ := read.parts
  have scan := Tail.parse_eq_ok_iff.mp cut
  have isToken : ∀ segment ∈ tail.segments, IsToken segment.token := by
    intro segment source
    obtain ⟨part, -, found⟩ := exists_of_mem_items reads source
    exact Segment.isToken (scan.wellFormed segment source) found
  obtain ⟨written, head⟩ := FieldHead.of_parse read.head
  have headChars : ∀ c ∈ headText text, isHeadChar c = true := written ▸ head.isHeadChar
  have marks := Mark.balance_append_of_inert fun c member => isInert_of_isHeadChar (headChars c member)
  rw [← headText_append_tailText text] at parts
  rcases Text.append_eq_append_cons parts with ⟨passed, rfl, behind⟩ | ⟨left, begins⟩
  · have balanced := ((Tail.exists_parse_iff _).mp ⟨tail, cut⟩).1.2
    rw [marks, ← headText_append_tailText text, marks]
    exact ⟨by omega, scan.inside (.inl (by simp)) isToken behind symbol (Text.unshielded_of_append free)⟩
  · have headChar := headChars c (by simp [begins])
    rw [Operator.not_isHeadChar symbol] at headChar
    cases headChar

/-- So it is in a text with blanks around it. -/
theorem Path.inside {path : Path} (found : Path.parse nesting text = .ok path)
    (parts : text = front ++ c :: rest) (symbol : c ∈ ['=', '~', '?', '!'])
    (free : isShielded (Text.lastFrom none front) = false) :
    Mark.balance (Mark.ofText none text) = 0 ∧ 0 < Mark.balance (Mark.ofText none front) := by
  obtain ⟨-, read⟩ := parse_eq_ok_iff.mp found
  obtain ⟨before, behind, whole, blank, blank'⟩ := Text.exists_trim isBlank text
  have inert : ∀ c ∈ before, isInert c = true := fun c member => isInert_of_isBlank (blank c member)
  have inert' : ∀ c ∈ behind, isInert c = true := fun c member => isInert_of_isBlank (blank' c member)
  have visible := Operator.not_isBlank symbol
  rw [whole, List.append_assoc] at parts
  rcases Text.append_eq_append_cons parts with ⟨passed, rfl, rest⟩ | ⟨left, begins⟩
  · rcases Text.append_eq_append_cons rest with ⟨more, -, ends⟩ | ⟨left, inside⟩
    · rw [blank' c (by simp [ends])] at visible
      cases visible
    · obtain ⟨balanced, positive⟩ := read.inside inside symbol (Text.unshielded_of_append free)
      rw [Text.strip] at balanced
      rw [whole, List.append_assoc, Mark.balance_append_of_inert inert, Mark.ofText_append,
        Mark.balance_append, balanced, Mark.balance_of_inert inert', Mark.balance_append_of_inert inert]
      exact ⟨rfl, positive⟩
  · rw [blank c (by simp [begins])] at visible
    cases visible

theorem TermSet.OperatesAt.exists_parts {place : Nat} (operates : TermSet.OperatesAt text place) :
    ∃ front c rest, text = front ++ c :: rest ∧ c ∈ ['=', '~', '?', '!'] ∧
      isShielded (Text.lastFrom none front) = false := by
  obtain ⟨c, found, symbol, free⟩ := operates
  obtain ⟨inside, rfl⟩ := List.getElem?_eq_some_iff.mp found
  refine ⟨text.take place, text[place], text.drop (place + 1), ?_, symbol, ?_⟩
  · rw [List.getElem_cons_drop, List.take_append_drop]
  · rwa [Text.lastFrom_take]

/-- A term without brackets that has an operator is a literal. -/
theorem Operand.exists_literal {context term : Text} {operand : Operand Path} {place : Nat}
    (found : Operand.parse (Path.parse nesting) context term = .ok operand) (flat : term.Unbracketed)
    (operates : TermSet.OperatesAt term place) : ∃ value, operand = .literal value := by
  obtain ⟨front, c, rest, parts, symbol, free⟩ := operates.exists_parts
  -- What a path is read from goes on after the operator without a bracket, so it is in no group there.
  have outside (kept : Text) (path : Path) (free' : isShielded (Text.lastFrom none (kept ++ front)) = false) :
      Path.parse nesting (kept ++ term) ≠ .ok path := by
    intro read
    have behind : ∀ mark ∈ Mark.ofText (Text.lastFrom none (kept ++ front)) (c :: rest),
        mark.isBracket = false := by
      rw [Mark.ofText_congr (free'.trans free.symm)]
      intro mark member
      exact flat mark (by rw [parts, Mark.ofText_append]; exact List.mem_append_right _ member)
    obtain ⟨balanced, positive⟩ :=
      Path.inside read (by rw [parts, List.append_assoc]) symbol free'
    rw [parts, ← List.append_assoc, Mark.ofText_append, Mark.balance_append,
      Mark.balance_of_flat behind] at balanced
    omega
  rw [Operand.parse_eq] at found
  obtain ⟨request, asks, answered⟩ := bind_eq_ok_iff.mp found
  cases request with
  | inl value => exact ⟨value, (Except.ok.inj answered).symm⟩
  | inr asked =>
    obtain ⟨path, read, -⟩ := map_eq_ok_iff.mp answered
    have asks : Operand.Asks context term asked := asks
    rcases asks.cases with rfl | ⟨kept, marker, after, -, marked, rfl, rfl⟩
    · exact absurd read (outside [] path free)
    · refine absurd read (outside kept path ?_)
      cases front with
      | nil =>
        obtain ⟨rfl, -⟩ := List.cons.inj parts
        rw [Operator.not_isMarker symbol] at marked
        cases marked
      | cons first front => rwa [Text.lastFrom_append]

theorem FieldHead.exists_violation (symbol : c ∈ ['=', '~', '?', '!']) (rest : Text) :
    ∃ violation, FieldHead.parse (c :: rest) = .error (.invalid violation) := by
  have lower := @Operator.not_of_mem c (fun c => c.isDigit || c.isLower || c == '.') symbol rfl
  have upper := @Operator.not_of_mem c (fun c => c.isDigit || c.isUpper || c == '.') symbol rfl
  have tag : isTag ((c :: rest).take 3) = false := by
    simp only [isTag, List.take_succ_cons, List.all_cons, lower, upper, Bool.false_and, Bool.or_self,
      Bool.and_false]
  unfold FieldHead.parse
  split
  · exact ⟨_, rfl⟩
  · split
    · exact ⟨_, rfl⟩
    · rw [tag]
      exact ⟨_, rfl⟩

theorem Layer.exists_violation {ρ : Type} (nested : Text → Except Error ρ)
    (symbol : c ∈ ['=', '~', '?', '!']) (rest : Text) :
    ∃ violation, parseStripped nested nesting (c :: rest) = .error (.invalid violation) := by
  have outside : (!startsTail c) = true := by
    have apart : startsTail c = false := Operator.not_of_mem symbol rfl
    rw [apart]
    rfl
  obtain ⟨violation, failed⟩ := FieldHead.exists_violation symbol (headText rest)
  have head : headText (c :: rest) = c :: headText rest := by simp [headText, outside]
  have cut : ∃ violation, cut (c :: rest) = .error (.invalid violation) := by
    unfold Layer.cut
    rw [head, failed]
    repeat' split
    all_goals exact ⟨_, rfl⟩
  obtain ⟨violation, failed⟩ := cut
  exact ⟨violation, by rw [parseStripped_eq, failed]; rfl⟩

theorem Text.exists_strip (visible : isBlank c = false) (rest : Text) :
    ∃ more, Text.strip (c :: rest) = c :: more := by
  obtain ⟨front, back, whole, blank, blank'⟩ := exists_trim isBlank (c :: rest)
  rw [Text.strip]
  cases front with
  | cons first front =>
    obtain ⟨rfl, -⟩ := List.cons.inj whole
    rw [blank c (by simp)] at visible
    cases visible
  | nil =>
    cases kept : trim isBlank (c :: rest) with
    | cons first more =>
      rw [kept] at whole
      obtain ⟨rfl, -⟩ := List.cons.inj whole
      exact ⟨more, rfl⟩
    | nil =>
      rw [kept] at whole
      rw [blank' c (by rw [← show c :: rest = back from whole]; simp)] at visible
      cases visible

/-- Nothing that is read begins with an operator. -/
theorem Operand.exists_violation (nesting : Nesting) (context : Text) (symbol : c ∈ ['=', '~', '?', '!'])
    (rest : Text) :
    ∃ violation, Operand.parse (Path.parse nesting) context (c :: rest) = .error (.invalid violation) := by
  have failed : ∃ violation, Path.parse nesting (c :: rest) = .error (.invalid violation) := by
    rw [Path.parse_eq]
    split
    · exact ⟨_, rfl⟩
    · obtain ⟨more, stripped⟩ := Text.exists_strip (Operator.not_isBlank symbol) rest
      obtain ⟨violation, failed⟩ := Layer.exists_violation (Path.parse nesting.deeper) symbol more
      exact ⟨violation, by rw [stripped, failed]; rfl⟩
  obtain ⟨violation, failed⟩ := failed
  have escape : c ≠ '\\' := by
    rintro rfl
    exact absurd symbol (by decide)
  have request : Operand.request context (c :: rest) = .ok (.inr (c :: rest)) := by
    have unmarked := Operator.not_isMarker symbol
    simp [Operand.request, escape, unmarked]
  refine ⟨violation, ?_⟩
  rw [Operand.parse_eq, request]
  change (Path.parse nesting (c :: rest)).map _ = _
  rw [failed]
  rfl

end MarcPath
