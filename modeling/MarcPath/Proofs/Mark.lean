import MarcPath.Mark

/-! The marks of a text that is put together from parts. Of what stands before a part, only its last
character counts, and only whether it is a shield. -/
namespace MarcPath

/-- The character before what follows a text. -/
def Text.lastFrom (before : Option Char) : Text → Option Char
  | [] => before
  | c :: rest => lastFrom (some c) rest

/-- A character that is no bracket, no dollar and no backslash. -/
def isInert (c : Char) : Bool :=
  c != '{' && c != '}' && !isShield c

/-- The characters of a kind are inert if the four that are not are of another kind. -/
theorem isInert_of_holds {kind : Char → Bool} {c : Char} (known : kind c = true)
    (apart : ['{', '}', '$', '\\'].all (!kind ·) = true) : isInert c = true := by
  have structural : c ∉ ['{', '}', '$', '\\'] := by
    intro member
    have other := List.all_eq_true.mp apart c member
    rw [known] at other
    cases other
  simpa [isInert, isShield, and_assoc] using structural

theorem isShield_of_isInert {c : Char} (inert : isInert c = true) : isShield c = false := by
  rw [isInert, Bool.and_eq_true, Bool.not_eq_true'] at inert
  exact inert.2

namespace Text

@[simp] theorem lastFrom_append (before : Option Char) (first second : Text) :
    lastFrom before (first ++ second) = lastFrom (lastFrom before first) second := by
  induction first generalizing before with
  | nil => rfl
  | cons c rest ih => exact ih (some c)

theorem lastFrom_eq_getLast? {text : Text} (before : Option Char) (nonempty : text ≠ []) :
    lastFrom before text = text.getLast? := by
  rw [← List.dropLast_concat_getLast nonempty]
  simp [lastFrom]

theorem lastFrom_none (text : Text) : lastFrom none text = text.getLast? := by
  cases text with
  | nil => rfl
  | cons c rest => exact lastFrom_eq_getLast? none (by simp)

/-- The character before what follows an inert text shields nothing. -/
theorem isShielded_lastFrom {text : Text} {before : Option Char} (free : isShielded before = false)
    (inert : ∀ c ∈ text, isInert c = true) : isShielded (lastFrom before text) = false := by
  induction text generalizing before with
  | nil => exact free
  | cons c rest ih =>
    apply ih
    · exact isShield_of_isInert (inert c (by simp))
    · exact fun other member => inert other (by simp [member])

end Text

namespace Mark

def isPlain : Mark → Bool
  | plain _ => true
  | _ => false

theorem ofText_append (before : Option Char) (first second : Text) :
    ofText before (first ++ second) =
      ofText before first ++ ofText (Text.lastFrom before first) second := by
  induction first generalizing before with
  | nil => rfl
  | cons c rest ih => simp [ofText, Text.lastFrom, ih]

theorem ofChar_congr {before other : Option Char} (same : isShielded before = isShielded other)
    (c : Char) : ofChar before c = ofChar other c := by
  simp [ofChar, same]

theorem ofText_congr {before other : Option Char} (same : isShielded before = isShielded other)
    (text : Text) : ofText before text = ofText other text := by
  cases text with
  | nil => rfl
  | cons c rest => simp [ofText, ofChar_congr same]

theorem ofChar_shielded {before : Option Char} (shielded : isShielded before = true) (c : Char) :
    ofChar before c = plain c := by
  simp [ofChar, shielded]

theorem ofChar_eq_plain_iff {before : Option Char} {c : Char} :
    ofChar before c = plain c ↔ isShielded before = true ∨ (c ≠ '{' ∧ c ≠ '}' ∧ c ≠ '$') := by
  unfold ofChar
  repeat' split
  all_goals simp_all

theorem ofText_dollar {before : Option Char} (free : isShielded before = false) (text : Text) :
    ofText before ('$' :: text) = dollar :: ofText (some '$') text := by
  simp [ofText, ofChar, free]

/-- An inert character is plain wherever it stands. -/
theorem ofChar_inert {c : Char} (inert : isInert c = true) (before : Option Char) :
    ofChar before c = plain c := by
  refine ofChar_eq_plain_iff.mpr (.inr ?_)
  simp only [isInert, isShield, Bool.and_eq_true, bne_iff_ne, Bool.not_eq_true', Bool.or_eq_false_iff,
    beq_eq_false_iff_ne] at inert
  exact ⟨inert.1.1, inert.1.2, inert.2.1⟩

/-- A mark stands for the character that it classifies. -/
theorem ofChar_eq {before : Option Char} {c : Char} {mark : Mark} (same : ofChar before c = mark) :
    c = mark.char := by
  rw [← same, char_ofChar]

theorem unshielded_of_not_plain {before : Option Char} {c : Char}
    (structural : (ofChar before c).isPlain = false) : isShielded before = false := by
  cases known : isShielded before with
  | false => rfl
  | true => simp [ofChar_shielded known, isPlain] at structural

theorem ofText_inert {text : Text} (inert : ∀ c ∈ text, isInert c = true) (before : Option Char) :
    ∀ mark ∈ ofText before text, mark.isPlain = true := by
  induction text generalizing before with
  | nil => simp [ofText]
  | cons c rest ih =>
    intro mark member
    rcases List.mem_cons.mp member with rfl | member
    · simp [ofChar_inert (inert c (by simp)), isPlain]
    · exact ih (fun other member => inert other (by simp [member])) _ mark member

end Mark

/-- A text in which every bracket is shielded. -/
def Text.Unbracketed (text : Text) : Prop :=
  ∀ mark ∈ Mark.ofText none text, mark.isBracket = false

theorem Text.unbracketed_of_any {text : Text}
    (flat : ¬ (Mark.ofText none text).any Mark.isBracket = true) : Text.Unbracketed text := by
  simpa [Text.Unbracketed] using flat

namespace Text.Unbracketed

theorem of_append_left {first second : Text} (whole : Unbracketed (first ++ second)) :
    Unbracketed first := by
  intro mark member
  exact whole mark (by rw [Mark.ofText_append]; exact List.mem_append_left _ member)

/-- A part that does not follow a shield has the marks that it has on its own. -/
theorem of_append_right {first second : Text} (whole : Unbracketed (first ++ second))
    (free : isShielded (lastFrom none first) = false) : Unbracketed second := by
  intro mark member
  have same : Mark.ofText (lastFrom none first) second = Mark.ofText none second :=
    Mark.ofText_congr (by rw [free]; rfl) second
  exact whole mark (by rw [Mark.ofText_append, same]; exact List.mem_append_right _ member)

/-- A text may stand behind any other if it does not begin with a bracket. -/
theorem append {first rest : Text} {c : Char} (known : Unbracketed first)
    (begins : c ≠ '{' ∧ c ≠ '}') (continued : Unbracketed (c :: rest)) :
    Unbracketed (first ++ c :: rest) := by
  intro mark member
  rw [Mark.ofText_append] at member
  rcases List.mem_append.mp member with member | member
  · exact known mark member
  · rcases List.mem_cons.mp member with rfl | member
    · unfold Mark.ofChar
      repeat' split
      all_goals simp_all [Mark.isBracket]
    · exact continued mark (List.mem_cons_of_mem _ member)

theorem inert {text : Text} (inert : ∀ c ∈ text, isInert c = true) : Unbracketed text := by
  intro mark member
  have plain := Mark.ofText_inert inert none mark member
  cases mark <;> simp_all [Mark.isPlain, Mark.isBracket]

end Text.Unbracketed
end MarcPath
