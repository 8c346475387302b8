import MarcPath.Proofs.Literal

/-! Escaping one special character after another. Each pass finds in the text only what was there before
the first one, so the passes come to the spelling of every character by itself. What they give is a literal
wherever the text has no other blanks than spaces, and stands for that text. -/
namespace MarcPath.Literal

/-- The characters to escape, in the order of their passes. The backslash is first, as each pass puts
further ones into the text. -/
def specials : List Char :=
  ['\\', '{', '}', '!', '=', '~', '?', '|']

/-- Puts a backslash in front of a character wherever it stands. -/
def escapeEach (special : Char) (text : Text) : Text :=
  text.flatMap fun c => if c == special then ['\\', c] else [c]

def spellSpaces (text : Text) : Text :=
  text.flatMap fun c => if c == ' ' then ['\\', 's'] else [c]

/-- Escapes a text in one pass for each special character, and one more for the spaces. -/
def escapeInPasses (text : Text) : Text :=
  spellSpaces (specials.foldl (fun text special => escapeEach special text) text)

theorem isSpecial_iff {c : Char} : isSpecial c = true ↔ c ∈ specials :=
  List.contains_iff_mem

/-- Passes for different characters do not meddle with each other, if none but the first of them is for
the backslash. -/
theorem foldl_escapeEach {passes : List Char} (different : passes.Nodup)
    (later : '\\' ∉ passes.tail) (text : Text) :
    passes.foldl (fun text special => escapeEach special text) text =
      text.flatMap fun c => if c ∈ passes then ['\\', c] else [c] := by
  induction passes generalizing text with
  | nil => simp
  | cons special rest ih =>
    rw [List.nodup_cons] at different
    rw [List.tail_cons] at later
    rw [List.foldl_cons, ih different.2 (fun member => later (List.mem_of_mem_tail member)), escapeEach,
      List.flatMap_assoc]
    apply List.flatMap_congr
    intro c _
    by_cases same : c = special
    · subst same
      simp [later, different.1]
    · simp [same]

/-- No pass puts a space into the text, so the last one finds those that were there. -/
theorem escapeInPasses_eq_escape (text : Text) : escapeInPasses text = escape text := by
  rw [escapeInPasses, foldl_escapeEach (by decide) (by decide), spellSpaces, List.flatMap_assoc, escape]
  apply List.flatMap_congr
  intro c _
  by_cases special : c ∈ specials
  · have other : c ≠ ' ' := by
      rintro rfl
      exact absurd special (by decide)
    simp [escapeChar, isSpecial_iff, special, other]
  · simp [escapeChar, isSpecial_iff, special]

/-- The spelling of a text is solid where the text has no other blanks than spaces. -/
theorem hasBlank_escape_iff {text : Text} :
    (escape text).hasBlank = false ↔ ∀ c ∈ text, isBlank c = true → c = ' ' := by
  refine ⟨?_, solid_escape⟩
  intro solid c member blank
  by_contra other
  have kept : escapeChar c = [c] := by
    have plain : isSpecial c = false := by
      by_contra special
      rw [Bool.not_eq_false] at special
      have visible : (specials.all fun special => !isBlank special) = true := rfl
      have one := List.all_eq_true.mp visible c (isSpecial_iff.mp special)
      simp [blank] at one
    simp [escapeChar, plain, other]
  have inside : c ∈ escape text := List.mem_flatMap.mpr ⟨c, member, by simp [kept]⟩
  rw [Text.hasBlank, List.any_eq_false] at solid
  exact solid c inside blank

/-- Escaping a text in passes gives the spelling of the text. If space is the only blank of the text, that
spelling is a literal, which is compared as the text; otherwise it is none, as it has a blank in it. No two
texts have the same spelling. -/
theorem comparable_escape (text : Text) :
    escapeInPasses text = escape text ∧
      ((∀ c ∈ text, isBlank c = true → c = ' ') → ∃ literal, ofRaw (escape text) = .ok literal ∧
        literal.raw = escape text ∧ literal.comparable = text) ∧
      ((∃ c ∈ text, isBlank c = true ∧ c ≠ ' ') →
        ofRaw (escape text) = violates .literal .blank (escape text)) ∧
      ∀ other, escape other = escape text → other = text := by
  refine ⟨escapeInPasses_eq_escape text, ?_, ?_, ?_⟩
  · intro spaces
    refine ⟨⟨escape text⟩, ?_, rfl, unescape_escape text⟩
    rw [ofRaw, hasBlank_escape_iff.mpr spaces]
    rfl
  · rintro ⟨c, member, blank, other⟩
    have spaced : (escape text).hasBlank = true := by
      by_contra solid
      rw [Bool.not_eq_true] at solid
      exact other (hasBlank_escape_iff.mp solid c member blank)
    rw [ofRaw, if_pos spaced]
  · intro other same
    rw [← unescape_escape other, same, unescape_escape]

/-- A backslash before the letter that spells a space is no space. -/
example : escape "\\s =".toList = "\\\\s\\s\\=".toList ∧ unescape "\\\\s\\s\\=".toList = "\\s =".toList :=
  ⟨rfl, rfl⟩

end MarcPath.Literal
