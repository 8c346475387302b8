import MarcPath.Path.Tree
import MarcPath.Proofs.Depth
import MarcPath.Proofs.Record

/-! The trees of paths whose heads are legible. There always is one, and it hangs together. -/
namespace MarcPath

namespace Tree

variable {label : Text} {digits : Nat} {front back : List (Text × Tree)}

/-- Entries of which a record that hangs together can be made. -/
structure Consistent (digits : Nat) (entries : List (Text × Tree)) : Prop where
  sound : ∀ entry ∈ entries, Sound digits entry.2
  index : AgreesOn "index".toList entries
  char : AgreesOn "char".toList entries

theorem Consistent.record {entries : List (Text × Tree)} (consistent : Consistent digits entries) :
    Sound digits (.record entries) :=
  .record consistent.sound consistent.index consistent.char

theorem Consistent.append (consistent : Consistent digits front)
    (sound : ∀ entry ∈ back, Sound digits entry.2) (index : Free "index".toList back)
    (char : Free "char".toList back) : Consistent digits (front ++ back) where
  sound entry member := (List.mem_append.mp member).elim (consistent.sound entry) (sound entry)
  index := consistent.index.append_right index
  char := consistent.char.append_right char

theorem Consistent.append_optional (consistent : Consistent digits front) {key : String}
    (code : Option Char) (index : Span.isKey "index".toList key.toList = false)
    (char : Span.isKey "char".toList key.toList = false) :
    Consistent digits (front ++ (code.map fun code => (key.toList, .text [code])).toList) := by
  cases code with
  | none => simpa using consistent
  | some code =>
    apply consistent.append
    · simpa using Sound.text [code]
    · simpa [Free] using index
    · simpa [Free] using char

theorem Describes.free {other : Text} (describes : Describes digits label front)
    (apart : ∀ name ∈ Span.keyNames, Span.isKey other (label ++ name) = false) :
    Free other front := by
  intro entry member
  obtain ⟨name, known, same⟩ := describes.keys entry member
  rw [same]
  exact apart name known

theorem free_singleton {key : Text} (tree : Tree) (apart : Span.isKey label key = false) :
    Free label [(key, tree)] := by
  simpa [Free] using apart

theorem free_listEntry {key : String} (items : List Tree)
    (apart : Span.isKey label key.toList = false) : Free label (listEntry key items) := by
  unfold listEntry
  split
  · simp [Free]
  · exact free_singleton _ apart

theorem sound_listEntry {key : String} {items : List Tree} (all : ∀ item ∈ items, Sound digits item) :
    ∀ entry ∈ listEntry key items, Sound digits entry.2 := by
  unfold listEntry
  split
  · simp
  · intro entry member
    rw [List.mem_singleton.mp member]
    exact .list all

/-- The entries that all heads have. -/
theorem consistent_of_spans (tag : Text) (index : Describes digits "index".toList front)
    (char : Describes digits "char".toList back) :
    Consistent digits (("tag".toList, .text tag) :: front ++ back) where
  sound entry member := by
    rcases List.mem_append.mp member with member | member
    · rcases List.mem_cons.mp member with rfl | member
      · exact .text tag
      · exact index.sound entry member
    · exact char.sound entry member
  index := by
    have tag : Free "index".toList [("tag".toList, .text tag)] := free_singleton (.text tag) rfl
    exact (index.agrees.append_left tag).append_right (char.free (by decide))
  char := by
    have tagged : Free "char".toList (("tag".toList, .text tag) :: front) := by
      intro entry member
      rcases List.mem_cons.mp member with rfl | member
      · rfl
      · exact index.free (by decide) entry member
    exact char.agrees.append_left tagged

end Tree

variable {limit : Nat}

theorem Span.optional_outcome {span : Option Span} (le : limit ≤ Numeral.maxDigits)
    (legible : ∀ span' ∈ span, span'.Legible limit) (label : Text) :
    Outcome (fun entries => Tree.Describes limit label (entries.getD [])) (fun _ => False)
      (span.mapM (Span.entries label)) := by
  cases span with
  | none => exact ⟨by simp, by simp, .of_free (by simp [Tree.Free])⟩
  | some span =>
    rw [Option.mapM_some]
    exact (Span.entries_outcome le (legible span rfl) label).bind fun entries describes => describes

/-- A field head as it is read from a text without blanks or long runs of digits. -/
structure FieldHead.Legible (limit : Nat) (head : FieldHead) : Prop where
  known : head.WellFormed
  solid : head.render.hasBlank = false
  within : Text.DigitsWithin limit head.render

structure SubfieldHead.Legible (limit : Nat) (head : SubfieldHead) : Prop where
  known : head.WellFormed
  solid : head.render.hasBlank = false
  within : Text.DigitsWithin limit head.render

theorem FieldHead.Legible.index {head : FieldHead} (legible : head.Legible limit) :
    ∀ span ∈ head.index, span.Legible limit := by
  intro span member
  have inside : span.render <:+: head.render :=
    ⟨head.tag ++ ['['], ']' :: head.selection.render, by
      simp [render, show head.index = some span from member, Span.renderIndex, Span.renderAfter]⟩
  exact .of_part (legible.known.index span member) inside legible.solid legible.within

theorem FieldHead.Legible.characters {head : FieldHead} (legible : head.Legible limit) :
    ∀ span ∈ head.characters, span.Legible limit := by
  intro span member
  have selected : head.selection = .characters span := by
    unfold FieldHead.characters at member
    split at member
    · rename_i other same
      rw [same, Option.mem_some.mp member]
    · cases member
  have inside : span.render <:+: head.render :=
    ⟨head.tag ++ Span.renderIndex head.index ++ ['/'], [], by
      simp [render, selected, Selection.render]⟩
  exact .of_part (legible.known.characters span member) inside legible.solid legible.within

theorem SubfieldHead.infix_of_index {head : SubfieldHead} :
    ∀ span ∈ head.index, span.render <:+: head.render := by
  intro span member
  exact ⟨['$', head.code, '['], ']' :: Span.renderCharacters head.characters, by
    simp [render, show head.index = some span from member, Span.renderIndex, Span.renderAfter]⟩

theorem SubfieldHead.infix_of_characters {head : SubfieldHead} :
    ∀ span ∈ head.characters, span.render <:+: head.render := by
  intro span member
  exact ⟨'$' :: head.code :: Span.renderIndex head.index ++ ['/'], [], by
    simp [render, show head.characters = some span from member, Span.renderCharacters,
      Span.renderAfter]⟩

theorem SubfieldHead.Legible.index {head : SubfieldHead} (legible : head.Legible limit) :
    ∀ span ∈ head.index, span.Legible limit := by
  intro span member
  have inside := infix_of_index span member
  exact .of_part (legible.known.index span member) inside legible.solid legible.within

theorem SubfieldHead.Legible.characters {head : SubfieldHead} (legible : head.Legible limit) :
    ∀ span ∈ head.characters, span.Legible limit := by
  intro span member
  have inside := infix_of_characters span member
  exact .of_part (legible.known.characters span member) inside legible.solid legible.within

theorem FieldHead.entries_outcome {head : FieldHead} (le : limit ≤ Numeral.maxDigits)
    (legible : head.Legible limit) :
    Outcome (Tree.Consistent limit) (fun _ => False) head.entries := by
  apply (Span.optional_outcome le legible.index _).bind
  intro index described
  apply (Span.optional_outcome le legible.characters _).bind
  intro characters described'
  have consistent := Tree.consistent_of_spans head.tag described described'
  exact (consistent.append_optional (head.indicator 0) rfl rfl).append_optional
    (head.indicator 1) rfl rfl

theorem SubfieldHead.entries_outcome {head : SubfieldHead} (le : limit ≤ Numeral.maxDigits)
    (legible : head.Legible limit) :
    Outcome (Tree.Consistent limit) (fun _ => False) head.entries := by
  apply (Span.optional_outcome le legible.index _).bind
  intro index described
  apply (Span.optional_outcome le legible.characters _).bind
  intro characters described'
  exact Tree.consistent_of_spans [head.code] described described'

private theorem exists_entries {span : Option Span} {label : Text}
    {entries : Option (List (Text × Tree))} (found : span.mapM (Span.entries label) = .ok entries) :
    ∀ span' ∈ span, ∃ entries', span'.entries label = .ok entries' := by
  cases span with
  | none => simp
  | some span =>
    rw [Option.mapM_some] at found
    obtain ⟨entries', read, -⟩ := bind_eq_ok_iff.mp found
    intro span' member
    obtain rfl := Option.mem_some.mp member
    exact ⟨entries', read⟩

/-- A head that can be described has no run of digits that is too long. -/
theorem SubfieldHead.digitsWithin_of_entries {head : SubfieldHead} {entries : List (Text × Tree)}
    (known : head.WellFormed) (solid : head.render.hasBlank = false)
    (found : head.entries = .ok entries) : Text.DigitsWithin Numeral.maxDigits head.render := by
  obtain ⟨index, first, found⟩ := bind_eq_ok_iff.mp found
  obtain ⟨characters, second, found⟩ := bind_eq_ok_iff.mp found
  have index' : ∀ span ∈ head.index, Text.DigitsWithin Numeral.maxDigits span.render := by
    intro span member
    obtain ⟨_, described⟩ := exists_entries first span member
    exact Span.digitsWithin_of_entries (known.index span member)
      (Text.hasBlank_of_infix (infix_of_index span member) solid) described
  have characters' : ∀ span ∈ head.characters, Text.DigitsWithin Numeral.maxDigits span.render := by
    intro span member
    obtain ⟨_, described⟩ := exists_entries second span member
    exact Span.digitsWithin_of_entries (known.characters span member)
      (Text.hasBlank_of_infix (infix_of_characters span member) solid) described
  have code : Text.DigitsWithin Numeral.maxDigits ['$', head.code] :=
    .of_length_le (by simp [Numeral.maxDigits])
  have none : Text.DigitsWithin Numeral.maxDigits [] := .of_length_le (Nat.zero_le _)
  have front : Text.DigitsWithin Numeral.maxDigits
      (['$', head.code] ++ Span.renderIndex head.index) := by
    cases given : head.index with
    | none => simpa [Span.renderIndex, Span.renderAfter] using code
    | some span =>
      have closed := (index' span given).append_cons (by decide : isDigit ']' = false) none
      simpa [Span.renderIndex, Span.renderAfter] using code.append_cons (by decide) closed
  have whole : head.render =
      (['$', head.code] ++ Span.renderIndex head.index) ++ Span.renderCharacters head.characters := rfl
  rw [whole]
  cases given : head.characters with
  | none => simpa [Span.renderCharacters, Span.renderAfter] using front
  | some span =>
    simpa [Span.renderCharacters, Span.renderAfter] using
      front.append_cons (by decide : isDigit '/' = false) (characters' span given)

section

variable {ρ : Type} {nested : ρ → Except Error Tree} {digits : Nat}

theorem Operand.tree_outcome (operand : Operand ρ)
    (sound : ∀ path ∈ operand.paths, Outcome (Tree.Sound digits) (fun _ => False) (nested path)) :
    Outcome (Tree.Sound digits) (fun _ => False) (operand.tree nested) := by
  cases operand with
  | literal value =>
    exact .of_free (by simpa using Tree.Sound.text value.raw) (Tree.free_singleton _ rfl)
      (Tree.free_singleton _ rfl)
  | path value source => exact sound value (by simp [Operand.paths])

theorem Condition.tree_outcome (condition : Condition ρ)
    (sound : ∀ path ∈ condition.paths, Outcome (Tree.Sound digits) (fun _ => False) (nested path)) :
    Outcome (Tree.Sound digits) (fun _ => False) (condition.tree nested) := by
  obtain ⟨left, operator, right, source⟩ := condition
  have right' := Operand.tree_outcome right fun path member =>
    sound path (List.mem_append_right _ member)
  have rest (front : List (Text × Tree)) (known : ∀ entry ∈ front,
      Tree.Sound digits entry.2 ∧ entry.1 = "left_subterm".toList) :
      Outcome (Tree.Sound digits) (fun _ => False) (do
        let tree ← right.tree nested
        return .record (front ++
          [("operator".toList, .text operator.symbol), ("right_subterm".toList, tree)])) := by
    apply right'.bind
    intro tree known'
    have keys : ∀ entry ∈ front ++ [("operator".toList, .text operator.symbol),
        ("right_subterm".toList, tree)], Tree.Sound digits entry.2 ∧
          entry.1 ∈ ["left_subterm".toList, "operator".toList, "right_subterm".toList] := by
      intro entry member
      rcases List.mem_append.mp member with member | member
      · exact ⟨(known entry member).1, by simp [(known entry member).2]⟩
      · rcases List.mem_pair.mp member with rfl | rfl
        · exact ⟨.text _, by simp⟩
        · exact ⟨known', by simp⟩
    have free {label : Text} (apart : ∀ key ∈ ["left_subterm".toList, "operator".toList,
        "right_subterm".toList], Span.isKey label key = false) : Tree.Free label _ :=
      fun entry member => apart entry.1 (keys entry member).2
    exact .of_free (fun entry member => (keys entry member).1) (free (by decide)) (free (by decide))
  cases left with
  | absent context => exact rest [] (by simp)
  | given operand =>
    have left' := Operand.tree_outcome operand fun path member =>
      sound path (List.mem_append_left _ member)
    refine (left'.map fun tree known => ?_).bind rest
    simpa using known

theorem Group.tree_outcome (group : Group ρ)
    (sound : ∀ path ∈ group.paths, Outcome (Tree.Sound digits) (fun _ => False) (nested path)) :
    Outcome (Tree.Sound digits) (fun _ => False) (group.tree nested) := by
  have first := Condition.tree_outcome group.first fun path member =>
    sound path (List.mem_append_left _ member)
  have others := Outcome.mapM fun condition inside =>
    Condition.tree_outcome condition fun path member =>
      sound path (List.mem_append_right _ (List.mem_flatMap.mpr ⟨condition, inside, member⟩))
  refine first.bind fun first known => others.bind fun others all => ?_
  split
  · exact known
  · apply Tree.Sound.list
    intro tree member
    rcases List.mem_cons.mp member with rfl | member
    · exact known
    · exact all tree member

/-- The record of a head and of the groups attached to it. -/
private theorem attached_outcome {head : Except Error (List (Text × Tree))} {groups : List (Group ρ)}
    (consistent : Outcome (Tree.Consistent digits) (fun _ => False) head)
    (sound : ∀ path ∈ groups.flatMap Group.paths,
      Outcome (Tree.Sound digits) (fun _ => False) (nested path)) :
    Outcome (Tree.Sound digits) (fun _ => False) (do
      let entries ← head
      let trees ← List.mapM (Group.tree nested) groups
      return .record (entries ++ Tree.listEntry "subspecs" trees)) := by
  have attached := Outcome.mapM fun group inside =>
    Group.tree_outcome group fun path member =>
      sound path (List.mem_flatMap.mpr ⟨group, inside, member⟩)
  refine consistent.bind fun entries known => attached.bind fun trees all => ?_
  exact (known.append (Tree.sound_listEntry all) (Tree.free_listEntry trees rfl)
    (Tree.free_listEntry trees rfl)).record

end

/-- Every head of a layer is legible. -/
structure Layer.Legible {ρ : Type} (limit : Nat) (layer : Layer ρ) : Prop where
  field : layer.field.head.Legible limit
  subfields : ∀ subfield ∈ layer.subfields, subfield.head.Legible limit

theorem Layer.tree_outcome {ρ : Type} {nested : ρ → Except Error Tree} {layer : Layer ρ}
    (le : limit ≤ Numeral.maxDigits) (legible : layer.Legible limit)
    (sound : ∀ path ∈ layer.paths,
      Outcome (Tree.Sound limit) (fun _ => False) (nested path)) :
    Outcome (Tree.Sound limit) (fun _ => False) (layer.tree nested) := by
  have field : Outcome (Tree.Sound limit) (fun _ => False) (layer.field.tree nested) :=
    attached_outcome (FieldHead.entries_outcome le legible.field) fun path member =>
      sound path (List.mem_append_left _ member)
  have subfields : ∀ subfield ∈ layer.subfields,
      Outcome (Tree.Sound limit) (fun _ => False) (subfield.tree nested) := by
    intro subfield inside
    apply attached_outcome (SubfieldHead.entries_outcome le (legible.subfields subfield inside))
    intro path member
    exact sound path (List.mem_append_right _ (List.mem_flatMap.mpr ⟨subfield, inside, member⟩))
  refine field.bind fun tree known => (Outcome.mapM subfields).bind fun trees all => ?_
  have free {label : Text} (apart : Span.isKey label "field".toList = false)
      (apart' : Span.isKey label "subfields".toList = false) :
      Tree.Free label (("field".toList, tree) :: Tree.listEntry "subfields" trees) := by
    intro entry member
    rcases List.mem_cons.mp member with rfl | member
    · exact apart
    · exact Tree.free_listEntry trees apart' entry member
  refine Tree.Sound.of_free ?_ (free rfl rfl) (free rfl rfl)
  intro entry member
  rcases List.mem_cons.mp member with rfl | member
  · exact known
  · exact Tree.sound_listEntry all entry member

end MarcPath
