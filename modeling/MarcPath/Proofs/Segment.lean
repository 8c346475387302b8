import MarcPath.Path.Parse
import MarcPath.Proofs.Condition
import MarcPath.Proofs.Head
import MarcPath.Proofs.Tail

/-! The subfields of a segment. Each is written as one token of the segment and the groups of the
segment, and a segment that is written that way stands for that subfield alone. -/
namespace MarcPath

private theorem toNat_ofNat {code : Nat} (ascii : code < 0x80) : (Char.ofNat code).toNat = code := by
  have valid : code.isValidChar := .inl (by omega)
  have chosen : Char.ofNat code = Char.ofNatAux code valid := dif_pos valid
  rw [chosen]
  rfl

/-- Between two letters of one case, or two digits, there are no other characters. -/
private theorem isAlphanum_of_between {low high : Char} {code : Nat}
    (same : sameClass low high = true) (above : low.toNat ≤ code) (below : code ≤ high.toNat) :
    (Char.ofNat code).isAlphanum = true := by
  simp only [sameClass, Bool.or_eq_true, Bool.and_eq_true, isLower_iff, isUpper_iff,
    isAsciiDigit_iff] at same
  have value : (Char.ofNat code).toNat = code := toNat_ofNat (by omega)
  rw [isAlphanum_iff, isUpper_iff, isLower_iff, isAsciiDigit_iff, value]
  omega

theorem isAlphanum_of_mem_codesBetween {first last c : Char} (same : sameClass first last = true)
    (member : c ∈ codesBetween first last) : c.isAlphanum = true := by
  unfold codesBetween at member
  by_cases upwards : first ≤ last
  · rw [if_pos upwards] at member
    obtain ⟨step, range, rfl⟩ := List.mem_map.mp member
    rw [List.mem_range] at range
    have order : first.toNat ≤ last.toNat := upwards
    exact isAlphanum_of_between same (by omega) (by omega)
  · rw [if_neg upwards, List.mem_reverse] at member
    obtain ⟨step, range, rfl⟩ := List.mem_map.mp member
    rw [List.mem_range] at range
    have order : last.toNat ≤ first.toNat := (Nat.le_total first.toNat last.toNat).resolve_left upwards
    have swapped : sameClass last first = true := by
      simpa only [sameClass, Bool.and_comm] using same
    exact isAlphanum_of_between swapped (by omega) (by omega)

/-- A token that is no range stands for itself; a range stands for letters or digits. -/
theorem Segment.mem_tokens {segment : Segment} {tokens : List Text}
    (found : segment.tokens = .ok tokens) {token : Text} (member : token ∈ tokens) :
    (segment.isRange = false ∧ token = segment.token) ∨
      ∃ code, code.isAlphanum = true ∧ token = ['$', code] := by
  unfold Segment.tokens at found
  by_cases ranged : segment.isRange = true
  · right
    rw [if_pos ranged] at found
    unfold expandRange at found
    split at found
    · rename_i first dash last _
      split at found
      · rename_i valid
        obtain rfl := Except.ok.inj found
        obtain ⟨code, between, rfl⟩ := List.mem_map.mp member
        rw [Bool.and_eq_true] at valid
        exact ⟨code, isAlphanum_of_mem_codesBetween valid.2 between, rfl⟩
      · cases found
    · cases found
  · rw [if_neg ranged] at found
    obtain rfl := Except.ok.inj found
    exact .inl ⟨by simpa using ranged, List.mem_singleton.mp member⟩

theorem Segment.length_of_isRange {segment : Segment} {tokens : List Text}
    (found : segment.tokens = .ok tokens) (ranged : segment.isRange = true) :
    segment.token.length ≤ 4 := by
  rw [Segment.tokens, if_pos ranged] at found
  unfold expandRange at found
  split at found
  · rename_i first dash last same
    have short := congrArg List.length same
    rw [List.length_drop] at short
    simp only [List.length_cons, List.length_nil] at short
    omega
  · cases found

theorem Segment.isRange_pair (code : Char) (groups : List Text) :
    Segment.isRange ⟨['$', code], groups⟩ = false := by
  simp only [Segment.isRange, List.findIdx?_cons, List.findIdx?_nil]
  cases code == '-' <;> rfl

variable {ρ : Type}

/-- A subfield as a segment of its own. -/
def Subfield.segment (subfield : Subfield ρ) : Segment :=
  ⟨subfield.head.render, subfield.groups.map Group.render⟩

theorem Subfield.render_segment (subfield : Subfield ρ) :
    subfield.segment.render = subfield.render := by
  simp [Subfield.segment, Segment.render, Subfield.render, List.flatMap_def]

variable {nested : Text → Except Error ρ} {base : Text}

namespace Segment

theorem subfield_eq_ok_iff {groups : List Text} {token : Text} {subfield : Subfield ρ} :
    Segment.subfield nested base groups token = .ok subfield ↔
      SubfieldHead.parse token = .ok subfield.head ∧
        List.mapM (Group.parse nested (base ++ subfield.head.render)) groups = .ok subfield.groups := by
  simp only [Segment.subfield, bind_eq_ok_iff]
  constructor
  · rintro ⟨head, read, attached, reads, same⟩
    obtain rfl := Except.ok.inj same
    exact ⟨read, reads⟩
  · rintro ⟨read, reads⟩
    exact ⟨_, read, _, reads, rfl⟩

theorem subfields_of_error {segment : Segment} {error : Error} (single : segment.isRange = false)
    (failed : SubfieldHead.parse segment.token = .error error) :
    Segment.subfields nested base segment = .error error := by
  rw [Segment.subfields, Segment.tokens, single]
  change List.mapM (Segment.subfield nested base segment.groups) [segment.token] = _
  rw [List.mapM_cons, Segment.subfield, failed]
  rfl

/-- A subfield is written as its token and its groups were. -/
theorem segment_of_subfield {groups : List Text} {token : Text} {subfield : Subfield ρ}
    (found : Segment.subfield nested base groups token = .ok subfield) :
    subfield.segment = ⟨token, groups⟩ := by
  obtain ⟨read, reads⟩ := subfield_eq_ok_iff.mp found
  have same := map_of_mapM (fun _ _ _ => Group.render_of_parse) reads
  rw [Subfield.segment, (SubfieldHead.of_parse read).1, same]

/-- The segments that a segment comes to, one for each of its subfields. -/
theorem of_subfields {segment : Segment} {subfields : List (Subfield ρ)}
    (found : Segment.subfields nested base segment = .ok subfields) :
    ∃ tokens, segment.tokens = .ok tokens ∧
      List.mapM (Segment.subfield nested base segment.groups) tokens = .ok subfields ∧
      subfields.map Subfield.segment = tokens.map fun token => ⟨token, segment.groups⟩ := by
  obtain ⟨tokens, expanded, reads⟩ := bind_eq_ok_iff.mp found
  refine ⟨tokens, expanded, reads, ?_⟩
  have each := mapM_eq_ok_iff.mp reads
  clear expanded reads found
  induction each with
  | nil => rfl
  | cons read rest ih => rw [List.map_cons, List.map_cons, segment_of_subfield read, ih]

/-- Segments without ranges come to themselves. -/
theorem map_segment_flatten {segments : List Segment} {parts : List (List (Subfield ρ))}
    (found : List.mapM (Segment.subfields nested base) segments = .ok parts)
    (single : ∀ segment ∈ segments, segment.isRange = false) :
    parts.flatten.map Subfield.segment = segments := by
  have reads := mapM_eq_ok_iff.mp found
  clear found
  induction reads with
  | nil => rfl
  | @cons segment part rest parts read reads ih =>
    obtain ⟨tokens, expanded, -, same⟩ := of_subfields read
    have alone := single segment (by simp)
    simp only [Segment.tokens, alone, Bool.false_eq_true, ↓reduceIte, Except.ok.injEq] at expanded
    subst expanded
    rw [List.flatten_cons, List.map_append, same, ih fun other member => single other (by simp [member])]
    rfl

/-- A subfield of a segment reads back from its own segment. -/
theorem subfields_segment {groups : List Text} {token : Text} {subfield : Subfield ρ}
    (found : Segment.subfield nested base groups token = .ok subfield)
    (single : subfield.segment.isRange = false) :
    Segment.subfields nested base subfield.segment = .ok [subfield] := by
  have same := segment_of_subfield found
  rw [same] at single ⊢
  simp [Segment.subfields, Segment.tokens, single, found, bind, Except.bind, pure, Except.pure]

end Segment
end MarcPath
