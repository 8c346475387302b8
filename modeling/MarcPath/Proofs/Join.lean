import MarcPath.Proofs.Layer
import MarcPath.Proofs.Trace

/-! Tails that follow each other. Where they meet at a dollar that nothing shields, each is read as it is
on its own. Where a token that ends in a shield stands in front of the dollar, it takes over the token that
the dollar begins. -/
namespace MarcPath

namespace Tail

/-- What has been read stays as it is when a dollar follows. -/
def Pending.followedBy (pending next : Pending) : Pending :=
  { pending with segments := pending.segments ++ next.segments }

/-- What is read first may be wrapped up before or after something follows it. -/
private theorem bind_followedBy {reading later : Except (Part × Fault) Pending} {next : Pending}
    (wrap : Pending → Pending) (kept : ∀ later, wrap (next.followedBy later) = (wrap next).followedBy later)
    (same : reading = later.map next.followedBy) :
    (do return wrap (← reading)) = later.map (wrap next).followedBy := by
  subst same
  cases later with
  | error cause => rfl
  | ok later => exact congrArg Except.ok (kept later)

theorem read_append_dollar {inToken : Bool} {depth : Nat} {first : List Mark} {pending : Pending}
    (found : read inToken depth first = .ok pending) (rest : List Mark) :
    read inToken depth (first ++ .dollar :: rest) =
      (read true 0 (.dollar :: rest)).map pending.followedBy := by
  have begins (inToken : Bool) : read inToken 0 (.dollar :: rest) =
      (read true 0 (.dollar :: rest)).map (Pending.followedBy ⟨[], [], [], []⟩) := by
    simp only [read]
    cases read true 0 rest <;> rfl
  generalize read true 0 (.dollar :: rest) = later at begins ⊢
  fun_induction read inToken depth first generalizing pending with
  | case1 =>
    obtain rfl := Except.ok.inj found
    exact begins _
  | case2 inToken marks ih =>
    obtain ⟨next, inner, same⟩ := bind_eq_ok_iff.mp found
    obtain rfl := Except.ok.inj same
    exact bind_followedBy (fun next => { next with group := [], groups := ('{' :: next.group) :: next.groups })
      (fun _ => rfl) (ih inner)
  | case3 => cases found
  | case4 inToken marks ih =>
    obtain ⟨next, inner, same⟩ := bind_eq_ok_iff.mp found
    obtain rfl := Except.ok.inj same
    exact bind_followedBy (fun next => ⟨[], [], [], ⟨'$' :: next.token, next.groups⟩ :: next.segments⟩)
      (fun _ => rfl) (ih inner)
  | case5 c marks ih =>
    obtain ⟨next, inner, same⟩ := bind_eq_ok_iff.mp found
    obtain rfl := Except.ok.inj same
    exact bind_followedBy (fun next => { next with token := c :: next.token }) (fun _ => rfl) (ih inner)
  | case6 => cases found
  | case7 => cases found
  | case8 inToken depth mark marks ih =>
    obtain ⟨next, inner, same⟩ := bind_eq_ok_iff.mp found
    obtain rfl := Except.ok.inj same
    have continued := ih inner
    cases mark <;>
      exact bind_followedBy (fun next => { next with group := _ :: next.group }) (fun _ => rfl) continued

theorem parse_eq_ok_iff_read {text : Text} {tail : Tail} :
    Tail.parse text = .ok tail ↔
      read false 0 (Mark.ofText none text) = .ok ⟨[], [], tail.groups, tail.segments⟩ :=
  parse_eq_ok_iff.trans ⟨Scan.read_eq, Scan.of_read⟩

/-- Where a text begins with a dollar, every group in it belongs to a token. -/
theorem groups_eq_nil_of_dollar {rest : Text} {tail : Tail}
    (found : Tail.parse ('$' :: rest) = .ok tail) : tail.groups = [] := by
  obtain ⟨_, -, known⟩ := bind_eq_ok_iff.mp (parse_eq_ok_iff_read.mp found)
  obtain ⟨-, -, groups, -⟩ := Pending.mk.inj (Except.ok.inj known)
  exact groups.symm

/-- Texts that meet at a dollar which nothing shields are read one by one. -/
theorem parse_append_eq_ok_iff {first rest : Text} {tail whole : Tail}
    (found : Tail.parse first = .ok tail) (free : isShielded (Text.lastFrom none first) = false) :
    Tail.parse (first ++ '$' :: rest) = .ok whole ↔
      ∃ later, Tail.parse ('$' :: rest) = .ok later ∧
        whole = ⟨tail.groups, tail.segments ++ later.segments⟩ := by
  have marks : Mark.ofText none (first ++ '$' :: rest) =
      Mark.ofText none first ++ .dollar :: Mark.ofText (some '$') rest := by
    simp [Mark.ofText_append, Mark.ofText, Mark.ofChar, free]
  have read := read_append_dollar (parse_eq_ok_iff_read.mp found) (Mark.ofText (some '$') rest)
  rw [parse_eq_ok_iff_read, marks, read, map_eq_ok_iff]
  constructor
  · rintro ⟨next, later, same⟩
    obtain ⟨-, -, groups, segments⟩ := Pending.mk.inj same
    obtain ⟨_, -, known⟩ := bind_eq_ok_iff.mp later
    obtain rfl := Except.ok.inj known
    refine ⟨⟨[], _⟩, parse_eq_ok_iff_read.mpr later, ?_⟩
    rw [Tail.mk.injEq]
    exact ⟨groups.symm, segments.symm⟩
  · rintro ⟨later, known, rfl⟩
    exact ⟨_, parse_eq_ok_iff_read.mp known, rfl⟩

/-- Further segments are further records. -/
theorem records_append (tail : Tail) (segments : List Segment) :
    records ⟨tail.groups, tail.segments ++ segments⟩ = tail.records ++ segments.map .ofSegment := by
  rw [records, records, List.map_append, List.append_assoc]

/-- A tail may be cut in front of any dollar that nothing shields. What stands before the dollar is read
as it is on its own; so the whole is read exactly if what begins with the dollar is, and the records of
the whole are those of both parts, one after the other. -/
theorem parse_at_dollar {first second : Text} {front : Tail} (found : Tail.parse first = .ok front)
    (ends : isShielded first.getLast? = false) (begins : second.head? = some '$') :
    ((∃ whole, Tail.parse (first ++ second) = .ok whole) ↔ ∃ back, Tail.parse second = .ok back) ∧
      ∀ back, Tail.parse second = .ok back →
        ∃ whole, Tail.parse (first ++ second) = .ok whole ∧
          whole.records = front.records ++ back.records := by
  obtain ⟨rest, rfl⟩ := List.head?_eq_some_iff.mp begins
  rw [← Text.lastFrom_none] at ends
  have joined {whole : Tail} : Tail.parse (first ++ '$' :: rest) = .ok whole ↔
      ∃ back, Tail.parse ('$' :: rest) = .ok back ∧
        whole = ⟨front.groups, front.segments ++ back.segments⟩ := parse_append_eq_ok_iff found ends
  refine ⟨⟨?_, ?_⟩, ?_⟩
  · rintro ⟨whole, read⟩
    obtain ⟨back, known, -⟩ := joined.mp read
    exact ⟨back, known⟩
  · rintro ⟨back, known⟩
    exact ⟨_, joined.mpr ⟨back, known, rfl⟩⟩
  · intro back known
    refine ⟨_, joined.mpr ⟨back, known, rfl⟩, ?_⟩
    rw [records_append, records_eq_map (groups_eq_nil_of_dollar known)]

/-- The last group of the first part is closed where the second begins, and the groups of both stay with
their own tokens. -/
theorem parse_at_dollar_of_groups :
    ∃ front back whole, Tail.parse "{$b}$a{$c}/0{x}".toList = .ok front ∧
      Tail.parse "$d{?$e}{f}$g".toList = .ok back ∧
      Tail.parse "{$b}$a{$c}/0{x}$d{?$e}{f}$g".toList = .ok whole ∧
      whole.records = front.records ++ back.records ∧ whole.records.length = 4 := by
  obtain ⟨front, back, found, known, count⟩ : ∃ front back,
      Tail.parse "{$b}$a{$c}/0{x}".toList = .ok front ∧ Tail.parse "$d{?$e}{f}$g".toList = .ok back ∧
        (front.records ++ back.records).length = 4 := ⟨_, _, rfl, rfl, rfl⟩
  obtain ⟨whole, read, same⟩ := (parse_at_dollar found rfl rfl).2 back known
  exact ⟨front, back, whole, found, known, read, same, same ▸ count⟩

/-- What follows a group does not follow a shield. -/
theorem isShielded_lastFrom_groups {groups : List Text} {before : Option Char}
    (known : ∀ group ∈ groups, IsGroup group) (free : isShielded before = false) :
    isShielded (Text.lastFrom before groups.flatten) = false := by
  induction groups generalizing before with
  | nil => exact free
  | cons group rest ih =>
    have group' := known group (by simp)
    have nonempty : group ≠ [] := by
      obtain ⟨body, rfl, -⟩ := group'
      simp
    rw [List.flatten_cons, Text.lastFrom_append, Text.lastFrom_eq_getLast? _ nonempty, group'.getLast?_eq]
    exact ih (fun other member => known other (by simp [member])) rfl

/-- What follows segments whose tokens end in no shield does not follow one either. -/
theorem isShielded_lastFrom_segments {segments : List Segment} {before : Option Char}
    (known : ∀ segment ∈ segments, segment.WellFormed)
    (ends : ∀ segment ∈ segments, isShielded segment.token.getLast? = false)
    (free : isShielded before = false) :
    isShielded (Text.lastFrom before (segments.flatMap Segment.render)) = false := by
  induction segments generalizing before with
  | nil => exact free
  | cons segment rest ih =>
    obtain ⟨⟨body, token, -⟩, groups⟩ := known segment (by simp)
    have nonempty : segment.token ≠ [] := by simp [token]
    rw [List.flatMap_cons, Text.lastFrom_append]
    refine ih (fun other member => known other (by simp [member]))
      (fun other member => ends other (by simp [member])) ?_
    rw [Segment.render, Text.lastFrom_append, Text.lastFrom_eq_getLast? _ nonempty]
    exact isShielded_lastFrom_groups groups (ends segment (by simp))

/-- Among segments that do not keep apart, there is a first one that ends in a shield and is followed. -/
theorem exists_followed {segments : List Segment}
    (short : ∀ segment ∈ segments, isShielded segment.token.getLast? = true →
      ∃ c, isShield c = true ∧ segment = ⟨['$', c], []⟩)
    (joined : ¬ Separated segments) :
    ∃ front c next back, segments = front ++ ⟨['$', c], []⟩ :: next :: back ∧ isShield c = true ∧
      ∀ segment ∈ front, isShielded segment.token.getLast? = false := by
  induction segments with
  | nil => exact absurd trivial joined
  | cons segment rest ih =>
    by_cases shielded : isShielded segment.token.getLast? = true
    · obtain ⟨c, shield, rfl⟩ := short segment (by simp) shielded
      cases rest with
      | nil => exact absurd ⟨by simp, trivial⟩ joined
      | cons next back => exact ⟨[], c, next, back, rfl, shield, by simp⟩
    · rw [Bool.not_eq_true] at shielded
      have later : ¬ Separated rest := fun separated => joined ⟨fun _ => shielded, separated⟩
      obtain ⟨front, c, next, back, rfl, shield, ends⟩ :=
        ih (fun other member => short other (by simp [member])) later
      refine ⟨segment :: front, c, next, back, rfl, shield, ?_⟩
      intro other member
      rcases List.mem_cons.mp member with rfl | member
      · exact shielded
      · exact ends other member

/-- A dollar behind a shield begins no token. -/
theorem token_of_shield {c : Char} {rest : Text} {tail : Tail} (shield : isShield c = true)
    (found : Tail.parse ('$' :: c :: '$' :: rest) = .ok tail) :
    ∃ segment ∈ tail.segments, ∃ more, segment.token = '$' :: c :: '$' :: more := by
  have marks : Mark.ofText none ('$' :: c :: '$' :: rest) =
      .dollar :: .plain c :: .plain '$' :: Mark.ofText (some '$') rest := by
    simp [Mark.ofText, Mark.ofChar, isShielded, shield, show isShield '$' = true from rfl]
  have read := parse_eq_ok_iff_read.mp found
  rw [marks] at read
  obtain ⟨next, read, same⟩ := bind_eq_ok_iff.mp read
  obtain ⟨after, read, token⟩ := bind_eq_ok_iff.mp read
  obtain ⟨last, -, token'⟩ := bind_eq_ok_iff.mp read
  obtain ⟨-, -, -, segments⟩ := Pending.mk.inj (Except.ok.inj same)
  obtain rfl := Except.ok.inj token
  obtain rfl := Except.ok.inj token'
  exact ⟨_, segments ▸ List.mem_cons_self, last.token, rfl⟩

/-- In a tail whose segments do not keep apart, some token is read with the dollar of the next. -/
theorem exists_joined_token {tail whole : Tail} (groups : ∀ group ∈ tail.groups, IsGroup group)
    (segments : ∀ segment ∈ tail.segments, segment.WellFormed)
    (short : ∀ segment ∈ tail.segments, isShielded segment.token.getLast? = true →
      ∃ c, isShield c = true ∧ segment = ⟨['$', c], []⟩)
    (joined : ¬ Separated tail.segments) (found : Tail.parse tail.render = .ok whole) :
    ∃ segment ∈ whole.segments, ∃ c more, isShield c = true ∧
      segment.token = '$' :: c :: '$' :: more := by
  obtain ⟨front, c, next, back, parts, shield, ends⟩ := exists_followed short joined
  have known : ∀ segment ∈ front, segment.WellFormed :=
    fun segment member => segments segment (by simp [parts, member])
  obtain ⟨⟨body, token, -⟩, -⟩ := segments next (by simp [parts])
  -- The segments in front of the shield are read as they are, up to its dollar.
  let before : Tail := ⟨tail.groups, front⟩
  have separated : Separated (front ++ []) := Separated.append ends trivial
  rw [List.append_nil] at separated
  have read : Tail.parse before.render = .ok before := parse_render groups known separated
  have free : isShielded (Text.lastFrom none before.render) = false := by
    rw [render, Text.lastFrom_append]
    exact isShielded_lastFrom_segments known ends (isShielded_lastFrom_groups groups rfl)
  have written : tail.render = before.render ++ '$' ::
      (c :: '$' :: (body ++ next.groups.flatten ++ back.flatMap Segment.render)) := by
    simp [before, render, parts, Segment.render, token]
  rw [written, parse_append_eq_ok_iff read free] at found
  obtain ⟨later, found, rfl⟩ := found
  obtain ⟨segment, member, more, token⟩ := token_of_shield shield found
  exact ⟨segment, List.mem_append_right _ member, c, more, shield, token⟩

end Tail
end MarcPath
