import Mathlib.Data.List.Perm.Basic
import MarcPath.Proofs.Scan

/-! What a tail looks like once it is read, and how it is written again: each token, then its groups.
Written that way it reads back as itself, and it differs from the text it was read from exactly where
a token went on after one of its groups. -/
namespace MarcPath

/-- A segment with its token in one piece. -/
def Segment.render (segment : Segment) : Text :=
  segment.token ++ segment.groups.flatten

namespace Tail

def render (tail : Tail) : Text :=
  tail.groups.flatten ++ tail.segments.flatMap Segment.render

def Pending.render (pending : Pending) : Text :=
  pending.token ++ pending.groups.flatten ++ pending.segments.flatMap Segment.render

end Tail

/-- The token begins with its only structural character, and every group is one. -/
structure Segment.WellFormed (segment : Segment) : Prop where
  token : ∃ body, segment.token = '$' :: body ∧
    ∀ mark ∈ Mark.ofText (some '$') body, mark.isPlain = true
  groups : ∀ group ∈ segment.groups, IsGroup group

namespace Tail

/-- Where anything follows a token, the token does not end in a shield. -/
def Separated : List Segment → Prop
  | [] => True
  | segment :: rest =>
    (segment.groups ≠ [] ∨ rest ≠ [] → isShielded segment.token.getLast? = false) ∧ Separated rest

/-- A token that is no more than a dollar and a shield has nothing after it. -/
def Parted : List Segment → Prop
  | [] => True
  | segment :: rest =>
    (∀ c, segment.token = ['$', c] → isShield c = true → segment.groups = [] ∧ rest = []) ∧
      Parted rest

namespace Scan

variable {before : Option Char} {inToken : Bool} {text : Text} {pending : Pending}

/-- Nothing is lost and nothing is added, though it may be put in another order. -/
theorem perm (scan : Scan before inToken text pending) : pending.render.Perm text := by
  induction scan with
  | done => exact .refl _
  | @group before inToken body text next free closes later ih =>
    have kept : (('{' :: body) ++ next.render).Perm (('{' :: body) ++ text) := ih.append_left _
    have moved : (next.token ++ ('{' :: body)).Perm (('{' :: body) ++ next.token) :=
      List.perm_append_comm
    have front := moved.append_right (next.groups.flatten ++ next.segments.flatMap Segment.render)
    refine List.Perm.trans ?_ (front.trans ?_)
    · simp [Pending.render]
    · simpa [Pending.render] using kept
  | dollar free later ih => simpa [Pending.render, Segment.render] using ih
  | plain plain later ih => simpa [Pending.render] using ih

theorem groups_isGroup (scan : Scan before inToken text pending) :
    ∀ group ∈ pending.groups, IsGroup group := by
  induction scan with
  | done => simp
  | @group before inToken body text next free closes later ih =>
    intro group member
    rcases List.mem_cons.mp member with rfl | member
    · exact ⟨body, rfl, closes⟩
    · exact ih group member
  | dollar free later ih => simp
  | plain plain later ih => exact ih

/-- Groups are not put together from pieces. -/
theorem infix_of_mem {group : Text} (scan : Scan before inToken text pending)
    (member : group ∈ pending.groups ∨ ∃ segment ∈ pending.segments, group ∈ segment.groups) :
    group <:+: text := by
  induction scan with
  | done => simp at member
  | @group before inToken body text next free closes later ih =>
    have behind : text <:+: '{' :: (body ++ text) := ⟨'{' :: body, [], by simp⟩
    rcases member with member | inside
    · rcases List.mem_cons.mp member with rfl | member
      · exact ⟨[], text, by simp⟩
      · exact (ih (.inl member)).trans behind
    · exact (ih (.inr inside)).trans behind
  | dollar free later ih =>
    refine List.infix_cons (ih ?_)
    rcases member with member | ⟨segment, source, inside⟩
    · cases member
    · rcases List.mem_cons.mp source with rfl | source
      · exact .inl inside
      · exact .inr ⟨segment, source, inside⟩
  | plain plain later ih => exact List.infix_cons (ih member)

/-- Where every bracket is shielded there are no groups. -/
theorem groups_eq_nil (scan : Scan before inToken text pending)
    (flat : ∀ mark ∈ Mark.ofText before text, mark.isBracket = false) :
    pending.groups = [] ∧ ∀ segment ∈ pending.segments, segment.groups = [] := by
  induction scan with
  | done => simp
  | @group before inToken body text next free closes later ih =>
    have opening := flat (Mark.ofChar before '{') List.mem_cons_self
    simp [Mark.ofChar, free, Mark.isBracket] at opening
  | dollar free later ih =>
    obtain ⟨none, others⟩ := ih fun mark member => flat mark (List.mem_cons_of_mem _ member)
    refine ⟨rfl, ?_⟩
    intro segment member
    rcases List.mem_cons.mp member with rfl | member
    · exact none
    · exact others segment member
  | plain plain later ih => exact ih fun mark member => flat mark (List.mem_cons_of_mem _ member)

/-- Without groups a text is its tokens. -/
theorem text_eq (scan : Scan before inToken text pending)
    (none : pending.groups = [] ∧ ∀ segment ∈ pending.segments, segment.groups = []) :
    pending.token ++ pending.segments.flatMap Segment.token = text := by
  induction scan with
  | done => rfl
  | group free closes later ih => cases none.1
  | dollar free later ih =>
    simpa using ih (List.forall_mem_cons.mp none.2)
  | plain plain later ih => simpa using ih none

/-- The rest of a token is plain wherever the token is put together again: a character that is only
shielded by the one before it keeps that one. -/
theorem token_plain (scan : Scan before inToken text pending) {last : Option Char}
    (kept : isShielded before = true → isShielded last = true) :
    ∀ mark ∈ Mark.ofText last pending.token, mark.isPlain = true := by
  induction scan generalizing last with
  | done => simp [Mark.ofText]
  | group free closes later ih => exact ih (by simp [isShielded, isShield])
  | dollar free later ih => simp [Mark.ofText]
  | @plain before c text next plain later ih =>
    intro mark member
    rcases List.mem_cons.mp member with rfl | member
    · have same : Mark.ofChar last c = .plain c :=
        Mark.ofChar_eq_plain_iff.mpr ((Mark.ofChar_eq_plain_iff.mp plain).imp_left kept)
      rw [same]
      rfl
    · exact ih id mark member

theorem wellFormed (scan : Scan before inToken text pending) :
    ∀ segment ∈ pending.segments, segment.WellFormed := by
  induction scan with
  | done => simp
  | group free closes later ih => exact ih
  | dollar free later ih =>
    intro segment member
    rcases List.mem_cons.mp member with rfl | member
    · exact ⟨⟨_, rfl, later.token_plain id⟩, later.groups_isGroup⟩
    · exact ih segment member
  | plain plain later ih => exact ih

/-- After a shield comes a plain character or nothing at all. -/
theorem empty_of_shielded (scan : Scan before inToken text pending)
    (shielded : isShielded before = true) (none : pending.token = []) :
    pending.groups = [] ∧ pending.segments = [] := by
  cases scan with
  | done => exact ⟨rfl, rfl⟩
  | group free closes later => rw [free] at shielded; cases shielded
  | dollar free later => rw [free] at shielded; cases shielded
  | plain plain later => cases none

theorem parted (scan : Scan before inToken text pending) : Parted pending.segments := by
  induction scan with
  | done => trivial
  | group free closes later ih => exact ih
  | dollar free later ih =>
    refine ⟨?_, ih⟩
    intro c token shield
    have code := (List.cons.inj token).2
    cases later with
    | done => cases code
    | group free closes later => simp [isShielded, isShield] at free
    | dollar free later => cases code
    | plain plain later =>
      obtain ⟨rfl, none⟩ := List.cons.inj code
      exact later.empty_of_shielded shield none
  | plain plain later ih => exact ih

theorem congr (scan : Scan before inToken text pending) (other : Option Char)
    (same : isShielded before = isShielded other) : Scan other inToken text pending :=
  of_read (Mark.ofText_congr same text ▸ scan.read_eq)

theorem append_groups {groups : List Text} (known : ∀ group ∈ groups, IsGroup group)
    (free : groups ≠ [] → isShielded before = false) (later : Scan before inToken text pending) :
    Scan before inToken (groups.flatten ++ text)
      { pending with groups := groups ++ pending.groups } := by
  induction groups with
  | nil => exact later
  | cons group rest ih =>
    obtain ⟨body, rfl, closes⟩ := known group (by simp)
    have unshielded := free (by simp)
    have others := ih (fun other member => known other (by simp [member])) fun _ => unshielded
    simpa using Scan.group unshielded closes (others.congr (some '}') (by rw [unshielded]; rfl))

theorem append_token {body : Text} (plain : ∀ mark ∈ Mark.ofText before body, mark.isPlain = true)
    (later : Scan (Text.lastFrom before body) true text pending) :
    Scan before true (body ++ text) { pending with token := body ++ pending.token } := by
  induction body generalizing before with
  | nil => exact later
  | cons c rest ih =>
    have others := ih (fun mark member => plain mark (List.mem_cons_of_mem _ member)) later
    refine Scan.plain ?_ others
    have known := plain (Mark.ofChar before c) List.mem_cons_self
    cases mark : Mark.ofChar before c with
    | plain p => rw [Mark.ofChar_eq mark, Mark.char]
    | _ => simp [mark, Mark.isPlain] at known

theorem of_segments {segments : List Segment} (known : ∀ segment ∈ segments, segment.WellFormed)
    (separated : Separated segments) (free : segments ≠ [] → isShielded before = false) :
    Scan before inToken (segments.flatMap Segment.render) ⟨[], [], [], segments⟩ := by
  induction segments generalizing before inToken with
  | nil => exact .done
  | cons segment rest ih =>
    obtain ⟨⟨body, token, plain⟩, groups⟩ := known segment (by simp)
    obtain ⟨ends, separated⟩ := separated
    have last : Text.lastFrom (some '$') body = segment.token.getLast? := by
      rw [token, ← Text.lastFrom_eq_getLast? none (by simp)]
      rfl
    have others : Scan (Text.lastFrom (some '$') body) true (rest.flatMap Segment.render) _ :=
      ih (fun other member => known other (by simp [member])) separated
        fun more => last ▸ ends (.inr more)
    have scan : Scan before inToken _ _ := .dollar (free (by simp)) <| append_token plain <|
      append_groups groups (fun more => last ▸ ends (.inl more)) others
    rcases segment with ⟨_, _⟩
    subst token
    simpa [Segment.render] using scan

end Scan

/-- A tail that is written token by token reads back as itself. -/
theorem parse_render {tail : Tail} (groups : ∀ group ∈ tail.groups, IsGroup group)
    (segments : ∀ segment ∈ tail.segments, segment.WellFormed)
    (separated : Separated tail.segments) : Tail.parse tail.render = .ok tail := by
  have scan : Scan none false (tail.segments.flatMap Segment.render) ⟨[], [], [], tail.segments⟩ :=
    .of_segments segments separated fun _ => rfl
  exact parse_eq_ok_iff.mpr (by simpa [Tail.render] using scan.append_groups groups fun _ => rfl)

end Tail

/-- Somewhere a plain character directly follows the bracket that closes an outermost group. -/
def Mark.Resumes (marks : List Mark) : Prop :=
  ∃ left c right, marks = left ++ closing :: plain c :: right ∧ balance left = 1

/-- Somewhere a token goes on after one of its groups. -/
def Tail.Resumes (text : Text) : Prop :=
  Mark.Resumes (Mark.ofText none text)

namespace Mark

theorem not_resumes_nil : ¬ Resumes [] := by
  rintro ⟨left, c, right, parts, -⟩
  simp at parts

theorem resumes_cons_flat {mark : Mark} (flat : mark.isBracket = false) (rest : List Mark) :
    Resumes (mark :: rest) ↔ Resumes rest := by
  constructor
  · rintro ⟨left, c, right, parts, level⟩
    cases left with
    | nil =>
      obtain ⟨rfl, -⟩ := List.cons.inj parts
      simp [isBracket] at flat
    | cons first left =>
      obtain ⟨rfl, later⟩ := List.cons.inj parts
      exact ⟨left, c, right, later, by rwa [balance_flat flat] at level⟩
  · rintro ⟨left, c, right, rfl, level⟩
    exact ⟨mark :: left, c, right, rfl, by rwa [balance_flat flat]⟩

theorem Closes.exists_append_closing {depth : Nat} {marks : List Mark} (closes : Closes depth marks) :
    ∃ front, marks = front ++ [Mark.closing] ∧ balance front = -depth := by
  induction closes with
  | last => exact ⟨[], rfl, rfl⟩
  | opening deeper ih =>
    obtain ⟨front, rfl, level⟩ := ih
    exact ⟨.opening :: front, rfl, by simp only [balance, level]; omega⟩
  | closing outer ih =>
    obtain ⟨front, rfl, level⟩ := ih
    exact ⟨.closing :: front, rfl, by simp only [balance, level]; omega⟩
  | other flat later ih =>
    obtain ⟨front, rfl, level⟩ := ih
    exact ⟨_ :: front, rfl, by rw [balance_flat flat, level]⟩

/-- Behind a group there are two ways to go on: at once, or later. -/
theorem resumes_group {body : List Mark} (closes : Closes 0 body) (rest : List Mark) :
    Resumes (opening :: (body ++ rest)) ↔ (∃ c right, rest = plain c :: right) ∨ Resumes rest := by
  constructor
  · rintro ⟨left, c, right, parts, level⟩
    cases left with
    | nil => cases parts
    | cons first left =>
      obtain ⟨rfl, inner⟩ := List.cons.inj parts
      have closed := closes.balance_eq
      simp only [balance] at level
      rcases List.append_eq_append_iff.mp inner with ⟨more, rfl, after⟩ | ⟨more, rfl, after⟩
      · rw [balance_append] at level
        exact .inr ⟨more, c, right, after, by omega⟩
      · -- The bracket belongs to the group, so it is the one that closes it.
        rw [balance_append] at closed
        cases more with
        | nil => simp only [balance] at closed; omega
        | cons bracket more =>
          obtain ⟨rfl, next⟩ := List.cons.inj after
          cases more with
          | nil => exact .inl ⟨c, right, next.symm⟩
          | cons next more =>
            have inside := closes.open_before_last (List.append_cons ..) (by simp)
            rw [balance_append] at inside
            simp only [balance] at inside
            omega
  · rintro (⟨c, right, rfl⟩ | ⟨left, c, right, rfl, level⟩)
    · obtain ⟨front, rfl, inside⟩ := closes.exists_append_closing
      exact ⟨opening :: front, c, right, by simp, by simp only [balance, inside]; rfl⟩
    · have closed := closes.balance_eq
      refine ⟨opening :: (body ++ left), c, right, by simp, ?_⟩
      simp only [balance, balance_append, closed, level]
      rfl

end Mark

namespace Tail.Scan

variable {before : Option Char} {inToken : Bool} {text : Text} {pending : Pending}

/-- A token that does not follow a shield begins with no bracket. -/
theorem token_head {c : Char} {rest : Text} (scan : Scan before inToken text pending)
    (free : isShielded before = false) (token : pending.token = c :: rest) : c ≠ '{' := by
  induction scan with
  | done => cases token
  | group free' closes later ih => exact ih rfl token
  | dollar free' later ih => cases token
  | plain plain later ih =>
    obtain ⟨rfl, -⟩ := List.cons.inj token
    rcases Mark.ofChar_eq_plain_iff.mp plain with shielded | structural
    · rw [free] at shielded
      cases shielded
    · exact structural.1

/-- A text that begins with a plain character begins with its token. -/
theorem token_ne_nil {c : Char} {rest : List Mark} (scan : Scan before inToken text pending)
    (begins : Mark.ofText before text = .plain c :: rest) : pending.token ≠ [] := by
  cases scan with
  | done => cases begins
  | group free closes later => simp [Mark.ofText, Mark.ofChar, free] at begins
  | dollar free later => simp [Mark.ofText, Mark.ofChar, free] at begins
  | plain plain later => simp

/-- Written token by token, a text comes out as it was unless a token goes on after a group. -/
theorem render_eq_iff (scan : Scan before inToken text pending) :
    pending.render = text ↔ ¬ Mark.Resumes (Mark.ofText before text) := by
  induction scan with
  | done => simp [Pending.render, Mark.ofText, Mark.not_resumes_nil]
  | @group before inToken body text next free closes later ih =>
    rw [closes.ofText_group free, Mark.resumes_group closes, not_or, ← ih]
    constructor
    · intro same
      have none : next.token = [] := by
        cases token : next.token with
        | nil => rfl
        | cons c rest =>
          have different := later.token_head rfl token
          simp [Pending.render, token, different] at same
      refine ⟨?_, by simpa [Pending.render, none] using same⟩
      rintro ⟨c, right, begins⟩
      exact later.token_ne_nil begins none
    · rintro ⟨stops, same⟩
      have none : next.token = [] := by
        cases token : next.token with
        | nil => rfl
        | cons c rest =>
          have structural : c ≠ '{' := later.token_head rfl token
          have begins : ∃ more, text = c :: more := by
            rw [← same]
            exact ⟨_, by simp only [Pending.render, token, List.cons_append]; rfl⟩
          obtain ⟨more, rfl⟩ := begins
          cases later with
          | group free closes later => exact absurd rfl structural
          | dollar free later => cases token
          | plain plain later => exact absurd ⟨c, _, by rw [Mark.ofText, plain]⟩ stops
      simpa [Pending.render, none] using same
  | @dollar before inToken text next free later ih =>
    rw [Mark.ofText_dollar free, Mark.resumes_cons_flat rfl, ← ih]
    simp [Pending.render, Segment.render]
  | @plain before c text next plain later ih =>
    rw [Mark.ofText, plain, Mark.resumes_cons_flat rfl, ← ih]
    simp [Pending.render]

end Tail.Scan

namespace Tail

variable {text : Text} {tail : Tail}

theorem render_eq_iff (found : Tail.parse text = .ok tail) :
    tail.render = text ↔ ¬ Tail.Resumes text := by
  simpa [Tail.render, Pending.render, Tail.Resumes] using (parse_eq_ok_iff.mp found).render_eq_iff

theorem render_perm (found : Tail.parse text = .ok tail) : tail.render.Perm text := by
  simpa [Tail.render, Pending.render] using (parse_eq_ok_iff.mp found).perm

/-- The groups of a tail, wherever they belong. -/
def Holds (tail : Tail) (group : Text) : Prop :=
  group ∈ tail.groups ∨ ∃ segment ∈ tail.segments, group ∈ segment.groups

theorem infix_of_holds {group : Text} (found : Tail.parse text = .ok tail)
    (holds : tail.Holds group) : group <:+: text :=
  (parse_eq_ok_iff.mp found).infix_of_mem holds

theorem isGroup_of_holds {group : Text} (found : Tail.parse text = .ok tail)
    (holds : tail.Holds group) : IsGroup group := by
  have scan := parse_eq_ok_iff.mp found
  rcases holds with member | ⟨segment, source, member⟩
  · exact scan.groups_isGroup group member
  · exact (scan.wellFormed segment source).groups group member

theorem not_holds {group : Text} (found : Tail.parse text = .ok tail)
    (flat : Text.Unbracketed text) : ¬ tail.Holds group := by
  obtain ⟨none, others⟩ := (parse_eq_ok_iff.mp found).groups_eq_nil flat
  simp only at none others
  rintro (member | ⟨segment, source, member⟩)
  · rw [none] at member
    cases member
  · rw [others segment source] at member
    cases member

/-- Where no bracket opens there are no groups. -/
theorem not_holds_of_absent {group : Text} (found : Tail.parse text = .ok tail)
    (absent : '{' ∉ text) : ¬ tail.Holds group := by
  intro holds
  obtain ⟨body, rfl, -⟩ := isGroup_of_holds found holds
  exact absent ((infix_of_holds found holds).subset List.mem_cons_self)

/-- A tail without groups has its tokens in one piece. -/
theorem infix_of_token {segment : Segment} (found : Tail.parse text = .ok tail)
    (none : ∀ group, ¬ tail.Holds group) (source : segment ∈ tail.segments) :
    segment.token <:+: text := by
  have field : tail.groups = [] :=
    List.eq_nil_iff_forall_not_mem.mpr fun group member => none group (.inl member)
  have others : ∀ segment ∈ tail.segments, segment.groups = [] := fun segment member =>
    List.eq_nil_iff_forall_not_mem.mpr fun group inside => none group (.inr ⟨segment, member, inside⟩)
  have tokens : tail.segments.flatMap Segment.token = text :=
    (parse_eq_ok_iff.mp found).text_eq ⟨field, others⟩
  rw [← tokens, List.flatMap_def]
  exact List.infix_of_mem_flatten (List.mem_map_of_mem source)

end Tail
end MarcPath
