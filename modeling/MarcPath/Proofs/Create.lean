import MarcPath.Proofs.Grown
import MarcPath.Proofs.Intern

/-! Creating what a text adds to a stored path. Object by object, this goes as the reading of the text
does: it fails where that fails, and otherwise leaves what stands for what was read. All along the store
only grows. -/
namespace MarcPath.Store

variable {α β γ δ : Type} {store : Store} {floor : Nat}

/-- An outcome agrees with a reading in its failure, or stands for what was read. -/
inductive Agrees (stands : α → β → Prop) : Except Error α → Except Error β → Prop where
  | ok {made : α} {value : β} (known : stands made value) : Agrees stands (.ok made) (.ok value)
  | error (cause : Error) : Agrees stands (.error cause) (.error cause)

/-- An attempt agrees with a reading, and lets the store grow whether it fails or not. -/
def Attempt.Follows (attempt : Attempt α) (store : Store) (reading : Except Error β)
    (stands : α → β → Store → Prop) : Prop :=
  Change.Yields attempt store fun outcome after => Agrees (stands · · after) outcome reading

/-- What follows an attempt is only done if that succeeds. -/
theorem Attempt.bind_apply (attempt : Attempt α) (next : α → Attempt β) (store : Store) :
    (attempt >>= next) store = match (attempt store).1 with
      | .ok made => next made (attempt store).2
      | .error cause => (.error cause, (attempt store).2) := by
  change ExceptT.bindCont next (attempt store).1 (attempt store).2 = _
  cases (attempt store).1 <;> rfl

namespace Attempt.Follows

variable {attempt : Attempt α} {reading : Except Error β} {stands : α → β → Store → Prop}
  {final : γ → δ → Store → Prop}

theorem pure {made : α} {value : β} (known : stands made value store) :
    Follows (Pure.pure made : Attempt α) store (.ok value) stands :=
  ⟨.refl store, .ok known⟩

theorem bind {next : α → Attempt γ} {more : β → Except Error δ}
    (follows : attempt.Follows store reading stands)
    (step : ∀ made value after, store.GrowsTo after → stands made value after →
      (next made).Follows after (more value) final) :
    (attempt >>= next).Follows store (reading >>= more) final := by
  have run := Attempt.bind_apply attempt next store
  obtain ⟨grows, agrees⟩ := follows
  generalize attempt store = result at run grows agrees
  obtain ⟨outcome, after⟩ := result
  unfold Follows Change.Yields
  rw [run]
  cases agrees with
  | error cause => exact ⟨grows, .error cause⟩
  | @ok made value known =>
    obtain ⟨more, agrees⟩ := step made value after grows known
    exact ⟨grows.trans more, agrees⟩

/-- A reading on the way may fail; it leaves the store alone. -/
theorem bind_reading {next : β → Attempt γ} {more : β → Except Error δ}
    (step : ∀ value, reading = .ok value → (next value).Follows store (more value) final) :
    Follows (liftM reading >>= next) store (reading >>= more) final := by
  cases reading with
  | error cause => exact ⟨.refl store, .error cause⟩
  | ok value => exact step value rfl

/-- A change does not fail. -/
theorem of_change {change : Change α} {value : β}
    (yields : change.Yields store fun made after => stands made value after) :
    Follows (liftM change) store (.ok value) stands :=
  ⟨yields.1, .ok yields.2⟩

theorem mono {weaker : α → β → Store → Prop} (follows : attempt.Follows store reading stands)
    (implied : ∀ made value after, stands made value after → weaker made value after) :
    attempt.Follows store reading weaker := by
  obtain ⟨grows, agrees⟩ := follows
  refine ⟨grows, ?_⟩
  generalize (attempt store).1 = outcome at agrees
  cases agrees with
  | error cause => exact .error cause
  | ok known => exact .ok (implied _ _ _ known)

theorem mapM {make : γ → Attempt α} {read : γ → Except Error β} {items : List γ}
    (stays : ∀ made value before after, before.GrowsTo after → stands made value before →
      stands made value after)
    (follows : ∀ item ∈ items, ∀ after, store.GrowsTo after →
      (make item).Follows after (read item) stands) :
    (List.mapM make items).Follows store (List.mapM read items) fun made values after =>
      List.Forall₂ (stands · · after) made values := by
  induction items generalizing store with
  | nil => exact .pure .nil
  | cons item rest ih =>
    rw [List.mapM_cons, List.mapM_cons]
    apply (follows item List.mem_cons_self store (.refl store)).bind
    intro made value after grows known
    apply (ih fun other member later more =>
      follows other (List.mem_cons_of_mem _ member) later (grows.trans more)).bind
    intro others values last more all
    exact .pure (.cons (stays made value after last more known) all)

end Attempt.Follows

/-- A group is created as it is read, with new paths for those nested in it. -/
theorem createGroup_follows (nesting : Nesting) (context text : Text)
    (below : floor ≤ store.paths.size) :
    (createGroup nesting context text).Follows store (Group.parseIn nesting context text)
      fun made group after => made.mapM (after.viewFrom floor) = .ok group := by
  rw [← bind_pure (Group.parseIn nesting context text)]
  unfold createGroup
  exact .bind_reading fun group _ => .of_change (internGroup_yields below group)

theorem createGroups_follows (nesting : Nesting) (context : Text) (texts : List Text)
    (below : floor ≤ store.paths.size) :
    Attempt.Follows (List.mapM (createGroup nesting context) texts) store
      (List.mapM (Group.parseIn nesting context) texts) fun made groups after =>
        List.mapM (Group.mapM (after.viewFrom floor)) made = .ok groups := by
  have stays : ∀ (made : Group PathId) (value : Group Path) (before after : Store),
      before.GrowsTo after → made.mapM (before.viewFrom floor) = .ok value →
        made.mapM (after.viewFrom floor) = .ok value :=
    fun _ _ _ _ grows => Group.mapM_of_imp fun _ _ => grows.viewFrom
  apply (Attempt.Follows.mapM stays fun text _ after grows =>
    createGroup_follows nesting context text (grows.above below)).mono
  exact fun _ _ _ => mapM_eq_ok_iff.mpr

theorem GrowsTo.groups {after : Store} (grows : store.GrowsTo after) {made : List (Group PathId)}
    {groups : List (Group Path)}
    (attached : List.mapM (Group.mapM (store.viewFrom floor)) made = .ok groups) :
    List.mapM (Group.mapM (after.viewFrom floor)) made = .ok groups :=
  MarcPath.mapM_of_imp (fun _ _ => Group.mapM_of_imp fun _ _ => grows.viewFrom) attached

/-- A stored subfield, viewed without going below a floor. -/
def viewSubfield (store : Store) (floor : Nat) (id : SubfieldId) : Except Error (Subfield Path) := do
  (← store.subfield id).mapM (store.viewFrom floor)

theorem viewSubfield_eq_ok_iff {id : SubfieldId} {value : Subfield Path} :
    store.viewSubfield floor id = .ok value ↔
      ∃ subfield, store.subfield id = .ok subfield ∧ subfield.mapM (store.viewFrom floor) = .ok value :=
  bind_eq_ok_iff

theorem GrowsTo.viewSubfield {after : Store} (grows : store.GrowsTo after) {id : SubfieldId}
    {value : Subfield Path} (found : store.viewSubfield floor id = .ok value) :
    after.viewSubfield floor id = .ok value := by
  obtain ⟨subfield, held, viewed⟩ := viewSubfield_eq_ok_iff.mp found
  exact viewSubfield_eq_ok_iff.mpr ⟨subfield, grows.subfield _ _ held,
    Subfield.mapM_of_imp (fun _ _ => grows.viewFrom) viewed⟩

/-- A reference that is new to a store leads to what was read. -/
def Shows (store : Store) (floor : Nat) (id : SubfieldId) (value : Subfield Path) (after : Store) : Prop :=
  ¬ store.Has (.subfield id) ∧ after.viewSubfield floor id = .ok value

/-- A subfield is created as it is read, under a new reference. -/
theorem createSubfield_follows (nesting : Nesting) (base : Text) (groups : List Text) (token : Text)
    (below : floor ≤ store.paths.size) :
    (createSubfield nesting base groups token).Follows store
      (Segment.subfield (Path.parse nesting.deeper) base groups token) (store.Shows floor) := by
  apply Attempt.Follows.bind_reading
  intro head _
  apply (createGroups_follows nesting (base ++ head.render) groups below).bind
  intro made values after grows attached
  have inside : ∀ inner ∈ (Subfield.mk head made).paths, after.Has (.path inner) :=
    fun inner member => (exists_of_mapM_groups attached inner member).elim fun _ => has_of_viewFrom
  refine .of_change ((addSubfield_yields inside).mono ?_)
  intro id last more ⟨held, new⟩
  refine ⟨fun old => new (grows.has old), viewSubfield_eq_ok_iff.mpr ⟨_, held, ?_⟩⟩
  rw [Subfield.mapM, more.groups attached]
  rfl

theorem createSegment_follows (nesting : Nesting) (base : Text) (segment : Segment)
    (below : floor ≤ store.paths.size) :
    (createSegment nesting base segment).Follows store
      (Segment.subfields (Path.parse nesting.deeper) base segment) fun ids values after =>
        List.Forall₂ (store.Shows floor · · after) ids values := by
  apply Attempt.Follows.bind_reading
  intro tokens _
  apply Attempt.Follows.mapM
  · exact fun _ _ _ _ grows => And.imp_right grows.viewSubfield
  · intro token _ after grows
    apply (createSubfield_follows nesting base segment.groups token (grows.above below)).mono
    exact fun _ _ _ shown => shown.imp_left fun new old => new (grows.has old)

theorem createTail_follows (nesting : Nesting) (base : Text) (tail : Tail)
    (below : floor ≤ store.paths.size) :
    (createTail nesting base tail).Follows store (tail.additions (Path.parse nesting.deeper) base)
      fun made additions after =>
        List.mapM (Group.mapM (after.viewFrom floor)) made.1 = .ok additions.groups ∧
          List.Forall₂ (store.Shows floor · · after) made.2 additions.subfields := by
  have staysSegment : ∀ ids values (before after : Store), before.GrowsTo after →
      List.Forall₂ (store.Shows floor · · before) ids values →
        List.Forall₂ (store.Shows floor · · after) ids values :=
    fun _ _ _ _ grows => List.Forall₂.imp fun _ _ => And.imp_right grows.viewSubfield
  apply (createGroups_follows nesting base tail.groups below).bind
  intro groups values after grows attached
  have segments : ∀ segment ∈ tail.segments, ∀ later, after.GrowsTo later →
      (createSegment nesting base segment).Follows later
        (Segment.subfields (Path.parse nesting.deeper) base segment) fun ids values last =>
          List.Forall₂ (store.Shows floor · · last) ids values := by
    intro segment _ later more
    have all := grows.trans more
    apply (createSegment_follows nesting base segment (all.above below)).mono
    exact fun _ _ _ => List.Forall₂.imp fun _ _ => And.imp_left fun new old => new (all.has old)
  apply (Attempt.Follows.mapM staysSegment segments).bind
  intro ids parts last more shown
  exact .pure ⟨more.groups attached, List.rel_flatten shown⟩

end MarcPath.Store
