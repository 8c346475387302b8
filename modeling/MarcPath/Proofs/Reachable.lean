import MarcPath.Proofs.Addition
import MarcPath.Workspace.Command

/-! The workspaces that come about. In each of them, whatever a name or another object refers to is there:
every command keeps it so, whether it fails or not. -/
namespace MarcPath

variable {α : Type}

theorem Field.paths_of_parse {text : Text} {field : Field PathId}
    (parsed : Field.parse text = .ok field) : field.paths = [] := by
  obtain ⟨head, -, rfl⟩ := map_eq_ok_iff.mp parsed
  rfl

theorem Subfield.paths_of_parse {text : Text} {subfield : Subfield PathId}
    (parsed : Subfield.parse text = .ok subfield) : subfield.paths = [] := by
  obtain ⟨head, -, rfl⟩ := map_eq_ok_iff.mp parsed
  rfl

theorem mem_of_itemAt {items : List α} {place : Int} {item : α}
    (found : itemAt items place = .ok item) : item ∈ items := by
  unfold itemAt at found
  generalize (if place < 0 then place + items.length else place) = place at found
  simp only at found
  by_cases before : place < 0
  · rw [if_pos before] at found
    cases found
  · rw [if_neg before] at found
    cases there : items[place.toNat]? with
    | none =>
      rw [there] at found
      cases found
    | some value =>
      rw [there] at found
      obtain rfl := Except.ok.inj found
      exact List.mem_of_getElem? there

namespace Workspace

variable {workspace after : Workspace} {name target : Text}

/-- Every name, and every reference in the store, leads to an object. -/
structure Closed (workspace : Workspace) : Prop where
  store : workspace.store.Closed
  names : ∀ entry ∈ workspace.names, workspace.store.Has entry.2

theorem closed_empty : empty.Closed where
  store :=
    { path := fun _ _ found => by cases found
      field := fun _ _ found => by cases found
      subfield := fun _ _ found => by cases found }
  names := by simp [empty]

theorem mem_names_of_find {handle : Handle} (found : workspace.find name = .ok handle) :
    ∃ entry ∈ workspace.names, entry.2 = handle := by
  unfold find at found
  cases there : workspace.names.lookup name with
  | none =>
    rw [there] at found
    cases found
  | some value =>
    rw [there] at found
    obtain rfl := Except.ok.inj found
    obtain ⟨before, _, same, -⟩ := List.lookup_eq_some_iff.mp there
    exact ⟨(name, value), by simp [same], rfl⟩

theorem mem_paths_of_conditionAt {group : Group PathId} {place : Int} {condition : Condition PathId}
    {inner : PathId} (chosen : conditionAt group place = .ok condition) (member : inner ∈ condition.paths) :
    inner ∈ group.paths := by
  have among : condition ∈ group.conditions := by
    unfold conditionAt at chosen
    split at chosen
    · obtain rfl := Except.ok.inj chosen
      exact List.mem_cons_self
    · exact mem_of_itemAt chosen
  rcases List.mem_cons.mp among with rfl | among
  · exact List.mem_append_left _ member
  · exact List.mem_append_right _ (List.mem_flatMap.mpr ⟨condition, among, member⟩)

theorem mem_paths_of_termOn {condition : Condition PathId} {side : Side} {id : PathId} {source : Text}
    (term : termOn condition side = .given (.path id source)) : id ∈ condition.paths := by
  cases side with
  | left =>
    apply List.mem_append_left
    rw [show condition.left = .given (.path id source) from term]
    exact List.mem_singleton_self id
  | right =>
    apply List.mem_append_right
    rw [Term.given.inj term]
    exact List.mem_singleton_self id

namespace Closed

theorem find {handle : Handle} (closed : workspace.Closed) (found : workspace.find name = .ok handle) :
    workspace.store.Has handle := by
  obtain ⟨entry, member, rfl⟩ := mem_names_of_find found
  exact closed.names entry member

theorem bind {handle : Handle} (closed : workspace.Closed) (known : workspace.store.Has handle) :
    (workspace.bind name handle).Closed where
  store := closed.store
  names entry member := by
    rcases List.mem_cons.mp member with rfl | member
    · exact known
    · exact closed.names entry (List.mem_filter.mp member).1

theorem grow {store : Store} (closed : workspace.Closed) (grows : workspace.store.GrowsTo store) :
    Closed { workspace with store } where
  store := grows.closed closed.store
  names entry member := grows.has (closed.names entry member)

/-- What comes of a change is there under its name. -/
theorem keep {handle : α → Handle} {change : Store.Change α} (closed : workspace.Closed)
    (yields : change.Yields workspace.store fun made after => after.Has (handle made)) :
    (workspace.keep name handle change).Closed :=
  (closed.grow yields.1).bind yields.2

theorem intern (closed : workspace.Closed) (path : Path) :
    (workspace.keep name .path (Store.intern path)).Closed := by
  apply closed.keep
  apply (Store.storesAs_intern 0 path workspace.store (Nat.zero_le _)).mono
  exact fun _ _ _ => Store.has_of_viewFrom

theorem wrapField {nesting : Nesting} {field : FieldId} (closed : workspace.Closed)
    (known : workspace.store.Has (.field field)) : (workspace.wrapField name nesting field).Closed := by
  apply closed.keep
  apply (Store.addPath_yields known (by simp)).mono
  exact fun _ _ _ made => ⟨_, made.1⟩

theorem attachField {id : FieldId} {group : Group PathId} (closed : workspace.Closed)
    (known : ∀ inner ∈ group.paths, workspace.store.Has (.path inner)) :
    (workspace.apply (Store.modifyField id (·.attach [group]))).Closed where
  store := by
    apply closed.store.modifyField
    intro old held inner member
    simp only [Field.attach, Field.paths, List.flatMap_append, List.mem_append] at member
    rcases member with member | member
    · exact closed.store.field id old held inner member
    · exact known inner (by simpa using member)
  names entry member := Store.has_modifyField _ (closed.names entry member)

theorem attachSubfield {id : SubfieldId} {group : Group PathId} (closed : workspace.Closed)
    (known : ∀ inner ∈ group.paths, workspace.store.Has (.path inner)) :
    (workspace.apply (Store.modifySubfield id (·.attach [group]))).Closed where
  store := by
    apply closed.store.modifySubfield
    intro old held inner member
    simp only [Subfield.attach, Subfield.paths, List.flatMap_append, List.mem_append] at member
    rcases member with member | member
    · exact closed.store.subfield id old held inner member
    · exact known inner (by simpa using member)
  names entry member := Store.has_modifySubfield _ (closed.names entry member)

theorem readPath {nesting : Nesting} {argument : Argument} (closed : workspace.Closed)
    (success : workspace.readPath name nesting argument = .ok after) : after.Closed := by
  obtain ⟨text, -, rest⟩ := bind_eq_ok_iff.mp success
  obtain ⟨path, -, same⟩ := bind_eq_ok_iff.mp rest
  obtain rfl := Except.ok.inj same
  exact closed.intern path

theorem readField {argument : Argument} (closed : workspace.Closed)
    (success : workspace.readField name argument = .ok after) : after.Closed := by
  obtain ⟨text, -, rest⟩ := bind_eq_ok_iff.mp success
  obtain ⟨field, parsed, same⟩ := bind_eq_ok_iff.mp rest
  obtain rfl := Except.ok.inj same
  apply closed.keep
  apply (Store.addField_yields (by simp [Field.paths_of_parse parsed])).mono
  exact fun _ _ _ made => ⟨field, made.1⟩

theorem readSubfield {argument : Argument} (closed : workspace.Closed)
    (success : workspace.readSubfield name argument = .ok after) : after.Closed := by
  obtain ⟨text, -, rest⟩ := bind_eq_ok_iff.mp success
  obtain ⟨subfield, parsed, same⟩ := bind_eq_ok_iff.mp rest
  obtain rfl := Except.ok.inj same
  apply closed.keep
  apply (Store.addSubfield_yields (by simp [Subfield.paths_of_parse parsed])).mono
  exact fun _ _ _ made => ⟨subfield, made.1⟩

theorem wrap {source : Text} {nesting : Nesting} (closed : workspace.Closed)
    (success : workspace.wrap name source nesting = .ok after) : after.Closed := by
  obtain ⟨handle, found, rest⟩ := bind_eq_ok_iff.mp success
  cases handle with
  | field id =>
    obtain rfl := Except.ok.inj rest
    exact closed.wrapField (closed.find found)
  | path id => cases rest
  | subfield id => cases rest

theorem setField {given : Given} (closed : workspace.Closed)
    (success : workspace.setField name given = .ok after) : after.Closed := by
  cases given with
  | argument value => cases success
  | named source =>
    obtain ⟨handle, found, rest⟩ := bind_eq_ok_iff.mp success
    cases handle with
    | field id =>
      obtain rfl := Except.ok.inj rest
      exact closed.wrapField (closed.find found)
    | path id => cases rest
    | subfield id => cases rest

theorem attach {nesting : Nesting} {context : Text} {argument : Argument} (closed : workspace.Closed)
    (success : workspace.attach target nesting context argument = .ok after) : after.Closed := by
  obtain ⟨handle, -, rest⟩ := bind_eq_ok_iff.mp success
  cases handle with
  | path id => cases rest
  | field id =>
    obtain ⟨group, -, same⟩ := bind_eq_ok_iff.mp rest
    obtain rfl := Except.ok.inj same
    obtain ⟨grows, viewed⟩ := Store.internGroup_yields (Nat.zero_le workspace.store.paths.size) group
    apply (closed.grow grows).attachField
    exact fun inner member => (Group.exists_of_mapM viewed inner member).elim fun _ => Store.has_of_viewFrom
  | subfield id =>
    obtain ⟨group, -, same⟩ := bind_eq_ok_iff.mp rest
    obtain rfl := Except.ok.inj same
    obtain ⟨grows, viewed⟩ := Store.internGroup_yields (Nat.zero_le workspace.store.paths.size) group
    apply (closed.grow grows).attachSubfield
    exact fun inner member => (Group.exists_of_mapM viewed inner member).elim fun _ => Store.has_of_viewFrom

theorem takeField (closed : workspace.Closed)
    (success : workspace.takeField target name = .ok after) : after.Closed := by
  obtain ⟨handle, -, rest⟩ := bind_eq_ok_iff.mp success
  cases handle with
  | path id =>
    obtain ⟨record, read, same⟩ := bind_eq_ok_iff.mp rest
    obtain rfl := Except.ok.inj same
    exact closed.bind (closed.store.path id record read).1
  | field id => cases rest
  | subfield id => cases rest

theorem takeSubfield {place : Int} (closed : workspace.Closed)
    (success : workspace.takeSubfield target place name = .ok after) : after.Closed := by
  obtain ⟨handle, -, rest⟩ := bind_eq_ok_iff.mp success
  cases handle with
  | path id =>
    obtain ⟨record, read, rest⟩ := bind_eq_ok_iff.mp rest
    obtain ⟨subfield, there, same⟩ := bind_eq_ok_iff.mp rest
    obtain rfl := Except.ok.inj same
    exact closed.bind ((closed.store.path id record read).2 subfield (mem_of_itemAt there))
  | field id => cases rest
  | subfield id => cases rest

/-- The paths in the groups of an object are there. -/
theorem groups {handle : Handle} {groups : List (Group PathId)} (closed : workspace.Closed)
    (found : workspace.groups handle = .ok groups) :
    ∀ inner ∈ groups.flatMap Group.paths, workspace.store.Has (.path inner) := by
  cases handle with
  | path id => cases found
  | field id =>
    obtain ⟨field, held, rfl⟩ := map_eq_ok_iff.mp found
    exact closed.store.field id field held
  | subfield id =>
    obtain ⟨subfield, held, rfl⟩ := map_eq_ok_iff.mp found
    exact closed.store.subfield id subfield held

theorem takeNested {entry alternative : Int} {side : Side} (closed : workspace.Closed)
    (success : workspace.takeNested target entry alternative side name = .ok after) :
    after.Closed := by
  obtain ⟨handle, -, rest⟩ := bind_eq_ok_iff.mp success
  obtain ⟨groups, listed, rest⟩ := bind_eq_ok_iff.mp rest
  obtain ⟨group, there, rest⟩ := bind_eq_ok_iff.mp rest
  obtain ⟨condition, chosen, rest⟩ := bind_eq_ok_iff.mp rest
  have has : ∀ inner ∈ condition.paths, workspace.store.Has (.path inner) := by
    intro inner member
    apply closed.groups listed
    exact List.mem_flatMap.mpr ⟨group, mem_of_itemAt there, mem_paths_of_conditionAt chosen member⟩
  split at rest
  · rename_i id source term
    obtain rfl := Except.ok.inj rest
    exact closed.bind (has id (mem_paths_of_termOn term))
  · cases rest
  · -- An absent term has no stored path; its context is read anew.
    obtain ⟨path, -, same⟩ := bind_eq_ok_iff.mp rest
    obtain rfl := Except.ok.inj same
    exact closed.intern path

end Closed

/-- The subfields that a call adds to a path: the one that is given, or new ones that are viewed as what the
text is read as. -/
inductive Adds (before : Workspace) (record : PathRecord) (after : Store) :
    Given → List SubfieldId → Prop where
  | shared {name : Text} {subfield : SubfieldId} (found : before.find name = .ok (.subfield subfield)) :
    Adds before record after (.named name) [subfield]
  | read {argument : Argument} {text : Text} {field : Field PathId} {additions : Additions Path}
    {added : List SubfieldId} (given : argument.asText = .ok text)
    (held : before.store.field record.field = .ok field)
    (parsed : Additions.parse record.nesting field.head.render text = .ok additions)
    (shown : List.Forall₂ (before.store.Shows before.store.paths.size · · after) added
      additions.subfields) : Adds before record after (.argument argument) added

/-- All that adding subfields can come to: it fails and the store has grown, or the path named has more
subfields. -/
inductive Extension (before : Workspace) (target : Text) (given : Given) :
    Except Error Unit × Workspace → Prop where
  | failed {store : Store} (cause : Error) (grows : before.store.GrowsTo store) :
    Extension before target given (.error cause, { before with store })
  | added {store : Store} {id : PathId} {record : PathRecord} {added : List SubfieldId}
    (found : before.find target = .ok (.path id)) (read : before.store.path id = .ok record)
    (appends : Store.Appends id added before.store store)
    (adds : before.Adds record store given added) :
    Extension before target given (.ok (), { before with store })

/-- A change is chosen for a path that is named, and a subfield that is named or a text. -/
theorem cases_of_addition {given : Given} {change : Store.Attempt Unit}
    (chosen : workspace.addition target given = .ok change) :
    ∃ id, workspace.find target = .ok (.path id) ∧
      ((∃ name subfield, given = .named name ∧ workspace.find name = .ok (.subfield subfield) ∧
          change = Store.shareSubfield id subfield) ∨
        ∃ argument text, given = .argument argument ∧ argument.asText = .ok text ∧
          change = Store.addSubfields id text) := by
  obtain ⟨handle, found, rest⟩ := bind_eq_ok_iff.mp chosen
  obtain ⟨value, resolved, rest⟩ := bind_eq_ok_iff.mp rest
  cases handle with
  | field id => cases rest
  | subfield id => cases rest
  | path id =>
    refine ⟨id, found, ?_⟩
    cases given with
    | named name =>
      obtain ⟨other, shared, rfl⟩ := map_eq_ok_iff.mp resolved
      cases other with
      | path _ => cases rest
      | field _ => cases rest
      | subfield subfield => exact .inl ⟨name, subfield, rfl, shared, (Except.ok.inj rest).symm⟩
    | argument argument =>
      obtain rfl := Except.ok.inj resolved
      obtain ⟨text, known, same⟩ := bind_eq_ok_iff.mp rest
      exact .inr ⟨argument, text, rfl, known, (Except.ok.inj same).symm⟩

theorem Closed.extension {given : Given} (closed : workspace.Closed) :
    Extension workspace target given (workspace.addSubfields target given) := by
  unfold Workspace.addSubfields
  cases chosen : workspace.addition target given with
  | error cause => exact .failed cause (.refl workspace.store)
  | ok change =>
    obtain ⟨id, found, kinds⟩ := cases_of_addition chosen
    obtain ⟨record, read⟩ := closed.find found
    rcases kinds with ⟨name, subfield, rfl, shared, rfl⟩ | ⟨argument, text, rfl, known, rfl⟩
    · refine .added found read (Store.appendSubfields_appends ?_) (.shared shared)
      simpa using closed.find shared
    · obtain ⟨field, held⟩ := (closed.store.path id record read).1
      have takes := Store.addSubfields_takes text read held
      generalize parsed : Additions.parse record.nesting field.head.render text = reading at takes
      simp only
      generalize Store.addSubfields id text workspace.store = result at takes
      cases takes with
      | error cause grows => exact .failed cause grows
      | ok appends shown => exact .added found read appends (.read known held parsed shown)

theorem Closed.addSubfields {given : Given} (closed : workspace.Closed) :
    (workspace.addSubfields target given).2.Closed := by
  have extension : Extension workspace target given (workspace.addSubfields target given) :=
    closed.extension
  generalize workspace.addSubfields target given = result at extension
  cases extension with
  | failed cause grows => exact closed.grow grows
  | added found read appends adds =>
    exact ⟨appends.grows.closed closed.store, fun entry member => appends.has (closed.names entry member)⟩

theorem Closed.change {command : Workspace → Except Error Workspace} (closed : workspace.Closed)
    (keeps : ∀ after, command workspace = .ok after → after.Closed) :
    (change command workspace).2.Closed := by
  unfold Workspace.change
  cases done : command workspace with
  | error cause => exact closed
  | ok after => exact keeps after done

/-- A command, whether it fails or not, leaves every reference with an object. -/
theorem Closed.step (closed : workspace.Closed) (command : Command) : (workspace.step command).Closed := by
  cases command with
  | readPath => exact closed.change fun _ => closed.readPath
  | readField => exact closed.change fun _ => closed.readField
  | readSubfield => exact closed.change fun _ => closed.readSubfield
  | wrap => exact closed.change fun _ => closed.wrap
  | setField => exact closed.change fun _ => closed.setField
  | addSubfields => exact closed.addSubfields
  | attach => exact closed.change fun _ => closed.attach
  | takeField => exact closed.change fun _ => closed.takeField
  | takeSubfield => exact closed.change fun _ => closed.takeSubfield
  | takeNested => exact closed.change fun _ => closed.takeNested
  | findSubfields => exact closed
  | view => exact closed
  | compare => exact closed

/-- The workspaces that come about. Besides the commands there are groups put together of stored paths,
which may then even hang on the path they are attached to. -/
inductive Reachable : Workspace → Prop where
  | empty : Reachable empty
  | step {workspace : Workspace} (reached : Reachable workspace) (command : Command) :
    Reachable (workspace.step command)
  | attachField {workspace : Workspace} {group : Group PathId} (reached : Reachable workspace)
    (id : FieldId) (known : ∀ inner ∈ group.paths, workspace.store.Has (.path inner)) :
    Reachable (workspace.apply (Store.modifyField id (·.attach [group])))
  | attachSubfield {workspace : Workspace} {group : Group PathId} (reached : Reachable workspace)
    (id : SubfieldId) (known : ∀ inner ∈ group.paths, workspace.store.Has (.path inner)) :
    Reachable (workspace.apply (Store.modifySubfield id (·.attach [group])))

theorem Reachable.closed (reached : workspace.Reachable) : workspace.Closed := by
  induction reached with
  | empty => exact closed_empty
  | step _ command ih => exact ih.step command
  | attachField _ id known ih => exact ih.attachField known
  | attachSubfield _ id known ih => exact ih.attachSubfield known

theorem reachable_after (history : List Command) : (Workspace.after history).Reachable := by
  have from_reached : ∀ (workspace : Workspace), workspace.Reachable →
      (history.foldl Workspace.step workspace).Reachable := by
    induction history with
    | nil => exact fun _ reached => reached
    | cons command rest ih => exact fun workspace reached => ih _ (reached.step command)
  exact from_reached _ .empty

end Workspace
end MarcPath
