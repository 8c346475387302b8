import MarcPath.Proofs.Reachable

/-! What adding subfields leaves alone. A call that fails leaves every object as it was; one that succeeds
changes the list of subfields of one path. No text but that path's is another afterwards, not even that of
a path with a condition on it, as a condition is written by its source. -/
namespace MarcPath.Workspace

variable {workspace before after : Workspace}

/-- The object under a reference is the same in both stores. -/
def Same (before after : Store) : Handle → Prop
  | .path id => after.path id = before.path id
  | .field id => after.field id = before.field id
  | .subfield id => after.subfield id = before.subfield id

/-- An object is as it was, and so is its text. -/
structure Keeps (before after : Workspace) (handle : Handle) : Prop where
  same : Same before.store after.store handle
  text : ∃ text, before.render handle = .ok text ∧ after.render handle = .ok text

/-- The text of an object does not depend on any path but itself. -/
theorem Closed.keeps {handle : Handle} (closed : before.Closed)
    (path : ∀ id record, handle = .path id → before.store.path id = .ok record →
      after.store.path id = .ok record)
    (field : ∀ id field, before.store.field id = .ok field → after.store.field id = .ok field)
    (subfield : ∀ id subfield, before.store.subfield id = .ok subfield →
      after.store.subfield id = .ok subfield)
    (known : before.store.Has handle) : before.Keeps after handle := by
  cases handle with
  | field id =>
    obtain ⟨value, held⟩ := known
    have kept := field id value held
    exact ⟨kept.trans held.symm, value.render, by rw [render, held]; rfl, by rw [render, kept]; rfl⟩
  | subfield id =>
    obtain ⟨value, held⟩ := known
    have kept := subfield id value held
    exact ⟨kept.trans held.symm, value.render, by rw [render, held]; rfl, by rw [render, kept]; rfl⟩
  | path id =>
    obtain ⟨layer, found⟩ := closed.store.exists_layer known
    obtain ⟨record, read⟩ := known
    have kept := path id record rfl read
    have again : after.store.layer id = .ok layer :=
      Store.layer_of_kept (fun record => path id record rfl) field subfield found
    exact ⟨kept.trans read.symm, layer.render, by rw [render, found]; rfl, by rw [render, again]; rfl⟩

/-- Adding subfields to a path fails and leaves every object as it was, or puts subfields behind those of
the path and leaves every other object as it was. -/
theorem addSubfields_frame (reached : workspace.Reachable) (target : Text) (given : Given) :
    match workspace.addSubfields target given with
    | (.error _, after) => after.names = workspace.names ∧
      ∀ handle, workspace.store.Has handle → workspace.Keeps after handle
    | (.ok (), after) => after.names = workspace.names ∧
      ∃ id record added, workspace.find target = .ok (.path id) ∧
        workspace.store.path id = .ok record ∧ workspace.Adds record after.store given added ∧
        after.store.path id = .ok { record with subfields := record.subfields ++ added } ∧
        ∀ handle, handle ≠ .path id → workspace.store.Has handle → workspace.Keeps after handle := by
  have closed := reached.closed
  have extension : Extension workspace target given (workspace.addSubfields target given) :=
    closed.extension
  generalize workspace.addSubfields target given = result at extension
  cases extension with
  | failed cause grows =>
    refine ⟨rfl, fun handle => ?_⟩
    exact closed.keeps (fun id record _ => grows.path id record) grows.field grows.subfield
  | @added store id record added found read appends adds =>
    refine ⟨rfl, id, record, added, found, read, adds, appends.path record read, ?_⟩
    intro handle apart
    apply closed.keeps _ appends.grows.field appends.grows.subfield
    intro other record same
    apply appends.grows.path
    rintro rfl
    exact apart same

/-- The path nested in a condition is taken out and gets a subfield. The path with that condition then has
another path nested in it, but is written as before. -/
theorem addSubfields_frame_of_nested :
    ∃ workspace : Workspace, workspace.Reachable ∧ workspace.find ['x'] = .ok (.path ⟨0⟩) ∧
      workspace.render (.path ⟨1⟩) = .ok "245$a{$b}".toList ∧
      ∃ after, workspace.addSubfields ['x'] (.argument (.text "$c".toList)) = (.ok (), after) ∧
        after.render (.path ⟨0⟩) = .ok "245$b$c".toList ∧
        ∀ handle, handle ≠ .path ⟨0⟩ → workspace.store.Has handle → workspace.Keeps after handle := by
  obtain ⟨workspace, known⟩ : ∃ workspace, workspace = Workspace.after
      [.readPath ['s'] .top (.text "245$a{$b}".toList), .takeSubfield ['s'] 0 ['g'],
        .takeNested ['g'] 0 0 .right ['x']] := ⟨_, rfl⟩
  have reached : workspace.Reachable := known ▸ reachable_after _
  have found : workspace.find ['x'] = .ok (.path ⟨0⟩) := by
    rw [known]
    decide +kernel
  have text : workspace.render (.path ⟨1⟩) = .ok "245$a{$b}".toList := by
    rw [known]
    decide +kernel
  have success : (workspace.addSubfields ['x'] (.argument (.text "$c".toList))).1 = .ok () := by
    rw [known]
    decide +kernel
  have changed : (workspace.addSubfields ['x'] (.argument (.text "$c".toList))).2.render (.path ⟨0⟩) =
      .ok "245$b$c".toList := by
    rw [known]
    decide +kernel
  have frame := addSubfields_frame reached ['x'] (.argument (.text "$c".toList))
  generalize result : workspace.addSubfields ['x'] (.argument (.text "$c".toList)) = pair
    at success changed frame
  obtain ⟨outcome, after⟩ := pair
  obtain rfl : outcome = .ok () := success
  obtain ⟨-, id, record, added, named, -, -, -, keeps⟩ := frame
  obtain rfl := Handle.path.inj (Except.ok.inj (named.symm.trans found))
  exact ⟨workspace, reached, found, text, after, result, changed, keeps⟩

end MarcPath.Workspace
