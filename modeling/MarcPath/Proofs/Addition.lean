import Mathlib.Data.Nat.Find
import MarcPath.Proofs.Create

/-! Adding subfields to a stored path. An attempt that fails lets the store grow and no more; one that
succeeds also changes that one path, whose list of subfields gets longer. Viewed as a plain value, the path
is then what it was, with the subfields that the text is read as. -/
namespace MarcPath.Store

variable {store before after later : Store} {id : PathId} {added : List SubfieldId}

/-- The objects of one store are in the other as they are, with one path left out of account. -/
structure GrowsBut (target : PathId) (before after : Store) : Prop where
  path : ∀ id record, id ≠ target → before.path id = .ok record → after.path id = .ok record
  field : ∀ id field, before.field id = .ok field → after.field id = .ok field
  subfield : ∀ id subfield, before.subfield id = .ok subfield → after.subfield id = .ok subfield
  closed : before.Closed → after.Closed

/-- The list of subfields of one path gets longer; nothing else that is there changes. -/
structure Appends (id : PathId) (added : List SubfieldId) (before after : Store) : Prop where
  grows : before.GrowsBut id after
  path : ∀ record, before.path id = .ok record →
    after.path id = .ok { record with subfields := record.subfields ++ added }

/-- No object is lost. -/
theorem Appends.has (appends : Appends id added before after) {handle : Handle}
    (known : before.Has handle) : after.Has handle := by
  cases handle with
  | field other => exact known.imp (appends.grows.field other)
  | subfield other => exact known.imp (appends.grows.subfield other)
  | path other =>
    by_cases here : other = id
    · subst here
      exact known.elim fun record read => ⟨_, appends.path record read⟩
    · exact known.imp fun record => appends.grows.path other record here

theorem GrowsTo.appends (grows : before.GrowsTo after) (appends : Appends id added after later) :
    Appends id added before later where
  grows :=
    { path := fun other record apart read => appends.grows.path other record apart (grows.path _ _ read)
      field := fun other field held => appends.grows.field other field (grows.field _ _ held)
      subfield := fun other value held => appends.grows.subfield other value (grows.subfield _ _ held)
      closed := fun closed => appends.grows.closed (grows.closed closed) }
  path record read := appends.path record (grows.path id record read)

theorem appendSubfields_appends (has : ∀ subfield ∈ added, store.Has (.subfield subfield)) :
    Appends id added store (appendSubfields id added store).2 where
  grows :=
    { path := fun other record apart read => modifyPath_path.mpr (by rwa [if_neg apart])
      field := fun _ _ held => held
      subfield := fun _ _ held => held
      closed := by
        intro closed
        apply closed.modifyPath
        intro old read
        obtain ⟨held, listed⟩ := closed.path id old read
        refine ⟨held, fun subfield member => ?_⟩
        rcases List.mem_append.mp member with member | member
        · exact listed subfield member
        · exact has subfield member }
  path record read := modifyPath_path.mpr (by rw [if_pos rfl]; exact ⟨record, read, rfl⟩)

/-- What is viewed above a path does not change with its list of subfields. -/
theorem viewSubfield_appendSubfields {floor : Nat} {subfield : SubfieldId} {value : Subfield Path}
    (low : id.number < floor) (shown : store.viewSubfield floor subfield = .ok value) :
    (appendSubfields id added store).2.viewSubfield floor subfield = .ok value := by
  obtain ⟨made, held, viewed⟩ := viewSubfield_eq_ok_iff.mp shown
  have size : (appendSubfields id added store).2.paths.size = store.paths.size := by
    simp [appendSubfields, modifyPath]
  have kept : ∀ other record, floor ≤ other.number → store.path other = .ok record →
      (appendSubfields id added store).2.path other = .ok record := by
    intro other record high read
    have apart : other ≠ id := by
      rintro rfl
      omega
    exact modifyPath_path.mpr (by rwa [if_neg apart])
  refine viewSubfield_eq_ok_iff.mpr ⟨made, held, Subfield.mapM_of_imp (fun inner path found => ?_) viewed⟩
  rw [viewFrom] at found ⊢
  rw [size]
  exact viewAbove_of_kept kept (fun _ _ held => held) (fun _ _ held => held) (Nat.le_refl _)
    (Nat.le_refl _) found

/-- Nothing is attached to the field of a path if there are no groups. -/
theorem modifyField_attach_nil (id : FieldId) (store : Store) :
    (modifyField id (·.attach []) store).2 = store := by
  have same (field : Field PathId) : field.attach [] = field := by simp [Field.attach]
  have fields : store.fields.modify id.number (·.attach []) = store.fields := by
    apply Array.ext_getElem?
    intro other
    rw [Array.getElem?_modify]
    split
    · simp [same]
    · rfl
  simp only [modifyField, fields]

theorem has_of_shows {floor : Nat} {ids : List SubfieldId} {values : List (Subfield Path)}
    (shown : List.Forall₂ (store.Shows floor · · after) ids values) :
    ∀ subfield ∈ ids, after.Has (.subfield subfield) := by
  induction shown with
  | nil => simp
  | cons one rest ih =>
    intro subfield member
    rcases List.mem_cons.mp member with rfl | member
    · obtain ⟨made, held, -⟩ := viewSubfield_eq_ok_iff.mp one.2
      exact ⟨made, held⟩
    · exact ih subfield member

theorem addTail_apply {record : PathRecord} {field : Field PathId} (tail : Tail)
    (read : store.path id = .ok record) (held : store.field record.field = .ok field) :
    addTail id tail store =
      match createTail record.nesting field.head.render tail store with
      | (.ok (groups, added), made) =>
        (.ok (), (appendSubfields id added (modifyField record.field (·.attach groups) made).2).2)
      | (.error cause, made) => (.error cause, made) := by
  have first : (ask (·.path id)) store = (.ok record, store) := congrArg (·, store) read
  have second : (ask (·.field record.field)) store = (.ok field, store) := congrArg (·, store) held
  unfold addTail
  rw [Attempt.bind_apply, first]
  simp only
  rw [Attempt.bind_apply, second]
  simp only
  rw [Attempt.bind_apply]
  generalize createTail record.nesting field.head.render tail store = result
  obtain ⟨outcome, made⟩ := result
  cases outcome <;> rfl

/-- What is added agrees with a reading: there are new subfields that stand for what was read, or there is
the same failure, after which the store has only grown. -/
inductive Takes (id : PathId) (store : Store) :
    Except Error Unit × Store → Except Error (Additions Path) → Prop where
  | ok {after : Store} {added : List SubfieldId} {additions : Additions Path}
    (appends : Appends id added store after)
    (shown : List.Forall₂ (store.Shows store.paths.size · · after) added additions.subfields) :
    Takes id store (.ok (), after) (.ok additions)
  | error {after : Store} (cause : Error) (grows : store.GrowsTo after) :
    Takes id store (.error cause, after) (.error cause)

theorem addTail_takes {record : PathRecord} {field : Field PathId} (tail : Tail)
    (bare : tail.groups = []) (read : store.path id = .ok record)
    (held : store.field record.field = .ok field) :
    Takes id store (addTail id tail store)
      (tail.additions (Path.parse record.nesting.deeper) field.head.render) := by
  obtain ⟨grows, agrees⟩ :=
    createTail_follows record.nesting field.head.render tail (Nat.le_refl store.paths.size)
  rw [addTail_apply tail read held]
  generalize createTail record.nesting field.head.render tail store = result at grows agrees
  obtain ⟨outcome, made⟩ := result
  generalize known : tail.additions (Path.parse record.nesting.deeper) field.head.render = reading
    at agrees
  cases agrees with
  | error cause => exact .error cause grows
  | @ok created additions parts =>
    obtain ⟨groups, added⟩ := created
    obtain ⟨attached, shown⟩ := parts
    -- The tail begins with a subfield, so the field, which other paths may share, gets no groups.
    obtain rfl : groups = [] := by
      have none := (Tail.additions_eq_ok_iff.mp known).1
      rw [bare] at none
      rw [← Except.ok.inj none] at attached
      exact List.forall₂_nil_right_iff.mp (mapM_eq_ok_iff.mp attached)
    have low : id.number < store.paths.size :=
      (Array.getElem?_eq_some_iff.mp (path_eq_ok_iff.mp read)).1
    simp only [modifyField_attach_nil]
    exact .ok (grows.appends (appendSubfields_appends (has_of_shows shown)))
      (shown.imp fun _ _ => And.imp_right (viewSubfield_appendSubfields low))

/-- A text is added to a stored path as it is read. -/
theorem addSubfields_takes {record : PathRecord} {field : Field PathId} (text : Text)
    (read : store.path id = .ok record) (held : store.field record.field = .ok field) :
    Takes id store (addSubfields id text store)
      (Additions.parse record.nesting field.head.render text) := by
  have begun : addSubfields id text store = match Tail.parseAdded text with
      | .ok tail => addTail id tail store
      | .error cause => (.error cause, store) := by
    unfold addSubfields
    rw [Attempt.bind_apply]
    cases Tail.parseAdded text <;> rfl
  rw [begun, Additions.parse]
  cases cut : Tail.parseAdded text with
  | error cause => exact .error cause (.refl store)
  | ok tail => exact addTail_takes tail (Tail.groups_eq_nil_of_parseAdded cut) read held

theorem Appends.size_le (appends : Appends id added before after) :
    before.paths.size ≤ after.paths.size := by
  by_contra fewer
  have inside : after.paths.size < before.paths.size := by omega
  have known : before.path ⟨after.paths.size⟩ = .ok before.paths[after.paths.size] :=
    path_eq_ok_iff.mpr (Array.getElem?_eq_getElem inside)
  have kept : ∃ record, after.path ⟨after.paths.size⟩ = .ok record := by
    by_cases here : ⟨after.paths.size⟩ = id
    · subst here
      exact ⟨_, appends.path _ known⟩
    · exact ⟨_, appends.grows.path _ _ here known⟩
  obtain ⟨record, kept⟩ := kept
  rw [path_eq_ok_iff] at kept
  simp at kept

/-- What is viewed on fewer levels than a path needs does not go through that path, so it does not change
with it. -/
theorem Appends.viewAbove {levels more : Nat} {inner : PathId} {path : Path}
    (appends : Appends id added before after)
    (never : ∀ fewer ≤ levels, ∀ path, before.viewAbove 0 fewer id ≠ .ok path) (le : levels ≤ more)
    (found : before.viewAbove 0 levels inner = .ok path) : after.viewAbove 0 more inner = .ok path := by
  induction levels generalizing more inner path with
  | zero => cases found
  | succ levels ih =>
    obtain ⟨more, rfl⟩ : ∃ fewer, more = fewer + 1 := ⟨more - 1, by omega⟩
    have apart : inner ≠ id := by
      rintro rfl
      exact never _ (Nat.le_refl _) path found
    obtain ⟨-, layer, read, viewed⟩ := viewAbove_succ_eq_ok_iff.mp found
    refine viewAbove_succ_eq_ok_iff.mpr ⟨Nat.zero_le _, layer, ?_, ?_⟩
    · exact layer_of_kept (fun record => appends.grows.path inner record apart) appends.grows.field
        appends.grows.subfield read
    · exact Layer.mapM_of_imp (fun _ _ => ih (fun fewer le => never fewer (by omega)) (by omega)) viewed

theorem exists_of_shows {floor : Nat} {ids : List SubfieldId} {values : List (Subfield Path)}
    (shown : List.Forall₂ (store.Shows floor · · after) ids values) :
    ∃ made, List.mapM after.subfield ids = .ok made ∧
      List.mapM (Subfield.mapM (after.viewFrom floor)) made = .ok values := by
  induction shown with
  | nil => exact ⟨[], rfl, rfl⟩
  | cons one rest ih =>
    obtain ⟨others, held, viewed⟩ := ih
    obtain ⟨first, held', viewed'⟩ := viewSubfield_eq_ok_iff.mp one.2
    exact ⟨first :: others, mapM_eq_ok_iff.mpr (.cons held' (mapM_eq_ok_iff.mp held)),
      mapM_eq_ok_iff.mpr (.cons viewed' (mapM_eq_ok_iff.mp viewed))⟩

/-- What is nested in a path that can be viewed is viewed with fewer levels than that path needs itself. -/
theorem exists_levels {path : Path} (found : store.view id = .ok path) :
    ∃ levels layer, levels < store.paths.size ∧ store.layer id = .ok layer ∧
      layer.mapM (store.viewAbove 0 levels) = .ok path.layer ∧
      ∀ fewer ≤ levels, ∀ path, store.viewAbove 0 fewer id ≠ .ok path := by
  classical
  rw [view, ← viewAbove_zero] at found
  have some : ∃ levels, ∃ path, store.viewAbove 0 levels id = .ok path := ⟨_, path, found⟩
  have least : Nat.find some ≤ store.paths.size := Nat.find_min' some ⟨path, found⟩
  obtain ⟨value, first⟩ := Nat.find_spec some
  -- The least number will do: with fewer levels the path is not viewed, so nothing inside of it reaches it.
  have never : ∀ fewer < Nat.find some, ∀ path, store.viewAbove 0 fewer id ≠ .ok path :=
    fun fewer before path earlier => Nat.find_min some before ⟨path, earlier⟩
  generalize Nat.find some = least' at least first never
  cases least' with
  | zero => cases first
  | succ levels =>
    have same := viewAbove_mono (Nat.le_refl 0) least first
    obtain rfl := Except.ok.inj (same.symm.trans found)
    obtain ⟨-, layer, read, viewed⟩ := viewAbove_succ_eq_ok_iff.mp first
    exact ⟨levels, layer, by omega, read, viewed, fun fewer le => never fewer (by omega)⟩

/-- With subfields that stand for these values put behind its own, a path is viewed as what it was viewed
as, with these values behind its own. -/
theorem Appends.view {levels : Nat} {layer : Layer PathId} {value : Layer Path}
    {values : List (Subfield Path)} (appends : Appends id added before after)
    (fewer : levels < before.paths.size) (read : before.layer id = .ok layer)
    (viewed : layer.mapM (before.viewAbove 0 levels) = .ok value)
    (never : ∀ fewer ≤ levels, ∀ path, before.viewAbove 0 fewer id ≠ .ok path)
    (shown : List.Forall₂ (before.Shows before.paths.size · · after) added values) :
    after.view id = .ok (.mk { value with subfields := value.subfields ++ values }) := by
  obtain ⟨record, read, held, listed, same⟩ := layer_eq_ok_iff.mp read
  obtain ⟨field, first, rest⟩ := bind_eq_ok_iff.mp viewed
  obtain ⟨subfields, others, whole⟩ := bind_eq_ok_iff.mp rest
  obtain rfl := Except.ok.inj whole
  obtain ⟨made, stored, new⟩ := exists_of_shows shown
  have size := appends.size_le
  obtain ⟨more, enough⟩ : ∃ more, after.paths.size = more + 1 := ⟨after.paths.size - 1, by omega⟩
  have old : ∀ inner path, before.viewAbove 0 levels inner = .ok path →
      after.viewAbove 0 more inner = .ok path :=
    fun inner path => appends.viewAbove never (by omega)
  have above : ∀ inner path, after.viewFrom before.paths.size inner = .ok path →
      after.viewAbove 0 more inner = .ok path :=
    fun inner path => viewAbove_mono (Nat.zero_le _) (by omega)
  have listed' : List.mapM after.subfield (record.subfields ++ added) = .ok (layer.subfields ++ made) :=
    mapM_append_of_ok (MarcPath.mapM_of_imp appends.grows.subfield listed) stored
  have viewed' : List.mapM (Subfield.mapM (after.viewAbove 0 more)) (layer.subfields ++ made) =
      .ok (subfields ++ values) :=
    mapM_append_of_ok (MarcPath.mapM_of_imp (fun _ _ => Subfield.mapM_of_imp old) others)
      (MarcPath.mapM_of_imp (fun _ _ => Subfield.mapM_of_imp above) new)
  rw [Store.view, ← viewAbove_zero, enough]
  refine viewAbove_succ_eq_ok_iff.mpr
    ⟨Nat.zero_le _, ⟨layer.field, layer.subfields ++ made, layer.nesting⟩, ?_, ?_⟩
  · exact layer_eq_ok_iff.mpr
      ⟨_, appends.path record read, appends.grows.field _ _ held, listed', same⟩
  · rw [Layer.mapM, Field.mapM_of_imp old first, viewed']
    rfl

/-- Viewed as a plain value, a stored path takes up a text as that value does. -/
theorem view_addSubfields {path : Path} (text : Text) (found : store.view id = .ok path) :
    Agrees (fun _ grown => (addSubfields id text store).2.view id = .ok grown)
      (addSubfields id text store).1 (path.addSubfields text) := by
  obtain ⟨levels, layer, fewer, here, viewed, never⟩ := exists_levels found
  obtain ⟨record, read, held, -, same⟩ := layer_eq_ok_iff.mp here
  obtain ⟨value⟩ := path
  obtain ⟨head, nesting⟩ : value.field.head = layer.field.head ∧ value.nesting = layer.nesting := by
    obtain ⟨field, first, rest⟩ := bind_eq_ok_iff.mp viewed
    obtain ⟨subfields, -, whole⟩ := bind_eq_ok_iff.mp rest
    obtain ⟨groups, -, kept⟩ := bind_eq_ok_iff.mp first
    obtain rfl := Except.ok.inj kept
    obtain rfl : _ = value := Except.ok.inj whole
    exact ⟨rfl, rfl⟩
  have takes := addSubfields_takes text read held
  rw [← same, ← nesting, ← head] at takes
  have adds : Path.addSubfields text (.mk value) = (do
      let additions ← Additions.parse value.nesting value.field.head.render text
      return Path.mk (value.extend additions)) := rfl
  rw [adds]
  generalize parsed : Additions.parse value.nesting value.field.head.render text = reading at takes ⊢
  generalize addSubfields id text store = result at takes
  cases takes with
  | error cause => exact .error cause
  | @ok after added additions appends shown =>
    have bare : value.field.attach additions.groups = value.field := by
      rw [(Additions.parts_of_parse parsed).1, Field.attach, List.append_nil]
    refine .ok ?_
    rw [Layer.extend, bare]
    exact appends.view fewer here viewed never shown

/-- A stored path keeps being viewed as one that was read and given subfields while it is given more. -/
theorem exists_grown {path : Path} {text : Text} (found : store.view id = .ok path) (grown : path.Grown)
    (solid : text.hasBlank = false) (success : (addSubfields id text store).1 = .ok ()) :
    ∃ path, (addSubfields id text store).2.view id = .ok path ∧ path.Grown := by
  have agrees := view_addSubfields text found
  generalize added : path.addSubfields text = reading at agrees
  rw [success] at agrees
  cases agrees with
  | ok viewed => exact ⟨_, viewed, grown.add solid added⟩

end MarcPath.Store
