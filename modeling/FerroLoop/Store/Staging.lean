import FerroLoop.Lib.Checked
import FerroLoop.Store.State

namespace FerroLoop.Store

open List hiding any_eq_false getElem?_insert
open Std Checked Map Option

namespace Docs

theorem ext_get {first second : Docs} (same : ∀ collection id, first.get collection id = second.get collection id) :
    first = second := by
  obtain ⟨nested, filled⟩ := first
  obtain ⟨nested', filled'⟩ := second
  have maps : nested = nested' := by
    apply ExtTreeMap.ext_getElem?
    intro collection
    have here := same collection
    simp only [get] at here
    cases left : nested[collection]? with
    | none =>
      rcases right : nested'[collection]? with _ | held
      · rfl
      obtain ⟨id, doc, found⟩ := exists_getElem? (filled' collection held right)
      have absurdly := here id
      simp [left, right, found] at absurdly
    | some held =>
      cases right : nested'[collection]? with
      | none =>
        obtain ⟨id, doc, found⟩ := exists_getElem? (filled collection held left)
        have absurdly := here id
        simp [left, right, found] at absurdly
      | some held' =>
        congr 1
        apply ExtTreeMap.ext_getElem?
        intro id
        have docs := here id
        simpa [left, right] using docs
  subst maps
  rfl

variable (docs : Docs) (collection id other : String) (changes : DocChanges)

theorem get_replace (id : String) (held : Collection) :
    (docs.replace collection held).get other id = if collection = other then held[id]? else docs.get other id := by
  unfold replace
  split
  case isTrue empty =>
    have none : held = ∅ := ExtTreeMap.isEmpty_iff.mp empty
    simp only [get, getElem?_erase]
    split
    · rw [none, ExtTreeMap.getElem?_empty]; rfl
    · rfl
  case isFalse =>
    simp only [get, getElem?_insert]
    split <;> rfl

theorem getElem?_held :
    ((docs.nested[collection]?).getD ∅)[id]? = docs.get collection id := by
  unfold get
  cases docs.nested[collection]? with
  | none => exact ExtTreeMap.getElem?_empty
  | some held => rfl

@[simp] theorem get_insert (otherId : String) (doc : Value) :
    (docs.insert collection id doc).get other otherId =
      if (collection, id) = (other, otherId) then some doc else docs.get other otherId := by
  rw [insert, get_replace]
  by_cases sameCollection : collection = other
  · subst sameCollection
    simp only [↓reduceIte, getElem?_insert, getElem?_held, Prod.mk.injEq, true_and]
  · simp [sameCollection]

@[simp] theorem get_remove (otherId : String) :
    (docs.remove collection id).get other otherId =
      if (collection, id) = (other, otherId) then none else docs.get other otherId := by
  have missing : ∀ held, docs.nested[collection]? = held →
      (held.bind fun docs => docs[id]?) = none → docs.get other otherId =
        if (collection, id) = (other, otherId) then none else docs.get other otherId := by
    intro held found absent
    split
    · rename_i same
      obtain ⟨rfl, rfl⟩ := Prod.mk.inj same
      rw [get, found, absent]
    · rfl
  unfold remove
  rcases found : docs.nested[collection]? with _ | held
  · exact missing none found rfl
  simp only
  split
  · rw [get_replace]
    by_cases sameCollection : collection = other
    · subst sameCollection
      simp only [↓reduceIte, getElem?_erase, Prod.mk.injEq, true_and]
      rw [get, found]
      rfl
    · simp [sameCollection]
  · rename_i absent
    apply missing (some held) found
    exact ExtTreeMap.getElem?_eq_none_of_contains_eq_false (eq_false_of_ne_true absent)

def override (docs : String × String → Option Value) (entry : (String × String) × Option Value) :
    String × String → Option Value :=
  fun key => if entry.1 = key then entry.2 else docs key

variable {key : String × String}

theorem override_other {entry : (String × String) × Option Value}
    (docs : String × String → Option Value) (other : entry.1 ≠ key) : override docs entry key = docs key :=
  if_neg other

theorem foldl_override_other {entries : List ((String × String) × Option Value)}
    (absent : ∀ entry ∈ entries, entry.1 ≠ key) (docs : String × String → Option Value) :
    entries.foldl override docs key = docs key := by
  induction entries generalizing docs with
  | nil => rfl
  | cons entry rest ih =>
    have first := absent entry mem_cons_self
    rw [foldl_cons, ih (fun e member => absent e (mem_cons_of_mem _ member)), override_other docs first]

def keyed (collection : String) (changes : DocChanges) : List ((String × String) × Option Value) :=
  changes.map fun entry => ((collection, entry.1), entry.2)

theorem getElem?_foldl_change (held : Collection)
    (docs : String × String → Option Value) (agree : ∀ id, held[id]? = docs (collection, id)) (id : String) :
    (changes.foldl change held)[id]? = (keyed collection changes).foldl override docs (collection, id) := by
  induction changes generalizing held docs with
  | nil => exact agree id
  | cons entry rest ih =>
    obtain ⟨changed, doc⟩ := entry
    have step : ∀ other, (change held (changed, doc))[other]? =
        override docs ((collection, changed), doc) (collection, other) := by
      intro other
      cases doc with
      | some doc => simp only [change, override, getElem?_insert, agree, Prod.mk.injEq, true_and]
      | none => simp only [change, override, getElem?_erase, agree, Prod.mk.injEq, true_and]
    exact ih (change held (changed, doc)) (override docs ((collection, changed), doc)) step

theorem get_applyCollection (key : String × String) :
    (docs.applyCollection collection changes).get key.1 key.2 =
      (keyed collection changes).foldl override (fun key => docs.get key.1 key.2) key := by
  obtain ⟨other, id⟩ := key
  have elsewhere : collection ≠ other →
      (keyed collection changes).foldl override (fun key => docs.get key.1 key.2) (other, id) = docs.get other id := by
    intro apart
    apply foldl_override_other
    intro entry member same
    obtain ⟨change, -, rfl⟩ := mem_map.mp member
    exact apart (Prod.mk.inj same).1
  unfold applyCollection
  simp only
  split
  · rw [get_replace]
    split
    · rename_i same
      subst same
      exact getElem?_foldl_change collection changes _ _ (getElem?_held docs collection) id
    · exact (elsewhere ‹_›).symm
  · -- Nothing is put and nothing held is deleted: every change rewrites what is there.
    rename_i nothing
    by_cases same : collection = other
    · subst same
      simp only [Bool.not_eq_true, List.any_eq_false, Bool.or_eq_true, not_or] at nothing
      have still : ∀ entry ∈ changes, entry.2 = none ∧ docs.get collection entry.1 = none := by
        intro entry member
        obtain ⟨noPut, notHeld⟩ := nothing entry member
        refine ⟨by simpa using noPut, ?_⟩
        unfold get
        cases found : docs.nested[collection]? with
        | none => rfl
        | some held =>
          simp only [found, any_some] at notHeld
          exact ExtTreeMap.getElem?_eq_none_of_contains_eq_false notHeld
      clear nothing elsewhere
      have kept : ∀ seen : String × String → Option Value, (∀ i, seen (collection, i) = docs.get collection i) →
          (keyed collection changes).foldl override seen (collection, id) = docs.get collection id := by
        induction changes with
        | nil => intro seen agree; exact agree id
        | cons entry rest ih =>
          intro seen agree
          apply ih (fun e member => still e (mem_cons_of_mem _ member))
          intro i
          obtain ⟨noPut, notHeld⟩ := still entry mem_cons_self
          simp only [override, Prod.mk.injEq, true_and]
          split
          · rename_i here
            rw [← here, noPut, notHeld]
          · exact agree i
      exact (kept _ fun _ => rfl).symm
    · exact (elsewhere same).symm

theorem keyed_snoc (doc : Option Value) :
    keyed collection (changes ++ [(id, doc)]) = keyed collection changes ++ [((collection, id), doc)] := by
  simp [keyed]

theorem get_applyChanges (entries : List ((String × String) × Option Value)) :
    ∀ (docs : Docs) (pending : Option (String × DocChanges)) (key : String × String),
    (docs.applyChanges pending entries).get key.1 key.2 =
      (pending.elim [] (fun gathered => keyed gathered.1 gathered.2) ++ entries).foldl override
        (fun key => docs.get key.1 key.2) key := by
  induction entries with
  | nil =>
    intro docs pending key
    rcases pending with _ | gathered
    · rfl
    obtain ⟨current, changes⟩ := gathered
    simp only [applyChanges, elim_some, append_nil]
    exact get_applyCollection docs current changes key
  | cons entry rest ih =>
    intro docs pending key
    rcases pending with _ | gathered
    · rw [applyChanges, ih]
      rfl
    obtain ⟨current, changes⟩ := gathered
    rw [applyChanges]
    split
    · rename_i same
      subst same
      rw [ih]
      simp only [elim_some, keyed_snoc, append_assoc, cons_append, nil_append]
    · have gatheredFirst : (fun key : String × String => (docs.applyCollection current changes).get key.1 key.2) =
          (keyed current changes).foldl override fun key => docs.get key.1 key.2 :=
        funext fun key => get_applyCollection docs current changes key
      rw [ih, gatheredFirst, foldl_append, foldl_append]
      rfl

end Docs

theorem DocState.ext {first second : DocState} (docs : first.docs = second.docs) (tables : first.tables = second.tables)
    (vectors : first.vectors = second.vectors) (lastSeq : first.lastSeq = second.lastSeq) : first = second := by
  obtain ⟨d, t, v, s⟩ := first
  subst docs tables vectors lastSeq
  rfl

def TableStage.laidOver (stage : TableStage) (held : Option ColumnTable) : Option ColumnTable :=
  match stage.created with
  | some columns => some ⟨columns, stage.groups⟩
  | none => held.map fun table => { table with groups := table.groups ++ stage.groups }

namespace Overlay

variable (overlay : Overlay) (state : DocState) (collection id name : String) {base : DocState}

theorem apply_docs_get :
    (overlay.apply state).docs.get collection id =
      (overlay.docs[(collection, id)]?).elim (state.docs.get collection id) fun doc => doc := by
  have overridden := Docs.get_applyChanges overlay.docs.toList state.docs none (collection, id)
  have byKey := foldl_toList (fun f key => f key) Docs.override (fun doc _ => doc)
    (fun _ _ _ => rfl) overlay.docs (fun key => state.docs.get key.1 key.2) (collection, id)
  exact overridden.trans byKey

theorem applyTable_getElem? (tables : Tables) (entry : String × TableStage) (name : String) :
    (applyTable tables entry)[name]? = if entry.1 = name then entry.2.laidOver tables[name]? else tables[name]? := by
  obtain ⟨staged, created, groups⟩ := entry
  cases created with
  | some columns =>
    simp only [applyTable, TableStage.laidOver, getElem?_insert]
  | none =>
    simp only [applyTable, TableStage.laidOver]
    by_cases same : staged = name
    · subst same
      cases found : tables[staged]? with
      | none => simp [found]
      | some table => simp
    · cases found : tables[staged]? with
      | none => simp [same]
      | some table => simp [getElem?_insert, same]

theorem apply_tables_getElem? :
    (overlay.apply state).tables[name]? =
      (overlay.tables[name]?).elim state.tables[name]? fun stage => stage.laidOver state.tables[name]? :=
  foldl_toList (fun (tables : Tables) name => tables[name]?) applyTable TableStage.laidOver
    applyTable_getElem? overlay.tables state.tables name

theorem apply_vectors_getElem? :
    (overlay.apply state).vectors[name]? = overlay.vector state name := by
  have byKey := foldl_toList (fun (vectors : Vectors) name => vectors[name]?)
    (fun vectors entry => vectors.insert entry.1 entry.2) (fun (collection : VectorCollection) _ => some collection)
    (fun vectors entry name => getElem?_insert vectors entry.1 name entry.2) overlay.vectors state.vectors name
  rw [vector]
  cases found : overlay.vectors[name]? with
  | none | some collection => rw [found] at byKey; exact byKey

theorem apply_empty : Overlay.empty.apply state = state := by
  apply DocState.ext
  · apply Docs.ext_get
    intro collection id
    rw [apply_docs_get, empty, ExtTreeMap.getElem?_empty, elim_none]
  · apply ExtTreeMap.ext_getElem?
    intro name
    rw [apply_tables_getElem?, empty, ExtTreeMap.getElem?_empty, elim_none]
  · apply ExtTreeMap.ext_getElem?
    intro name
    rw [apply_vectors_getElem?, vector, empty, ExtTreeMap.getElem?_empty]
  · rfl

theorem apply_put (doc : Value) :
    (overlay.put collection id doc).apply state =
      { overlay.apply state with docs := (overlay.apply state).docs.insert collection id doc } := by
  refine DocState.ext (Docs.ext_get ?_) rfl rfl rfl
  intro other otherId
  rw [Docs.get_insert, apply_docs_get, apply_docs_get, put, getElem?_insert]
  split <;> rfl

theorem apply_delete :
    (overlay.delete collection id).apply state =
      { overlay.apply state with docs := (overlay.apply state).docs.remove collection id } := by
  refine DocState.ext (Docs.ext_get ?_) rfl rfl rfl
  intro other otherId
  rw [Docs.get_remove, apply_docs_get, apply_docs_get, delete, getElem?_insert]
  split <;> rfl

theorem apply_setVector (collection : VectorCollection) :
    (overlay.setVector name collection).apply state =
      { overlay.apply state with vectors := (overlay.apply state).vectors.insert name collection } := by
  refine DocState.ext rfl rfl (ExtTreeMap.ext_getElem? ?_) rfl
  intro other
  rw [getElem?_insert, apply_vectors_getElem?, apply_vectors_getElem?, vector, setVector, getElem?_insert]
  by_cases same : name = other
  · simp only [same, ↓reduceIte]
  · simp only [same, ↓reduceIte, vector]

theorem apply_recordTableCreate (columns : List ColumnDef) :
    (overlay.recordTableCreate name columns).apply state =
      { overlay.apply state with tables := (overlay.apply state).tables.insert name ⟨columns, []⟩ } := by
  refine DocState.ext rfl (ExtTreeMap.ext_getElem? ?_) rfl rfl
  intro other
  rw [getElem?_insert, apply_tables_getElem?, apply_tables_getElem?, recordTableCreate, getElem?_insert]
  split <;> rfl

/-- A table the overlay only appends to is in the base: without it the appended groups would
go nowhere. -/
def Over (overlay : Overlay) (base : DocState) : Prop :=
  ∀ (name : String) (stage : TableStage), overlay.tables[name]? = some stage → stage.created = none →
    ∃ table, base.tables[name]? = some table

theorem over_empty (base : DocState) : Overlay.empty.Over base := by
  intro name stage found
  cases found

variable {overlay : Overlay}

theorem tableColumns_apply (isOver : overlay.Over base) (name : String) :
    overlay.tableColumns base name = ((overlay.apply base).tables[name]?).map ColumnTable.columns := by
  rw [apply_tables_getElem?, tableColumns]
  rcases found : overlay.tables[name]? with _ | stage
  · rfl
  obtain ⟨created, groups⟩ := stage
  cases created with
  | some columns => rfl
  | none =>
    obtain ⟨table, held⟩ := isOver name _ found rfl
    rw [held]
    rfl

variable {name : String}

theorem apply_recordTableAppend (isOver : overlay.Over base)
    {table : ColumnTable} (seen : (overlay.apply base).tables[name]? = some table) (bytes : List UInt8) :
    (overlay.recordTableAppend name bytes).apply base = { overlay.apply base with
      tables := (overlay.apply base).tables.insert name { table with groups := table.groups ++ [bytes] } } := by
  refine DocState.ext rfl (ExtTreeMap.ext_getElem? ?_) rfl rfl
  intro other
  rw [getElem?_insert, apply_tables_getElem?, recordTableAppend, getElem?_insert]
  by_cases same : name = other
  · subst same
    rw [if_pos rfl, if_pos rfl, elim_some]
    rw [apply_tables_getElem?] at seen
    cases found : overlay.tables[name]? with
    | none =>
      rw [found, elim_none] at seen
      rw [seen]
      rfl
    | some stage =>
      obtain ⟨created, groups⟩ := stage
      rw [found, elim_some] at seen
      cases created with
      | some columns =>
        cases seen
        rfl
      | none =>
        obtain ⟨held, inBase⟩ := isOver name _ found rfl
        rw [inBase] at seen ⊢
        cases seen
        simp [TableStage.laidOver, append_assoc]
  · rw [if_neg same, if_neg same, apply_tables_getElem?]

theorem stage_apply (engine : Engine) (isOver : overlay.Over base) (op : Op) :
    (overlay.stage engine base op).map (fun next => next.apply base) = applyOp engine (overlay.apply base) op := by
  have vectors := apply_vectors_getElem? overlay base
  cases op with
  | put collection id doc => exact congrArg Except.ok (apply_put overlay base collection id doc)
  | delete collection id => exact congrArg Except.ok (apply_delete overlay base collection id)
  | createColumnTable name columns =>
    have taken : (overlay.tableColumns base name).isSome = (overlay.apply base).tables.contains name := by
      rw [tableColumns_apply isOver, isSome_map, ExtTreeMap.contains_eq_isSome_getElem?]
    simp only [stage, applyOp, taken]
    cases checkNewTable ((overlay.apply base).tables.contains name) name columns with
    | error err => rfl
    | ok _ => exact congrArg Except.ok (apply_recordTableCreate overlay base name columns)
  | appendColumnGroup name bytes =>
    simp only [stage, applyOp, tableColumns_apply isOver]
    rcases seen : (overlay.apply base).tables[name]? with _ | table
    · rfl
    simp only [map_some]
    cases engine.validateRowGroup table.columns bytes with
    | error err => rfl
    | ok _ => exact congrArg Except.ok (apply_recordTableAppend isOver seen bytes)
  | createVectorCollection name params =>
    simp only [stage, applyOp, ExtTreeMap.contains_eq_isSome_getElem?, vectors]
    rcases checkCreate name params with err | _
    · rfl
    split
    · rfl
    · exact congrArg Except.ok (apply_setVector overlay base name _)
  | upsertVector collection id bytes metadata =>
    simp only [stage, applyOp, stagedVectors, vectors]
    rcases overlay.vector base collection with _ | held
    · rfl
    simp only [ok_bind]
    cases engine.upsert held id bytes metadata with
    | error err => rfl
    | ok next => exact congrArg Except.ok (apply_setVector overlay base collection next)
  | deleteVector collection id =>
    simp only [stage, applyOp, stagedVectors, vectors]
    rcases overlay.vector base collection with _ | held
    · rfl
    simp only [ok_bind]
    cases engine.deleteId held id with
    | error err => rfl
    | ok next => exact congrArg Except.ok (apply_setVector overlay base collection next)

theorem over_recordTableAppend (isOver : overlay.Over base)
    {columns : List ColumnDef} (seen : overlay.tableColumns base name = some columns) (bytes : List UInt8) :
    (overlay.recordTableAppend name bytes).Over base := by
  intro other stage found created
  rcases insert_cases found with ⟨rfl, rfl⟩ | ⟨_, found⟩
  · cases held : overlay.tables[name]? with
    | none =>
      rw [tableColumns, held] at seen
      cases inBase : base.tables[name]? with
      | none => rw [inBase] at seen; cases seen
      | some table => exact ⟨table, rfl⟩
    | some stage =>
      rw [held] at created
      exact isOver name stage held created
  · exact isOver other stage found created

theorem stage_over (engine : Engine) {next : Overlay} (isOver : overlay.Over base) {op : Op}
    (staged : overlay.stage engine base op = .ok next) : next.Over base := by
  cases op with
  | put collection id doc | delete collection id => cases staged; exact isOver
  | createColumnTable name columns =>
    obtain ⟨_, -, same⟩ := bind_ok staged
    cases same
    intro other stage found created
    rcases insert_cases found with ⟨_, rfl⟩ | ⟨_, found⟩
    · cases created
    · exact isOver other stage found created
  | appendColumnGroup name bytes =>
    rw [stage] at staged
    rcases seen : overlay.tableColumns base name with _ | columns
    · rw [seen] at staged; cases staged
    rw [seen] at staged
    obtain ⟨_, -, same⟩ := bind_ok staged
    cases same
    exact over_recordTableAppend isOver seen bytes
  | createVectorCollection name params =>
    obtain ⟨_, -, created⟩ := bind_ok staged
    split at created
    · cases created
    · cases created
      exact isOver
  | upsertVector collection id bytes metadata =>
    obtain ⟨held, -, upserted⟩ := bind_ok staged
    obtain ⟨_, -, same⟩ := bind_ok upserted
    cases same
    exact isOver
  | deleteVector collection id =>
    obtain ⟨held, -, deleted⟩ := bind_ok staged
    obtain ⟨_, -, same⟩ := bind_ok deleted
    cases same
    exact isOver

theorem stageAll_apply (engine : Engine) (ops : List Op) :
    ∀ {overlay : Overlay}, overlay.Over base →
    (overlay.stageAll engine base ops).map (fun next => next.apply base) =
      applyOps engine (overlay.apply base) ops := by
  induction ops with
  | nil => intro overlay isOver; rfl
  | cons op rest ih =>
    intro overlay isOver
    have first := stage_apply engine isOver op
    simp only [stageAll, applyOps, foldlM_cons] at ih ⊢
    cases staged : overlay.stage engine base op with
    | error err =>
      rw [staged] at first
      rw [← first]
      rfl
    | ok next =>
      rw [staged] at first
      rw [← first]
      exact ih (stage_over engine isOver staged)

end Overlay

theorem stageAll_empty (engine : Engine) (state : DocState) (ops : List Op) :
    (Overlay.empty.stageAll engine state ops).map (fun overlay => overlay.apply state) = applyOps engine state ops := by
  rw [Overlay.stageAll_apply engine ops (Overlay.over_empty state), Overlay.apply_empty]

end FerroLoop.Store
