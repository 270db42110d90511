import FerroLoop.FerroState.Revisions

/-!
The state store (`crates/store/src/ferrostore/traits_state.rs`): writes, retirements, conflict resolutions and
the import of remote revisions. The revision log and its id index are one list in sequence order; ids that the
code mints are arguments.
-/

namespace FerroLoop.FerroState

open Std Text Checked
open Agents (StateError validateSlug)
open Workflow (MergeMode At)

structure StateStore where
  ids : Ids
  keys : ExtTreeMap Key Iri compare
  entries : ExtTreeMap Iri StateEntry compare
  revisions : List StateRevision
  conflicts : ExtTreeMap Iri StateConflict compare

inductive StoreError where
  | id (error : IdError)
  | invalidSlug (slug : String)
  | invalidPayload (error : StateError)
  | unknownParent (revision parent : Iri)
  | noMemoryTarget (target : Iri)
  | changedKey (entry : Iri)
  | changedRevision (revision : Iri)
  | missingLocalHead (head : Iri)
  | stateConflict (entry localHead remoteHead : Iri)
  | notRetired
  | noSuchState (entry : Option Iri)
  | notAMemory (entry : Iri)
  | noActiveConflict (entry : Iri)
  | keepsNeither (keep localHead remoteHead : Iri)
  | unknownRevision (revision : Iri)
  deriving DecidableEq

def liftId {α : Type} (x : Except IdError α) : Except StoreError α := x.mapError .id

namespace StateStore

def empty : StateStore := ⟨.empty, ∅, ∅, [], ∅⟩

section

variable (s : StateStore)

/-- `load_revisions`. -/
def dag (entryId : Iri) : List StateRevision :=
  s.revisions.filter fun rev => rev.entryId = entryId

/-- `revision_at`. -/
def revision? (id : Iri) : Option StateRevision :=
  s.revisions.find? fun rev => rev.revisionId = id

/-- `append_state_revision`. -/
def append (rev : StateRevision) : StateStore := { s with revisions := s.revisions ++ [rev] }

def putEntry (entry : StateEntry) : StateStore := { s with entries := s.entries.insert entry.id entry }

def checkTarget (payload : StatePayload) : Except StoreError Unit :=
  match payload.supersededBy with
  | none => .ok ()
  | some target => do
    let resolved ← liftId (s.ids.resolve target)
    match s.entries[resolved]? with
    | some entry => refuseIf (entry.concern ≠ .memory) (.noMemoryTarget target)
    | none => throw (.noMemoryTarget target)

def validatePayload (payload : StatePayload) (entryId : Iri) : Except StoreError Unit :=
  (payload.validate entryId).mapError .invalidPayload

def checkParents (rev : StateRevision) : Except StoreError Unit :=
  match rev.parentRevisions.find? fun parent => (s.revision? parent).isNone with
  | some parent => .error (.unknownParent rev.revisionId parent)
  | none => .ok ()

def rename (key : Key) (old new : Iri) : StateStore where
  ids := s.ids.aliasUnpublished .state old new
  keys := s.keys.insert key new
  entries :=
    match s.entries[old]? with
    | some entry => (s.entries.erase old).insert new { entry with id := new }
    | none => s.entries
  conflicts :=
    match s.conflicts[old]? with
    | some conflict => (s.conflicts.erase old).insert new { conflict with entryId := new }
    | none => s.conflicts
  revisions := s.revisions.map fun rev => if rev.entryId = old then { rev with entryId := new } else rev

def adoptId (rev : StateRevision) : StateStore :=
  match s.keys[rev.key]? with
  | some existing => if existing = rev.entryId then s else s.rename rev.key existing rev.entryId
  | none => s

def autoMerged (ours rev : StateRevision) (base : Option StateRevision) : Option StatePayload :=
  match ours.payload, rev.payload with
  | .runtime mine, .runtime theirs =>
    if mine.mergeMode = theirs.mergeMode then
      match mine.mergeMode with
      | .conflict => none
      | .append =>
        let baseItems :=
          match base.map StateRevision.payload with
          | some (.runtime held) => held.value.asArray
          | _ => some []
        match baseItems, mine.value.asArray, theirs.value.asArray with
        | some base, some ours, some remote => some (.runtime ⟨.array (computeAppendMerge base ours remote), .append⟩)
        | _, _, _ => none
      | .lastWriter => some (computeLastWriterMerge ours rev).payload
    else none
  | _, _ => none

def created (rev : StateRevision) : StateEntry :=
  { id := rev.entryId, scope := rev.scope, concern := rev.concern, slug := rev.slug, sensitive := rev.sensitive
    everSensitive := rev.everSensitive || rev.sensitive, payload := rev.payload, headRevision := rev.revisionId
    updatedAt := rev.at_, by_ := rev.by_ }

def create (rev : StateRevision) : StateStore :=
  { s.putEntry (created rev) with keys := s.keys.insert rev.key rev.entryId }

section

variable (existing : StateEntry) (rev : StateRevision)

def forwarded : StateEntry :=
  { existing with
    id := rev.entryId, sensitive := rev.sensitive
    everSensitive := existing.everSensitive || rev.everSensitive || rev.sensitive, payload := rev.payload
    headRevision := rev.revisionId, updatedAt := rev.at_, by_ := rev.by_ }

def fastForward : StateStore :=
  let dag := s.dag rev.entryId
  let moved := s.putEntry (forwarded existing rev)
  match s.conflicts[rev.entryId]? with
  | some conflict =>
    if isAncestorInDag conflict.localHead rev.revisionId dag ∧ isAncestorInDag conflict.remoteHead rev.revisionId dag then
      { moved with conflicts := s.conflicts.erase rev.entryId }
    else moved
  | none => moved

def mergeRevision (existing : StateEntry) (ours rev : StateRevision) (payload : StatePayload) (mergeAt : At) (minted : Iri) :
    StateRevision :=
  let sensitive := ours.sensitive || rev.sensitive
  { revisionId := minted, entryId := rev.entryId, parentRevisions := sortedParents existing.headRevision rev.revisionId
    scope := existing.scope, concern := existing.concern, slug := existing.slug, sensitive
    everSensitive := existing.everSensitive || ours.everSensitive || rev.everSensitive || sensitive
    payload, at_ := mergeAt, by_ := "fl" }

def headedBy : StateEntry :=
  { existing with
    id := rev.entryId, sensitive := rev.sensitive, everSensitive := rev.everSensitive, payload := rev.payload
    headRevision := rev.revisionId, updatedAt := rev.at_, by_ := rev.by_ }

inductive Course where
  | fastForward
  | alreadyAhead
  | missingLocalHead
  | merge (ours : StateRevision) (payload : StatePayload)
  | conflict

def course (dag : List StateRevision) (head : Iri) (rev : StateRevision) : Course :=
  if isAncestorInDag head rev.revisionId dag then .fastForward
  else if isAncestorInDag rev.revisionId head dag then .alreadyAhead
  else
    match dag.find? fun held => held.revisionId = head with
    | none => .missingLocalHead
    | some ours =>
      let base := (lowestCommonAncestorInDag head rev.revisionId dag).bind fun id =>
        dag.find? fun held => held.revisionId = id
      match autoMerged ours rev base with
      | some payload => .merge ours payload
      | none => .conflict

def advance (mergeAt : At) (minted : Iri) : Except StoreError StateStore :=
  match course (s.dag rev.entryId) existing.headRevision rev with
  | .fastForward => .ok (s.fastForward existing rev)
  | .alreadyAhead => .ok s
  | .missingLocalHead => .error (.missingLocalHead existing.headRevision)
  | .merge ours payload =>
    let merged := mergeRevision existing ours rev payload mergeAt minted
    .ok ((s.append merged).putEntry (headedBy existing merged))
  | .conflict =>
    .ok { s with conflicts := s.conflicts.insert rev.entryId ⟨rev.entryId, existing.headRevision, rev.revisionId, mergeAt⟩ }

end

end

section

variable (s : StateStore) (rev : StateRevision) (mergeAt : At) (minted : Iri)

def fileImported : Except StoreError StateStore := do
  let resolved ← liftId (s.ids.resolve rev.entryId)
  let ids ← liftId (s.ids.indexImported .state resolved)
  let s := { s with ids }
  let rev := { rev with entryId := resolved }
  match s.entries[resolved]? with
  | some existing => do
    refuseIf (existing.key ≠ rev.key) (.changedKey resolved)
    (s.append rev).advance existing rev mergeAt minted
  | none => return (s.append rev).create rev

/-- `apply_imported_state_revision`. -/
def applyImported : Except StoreError StateStore := do
  validatePayload rev.payload rev.entryId
  s.checkParents rev
  s.checkTarget rev.payload
  (s.adoptId rev).fileImported rev mergeAt minted

/-- One revision of `import_state_revisions`: one that is there is compared, another one applied. -/
def importRevision : Except StoreError StateStore :=
  match s.revision? rev.revisionId with
  | some held => do
    let resolved ← liftId (s.ids.resolve rev.entryId)
    refuseIf (held ≠ { rev with entryId := resolved }) (.changedRevision rev.revisionId)
    return s
  | none => s.applyImported rev mergeAt minted

end

/-- `import_state_revisions`: one write for the whole list. Each revision comes with the id a merge it needs
would be given. -/
def importStateRevisions (s : StateStore) (mergeAt : At) : List (StateRevision × Iri) → Except StoreError StateStore
  | [] => .ok s
  | (rev, minted) :: rest => do
    let next ← s.importRevision rev mergeAt minted
    next.importStateRevisions mergeAt rest

end StateStore

inductive SensitivityPatch where
  | inherit
  | setSensitive
  | clearSensitive
  deriving DecidableEq

def SensitivityPatch.apply (patch : SensitivityPatch) (existing : Option Bool) : Bool :=
  match patch with
  | .setSensitive => true
  | .clearSensitive => false
  | .inherit => existing.getD false

structure UpsertStateArgs where
  scope : StateScope
  slug : String
  sensitivity : SensitivityPatch
  payload : StatePayload
  at_ : At
  by_ : String

namespace StateStore

def checkSlug (slug : String) : Except StoreError String :=
  (validateSlug slug).mapError fun _ => .invalidSlug slug

section

variable (s : StateStore)

def entryOf (key : Key) : Option StateEntry :=
  match s.keys[key]? with
  | some id => s.entries[id]?
  | none => none

def refuseConflicted (existing : StateEntry) : Except StoreError Unit :=
  match s.conflicts[existing.id]? with
  | some conflict => .error (.stateConflict existing.id conflict.localHead conflict.remoteHead)
  | none => .ok ()

def writtenRevision (existing : Option StateEntry) (args : UpsertStateArgs) (slug : String) (entryId minted : Iri) :
    StateRevision :=
  let sensitive := args.sensitivity.apply (existing.map StateEntry.sensitive)
  { revisionId := minted, entryId, scope := args.scope, concern := args.payload.concern, slug, sensitive
    parentRevisions := (existing.map StateEntry.headRevision).toList
    everSensitive := (existing.map StateEntry.everSensitive).getD false || sensitive
    payload := args.payload, at_ := args.at_, by_ := trim args.by_ }

def entryWritten (rev : StateRevision) : StateEntry :=
  { id := rev.entryId, scope := rev.scope, concern := rev.concern, slug := rev.slug, sensitive := rev.sensitive
    everSensitive := rev.everSensitive, payload := rev.payload, headRevision := rev.revisionId, updatedAt := rev.at_
    by_ := rev.by_ }

def writtenId (existing : Option StateEntry) (newId : Iri) : Except StoreError (StateStore × Iri) :=
  match existing with
  | some entry => do
    s.refuseConflicted entry
    return (s, entry.id)
  | none => do
    let ids ← liftId (s.ids.indexNew newId .state)
    return ({ s with ids }, newId)

def upsertState (args : UpsertStateArgs) (newId minted : Iri) : Except StoreError (StateStore × StateEntry) := do
  let slug ← checkSlug args.slug
  let key : Key := ⟨args.scope, args.payload.concern, slug⟩
  let existing := s.entryOf key
  let (s, entryId) ← s.writtenId existing newId
  validatePayload args.payload entryId
  s.checkTarget args.payload
  let rev := writtenRevision existing args slug entryId minted
  let entry := entryWritten rev
  return ({ (s.append rev).putEntry entry with keys := s.keys.insert key entryId }, entry)

/-- `get_state_by_key`. -/
def getStateByKey (key : Key) : Except StoreError (Option StateEntry) :=
  match s.keys[key]? with
  | none => .ok none
  | some id => do
    let (target, kind) ← liftId (s.ids.locate id)
    return if kind = .state then s.entries[target]? else none

def retireMemory (scope : StateScope) (slug : String) (lifecycle : MemoryLifecycle)
    (supersededBy : Option Iri) (at_ : At) (by_ : String) (newId minted : Iri) :
    Except StoreError (StateStore × StateEntry) := do
  let slug ← checkSlug slug
  refuseIf (lifecycle = .active) .notRetired
  match ← s.getStateByKey ⟨scope, .memory, slug⟩ with
  | none => throw (.noSuchState none)
  | some current =>
    match current.payload with
    | .memory memory =>
      s.upsertState ⟨scope, slug, .inherit, .memory { memory with lifecycle, supersededBy }, at_, by_⟩ newId minted
    | _ => throw (.notAMemory current.id)

def revisionAt (id : Iri) : Except StoreError StateRevision :=
  match s.revision? id with
  | some rev => .ok rev
  | none => .error (.unknownRevision id)

def resolvedRevision (existing : StateEntry) (conflict : StateConflict) (chosen ours remote : StateRevision) (at_ : At)
    (by_ : String) (entryId minted : Iri) : StateRevision :=
  let sensitive := ours.sensitive || remote.sensitive
  { revisionId := minted, entryId, parentRevisions := sortedParents conflict.localHead conflict.remoteHead
    scope := existing.scope, concern := existing.concern, slug := existing.slug, sensitive
    everSensitive := existing.everSensitive || ours.everSensitive || remote.everSensitive || sensitive
    payload := chosen.payload, at_, by_ := trim by_ }

def resolveConflict (id keep : Iri) (at_ : At) (by_ : String) (minted : Iri) :
    Except StoreError (StateStore × StateEntry) := do
  let (resolved, kind) ← liftId (s.ids.locate id)
  refuseIf (kind ≠ .state) (.id (.wrongKind id .state kind))
  match s.conflicts[resolved]? with
  | none => throw (.noActiveConflict resolved)
  | some conflict =>
    refuseIf (keep ≠ conflict.localHead ∧ keep ≠ conflict.remoteHead)
      (.keepsNeither keep conflict.localHead conflict.remoteHead)
    let chosen ← s.revisionAt keep
    let ours ← s.revisionAt conflict.localHead
    let remote ← s.revisionAt conflict.remoteHead
    match s.entries[resolved]? with
    | none => throw (.noSuchState (some resolved))
    | some existing =>
      let rev := resolvedRevision existing conflict chosen ours remote at_ by_ resolved minted
      let updated := headedBy existing rev
      return ({ (s.append rev).putEntry updated with conflicts := s.conflicts.erase resolved }, updated)

end

/-! ### What an accepted operation did -/

section Accepted

variable {s t : StateStore} {rev : StateRevision} {mergeAt at_ : At} {minted newId : Iri} {written : StateEntry} {by_ : String}

/-- The store with a written revision at the head of its entry. -/
def wrote (s : StateStore) (ids : Ids) (rev : StateRevision) : StateStore :=
  ⟨ids, s.keys.insert rev.key rev.entryId, s.entries.insert rev.entryId (entryWritten rev), s.revisions ++ [rev], s.conflicts⟩

theorem upsertState_ok {args : UpsertStateArgs} (done : s.upsertState args newId minted = .ok (t, written)) :
    ∃ slug ids entryId, t = s.wrote ids (writtenRevision (s.entryOf ⟨args.scope, args.payload.concern, slug⟩) args slug entryId minted) ∧
      ((∃ existing, s.entryOf ⟨args.scope, args.payload.concern, slug⟩ = some existing ∧ entryId = existing.id ∧ ids = s.ids ∧
          s.conflicts[existing.id]? = none) ∨
        s.entryOf ⟨args.scope, args.payload.concern, slug⟩ = none ∧ entryId = newId ∧ s.ids.indexNew newId .state = .ok ids) := by
  obtain ⟨slug, _, done⟩ := bind_ok done
  obtain ⟨⟨s', entryId⟩, located, done⟩ := bind_ok done
  obtain ⟨_, _, done⟩ := bind_ok done
  obtain ⟨_, _, done⟩ := bind_ok done
  change s.writtenId (s.entryOf ⟨args.scope, args.payload.concern, slug⟩) newId = _ at located
  unfold writtenId at located
  split at located
  · rename_i existing held
    obtain ⟨_, clear, located⟩ := bind_ok located
    cases located
    cases done
    refine ⟨slug, s.ids, existing.id, rfl, .inl ⟨existing, held, rfl, rfl, ?_⟩⟩
    unfold refuseConflicted at clear
    split at clear
    · cases clear
    · assumption
  · rename_i free
    obtain ⟨ids, indexed, located⟩ := bind_ok located
    cases located
    cases done
    exact ⟨slug, ids, newId, rfl, .inr ⟨free, rfl, mapError_ok indexed⟩⟩

theorem retireMemory_ok {scope : StateScope} {slug : String} {lifecycle : MemoryLifecycle} {supersededBy : Option Iri}
    (done : s.retireMemory scope slug lifecycle supersededBy at_ by_ newId minted = .ok (t, written)) :
    ∃ args, s.upsertState args newId minted = .ok (t, written) := by
  obtain ⟨slug, _, done⟩ := bind_ok done
  obtain ⟨_, _, done⟩ := bind_ok done
  obtain ⟨current, _, done⟩ := bind_ok done
  rcases current with _ | current
  · cases done
  simp only at done
  split at done
  · exact ⟨_, done⟩
  · cases done

theorem resolveConflict_ok {id keep : Iri} (done : s.resolveConflict id keep at_ by_ minted = .ok (t, written)) :
    ∃ resolved kind conflict chosen ours remote existing, s.ids.locate id = .ok (resolved, kind) ∧
      s.conflicts[resolved]? = some conflict ∧ s.revisionAt conflict.localHead = .ok ours ∧
      s.revisionAt conflict.remoteHead = .ok remote ∧ s.entries[resolved]? = some existing ∧
      let rev := resolvedRevision existing conflict chosen ours remote at_ by_ resolved minted
      t = { (s.append rev).putEntry (headedBy existing rev) with conflicts := s.conflicts.erase resolved } := by
  obtain ⟨⟨resolved, kind⟩, found, done⟩ := bind_ok done
  obtain ⟨_, _, done⟩ := bind_ok done
  split at done
  · cases done
  rename_i conflict recorded
  obtain ⟨_, _, done⟩ := bind_ok done
  obtain ⟨chosen, _, done⟩ := bind_ok done
  obtain ⟨ours, first, done⟩ := bind_ok done
  obtain ⟨remote, second, done⟩ := bind_ok done
  split at done
  · cases done
  rename_i existing there
  cases done
  exact ⟨resolved, kind, conflict, chosen, ours, remote, existing, mapError_ok found, recorded, first, second, there, rfl⟩

theorem fileImported_ok (done : s.fileImported rev mergeAt minted = .ok t) :
    ∃ resolved ids, s.ids.resolve rev.entryId = .ok resolved ∧ s.ids.indexImported .state resolved = .ok ids ∧
      let own := { rev with entryId := resolved }
      let filing := { s with ids }.append own
      (∃ existing, s.entries[resolved]? = some existing ∧ existing.key = rev.key ∧
          filing.advance existing own mergeAt minted = .ok t) ∨
        s.entries[resolved]? = none ∧ t = filing.create own := by
  obtain ⟨resolved, found, done⟩ := bind_ok done
  obtain ⟨ids, imported, done⟩ := bind_ok done
  refine ⟨resolved, ids, mapError_ok found, mapError_ok imported, ?_⟩
  simp only at done
  split at done
  · rename_i existing there
    obtain ⟨_, same, done⟩ := bind_ok done
    exact .inl ⟨existing, there, not_not.mp (refuseIf_ok same), done⟩
  · rename_i free
    cases done
    exact .inr ⟨free, rfl⟩

/-- A revision that is there stays as it is, a new one is filed under the id it adopts. -/
theorem importRevision_ok (done : s.importRevision rev mergeAt minted = .ok t) :
    (t = s ∧ ∃ resolved, s.revision? rev.revisionId = some { rev with entryId := resolved }) ∨
      s.revision? rev.revisionId = none ∧ s.checkParents rev = .ok () ∧
        (s.adoptId rev).fileImported rev mergeAt minted = .ok t := by
  unfold importRevision at done
  split at done
  · rename_i held found
    obtain ⟨resolved, _, done⟩ := bind_ok done
    obtain ⟨_, equal, done⟩ := bind_ok done
    cases done
    have same : held = { rev with entryId := resolved } := not_not.mp (refuseIf_ok equal)
    exact .inl ⟨rfl, resolved, same ▸ found⟩
  · rename_i new
    obtain ⟨_, _, done⟩ := bind_ok done
    obtain ⟨_, checked, done⟩ := bind_ok done
    obtain ⟨_, _, done⟩ := bind_ok done
    exact .inr ⟨new, checked, done⟩

end Accepted

end StateStore

inductive Event where
  | upsertState (args : UpsertStateArgs) (newId minted : Iri)
  | retireMemory (scope : StateScope) (slug : String) (lifecycle : MemoryLifecycle) (supersededBy : Option Iri) (at_ : At)
      (by_ : String) (newId minted : Iri)
  | resolveConflict (id keep : Iri) (at_ : At) (by_ : String) (minted : Iri)
  | importStateRevisions (revs : List (StateRevision × Iri)) (mergeAt : At)

def StateStore.apply (s : StateStore) : Event → Except StoreError StateStore
  | .upsertState args newId minted => (s.upsertState args newId minted).map Prod.fst
  | .retireMemory scope slug lifecycle supersededBy at_ by_ newId minted =>
    (s.retireMemory scope slug lifecycle supersededBy at_ by_ newId minted).map Prod.fst
  | .resolveConflict id keep at_ by_ minted => (s.resolveConflict id keep at_ by_ minted).map Prod.fst
  | .importStateRevisions revs mergeAt => s.importStateRevisions mergeAt revs

def step (s : StateStore) (e : Event) : StateStore × Option StoreError :=
  match s.apply e with
  | .ok next => (next, none)
  | .error error => (s, some error)

end FerroLoop.FerroState
