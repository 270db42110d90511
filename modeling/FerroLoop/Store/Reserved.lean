import FerroLoop.Store.Outbound
import FerroLoop.Store.RemoteCommit

namespace FerroLoop.Store

open Checked Machine List Sample

/-- The slot with what is attached to it. -/
structure AdapterSlot extends SyncSlot where
  adapter : Bool
  mode : Option SyncMode

def AdapterSlot.queues (slot : AdapterSlot) : Bool := slot.adapter && slot.mode.isSome

/-- What a call meets: a refusal of a reentrant call or of the queue's claim, and the error of the
flush that may follow the publish. -/
structure InboundCall where
  reentry : Option StoreError
  claim : Option StoreError
  silent : Bool
  undelivered : Option StoreError

def publishSyncBatches (engine : Engine) (serde : SerdeJson) (medium : Medium) (state : DocState) (batches : List SyncBatch) :
    Except StoreError Nat × DocState :=
  match medium.refused with
  | some err => (.error err, state)
  | none =>
    match prepareSyncBatches engine serde state batches with
    | .error err => (.error err, state)
    | .ok (overlay, seq, prepared) =>
      let done := medium.publish serde prepared state (publishOverlay state overlay seq)
      (done.1.map fun _ => seq, done.2)

/-- The slot once batches up to `seq` are applied. A loud apply queues them as they came in. -/
def AdapterSlot.register (slot : AdapterSlot) (silent : Bool) (seq : Nat) (batches : List SyncBatch) : AdapterSlot :=
  if silent then
    if slot.isIdle ∧ slot.synced < seq then { slot with synced := seq } else slot
  else if slot.queues then { slot with pending := slot.pending ++ batches }
  else slot

def applySyncBatches (engine : Engine) (serde : SerdeJson) (medium : Medium) (call : InboundCall) (slot : AdapterSlot)
    (state : DocState) (batches : List SyncBatch) : Except StoreError Nat × DocState × AdapterSlot :=
  match call.reentry with
  | some err => (.error err, state, slot)
  | none =>
    if batches.isEmpty then (.ok slot.synced, state, slot)
    else
      match call.claim with
      | some err => (.error err, state, slot)
      | none =>
        if slot.isIdle = false then
          (.error (backend "cannot apply sync batches while commits are pending"), state, slot)
        else
          match publishSyncBatches engine serde medium state batches with
          | (.error err, after) => (.error err, after, slot)
          | (.ok seq, after) =>
            let flushes := !call.silent && slot.queues && slot.mode == some .writeThrough
            let result := match call.undelivered with
              | some err => if flushes then .error err else .ok seq
              | none => .ok seq
            (result, after, slot.register call.silent seq batches)

/-- The operations of a batch that are applied over a state at this schema version: all but those
on reserved collections that do not raise it. -/
inductive Admitted : Option Nat → List Op → List Op → Prop
  | nil (version : Option Nat) : Admitted version [] []
  | ordinary {version : Option Nat} {op : Op} {rest kept : List Op} (ordinary : ¬op.Reserved)
    (later : Admitted version rest kept) : Admitted version (op :: rest) (op :: kept)
  | raise {version : Option Nat} {op : Op} {rest kept : List Op} {to_ : Nat} (raise : op.IsRaise to_)
    (above : ∀ now, version = some now → now < to_) (later : Admitted (some to_) rest kept) :
    Admitted version (op :: rest) (op :: kept)
  | dropped {version : Option Nat} {op : Op} {rest kept : List Op} (reserved : op.Reserved)
    (notAbove : ∀ to_, op.IsRaise to_ → ∃ now, version = some now ∧ to_ ≤ now) (later : Admitted version rest kept) :
    Admitted version (op :: rest) kept

inductive Applies (engine : Engine) (serde : SerdeJson) : DocState → List SyncBatch → DocState → Prop
  | nil (state : DocState) : Applies engine serde state [] state
  | cons {state mid last : DocState} {batch : SyncBatch} {rest : List SyncBatch} {version : Option Nat} {kept : List Op}
    (seq : batch.seq = state.lastSeq + 1) (read : schemaVersionIn serde state.docs.get = .ok version)
    (admitted : Admitted version batch.ops kept) (applied : applyOps engine state kept = .ok mid)
    (others : Applies engine serde { mid with lastSeq := batch.seq } rest last) :
    Applies engine serde state (batch :: rest) last

theorem isReserved_schemaCollection : isReserved schemaCollection = true := by decide +kernel

theorem checkFormat_known {to_ : Nat} (known : to_ ∈ formatLadder) : checkFormat (some to_) = .ok () := if_pos known

variable {op : Op}

theorem admitInbound_drops {version after : Option Nat} (dropped : admitInbound op version = .ok (none, after)) :
    op.Reserved ∧ after = version ∧ ∀ to_, op.IsRaise to_ → ∃ now, version = some now ∧ to_ ≤ now := by
  have reserved : ∀ {raise : Option Nat}, admitReserved op version raise = .ok (none, after) →
      after = version ∧ ∀ to_, raise = some to_ → to_ ∈ formatLadder → ∃ now, version = some now ∧ to_ ≤ now := by
    intro raise ran
    unfold admitReserved at ran
    split at ran
    · cases ran
      exact ⟨rfl, fun to_ none => (nomatch none)⟩
    rename_i to_
    obtain ⟨_, -, rest⟩ := bind_ok ran
    split at rest
    · rename_i refused
      cases rest
      refine ⟨rfl, ?_⟩
      intro asked same known
      cases same
      rw [checkFormat_known known] at refused
      cases version with
      | none => cases refused
      | some now =>
        simp only [Except.toOption, Option.isNone_some, Option.any_some, Bool.false_or, decide_eq_true_eq] at refused
        exact ⟨now, rfl, refused⟩
    · cases rest
  cases op with
  | put collection id doc =>
    simp only [admitInbound] at dropped
    split at dropped
    · rename_i isReserved
      obtain ⟨same, drops⟩ := reserved dropped
      refine ⟨⟨collection, rfl, isReserved⟩, same, ?_⟩
      rintro to_ ⟨held, here, read, known⟩
      cases here
      exact drops to_ (by rw [if_pos ⟨rfl, rfl⟩]; exact read) known
    · cases dropped
  | delete collection id =>
    simp only [admitInbound] at dropped
    split at dropped
    · rename_i isReserved
      obtain ⟨same, -⟩ := reserved dropped
      refine ⟨⟨collection, rfl, isReserved⟩, same, ?_⟩
      rintro to_ ⟨held, here, -⟩
      cases here
    · cases dropped
  | _ => cases dropped

variable {kept : List Op}

theorem admitAll_admitted {version : Option Nat} {ops : List Op} (ran : admitAll version ops = .ok kept) :
    Admitted version ops kept := by
  induction ops generalizing version kept with
  | nil => cases ran; exact .nil version
  | cons op rest ih =>
    obtain ⟨⟨first, after⟩, firstOk, others⟩ := bind_ok ran
    obtain ⟨later, laterOk, same⟩ := bind_ok others
    cases same
    have tail := ih laterOk
    rcases first with _ | held
    · obtain ⟨reserved, rfl, notAbove⟩ := admitInbound_drops firstOk
      exact .dropped reserved notAbove tail
    obtain rfl := admitInbound_sub firstOk
    rcases admitInbound_admits firstOk with ⟨ordinary, rfl⟩ | ⟨to_, raise, rfl, above⟩
    · exact .ordinary ordinary tail
    · exact .raise raise above tail

variable {batches : List SyncBatch}

theorem prepareFrom_applies {engine : Engine} {serde : SerdeJson} {state : DocState}
    {overlay last : Overlay} {expect seq : Nat} {prepared : List Frame} (isOver : overlay.Over state)
    (ran : prepareFrom engine serde state overlay expect batches = .ok (last, seq, prepared)) :
    Applies engine serde (publishOverlay state overlay expect) batches (publishOverlay state last seq) ∧
      seq = expect + batches.length ∧ prepared.length = batches.length := by
  induction batches generalizing overlay expect prepared with
  | nil =>
    cases ran
    exact ⟨.nil _, rfl, rfl⟩
  | cons batch rest ih =>
    unfold prepareFrom at ran
    split at ran
    · cases ran
    rename_i next added
    have sum : next = expect + 1 := by
      unfold checkedAdd at added
      split at added
      · cases added; rfl
      · cases added
    subst sum
    split at ran
    · cases ran
    rename_i inOrder
    have own : batch.seq = expect + 1 := Decidable.not_not.mp fun other => inOrder (.inl other)
    obtain ⟨version, read, afterVersion⟩ := bind_ok ran
    obtain ⟨ops, admitted, afterOps⟩ := bind_ok afterVersion
    obtain ⟨mid, staged, afterStage⟩ := bind_ok afterOps
    obtain ⟨⟨later, lastSeq, others⟩, laterOk, same⟩ := bind_ok afterStage
    cases same
    obtain ⟨reaches, count, frames⟩ := ih (stageAll_over isOver staged) laterOk
    have applied := Overlay.stageAll_apply engine ops isOver
    rw [staged] at applied
    have first : applyOps engine (publishOverlay state overlay expect) ops =
        .ok { mid.apply state with lastSeq := expect } :=
      applyOps_lastSeq applied.symm expect
    have sameDocs : (publishOverlay state overlay expect).docs.get = overlay.doc state := by
      funext collection id
      show (overlay.apply state).docs.get collection id = _
      rw [Overlay.apply_docs_get, Overlay.doc]
      cases overlay.docs[(collection, id)]? <;> rfl
    refine ⟨.cons own (by rw [sameDocs]; exact read) (admitAll_admitted admitted) first ?_, ?_, ?_⟩
    · rw [own]
      exact reaches
    · rw [count, length_cons]
      omega
    · rw [length_cons, length_cons, frames]

theorem publishSyncBatches_atomic (engine : Engine) (serde : SerdeJson) (medium : Medium) (state : DocState)
    (batches : List SyncBatch) :
    (∃ err, publishSyncBatches engine serde medium state batches = (.error err, state)) ∨
      (Applies engine serde state batches (publishSyncBatches engine serde medium state batches).2 ∧
        (publishSyncBatches engine serde medium state batches).2.lastSeq = state.lastSeq + batches.length) := by
  unfold publishSyncBatches
  split
  · exact .inl ⟨_, rfl⟩
  split
  · exact .inl ⟨_, rfl⟩
  rename_i overlay seq prepared ran
  rcases medium.publish_cases serde prepared state (publishOverlay state overlay seq) with ⟨err, same⟩ | landed
  · rw [same]
    exact .inl ⟨err, rfl⟩
  obtain ⟨applies, count, -⟩ := prepareFrom_applies (Overlay.over_empty state) ran
  refine .inr ⟨?_, ?_⟩
  · rw [landed]
    exact applies
  · rw [landed]
    exact count

theorem applySyncBatches_atomic (engine : Engine) (serde : SerdeJson) (medium : Medium) (call : InboundCall) (slot : AdapterSlot)
    (state : DocState) (batches : List SyncBatch) :
    (∃ err, (applySyncBatches engine serde medium call slot state batches).1 = .error err ∧
        (applySyncBatches engine serde medium call slot state batches).2.1 = state) ∨
      (Applies engine serde state batches (applySyncBatches engine serde medium call slot state batches).2.1 ∧
        (applySyncBatches engine serde medium call slot state batches).2.1.lastSeq = state.lastSeq + batches.length) := by
  unfold applySyncBatches
  split
  · exact .inl ⟨_, rfl, rfl⟩
  split
  · rename_i empty
    rw [isEmpty_iff.mp empty]
    exact .inr ⟨.nil state, rfl⟩
  split
  · exact .inl ⟨_, rfl, rfl⟩
  split
  · exact .inl ⟨_, rfl, rfl⟩
  have published := publishSyncBatches_atomic engine serde medium state batches
  split
  · rename_i err after ran
    rw [ran] at published
    rcases published with ⟨_, same⟩ | landed
    · cases same
      exact .inl ⟨err, rfl, rfl⟩
    · exact .inr landed
  · rename_i seq after ran
    rw [ran] at published
    rcases published with ⟨_, same⟩ | landed
    · cases same
    · exact .inr landed

structure ReservedKept (before after : Docs) : Prop where
  others : ∀ collection id, isReserved collection = true → ¬(collection = schemaCollection ∧ id = schemaKey) →
    after.get collection id = before.get collection id
  version : after.get schemaCollection schemaKey = before.get schemaCollection schemaKey ∨
    ∃ doc to_, after.get schemaCollection schemaKey = some doc ∧ doc.asU64 = some to_ ∧
      ∀ old, before.get schemaCollection schemaKey = some old → ∃ now, old.asU64 = some now ∧ now < to_

theorem ReservedKept.refl (docs : Docs) : ReservedKept docs docs := ⟨fun _ _ _ _ => rfl, .inl rfl⟩

theorem ReservedKept.trans {first second third : Docs} (front : ReservedKept first second) (back : ReservedKept second third) :
    ReservedKept first third := by
  refine ⟨fun collection id reserved other => (back.others collection id reserved other).trans (front.others collection id reserved other), ?_⟩
  rcases back.version with same | ⟨doc, to_, held, read, above⟩
  · rw [same]
    exact front.version
  refine .inr ⟨doc, to_, held, read, ?_⟩
  rcases front.version with same | ⟨mid, between, midHeld, midRead, below⟩
  · rw [← same]
    exact above
  intro old there
  obtain ⟨now, oldRead, less⟩ := below old there
  obtain ⟨held, heldRead, more⟩ := above mid midHeld
  rw [midRead] at heldRead
  cases heldRead
  exact ⟨now, oldRead, Nat.lt_trans less more⟩

def Op.Allowed (docs : Docs) (op : Op) : Prop :=
  ¬op.Reserved ∨ ∃ to_, op.IsRaise to_ ∧
    ∀ old, docs.get schemaCollection schemaKey = some old → ∃ now, old.asU64 = some now ∧ now < to_

section Reserved

variable {engine : Engine} {serde : SerdeJson} {state next : DocState} {collection : String}

theorem Op.Allowed.leaves {docs : Docs} (allowed : op.Allowed docs) {id : String}
    (reserved : isReserved collection = true) (held : Option Value) :
    op.leaves collection id held = held ∨ (collection = schemaCollection ∧ id = schemaKey ∧
      ∃ doc to_, op.leaves collection id held = some doc ∧ doc.asU64 = some to_ ∧
        ∀ old, docs.get schemaCollection schemaKey = some old → ∃ now, old.asU64 = some now ∧ now < to_) := by
  have elsewhere : ∀ other otherId, op.docCollection = some other → (other, otherId) = (collection, id) →
      ∃ to_, op.IsRaise to_ ∧ ∀ old, docs.get schemaCollection schemaKey = some old → ∃ now, old.asU64 = some now ∧ now < to_ := by
    intro other otherId named same
    rcases allowed with ordinary | raise
    · cases same
      exact absurd ⟨collection, named, reserved⟩ ordinary
    · exact raise
  cases op with
  | put other otherId doc =>
    simp only [Op.leaves]
    split
    · rename_i same
      obtain ⟨to_, ⟨doc', here, read, -⟩, above⟩ := elsewhere other otherId rfl same
      cases here
      obtain ⟨rfl, rfl⟩ := Prod.mk.inj same
      exact .inr ⟨rfl, rfl, doc, to_, rfl, read, above⟩
    · exact .inl rfl
  | delete other otherId =>
    simp only [Op.leaves]
    split
    · rename_i same
      obtain ⟨to_, ⟨doc', here, -⟩, -⟩ := elsewhere other otherId rfl same
      cases here
    · exact .inl rfl
  | _ => exact .inl rfl

variable {ops : List Op}

theorem applyOps_reservedKept (applied : applyOps engine state ops = .ok next)
    (allowed : ∀ op ∈ ops, op.Allowed state.docs) : ReservedKept state.docs next.docs := by
  constructor
  · intro collection id reserved other
    rw [applyOps_get applied]
    clear applied
    generalize state.docs.get collection id = held
    induction ops with
    | nil => rfl
    | cons op rest ih =>
      rw [foldl_cons]
      rcases (allowed op mem_cons_self).leaves reserved held with same | ⟨isSchema, isKey, -⟩
      · rw [same]
        exact ih fun op member => allowed op (mem_cons_of_mem _ member)
      · exact absurd ⟨isSchema, isKey⟩ other
  · rw [applyOps_get applied]
    clear applied
    -- Along the operations the version is the one before all of them, or a raise of it.
    have along : ∀ (held : Option Value),
        (held = state.docs.get schemaCollection schemaKey ∨ ∃ doc to_, held = some doc ∧ doc.asU64 = some to_ ∧
          ∀ old, state.docs.get schemaCollection schemaKey = some old → ∃ now, old.asU64 = some now ∧ now < to_) →
        (ops.foldl (fun held op => op.leaves schemaCollection schemaKey held) held = state.docs.get schemaCollection schemaKey ∨
          ∃ doc to_, ops.foldl (fun held op => op.leaves schemaCollection schemaKey held) held = some doc ∧
            doc.asU64 = some to_ ∧
            ∀ old, state.docs.get schemaCollection schemaKey = some old → ∃ now, old.asU64 = some now ∧ now < to_) := by
      induction ops with
      | nil => exact fun held so => so
      | cons op rest ih =>
        intro held so
        rw [foldl_cons]
        apply ih fun op member => allowed op (mem_cons_of_mem _ member)
        rcases (allowed op mem_cons_self).leaves isReserved_schemaCollection held with same | ⟨-, -, raised⟩
        · rw [same]
          exact so
        · exact .inr raised
    exact along _ (.inl rfl)

theorem schemaVersionIn_stored {get : String → String → Option Value} {version : Option Nat} {old : Value}
    (read : schemaVersionIn serde get = .ok version) (held : get schemaCollection schemaKey = some old) :
    ∃ now, old.asU64 = some now ∧ version = some now := by
  unfold schemaVersionIn at read
  rw [held] at read
  dsimp only at read
  split at read
  · rename_i now found
    cases read
    exact ⟨now, found, rfl⟩
  · cases read

theorem Admitted.allowed {version : Option Nat} (admitted : Admitted version ops kept) :
    ∀ op ∈ kept, ¬op.Reserved ∨ ∃ to_, op.IsRaise to_ ∧ ∀ now, version = some now → now < to_ := by
  induction admitted with
  | nil _ => exact fun op member => nomatch member
  | ordinary ordinary _ ih =>
    intro op member
    rcases mem_cons.mp member with rfl | later
    · exact .inl ordinary
    · exact ih op later
  | @raise version first rest kept to_ raise above _ ih =>
    intro op member
    rcases mem_cons.mp member with rfl | later
    · exact .inr ⟨to_, raise, above⟩
    · rcases ih op later with ordinary | ⟨higher, raise, more⟩
      · exact .inl ordinary
      · exact .inr ⟨higher, raise, fun now there => Nat.lt_trans (above now there) (more to_ rfl)⟩
  | dropped _ _ _ ih => exact ih

theorem Applies.reservedKept (applies : Applies engine serde state batches next) :
    ReservedKept state.docs next.docs := by
  induction applies with
  | nil state => exact .refl _
  | @cons state mid last batch rest version kept _ read admitted applied _ ih =>
    refine ReservedKept.trans (applyOps_reservedKept applied ?_) ih
    intro op member
    rcases admitted.allowed op member with ordinary | ⟨to_, raise, above⟩
    · exact .inl ordinary
    refine .inr ⟨to_, raise, ?_⟩
    intro old held
    obtain ⟨now, oldRead, same⟩ := schemaVersionIn_stored read held
    exact ⟨now, oldRead, above now same⟩

theorem refuseReserved_ok {what : String} {done : Unit} (ran : refuseReserved collection what = .ok done) :
    isReserved collection = false := by
  unfold refuseReserved at ran
  split at ran
  · cases ran
  · rename_i ordinary
    exact Bool.not_eq_true _ |>.mp ordinary

theorem admitRemoteOp_admits {found : Option SchemaOp} (ran : admitRemoteOp op = .ok found) :
    (found = none ∧ ¬op.Reserved) ∨ (∃ to_, found = some (.put to_) ∧ op.IsRaise to_) ∨ found = some .delete := by
  have ordinary : ∀ collection, op.docCollection = some collection → isReserved collection = false → ¬op.Reserved := by
    rintro collection named ordinary ⟨other, here, reserved⟩
    rw [named] at here
    cases here
    rw [ordinary] at reserved
    cases reserved
  have refused : ∀ {collection : String}, isReserved collection ≠ false →
      (do refuseReserved collection "commit_txn"; .ok none : Except StoreError (Option SchemaOp)) ≠ .ok found := by
    intro collection reserved ran
    obtain ⟨_, passed, -⟩ := bind_ok ran
    exact reserved (refuseReserved_ok passed)
  cases op with
  | put collection id doc =>
    simp only [admitRemoteOp] at ran
    split at ran
    · rename_i free
      cases ran
      exact .inl ⟨rfl, ordinary collection rfl free⟩
    rename_i reserved
    split at ran
    · rename_i here
      obtain ⟨rfl, rfl⟩ := here
      split at ran
      · rename_i to_ read
        split at ran
        · rename_i known
          cases ran
          refine .inr (.inl ⟨to_, rfl, doc, rfl, read, checkFormat_ok ?_⟩)
          rw [← Option.not_isSome, known]
          rfl
        · exact absurd ran (refused reserved)
      · exact absurd ran (refused reserved)
    · exact absurd ran (refused reserved)
  | delete collection id =>
    simp only [admitRemoteOp] at ran
    split at ran
    · rename_i free
      cases ran
      exact .inl ⟨rfl, ordinary collection rfl free⟩
    rename_i reserved
    split at ran
    · cases ran
      exact .inr (.inr rfl)
    · exact absurd ran (refused reserved)
  | _ =>
    cases ran
    refine .inl ⟨rfl, ?_⟩
    rintro ⟨_, here, -⟩
    cases here

theorem schemaOps_mem {versions : List SchemaOp} (ran : CommitTxn.schemaOps ops = .ok versions) :
    ∀ op ∈ ops, ∃ found, admitRemoteOp op = .ok found ∧ ∀ version, found = some version → version ∈ versions := by
  induction ops generalizing versions with
  | nil => exact fun op member => nomatch member
  | cons first rest ih =>
    obtain ⟨found, firstOk, others⟩ := bind_ok ran
    obtain ⟨later, laterOk, same⟩ := bind_ok others
    cases same
    intro op member
    rcases mem_cons.mp member with rfl | inRest
    · refine ⟨found, firstOk, ?_⟩
      rintro version rfl
      exact mem_append_left _ (mem_singleton.mpr rfl)
    · obtain ⟨own, ownOk, listed⟩ := ih laterOk op inRest
      exact ⟨own, ownOk, fun version held => mem_append_right _ (listed version held)⟩

theorem admitSchemaOp_raises {op : SchemaOp} {done : Unit} (holdsData : holdsOnlyMeta state = false)
    (ran : admitSchemaOp serde state op = .ok done) :
    ∃ to_, op = .put to_ ∧
      ∀ old, state.docs.get schemaCollection schemaKey = some old → ∃ now, old.asU64 = some now ∧ now < to_ := by
  obtain ⟨found, read, rest⟩ := bind_ok ran
  rw [holdsData] at rest
  cases op with
  | delete => cases rest
  | put to_ =>
    refine ⟨to_, rfl, ?_⟩
    intro old held
    obtain ⟨now, oldRead, rfl⟩ := schemaVersionIn_stored read held
    refine ⟨now, oldRead, ?_⟩
    dsimp only at rest
    split at rest
    · rename_i above
      exact of_decide_eq_true above
    · cases rest

variable {Digest : Type} [DecidableEq Digest] {reading : Reading Digest}

theorem commitTxn_reservedKept (medium : Medium) (commit : CommitTxn Digest) (holdsData : holdsOnlyMeta state = false) :
    ReservedKept state.docs (commitTxn engine serde reading medium state commit).2.docs := by
  rcases commitTxn_cases engine serde reading medium state commit with same | ⟨versions, versionsOk, -, admitted, filled, committed⟩
  · rw [same]
    exact .refl _
  obtain ⟨-, mid, applied, sameDocs⟩ := commitOps_ok filled committed
  rw [sameDocs]
  refine applyOps_reservedKept applied ?_
  intro op member
  obtain ⟨found, remote, listed⟩ := schemaOps_mem versionsOk op member
  rcases admitRemoteOp_admits remote with ⟨-, ordinary⟩ | ⟨to_, rfl, raise⟩ | rfl
  · exact .inl ordinary
  · obtain ⟨asked, same, above⟩ := admitSchemaOp_raises holdsData (admitted _ (listed _ rfl))
    cases same
    exact .inr ⟨to_, raise, above⟩
  · obtain ⟨asked, same, -⟩ := admitSchemaOp_raises holdsData (admitted _ (listed _ rfl))
    cases same

end Reserved

inductive StoreCall (Digest : Type) where
  | inbound (medium : Medium) (call : InboundCall) (batches : List SyncBatch)
  | remote (medium : Medium) (commit : CommitTxn Digest)

structure Served where
  state : DocState
  slot : AdapterSlot

section Runs

variable {Digest : Type} [DecidableEq Digest] (engine : Engine) (serde : SerdeJson) (reading : Reading Digest)

def Served.step (served : Served) : StoreCall Digest → Served × Except StoreError Unit
  | .inbound medium call batches =>
    let done := applySyncBatches engine serde medium call served.slot served.state batches
    (⟨done.2.1, done.2.2⟩, done.1.map fun _ => ())
  | .remote medium commit =>
    let done := commitTxn engine serde reading medium served.state commit
    (⟨done.2, served.slot⟩, done.1.map fun _ => ())

/-- A remote commit meets a store that holds something outside `__meta`. -/
def MeetsData (served : Served) : StoreCall Digest → Prop
  | .remote _ _ => holdsOnlyMeta served.state = false
  | .inbound _ _ _ => True

theorem Served.step_reservedKept (served : Served) {call : StoreCall Digest} (meets : MeetsData served call) :
    ReservedKept served.state.docs (served.step engine serde reading call).1.state.docs := by
  cases call with
  | inbound medium call batches =>
    rcases applySyncBatches_atomic engine serde medium call served.slot served.state batches with ⟨_, -, same⟩ | ⟨applies, -⟩
    · show ReservedKept served.state.docs (applySyncBatches engine serde medium call served.slot served.state batches).2.1.docs
      rw [same]
      exact .refl _
    · exact applies.reservedKept
  | remote medium commit => exact commitTxn_reservedKept medium commit meets

theorem run_reservedKept (served : Served) {calls : List (StoreCall Digest)}
    (meets : Machine.Throughout (Served.step engine serde reading) MeetsData served calls) :
    ReservedKept served.state.docs (run (Served.step engine serde reading) served calls).state.docs := by
  induction calls generalizing served with
  | nil => exact .refl _
  | cons call rest ih => exact (served.step_reservedKept engine serde reading meets.1).trans (ih _ meets.2)

/-- An apply of pulled batches changes nothing and fails, or applies every batch as one commit,
less the reserved operations that do not raise the schema version. Over any run of such applies and
of remote commits that each meet a store with data, the stored schema version is kept or raised and
every other reserved document stays. -/
theorem inbound_atomic_reserved_kept :
    (∀ (medium : Medium) (call : InboundCall) (slot : AdapterSlot) (state : DocState) (batches : List SyncBatch),
      (∃ err, (applySyncBatches engine serde medium call slot state batches).1 = .error err ∧
          (applySyncBatches engine serde medium call slot state batches).2.1 = state) ∨
        (Applies engine serde state batches (applySyncBatches engine serde medium call slot state batches).2.1 ∧
          (applySyncBatches engine serde medium call slot state batches).2.1.lastSeq = state.lastSeq + batches.length)) ∧
    ∀ (served : Served) (calls : List (StoreCall Digest)),
      Machine.Throughout (Served.step engine serde reading) MeetsData served calls →
      ReservedKept served.state.docs (run (Served.step engine serde reading) served calls).state.docs :=
  ⟨applySyncBatches_atomic engine serde, fun served _ meets => run_reservedKept engine serde reading served meets⟩

end Runs

namespace Sample

def quiet : InboundCall := ⟨none, none, true, none⟩

def idle : AdapterSlot := ⟨⟨0, [], none⟩, false, none⟩

def version (to_ : UInt64) : Value := ⟨.number (.posInt to_), trivial⟩

def withNote : DocState :=
  ⟨(Docs.empty.insert schemaCollection schemaKey (version 8)).insert "notes" "a" Value.null, ∅, ∅, 0⟩

def reservedBatch : SyncBatch := ⟨1, [.put "__peer" "a" Value.null, .put "notes" "b" Value.null]⟩

def raiseCommit : CommitTxn (List UInt8) := ⟨none, none, [], [.put schemaCollection schemaKey (version 9)]⟩

end Sample

/-- A batch, then a remote commit that raises the version, on a store with a document. -/
theorem inbound_atomic_reserved_kept_sample :
    (run (Served.step engine serde reading) ⟨withNote, idle⟩
      [.inbound inMemory quiet [reservedBatch], .remote inMemory raiseCommit]).state.lastSeq = 2 ∧
    ReservedKept withNote.docs
      (run (Served.step engine serde reading) ⟨withNote, idle⟩
        [.inbound inMemory quiet [reservedBatch],
          .remote inMemory raiseCommit]).state.docs := by
  refine ⟨by decide +kernel, ?_⟩
  refine (inbound_atomic_reserved_kept engine serde reading).2 ⟨withNote, idle⟩ _ ?_
  refine ⟨trivial, ?_, trivial⟩
  show holdsOnlyMeta _ = false
  decide +kernel

/-- A batch is applied as the next commit, and one of its operations is not. -/
theorem inbound_drops_reserved :
    (applySyncBatches engine serde inMemory quiet idle withNote
        [reservedBatch]).1 = .ok 1 ∧
      (applySyncBatches engine serde inMemory quiet idle withNote
        [reservedBatch]).2.1.lastSeq = 1 ∧
      (applySyncBatches engine serde inMemory quiet idle withNote
        [reservedBatch]).2.1.docs.get "__peer" "a" = none := by
  refine ⟨ok_of_toOption (by decide +kernel), by decide +kernel, ?_⟩
  rw [← Option.isNone_iff_eq_none]
  decide +kernel

end FerroLoop.Store
