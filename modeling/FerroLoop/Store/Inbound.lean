import FerroLoop.Store.Replay

namespace FerroLoop.Store

open Checked List

structure SyncBatch where
  seq : Nat
  ops : List Op

def formatLadder : List Nat := [2, 3, 4, 5, 6, 7, 8, 9]

def checkFormat (found : Option Nat) : Except StoreError Unit :=
  match found with
  | some version => if version ∈ formatLadder then .ok () else .error (.formatVersion found 2 9)
  | none => .error (.formatVersion found 2 9)

def schemaCollection : String := "__meta"
def schemaKey : String := "schema_version"

def isReserved (collection : String) : Bool := collection.startsWith "__"

/-- `Value::as_u64`. -/
def Value.asU64 (value : Value) : Option Nat :=
  match value.tree with
  | .number (.posInt n) => some n.toNat
  | _ => none

def SerdeJson.text (serde : SerdeJson) (value : Value) : String :=
  (String.fromUTF8? ⟨(serde.toVec value).toArray⟩).getD ""

/-- The schema version of the documents `get` reads, under its own key or the older one. -/
def schemaVersionIn (serde : SerdeJson) (get : String → String → Option Value) : Except StoreError (Option Nat) :=
  let read (collection id : String) (doc : Value) : Except StoreError (Option Nat) :=
    match doc.asU64 with
    | some version => .ok (some version)
    | none => .error (.decode
        s!"the schema version at `{collection}`/`{id}` is not an unsigned integer: {serde.text doc}")
  match get schemaCollection schemaKey with
  | some doc => read schemaCollection schemaKey doc
  | none =>
    match get "meta" "format_version" with
    | some doc => read "meta" "format_version" doc
    | none => .ok none

def refuseNewer (to_ : Nat) : Except StoreError Unit :=
  if formatLadder.all fun known => decide (known < to_) then checkFormat (some to_) else .ok ()

def admitReserved (op : Op) (version raise : Option Nat) : Except StoreError (Option Op × Option Nat) :=
  match raise with
  | none => .ok (none, version)
  | some to_ => do
    refuseNewer to_
    if (checkFormat (some to_)).toOption.isNone || version.any fun now => decide (to_ ≤ now) then .ok (none, version)
    else .ok (some op, some to_)

def admitInbound (op : Op) (version : Option Nat) : Except StoreError (Option Op × Option Nat) :=
  match op with
  | .put collection id doc =>
    if isReserved collection then
      admitReserved op version (if collection = schemaCollection ∧ id = schemaKey then doc.asU64 else none)
    else .ok (some op, version)
  | .delete collection _ => if isReserved collection then admitReserved op version none else .ok (some op, version)
  | _ => .ok (some op, version)

/-- The operations of a batch that are applied, in order. -/
def admitAll (version : Option Nat) : List Op → Except StoreError (List Op)
  | [] => .ok []
  | op :: rest => do
    let (admitted, version) ← admitInbound op version
    let later ← admitAll version rest
    .ok (admitted.toList ++ later)

def Overlay.doc (overlay : Overlay) (base : DocState) (collection id : String) : Option Value :=
  match overlay.docs[(collection, id)]? with
  | some staged => staged
  | none => base.docs.get collection id

/-- The batches from the sequence `expect` on, staged over what is staged already. -/
def prepareFrom (engine : Engine) (serde : SerdeJson) (state : DocState) (overlay : Overlay) (expect : Nat) :
    List SyncBatch → Except StoreError (Overlay × Nat × List Frame)
  | [] => .ok (overlay, expect, [])
  | batch :: rest =>
    match checkedAdd expect 1 with
    | none => .error (backend "transaction sequence overflow")
    | some next =>
      if batch.seq ≠ next ∨ batch.ops.isEmpty then
        .error (backend s!"sync batch sequence {batch.seq} is not the next commit {next}")
      else do
        let version ← schemaVersionIn serde (overlay.doc state)
        let ops ← admitAll version batch.ops
        let overlay ← overlay.stageAll engine state ops
        let (overlay, last, prepared) ← prepareFrom engine serde state overlay next rest
        .ok (overlay, last, (batch.seq, ops) :: prepared)

def prepareSyncBatches (engine : Engine) (serde : SerdeJson) (state : DocState) (batches : List SyncBatch) :
    Except StoreError (Overlay × Nat × List Frame) :=
  prepareFrom engine serde state Overlay.empty state.lastSeq batches

variable {version : Option Nat} {ops : List Op} {after : Option Nat}

theorem admitReserved_sub {op kept : Op} {raise : Option Nat}
    (admitted : admitReserved op version raise = .ok (some kept, after)) : kept = op := by
  unfold admitReserved at admitted
  split at admitted
  · cases admitted
  obtain ⟨_, -, rest⟩ := bind_ok admitted
  split at rest
  · cases rest
  · cases rest
    rfl

theorem admitInbound_sub {op kept : Op}
    (admitted : admitInbound op version = .ok (some kept, after)) : kept = op := by
  unfold admitInbound at admitted
  split at admitted
  · split at admitted
    · exact admitReserved_sub admitted
    · cases admitted
      rfl
  · split at admitted
    · exact admitReserved_sub admitted
    · cases admitted
      rfl
  · cases admitted
    rfl

theorem admitAll_sub {admitted : List Op} (ran : admitAll version ops = .ok admitted) :
    ∀ op ∈ admitted, op ∈ ops := by
  induction ops generalizing version admitted with
  | nil => cases ran; exact fun op member => member
  | cons first rest ih =>
    obtain ⟨⟨kept, after⟩, firstOk, others⟩ := bind_ok ran
    obtain ⟨later, laterOk, same⟩ := bind_ok others
    cases same
    intro op member
    rcases mem_append.mp member with own | later
    · cases kept with
      | none => cases own
      | some kept =>
        rw [mem_singleton.mp own, admitInbound_sub firstOk]
        exact mem_cons_self
    · exact mem_cons_of_mem _ (ih laterOk op later)

variable {engine : Engine} {overlay : Overlay}

theorem stageAll_over {base : DocState} {next : Overlay}
    (isOver : overlay.Over base) (staged : overlay.stageAll engine base ops = .ok next) : next.Over base := by
  induction ops generalizing overlay with
  | nil => cases staged; exact isOver
  | cons op rest ih =>
    obtain ⟨mid, first, others⟩ := bind_ok staged
    exact ih (Overlay.stage_over engine isOver first) others

theorem applyOp_lastSeq (engine : Engine) (state : DocState) (op : Op) (seq : Nat) :
    applyOp engine { state with lastSeq := seq } op =
      (applyOp engine state op).map fun next => { next with lastSeq := seq } := by
  cases op with
  | put collection id doc => rfl
  | delete collection id => rfl
  | createColumnTable name columns =>
    simp only [applyOp]
    cases checkNewTable (state.tables.contains name) name columns <;> rfl
  | appendColumnGroup name bytes =>
    simp only [applyOp]
    cases state.tables[name]? with
    | none => rfl
    | some table =>
      simp only
      cases engine.validateRowGroup table.columns bytes <;> rfl
  | createVectorCollection name params =>
    simp only [applyOp]
    cases checkCreate name params with
    | error err => rfl
    | ok _ =>
      split <;> rfl
  | upsertVector collection id bytes metadata =>
    simp only [applyOp]
    cases state.vectors[collection]? with
    | none => rfl
    | some held =>
      simp only
      cases engine.upsert held id bytes metadata <;> rfl
  | deleteVector collection id =>
    simp only [applyOp]
    cases state.vectors[collection]? with
    | none => rfl
    | some held =>
      simp only
      cases engine.deleteId held id <;> rfl

variable {state : DocState}

theorem applyOps_lastSeq {next : DocState} (applied : applyOps engine state ops = .ok next)
    (seq : Nat) : applyOps engine { state with lastSeq := seq } ops = .ok { next with lastSeq := seq } := by
  induction ops generalizing state with
  | nil => cases applied; rfl
  | cons op rest ih =>
    rw [applyOps, foldlM_cons] at applied ⊢
    obtain ⟨mid, first, others⟩ := bind_ok applied
    rw [applyOp_lastSeq, first]
    exact ih others

theorem prepareFrom_extends {serde : SerdeJson} {batches : List SyncBatch}
    {last : Overlay} {expect seq : Nat} {prepared : List Frame} (isOver : overlay.Over state)
    (ran : prepareFrom engine serde state overlay expect batches = .ok (last, seq, prepared)) :
    Extends engine (publishOverlay state overlay expect) prepared (publishOverlay state last seq) ∧
      ∀ frame ∈ prepared, ∀ op ∈ frame.2, ∃ batch ∈ batches, op ∈ batch.ops := by
  induction batches generalizing overlay expect prepared with
  | nil =>
    cases ran
    exact ⟨.nil _, fun frame member => nomatch member⟩
  | cons batch rest ih =>
    unfold prepareFrom at ran
    split at ran
    · cases ran
    rename_i next added
    have sum : next = expect + 1 ∧ expect + 1 < u64Max := by
      unfold checkedAdd at added
      split at added
      · cases added; exact ⟨rfl, ‹_›⟩
      · cases added
    obtain ⟨rfl, fits⟩ := sum
    split at ran
    · cases ran
    rename_i inOrder
    have own : batch.seq = expect + 1 := Decidable.not_not.mp fun other => inOrder (.inl other)
    obtain ⟨version, -, afterVersion⟩ := bind_ok ran
    obtain ⟨ops, admitted, afterOps⟩ := bind_ok afterVersion
    obtain ⟨mid, staged, afterStage⟩ := bind_ok afterOps
    obtain ⟨⟨later, lastSeq, others⟩, laterOk, same⟩ := bind_ok afterStage
    cases same
    obtain ⟨reaches, fromBatches⟩ := ih (stageAll_over isOver staged) laterOk
    have applied := Overlay.stageAll_apply engine ops isOver
    rw [staged] at applied
    have first : applyOps engine (publishOverlay state overlay expect) ops =
        .ok { mid.apply state with lastSeq := expect } :=
      applyOps_lastSeq applied.symm expect
    refine ⟨?_, ?_⟩
    · rw [own]
      exact .cons fits first reaches
    intro frame member op inFrame
    rcases mem_cons.mp member with same | old
    · subst same
      exact ⟨batch, mem_cons_self, admitAll_sub admitted op inFrame⟩
    · obtain ⟨other, inRest, inOther⟩ := fromBatches frame old op inFrame
      exact ⟨other, mem_cons_of_mem _ inRest, inOther⟩

end FerroLoop.Store
