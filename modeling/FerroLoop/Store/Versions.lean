import FerroLoop.Store.Container
import FerroLoop.Store.Inbound

namespace FerroLoop.Store

open Checked Disk

def openWith (engine : Engine) (serde : SerdeJson) (file : Image) : Except StoreError DocState := do
  let state ← reopen engine serde file
  match ← schemaVersionIn serde state.docs.get with
  | some found => do
    checkFormat (some found)
    .ok state
  | none => .ok state

def IsVersionKey (collection id : String) : Prop :=
  (collection = schemaCollection ∧ id = schemaKey) ∨ (collection = "meta" ∧ id = "format_version")

def Value.OnLadder (doc : Value) : Prop := ∃ version ∈ formatLadder, doc.asU64 = some version

def Op.Versioned : Op → Prop
  | .put collection id doc => IsVersionKey collection id → doc.OnLadder
  | _ => True

def Docs.Versioned (docs : Docs) : Prop :=
  ∀ collection id doc, IsVersionKey collection id → docs.get collection id = some doc → doc.OnLadder

def Op.leaves (collection id : String) (held : Option Value) : Op → Option Value
  | .put other otherId doc => if (other, otherId) = (collection, id) then some doc else held
  | .delete other otherId => if (other, otherId) = (collection, id) then none else held
  | _ => held

section Documents

variable {engine : Engine} {state next : DocState}

theorem applyOp_get {op : Op} (applied : applyOp engine state op = .ok next) (collection id : String) :
    next.docs.get collection id = op.leaves collection id (state.docs.get collection id) := by
  cases op with
  | put other otherId doc =>
    cases applied
    exact Docs.get_insert ..
  | delete other otherId =>
    cases applied
    exact Docs.get_remove ..
  | createColumnTable name columns =>
    obtain ⟨_, -, same⟩ := bind_ok applied
    cases same
    rfl
  | appendColumnGroup name bytes =>
    simp only [applyOp] at applied
    split at applied
    · cases applied
    · obtain ⟨_, -, same⟩ := bind_ok applied
      cases same
      rfl
  | createVectorCollection name params =>
    obtain ⟨_, -, rest⟩ := bind_ok applied
    split at rest
    · cases rest
    · cases rest
      rfl
  | upsertVector name vector bytes metadata | deleteVector name vector =>
    simp only [applyOp] at applied
    split at applied
    · cases applied
    · obtain ⟨_, -, same⟩ := bind_ok applied
      cases same
      rfl

variable {ops : List Op}

theorem applyOps_get (applied : applyOps engine state ops = .ok next) (collection id : String) :
    next.docs.get collection id = ops.foldl (fun held op => op.leaves collection id held) (state.docs.get collection id) := by
  induction ops generalizing state with
  | nil => cases applied; rfl
  | cons op rest ih =>
    obtain ⟨mid, first, others⟩ := bind_ok applied
    rw [ih others, applyOp_get first, List.foldl_cons]

theorem applyOps_versioned (versioned : state.docs.Versioned) (all : ∀ op ∈ ops, op.Versioned)
    (applied : applyOps engine state ops = .ok next) : next.docs.Versioned := by
  intro collection id doc key found
  rw [applyOps_get applied] at found
  have start : ∀ held, state.docs.get collection id = some held → held.OnLadder :=
    fun held there => versioned collection id held key there
  generalize state.docs.get collection id = before at found start
  clear applied
  induction ops generalizing before with
  | nil => exact start doc found
  | cons op rest ih =>
    refine ih (fun later member => all later (List.mem_cons_of_mem _ member)) _ found ?_
    intro held left
    have own := all op List.mem_cons_self
    cases op with
    | put other otherId put =>
      simp only [Op.leaves] at left
      split at left
      · rename_i same
        cases left
        obtain ⟨rfl, rfl⟩ := Prod.mk.inj same
        exact own key
      · exact start held left
    | delete other otherId =>
      simp only [Op.leaves] at left
      split at left
      · cases left
      · exact start held left
    | _ => exact start held left

theorem Extends.versioned {frames : List Frame} (extends_ : Extends engine state frames next) (versioned : state.docs.Versioned)
    (all : ∀ frame ∈ frames, ∀ op ∈ frame.2, op.Versioned) : next.docs.Versioned := by
  induction extends_ with
  | nil state => exact versioned
  | cons fits applied _ ih =>
    have mid := applyOps_versioned versioned (all _ List.mem_cons_self) applied
    exact ih mid fun frame member => all frame (List.mem_cons_of_mem _ member)

theorem openWith_versioned {serde : SerdeJson} {file : Image} (versioned : state.docs.Versioned)
    (reopened : reopen engine serde file = .ok state) : openWith engine serde file = .ok state := by
  have checks : ∀ collection id doc, IsVersionKey collection id → state.docs.get collection id = some doc →
      ∃ version ∈ formatLadder, doc.asU64 = some version := versioned
  rw [openWith, reopened, ok_bind]
  unfold schemaVersionIn
  split
  · rename_i doc found
    obtain ⟨version, known, read⟩ := checks _ _ doc (.inl ⟨rfl, rfl⟩) found
    simp only [read, ok_bind, checkFormat, known, ↓reduceIte]
  split
  · rename_i doc found
    obtain ⟨version, known, read⟩ := checks _ _ doc (.inr ⟨rfl, rfl⟩) found
    simp only [read, ok_bind, checkFormat, known, ↓reduceIte]
  · rfl

end Documents

def Op.IsRaise (op : Op) (to_ : Nat) : Prop :=
  ∃ doc : Value, op = .put schemaCollection schemaKey doc ∧ doc.asU64 = some to_ ∧ to_ ∈ formatLadder

def Op.docCollection : Op → Option String
  | .put collection _ _ => some collection
  | .delete collection _ => some collection
  | _ => none

def Op.Reserved (op : Op) : Prop := ∃ collection, op.docCollection = some collection ∧ isReserved collection = true

theorem checkFormat_ok {to_ : Nat} (known : (checkFormat (some to_)).toOption.isNone = false) : to_ ∈ formatLadder := by
  unfold checkFormat at known
  dsimp only at known
  split at known
  · assumption
  · cases known

theorem admitInbound_admits {op kept : Op} {version after : Option Nat}
    (admitted : admitInbound op version = .ok (some kept, after)) :
    (¬op.Reserved ∧ after = version) ∨
      ∃ to_, op.IsRaise to_ ∧ after = some to_ ∧ ∀ now, version = some now → now < to_ := by
  have reserved : ∀ {raise : Option Nat}, admitReserved op version raise = .ok (some kept, after) →
      ∃ to_, raise = some to_ ∧ to_ ∈ formatLadder ∧ after = some to_ ∧ ∀ now, version = some now → now < to_ := by
    intro raise ran
    unfold admitReserved at ran
    split at ran
    · cases ran
    rename_i to_
    obtain ⟨_, -, rest⟩ := bind_ok ran
    split at rest
    · cases rest
    rename_i fine
    cases rest
    simp only [Bool.or_eq_true, not_or, Bool.not_eq_true] at fine
    refine ⟨to_, rfl, checkFormat_ok fine.1, rfl, ?_⟩
    rintro now rfl
    have above := fine.2
    simp only [Option.any_some, decide_eq_false_iff_not, Nat.not_le] at above
    exact above
  cases op with
  | put collection id doc =>
    simp only [admitInbound] at admitted
    split at admitted
    · obtain ⟨to_, raise, known, rest⟩ := reserved admitted
      split at raise
      · rename_i here
        obtain ⟨rfl, rfl⟩ := here
        exact .inr ⟨to_, ⟨doc, rfl, raise, known⟩, rest⟩
      · cases raise
    · rename_i ordinary
      cases admitted
      refine .inl ⟨?_, rfl⟩
      rintro ⟨_, here, isReserved⟩
      cases here
      exact ordinary isReserved
  | delete collection id =>
    simp only [admitInbound] at admitted
    split at admitted
    · obtain ⟨to_, raise, -⟩ := reserved admitted
      cases raise
    rename_i ordinary
    cases admitted
    refine .inl ⟨?_, rfl⟩
    rintro ⟨_, here, isReserved⟩
    cases here
    exact ordinary isReserved
  | _ =>
    cases admitted
    refine .inl ⟨?_, rfl⟩
    rintro ⟨_, here, -⟩
    cases here

end FerroLoop.Store
