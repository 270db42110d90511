import FerroLoop.Store.Container
import FerroLoop.Store.SlotCodec
import FerroLoop.Store.SnapshotCodec

namespace FerroLoop.Store

open Bytes Checked Disk List

structure Engine.KeepsMetadata (engine : Engine) : Prop where
  upsert : ∀ (held next : VectorCollection) (id : String) (bytes : List UInt8) (metadata : Option Value),
    engine.upsert held id bytes metadata = .ok next → ∀ (other : String) (record : VectorRecord),
      next.vectors[other]? = some record → record.metadata = metadata ∨
        ∃ old, held.vectors[other]? = some old ∧ record.metadata = old.metadata
  deleteId : ∀ (held next : VectorCollection) (id : String), engine.deleteId held id = .ok next →
    ∀ (other : String) (record : VectorRecord), next.vectors[other]? = some record →
      ∃ old, held.vectors[other]? = some old ∧ record.metadata = old.metadata

variable {frames : List Frame}

section Durable

variable {engine : Engine} {serde : SerdeJson}

variable {state : DocState}

theorem DocState.Durable.setVectors (durable : state.Durable engine serde) {name : String}
    {collection : VectorCollection} (survives : collection.Survives serde) :
    DocState.Durable engine serde { state with vectors := state.vectors.insert name collection } := by
  refine ⟨durable.docs, durable.tables, ?_, durable.seq⟩
  intro other held found
  rcases Map.insert_cases found with ⟨_, rfl⟩ | ⟨_, found⟩
  · exact survives
  · exact durable.vectors other held found

variable {next : DocState}

theorem applyOp_durable (keeps : engine.KeepsMetadata) {op : Op}
    (durable : state.Durable engine serde) (survive : ∀ value ∈ op.values, serde.Survives value)
    (applied : applyOp engine state op = .ok next) : next.Durable engine serde := by
  cases op with
  | put collection id doc =>
    cases applied
    refine ⟨?_, durable.tables, durable.vectors, durable.seq⟩
    intro other otherId held found
    rw [Docs.get_insert] at found
    split at found
    · cases found
      exact survive doc (by simp [Op.values])
    · exact durable.docs other otherId held found
  | delete collection id =>
    cases applied
    refine ⟨?_, durable.tables, durable.vectors, durable.seq⟩
    intro other otherId held found
    rw [Docs.get_remove] at found
    split at found
    · cases found
    · exact durable.docs other otherId held found
  | createColumnTable name columns =>
    obtain ⟨_, legal, same⟩ := bind_ok applied
    cases same
    refine ⟨durable.docs, ?_, durable.vectors, durable.seq⟩
    intro other table found
    rcases Map.insert_cases found with ⟨rfl, rfl⟩ | ⟨_, found⟩
    · -- The name is free, so the check that passed is the one of a fresh table.
      have free : state.tables.contains name = false := by
        rcases taken : state.tables.contains name with _ | _
        · rfl
        rw [taken] at legal
        obtain ⟨_, -, refused⟩ := bind_ok legal
        cases refused
      rw [free] at legal
      exact ⟨legal, by rintro _ ⟨⟩⟩
    · exact durable.tables other table found
  | appendColumnGroup name bytes =>
    simp only [applyOp] at applied
    split at applied
    · cases applied
    rename_i table held
    obtain ⟨_, valid, same⟩ := bind_ok applied
    cases same
    refine ⟨durable.docs, ?_, durable.vectors, durable.seq⟩
    intro other found_ found
    rcases Map.insert_cases found with ⟨rfl, rfl⟩ | ⟨_, found⟩
    · obtain ⟨legal, groups⟩ := durable.tables name table held
      refine ⟨legal, ?_⟩
      intro group member
      rcases mem_append.mp member with old | new
      · exact groups group old
      · rw [mem_singleton.mp new]
        exact valid
    · exact durable.tables other found_ found
  | createVectorCollection name params =>
    obtain ⟨_, -, rest⟩ := bind_ok applied
    split at rest
    · cases rest
    cases rest
    apply durable.setVectors
    intro id record held
    cases held
  | upsertVector collection id bytes metadata =>
    simp only [applyOp] at applied
    split at applied
    · cases applied
    rename_i held found
    obtain ⟨upserted, done, same⟩ := bind_ok applied
    cases same
    apply durable.setVectors
    intro other record inNext value inRecord
    rcases keeps.upsert _ _ _ _ _ done other record inNext with set | ⟨old, inHeld, kept⟩
    · rw [set] at inRecord
      exact survive value inRecord
    · rw [kept] at inRecord
      exact durable.vectors collection held found other old inHeld value inRecord
  | deleteVector collection id =>
    simp only [applyOp] at applied
    split at applied
    · cases applied
    rename_i held found
    obtain ⟨deleted, done, same⟩ := bind_ok applied
    cases same
    apply durable.setVectors
    intro other record inNext value inRecord
    obtain ⟨old, inHeld, kept⟩ := keeps.deleteId _ _ _ done other record inNext
    rw [kept] at inRecord
    exact durable.vectors collection held found other old inHeld value inRecord

theorem applyOps_durable (keeps : engine.KeepsMetadata) {ops : List Op}
    (durable : state.Durable engine serde) (survive : ∀ op ∈ ops, ∀ value ∈ op.values, serde.Survives value)
    (applied : applyOps engine state ops = .ok next) : next.Durable engine serde := by
  induction ops generalizing state with
  | nil => cases applied; exact durable
  | cons op rest ih =>
    obtain ⟨mid, first, others⟩ := bind_ok applied
    exact ih (applyOp_durable keeps durable (survive op mem_cons_self) first)
      (fun op member => survive op (mem_cons_of_mem _ member)) others

theorem Extends.durable (keeps : engine.KeepsMetadata) {first last : DocState}
    (extends_ : Extends engine first frames last) (durable : first.Durable engine serde)
    (survive : FramesSurvive serde frames) : last.Durable engine serde := by
  induction extends_ with
  | nil state => exact durable
  | cons fits applied _ ih =>
    have next := applyOps_durable keeps durable (survive _ mem_cons_self) applied
    exact ih ⟨next.docs, next.tables, next.vectors, fits⟩ fun frame member => survive frame (mem_cons_of_mem _ member)

end Durable

variable {first last : DocState} {frames : List Frame} {engine : Engine}

theorem Extends.split {front back : List Frame}
    (extends_ : Extends engine first (front ++ back) last) :
    ∃ mid, Extends engine first front mid ∧ Extends engine mid back last := by
  induction front generalizing first with
  | nil => exact ⟨first, .nil first, extends_⟩
  | cons frame rest ih =>
    cases extends_ with
    | cons fits applied tail =>
      obtain ⟨mid, head, others⟩ := ih tail
      exact ⟨mid, .cons fits applied head, others⟩

variable {other : DocState}

theorem Extends.unique
    (extends_ : Extends engine first frames last) (again : Extends engine first frames other) : last = other := by
  have applied := extends_.applyFrames
  rw [again.applyFrames] at applied
  cases applied
  rfl

variable {serde : SerdeJson}

theorem decodeWalPrefix_append {wal : List UInt8}
    (encoded : Encoded serde frames wal) (small : ∀ frame ∈ frames, frame.1 < u64Max)
    (survive : FramesSurvive serde frames) (rest : List UInt8) :
    decodeWalPrefix serde (wal ++ rest) = (do
      let (later, consumed) ← decodeWalPrefix serde rest
      .ok (frames ++ later, wal.length + consumed)) := by
  induction encoded with
  | nil =>
    rw [nil_append]
    cases decodeWalPrefix serde rest with
    | error err => rfl
    | ok decoded => exact congrArg Except.ok (Prod.ext rfl (Nat.zero_add decoded.2).symm)
  | @cons seq ops frame others wal wrote _ ih =>
    have tail := ih (fun f member => small f (mem_cons_of_mem _ member))
      (fun f member => survive f (mem_cons_of_mem _ member))
    rw [append_assoc, decodeWalPrefix_frame (small _ mem_cons_self) (survive _ mem_cons_self) wrote, tail]
    rcases decodeWalPrefix serde rest with err | decoded
    · rfl
    refine congrArg Except.ok (Prod.ext rfl ?_)
    show frame.length + (wal.length + decoded.2) = (frame ++ wal).length + decoded.2
    rw [length_append, Nat.add_assoc]

theorem Extends.replayFrames
    (extends_ : Extends engine first frames last) : replayFrames engine first frames = .ok (some last) := by
  induction extends_ with
  | nil state => rfl
  | @cons state mid last ops rest fits applied _ ih =>
    have next : checkedAdd state.lastSeq 1 = some (state.lastSeq + 1) := if_pos fits
    have staged := stageAll_empty engine state ops
    rw [applied] at staged
    rcases overlayOk : Overlay.empty.stageAll engine state ops with err | overlay
    · rw [overlayOk] at staged; cases staged
    rw [overlayOk] at staged
    have same : overlay.apply state = mid := Except.ok.inj staged
    rw [Store.replayFrames, next, if_neg (fun differ => differ rfl), stageOps, nextSeq, next]
    simp only [ok_bind, overlayOk, publishOverlay, same]
    exact ih

/-! ### A superblock and the state it names -/

structure Contents (engine : Engine) (serde : SerdeJson) (file : Image) (sb : Superblock) (snapshot : DocState)
    (frames : List Frame) : Prop where
  decodes : decodeSnapshot engine serde (slice file sb.snapshotOffset sb.snapshotLength) =
    .ok ⟨snapshot.lastSeq, snapshot.docs, snapshot.tables, snapshot.vectors⟩
  seq : snapshot.lastSeq = sb.snapshotSeq
  encoded : Encoded serde frames (slice file sb.walOffset sb.walLength)
  survive : FramesSurvive serde frames

/-- The file holds this state under this superblock: the extents follow each other inside the
file, and the snapshot with the frames of the WAL makes the state. -/
structure Holds (engine : Engine) (serde : SerdeJson) (file : Image) (sb : Superblock) (state : DocState) : Prop where
  fits : sb.Fits
  adjacent : sb.snapshotOffset + sb.snapshotLength = sb.walOffset
  filled : 0 < sb.snapshotLength
  inside : sb.walOffset + sb.walLength ≤ file.length
  contents : ∃ snapshot frames, Contents engine serde file sb snapshot frames ∧ Extends engine snapshot frames state
  durable : state.Durable engine serde

namespace Holds

variable {engine : Engine} {serde : SerdeJson} {file next : Image} {sb : Superblock} {state : DocState}

section

variable (holds : Holds engine serde file sb state)

include holds

theorem kept (kept : Kept headerBytes (sb.walOffset + sb.walLength) file next) : Holds engine serde next sb state := by
  obtain ⟨snapshot, frames, contents, reaches⟩ := holds.contents
  have above := holds.fits.snapshot.1
  have follows := holds.adjacent
  refine ⟨holds.fits, holds.adjacent, holds.filled, kept.reaches, ⟨snapshot, frames, ?_, reaches⟩, holds.durable⟩
  refine ⟨?_, contents.seq, ?_, contents.survive⟩
  · rw [kept.slice above (by omega)]
    exact contents.decodes
  · rw [kept.slice (by omega) (Nat.le_refl _)]
    exact contents.encoded

theorem readRange_wal :
    readRange file sb.walOffset sb.walLength = .ok (slice file sb.walOffset sb.walLength) := by
  have inside := holds.inside
  unfold readRange
  split
  · rename_i empty
    rw [empty]
    rfl
  have bound : checkedAdd sb.walOffset sb.walLength = some (sb.walOffset + sb.walLength) := if_pos holds.fits.wal.2
  rw [bound]
  simp only
  rw [if_neg (by omega)]

theorem loadSnapshot {snapshot : DocState}
    (contents : Contents engine serde file sb snapshot frames) : loadSnapshot engine serde file sb = .ok snapshot := by
  have inside := holds.inside
  have follows := holds.adjacent
  have filled := holds.filled
  have bound : checkedAdd sb.snapshotOffset sb.snapshotLength = some (sb.snapshotOffset + sb.snapshotLength) :=
    if_pos holds.fits.snapshot.2
  have read : readRange file sb.snapshotOffset sb.snapshotLength =
      .ok (slice file sb.snapshotOffset sb.snapshotLength) := by
    rw [readRange, if_neg (by omega), bound]
    simp only
    rw [if_neg (by omega)]
  rw [Store.loadSnapshot, if_neg (by omega), read, ok_bind, contents.decodes, ok_bind]
  simp only [contents.seq, ne_eq, not_true_eq_false, ↓reduceIte]
  rw [← contents.seq]

theorem loadState : loadState engine serde file sb = .ok (state, sb.walLength) := by
  obtain ⟨snapshot, frames, contents, reaches⟩ := holds.contents
  have decoded := decodeWalPrefix_encoded contents.encoded reaches.seq_lt contents.survive
  rw [slice_length holds.inside] at decoded
  rw [Store.loadState, holds.loadSnapshot contents, ok_bind, holds.readRange_wal, ok_bind, decoded, ok_bind]
  simp only
  rw [← contents.seq, reaches.applyFrames]
  rfl

theorem unique (again : Holds engine serde file sb other) :
    state = other := by
  have loaded := holds.loadState
  rw [again.loadState] at loaded
  cases loaded
  rfl

theorem replayTail {older : DiskCache}
    (held : Holds engine serde file older.sb older.state) (follows : tailFollows older sb = true) :
    replayTail engine serde file older sb = .ok (some ⟨older.fileId, sb, state, sb.walLength⟩) := by
  simp only [tailFollows, Bool.and_eq_true, beq_iff_eq, decide_eq_true_eq] at follows
  obtain ⟨⟨⟨⟨⟨⟨applied, -⟩, sameOffset⟩, sameLength⟩, sameSeq⟩, sameWal⟩, longer⟩ := follows
  obtain ⟨snapshot, frames, contents, reaches⟩ := holds.contents
  obtain ⟨base, front, before, reached⟩ := held.contents
  have inside := holds.inside
  have fits := holds.fits.wal.2
  -- Both start from the same snapshot.
  have sameBase : base = snapshot := by
    have decoded := before.decodes
    rw [← sameOffset, ← sameLength, contents.decodes] at decoded
    obtain ⟨seq, docs, tables, vectors⟩ := Snapshot.mk.inj (Except.ok.inj decoded)
    exact (DocState.ext docs tables vectors seq).symm
  -- The longer WAL is the older one and a tail, and so are its frames.
  have total : sb.walLength = older.sb.walLength + (sb.walLength - older.sb.walLength) := by omega
  have bytes : slice file sb.walOffset sb.walLength = slice file older.sb.walOffset older.sb.walLength ++
      slice file (sb.walOffset + older.sb.walLength) (sb.walLength - older.sb.walLength) := by
    conv => lhs; rw [total]
    rw [slice_append, sameWal]
  have whole := decodeWalPrefix_encoded contents.encoded reaches.seq_lt contents.survive
  rw [bytes, decodeWalPrefix_append before.encoded reached.seq_lt before.survive] at whole
  obtain ⟨⟨later, consumed⟩, tail, same⟩ := bind_ok whole
  obtain ⟨rfl, covered⟩ := Prod.mk.inj (Except.ok.inj same)
  rw [length_append, slice_length held.inside, slice_length (by omega)] at covered
  subst sameBase
  obtain ⟨mid, first, second⟩ := reaches.split
  have here : mid = older.state := first.unique reached
  subst here
  have start : checkedAdd sb.walOffset older.walApplied = some (sb.walOffset + older.sb.walLength) := by
    rw [applied]
    exact if_pos (by omega)
  have read : readRange file (sb.walOffset + older.sb.walLength) (sb.walLength - older.walApplied) =
      .ok (slice file (sb.walOffset + older.sb.walLength) (sb.walLength - older.sb.walLength)) := by
    have bound : checkedAdd (sb.walOffset + older.sb.walLength) (sb.walLength - older.sb.walLength) =
        some (sb.walOffset + sb.walLength) := by
      rw [checkedAdd, if_pos (by omega)]
      exact congrArg some (by omega)
    rw [applied, readRange, if_neg (by omega), bound]
    simp only
    rw [if_neg (by omega)]
  rw [Store.replayTail, start]
  simp only
  rw [read, ok_bind, tail, ok_bind]
  simp only [second.replayFrames, ok_bind, applied]
  congr 4
  omega

end

end Holds

def DiskCache.Sound (engine : Engine) (serde : SerdeJson) (file : Image) (cached : DiskCache) : Prop :=
  Holds engine serde file cached.sb cached.state ∧ cached.walApplied = cached.sb.walLength

theorem advance_holds {file : Image} {fileId : FileId} {cached : Option DiskCache}
    {sb : Superblock} {state : DocState} (holds : Holds engine serde file sb state)
    (sound : ∀ held, cached = some held → held.fileId = fileId → held.Sound engine serde file) :
    advance engine serde file fileId cached sb = .ok ⟨fileId, sb, state, sb.walLength⟩ := by
  have full : loadFull engine serde file fileId sb = .ok ⟨fileId, sb, state, sb.walLength⟩ := by
    rw [loadFull, holds.loadState]
    rfl
  rcases cached with _ | held
  · exact full
  unfold advance
  simp only
  split
  · rename_i same
    obtain ⟨sameFile, sameSb⟩ := same
    obtain ⟨heldHolds, applied⟩ := sound held rfl sameFile
    obtain ⟨heldFile, heldSb, heldState, walApplied⟩ := held
    simp only at sameFile sameSb heldHolds applied
    subst sameFile sameSb applied
    rw [heldHolds.unique holds]
  · split
    · rename_i follows
      obtain ⟨heldHolds, applied⟩ := sound held rfl follows.1
      rw [holds.replayTail heldHolds follows.2]
      simp only [follows.1]
    · exact full

end FerroLoop.Store
