import FerroLoop.Store.TornTail
import FerroLoop.Store.Versions

namespace FerroLoop.Store

open Checked Disk List Sample Store.Stored Running

/-! ### Operations that a reopened store takes back -/

structure Op.Restored (serde : SerdeJson) (op : Op) : Prop where
  values : ∀ value ∈ op.values, serde.Readable value
  version : op.Versioned

def Request.Restored (serde : SerdeJson) : Request → Prop
  | .write members => ∀ body ∈ members, ∀ (state : DocState) (ops : List Op), body state = .ok ops →
      ∀ op ∈ ops, op.Restored serde
  | .sync batches => ∀ batch ∈ batches, ∀ op ∈ batch.ops, ¬op.Reserved → op.Restored serde
  | _ => True

theorem Op.IsRaise.restored {serde : SerdeJson} {op : Op} {to_ : Nat} (raise : op.IsRaise to_) : op.Restored serde := by
  obtain ⟨⟨tree, canonical⟩, rfl, read, known⟩ := raise
  refine ⟨?_, fun _ => ⟨to_, known, read⟩⟩
  intro value member
  rw [mem_singleton.mp member]
  unfold Value.asU64 at read
  split at read
  · rename_i number same
    subst same
    exact ⟨Nat.zero_le _, by rintro _ ⟨⟩⟩
  · cases read

theorem admitAll_restored {serde : SerdeJson} {version : Option Nat} {ops admitted : List Op}
    (restored : ∀ op ∈ ops, ¬op.Reserved → op.Restored serde) (ran : admitAll version ops = .ok admitted) :
    ∀ op ∈ admitted, op.Restored serde := by
  induction ops generalizing version admitted with
  | nil => cases ran; exact fun op member => nomatch member
  | cons first rest ih =>
    obtain ⟨⟨kept, after⟩, firstOk, others⟩ := bind_ok ran
    obtain ⟨later, laterOk, same⟩ := bind_ok others
    cases same
    intro op member
    rcases mem_append.mp member with own | inLater
    · rcases kept with _ | kept
      · cases own
      rw [mem_singleton.mp own, admitInbound_sub firstOk]
      rcases admitInbound_admits firstOk with ⟨ordinary, -⟩ | ⟨to_, raise, -⟩
      · exact restored first mem_cons_self ordinary
      · exact raise.restored
    · exact ih (fun op member => restored op (mem_cons_of_mem _ member)) laterOk op inLater

variable {state : DocState} {overlay : Overlay} {seq : Nat} {prepared : List Frame}

theorem prepareFrom_restored {engine : Engine} {serde : SerdeJson} {batches : List SyncBatch}
    {last : Overlay} {expect : Nat}
    (restored : ∀ batch ∈ batches, ∀ op ∈ batch.ops, ¬op.Reserved → op.Restored serde)
    (ran : prepareFrom engine serde state overlay expect batches = .ok (last, seq, prepared)) :
    ∀ frame ∈ prepared, ∀ op ∈ frame.2, op.Restored serde := by
  induction batches generalizing overlay expect prepared with
  | nil => cases ran; exact fun frame member => nomatch member
  | cons batch rest ih =>
    unfold prepareFrom at ran
    split at ran
    · cases ran
    split at ran
    · cases ran
    obtain ⟨version, -, afterVersion⟩ := bind_ok ran
    obtain ⟨ops, admitted, afterOps⟩ := bind_ok afterVersion
    obtain ⟨mid, -, afterStage⟩ := bind_ok afterOps
    obtain ⟨⟨later, lastSeq, others⟩, laterOk, same⟩ := bind_ok afterStage
    cases same
    intro frame member
    rcases mem_cons.mp member with own | old
    · subst own
      exact admitAll_restored (restored batch mem_cons_self) admitted
    · exact ih (fun batch member => restored batch (mem_cons_of_mem _ member)) laterOk frame old

/-! ### Chunks of frames and the publishes of a group -/

def Carried (engine : Engine) (serde : SerdeJson) (state : DocState) (chunk : List (List UInt8)) (after : DocState) : Prop :=
  ∃ frames, Encoded serde frames chunk.flatten ∧ Extends engine state frames after ∧
    ∀ frame ∈ frames, ∀ op ∈ frame.2, op.Restored serde

variable {frame : List UInt8}

section Carried

variable {engine : Engine} {serde : SerdeJson} {state mid after : DocState} {chunk : List (List UInt8)}

theorem Carried.nil (state : DocState) : Carried engine serde state [] state :=
  ⟨[], .nil, .nil state, fun _ member => nomatch member⟩

theorem Carried.follows (documented : serde.Documented) (carried : Carried engine serde state chunk after) :
    Follows engine serde state chunk after := by
  obtain ⟨frames, encoded, reaches, restored⟩ := carried
  refine ⟨frames, encoded, reaches, ?_⟩
  intro frame member op inFrame value held
  exact documented.reads_back value ((restored frame member op inFrame).values value held)

theorem Carried.versioned (carried : Carried engine serde state chunk after) (versioned : state.docs.Versioned) :
    after.docs.Versioned := by
  obtain ⟨frames, -, reaches, restored⟩ := carried
  exact reaches.versioned versioned fun frame member op inFrame => (restored frame member op inFrame).version

theorem Carried.snoc (carried : Carried engine serde state chunk mid) {ops : List Op}
    (staged : stageOps engine mid ops = .ok (overlay, seq))
    (wrote : encodeFrame serde seq ops = .ok frame) (restored : ∀ op ∈ ops, op.Restored serde) :
    Carried engine serde state (chunk ++ [frame]) (publishOverlay mid overlay seq) := by
  obtain ⟨frames, encoded, reaches, kept⟩ := carried
  refine ⟨frames ++ [(seq, ops)], ?_, reaches.append (publishOverlay_extends staged), ?_⟩
  · rw [flatten_append, flatten_singleton]
    exact encoded.append (.one wrote)
  intro held member
  rcases mem_append.mp member with old | new
  · exact kept held old
  · rw [mem_singleton.mp new]
    exact restored

end Carried

inductive Publishes (engine : Engine) (serde : SerdeJson) : DocState → List Publish → DocState → Prop
  | nil (state : DocState) : Publishes engine serde state [] state
  | cons {state last : DocState} {publish : Publish} {rest : List Publish}
    (first : Carried engine serde state publish.frames publish.state)
    (others : Publishes engine serde publish.state rest last) : Publishes engine serde state (publish :: rest) last

variable {published : List Publish}

theorem Publishes.snoc {engine : Engine} {serde : SerdeJson} {mid : DocState} {last : Publish}
    (front : Publishes engine serde state published mid) (carried : Carried engine serde mid last.frames last.state) :
    Publishes engine serde state (published ++ [last]) last.state := by
  induction front with
  | nil state => exact .cons carried (.nil _)
  | cons first _ ih => exact .cons first (ih carried)

/-- What the leader has published leads from the group's base to the running base, and what is
pending leads from there to the current state. -/
structure Leading.Carries (engine : Engine) (serde : SerdeJson) (base : DocState) (leading : Leading) : Prop where
  published : Publishes engine serde base leading.published leading.running.base
  pending : Carried engine serde leading.running.base leading.pending.frames leading.running.current
  fresh : leading.running.takeChange = none ↔ leading.pending.frames = []

def healthy : PublishOracle := fun _ _ => none

section Leader

variable {engine : Engine} {serde : SerdeJson} {base : DocState} {leading next : Leading}

theorem Leading.Carries.publish (carries : leading.Carries engine serde base)
    (published : leading.publish healthy = .ok next) : next.Carries engine serde base ∧
      next.running.current = leading.running.current ∧ (leading.running.first = none → next.running.first = none) := by
  unfold Leading.publish at published
  split at published
  · rename_i empty
    have nothing : leading.pending.frames = [] := isEmpty_iff.mp empty
    cases published
    refine ⟨⟨carries.published, ?_, ?_⟩, rfl, fun first => first⟩
    · have pending := carries.pending
      rw [nothing] at pending
      exact pending
    · exact ⟨fun _ => rfl, fun _ => carries.fresh.mpr nothing⟩
  · have works : healthy leading.published leading.pending.frames = none := rfl
    rw [works] at published
    dsimp only at published
    split at published
    · cases published
    rename_i change taken
    cases published
    have current := install_takeChange taken
    refine ⟨⟨?_, .nil _, fun _ => rfl, fun _ => rfl⟩, current, fun _ => rfl⟩
    have pending := carries.pending
    rw [← current] at pending
    have last : Carried engine serde leading.running.base
        (Publish.mk leading.pending.frames (change.install leading.running.base)).frames
        (Publish.mk leading.pending.frames (change.install leading.running.base)).state := pending
    exact carries.published.snoc last

variable {pos : Nat} {bodies : List Body}

section

variable (carries : leading.Carries engine serde base)

include carries

theorem Leading.Carries.gather (applied : leading.running.first = none)
    {staged : Staged}
    (stagedOk : stageOps engine leading.running.current staged.ops = .ok (staged.overlay, seq))
    (wrote : encodeFrame serde seq staged.ops = .ok frame) (restored : ∀ op ∈ staged.ops, op.Restored serde) :
    (leading.gather pos seq staged frame).Carries engine serde base := by
  have sameBase : (leading.running.add staged.overlay seq).base = leading.running.base := by
    unfold add
    split <;> rfl
  refine ⟨?_, ?_, ?_⟩
  · show Publishes engine serde base leading.published (leading.running.add staged.overlay seq).base
    rw [sameBase]
    exact carries.published
  · show Carried engine serde (leading.running.add staged.overlay seq).base (leading.pending.frames ++ [frame])
      (leading.running.add staged.overlay seq).current
    rw [sameBase, add_current applied]
    exact carries.pending.snoc stagedOk wrote restored
  · constructor
    · intro nothing
      exact absurd nothing (add_takeChange applied staged.overlay seq)
    · intro empty
      exact absurd empty (by simp [Leading.gather])

theorem Leading.Carries.turn (turns : List DocState) :
    Leading.Carries engine serde base { leading with running := leading.running.turnState.1, turns } := by
  have sameBase : leading.running.turnState.1.base = leading.running.base := by
    unfold turnState
    split <;> rfl
  refine ⟨?_, ?_, ?_⟩
  · show Publishes engine serde base leading.published leading.running.turnState.1.base
    rw [sameBase]
    exact carries.published
  · show Carried engine serde leading.running.turnState.1.base leading.pending.frames leading.running.turnState.1.current
    rw [sameBase, turnState_current]
    exact carries.pending
  · exact (turnState_takeChange leading.running).trans carries.fresh

theorem Leading.Carries.member {body : Body}
    (restored : ∀ (state : DocState) (ops : List Op), body state = .ok ops → ∀ op ∈ ops, op.Restored serde) :
    (leading.member engine serde healthy pos body).1.Carries engine serde base := by
  have turned := carries.turn (leading.turns ++ [leading.running.turnState.2])
  have applied : leading.running.turnState.1.first = none := turnState_fst leading.running
  have current : leading.running.turnState.1.current = leading.running.turnState.2 := by
    rw [turnState_current, turnState_snd]
  unfold Leading.member
  dsimp only
  split
  · exact ⟨turned.published, turned.pending, turned.fresh⟩
  · exact ⟨turned.published, turned.pending, turned.fresh⟩
  rename_i staged ran
  have ops : ∀ op ∈ staged.ops, op.Restored serde := by
    obtain ⟨made, bodyOk, rest⟩ := bind_ok ran
    obtain ⟨overlay, -, same⟩ := bind_ok rest
    split at same
    · cases same
    · cases same
      exact restored _ _ bodyOk
  split
  · exact ⟨turned.published, turned.pending, turned.fresh⟩
  rename_i seq frame done
  rw [framed_current] at done
  obtain ⟨nextOk, wrote⟩ := framed_ok done
  have stagedOk : stageOps engine leading.running.turnState.1.current staged.ops = .ok (staged.overlay, seq) := by
    rw [current] at nextOk ⊢
    rw [stageOps, nextOk, ok_bind, (runBody_staged ran).2]
    rfl
  split
  · split
    · exact turned
    rename_i after published
    obtain ⟨kept, same, still⟩ := turned.publish published
    rw [← same] at stagedOk
    exact kept.gather (still applied) stagedOk wrote ops
  · exact turned.gather applied stagedOk wrote ops

theorem Leading.Carries.finish :
    ∃ last, Publishes engine serde base (leading.finish healthy).published last := by
  unfold Leading.finish
  split
  · exact ⟨_, carries.published⟩
  · rename_i after published
    exact ⟨_, (carries.publish published).1.published⟩

theorem Leading.Carries.members
    (restored : ∀ body ∈ bodies, ∀ (state : DocState) (ops : List Op), body state = .ok ops → ∀ op ∈ ops, op.Restored serde) :
    ∃ last, Publishes engine serde base (leading.members engine serde healthy pos bodies).published last := by
  induction bodies generalizing leading pos with
  | nil => exact carries.finish
  | cons body rest ih =>
    have after : (leading.member engine serde healthy pos body).1.Carries engine serde base :=
      carries.member (restored body mem_cons_self)
    unfold Leading.members
    split
    · rename_i next ran
      rw [ran] at after
      exact ih after fun body member => restored body (mem_cons_of_mem _ member)
    · rename_i next err ran
      rw [ran] at after
      exact ⟨_, after.published⟩

end

theorem runGroup_publishes
    (restored : ∀ body ∈ bodies, ∀ (state : DocState) (ops : List Op), body state = .ok ops → ∀ op ∈ ops, op.Restored serde) :
    ∃ last, Publishes engine serde base (runGroup engine serde healthy base bodies).published last := by
  have start : Leading.Carries engine serde base ⟨⟨base, none, none⟩, Pending.empty, fun _ => none, [], []⟩ :=
    ⟨.nil base, .nil base, fun _ => rfl, fun _ => rfl⟩
  exact start.members restored

end Leader

/-! ### What a request writes is a chain -/

def CacheSound (engine : Engine) (serde : SerdeJson) (fileId : FileId) (here : Place) (slot : Option DiskCache) : Prop :=
  ∀ held, slot = some held → held.fileId = fileId →
    held.Sound engine serde here.file ∧ held.sb.walEnd ≤ here.sb.walEnd

def Place.entry (here : Place) (fileId : FileId) : DiskCache := ⟨fileId, here.sb, here.state, here.sb.walLength⟩

def SegmentsVersioned (segments : List Segment) : Prop :=
  ∀ segment ∈ segments, ∀ state, segment.published = some state → state.docs.Versioned

structure Reaches (engine : Engine) (serde : SerdeJson) (fileId : FileId) (here : Place) (segments : List Segment)
    (slot : Option DiskCache) (last : Place) : Prop where
  chain : Chain engine serde here segments last
  slot : CacheSound engine serde fileId last slot
  published : SegmentsVersioned segments
  versioned : last.state.docs.Versioned

section Request

variable {engine : Engine} {serde : SerdeJson} {fileId : FileId} {here next last : Place} {slot : Option DiskCache}

theorem installNewer_cases (slot : Option DiskCache) (fresh : DiskCache) (current : FileId) :
    installNewer slot fresh current = slot ∨ installNewer slot fresh current = some fresh := by
  unfold installNewer
  split
  · exact .inr rfl
  split
  · split
    · exact .inr rfl
    · exact .inl rfl
  split
  · exact .inr rfl
  split
  · exact .inl rfl
  · split
    · exact .inr rfl
    · exact .inl rfl

theorem CacheSound.installNewer (sound : CacheSound engine serde fileId here slot) (stored : here.Stored engine serde)
    (current : FileId) : CacheSound engine serde fileId here (installNewer slot (here.entry fileId) current) := by
  rcases installNewer_cases slot (here.entry fileId) current with same | fresh
  · rw [same]
    exact sound
  rw [fresh]
  rintro held same -
  cases same
  exact ⟨⟨stored.holds, rfl⟩, Nat.le_refl _⟩

theorem Segment.Leads.cacheSound {segment : Segment} (leads : segment.Leads engine serde here next)
    (sound : CacheSound engine serde fileId here slot) : CacheSound engine serde fileId next slot := by
  intro held there own
  obtain ⟨⟨holds, applied⟩, before⟩ := sound held there own
  exact ⟨⟨holds.kept (leads.kept.mono (Nat.le_refl _) before), applied⟩, Nat.le_trans before leads.further⟩

theorem Chain.cacheSound {segments : List Segment} (chain : Chain engine serde here segments last)
    (sound : CacheSound engine serde fileId here slot) : CacheSound engine serde fileId last slot := by
  induction chain with
  | nil _ => exact sound
  | cons step _ ih => exact ih (step.cacheSound sound)

variable {ops : List IoOp}

theorem Switched.leads {sb : Superblock} {after : DocState}
    (switched : Switched engine serde here.file here.index here.sb sb here.state after ops) :
    ∃ file, Segment.Leads engine serde ⟨ops, some after⟩ here ⟨file, otherSlot here.index, sb, after⟩ := by
  obtain ⟨file, exec, stored, kept⟩ := switched.done
  refine ⟨file, exec, stored, kept, switched.advances.1, .inl rfl, ?_⟩
  intro final cut
  rcases switched.cut final cut with before | now
  · exact .inl before.reopen
  · exact .inr now.reopen

theorem Place.Stored.abandoned (stored : here.Stored engine serde) {writes : List Write}
    (wrote : ops = synced writes ∨ ops = []) (beyond : ∀ write ∈ writes, here.sb.walEnd ≤ write.offset) :
    ∃ file, Segment.Leads engine serde ⟨ops, none⟩ here { here with file } := by
  rcases wrote with rfl | rfl
  · refine ⟨writes.foldl Write.apply here.file, exec_synced .., extents_written stored beyond, ?_,
      Nat.le_refl _, .inr ⟨rfl, rfl⟩, ?_⟩
    · exact (Survivor.all _ _ : Survivor sector _ _ _).keeps_before (holds stored).inside beyond
    · intro final cut
      exact .inl (extents_cut stored beyond cut).reopen
  · refine ⟨here.file, rfl, stored, .refl (holds stored).inside, Nat.le_refl _, .inr ⟨rfl, rfl⟩, ?_⟩
    rintro final ⟨ran, survivor⟩
    rw [take_nil] at survivor
    cases survivor
    exact .inl (Store.Stored.reopen stored)

theorem Reaches.refl (sound : CacheSound engine serde fileId here slot) (versioned : here.state.docs.Versioned) :
    Reaches engine serde fileId here [] slot here :=
  ⟨.nil here, sound, fun _ member => (nomatch member), versioned⟩

theorem publishAll_reaches (documented : serde.Documented) (keeps : engine.KeepsMetadata)
    {end_ : DocState} (publishes : Publishes engine serde here.state published end_) (stored : here.Stored engine serde)
    (sound : CacheSound engine serde fileId here slot) (versioned : here.state.docs.Versioned) :
    ∃ last, Reaches engine serde fileId here (publishAll here.index (here.entry fileId) slot published).1
      (publishAll here.index (here.entry fileId) slot published).2 last := by
  induction published generalizing here slot with
  | nil => exact ⟨here, .refl sound versioned⟩
  | cons publish rest ih =>
    cases publishes with
    | cons first others =>
    unfold publishAll
    split
    · rename_i ops sb framed
      have switched := Store.Stored.publish keeps stored (first.follows documented) framed
      obtain ⟨file, leads⟩ := Switched.leads switched
      have nextVersioned := first.versioned versioned
      have entry : commitEntry (here.entry fileId) sb publish.state =
          Place.entry ⟨file, otherSlot here.index, sb, publish.state⟩ fileId := by
        simp [commitEntry, Place.entry]
      have cached : CacheSound engine serde fileId ⟨file, otherSlot here.index, sb, publish.state⟩
          (installCommit slot (here.entry fileId) sb publish.state) := by
        unfold installCommit
        rw [if_neg (fun differ => differ rfl), entry]
        exact (leads.cacheSound sound).installNewer leads.stored _
      obtain ⟨last, reaches⟩ := ih others leads.stored cached nextVersioned
      refine ⟨last, .cons leads ?_, ?_, ?_, reaches.versioned⟩
      · rw [entry]
        exact reaches.chain
      · rw [entry]
        exact reaches.slot
      rw [entry]
      intro segment member state named
      rcases mem_cons.mp member with same | later
      · subst same
        cases named
        exact nextVersioned
      · exact reaches.published segment later state named
    · exact ⟨here, .refl sound versioned⟩

theorem checkpoint_reaches {result : Except StoreError Superblock} (stored : here.Stored engine serde)
    (ran : writeCheckpoint engine serde here.file here.index here.sb here.state = (ops, result))
    (sound : CacheSound engine serde fileId here slot) (versioned : here.state.docs.Versioned) :
    match result with
    | .ok sb => ∃ last, Reaches engine serde fileId here [⟨ops, some here.state⟩]
        (installCheckpoint slot (here.entry fileId) sb) last
    | .error _ => ∃ last, Reaches engine serde fileId here [⟨ops, none⟩] slot last := by
  have ended := checkpoint stored ran
  have placed := writeCheckpoint_cases (holds stored).fits ran
  cases result with
  | error err =>
    obtain ⟨writes, wrote, beyond⟩ := ended
    obtain ⟨file, leads⟩ := stored.abandoned wrote beyond
    refine ⟨_, .cons leads (.nil _), leads.cacheSound sound, ?_, versioned⟩
    intro segment member state named
    cases mem_singleton.mp member
    cases named
  | ok sb =>
    obtain ⟨file, leads⟩ := Switched.leads ended
    obtain ⟨offset, blob, done⟩ := placed
    have empty : sb.walLength = 0 := by rw [done.next]
    have entry : DiskCache.mk fileId sb here.state 0 = Place.entry ⟨file, otherSlot here.index, sb, here.state⟩ fileId := by
      rw [Place.entry, empty]
    refine ⟨_, .cons leads (.nil _), ?_, ?_, versioned⟩
    · show CacheSound engine serde fileId _ (installNewer slot (DiskCache.mk fileId sb here.state 0) fileId)
      rw [entry]
      exact (leads.cacheSound sound).installNewer leads.stored _
    · intro segment member state named
      cases mem_singleton.mp member
      cases named
      exact versioned

theorem mapM_encodeFrame {frames : List (List UInt8)}
    (encoded : (prepared.mapM fun frame => encodeFrame serde frame.1 frame.2) = .ok frames) :
    Encoded serde prepared frames.flatten := by
  induction prepared generalizing frames with
  | nil =>
    cases encoded
    exact .nil
  | cons frame rest ih =>
    rw [mapM_cons] at encoded
    obtain ⟨bytes, wrote, others⟩ := bind_ok encoded
    obtain ⟨later, laterOk, same⟩ := bind_ok others
    cases same
    exact .cons wrote (ih laterOk)

theorem serve_reaches (documented : serde.Documented) (keeps : engine.KeepsMetadata) {request : Request}
    (restored : request.Restored serde) (stored : here.Stored engine serde)
    (sound : CacheSound engine serde fileId here slot) (versioned : here.state.docs.Versioned) :
    ∃ last, Reaches engine serde fileId here (serve engine serde here.file here.index (here.entry fileId) slot request).1
      (serve engine serde here.file here.index (here.entry fileId) slot request).2 last := by
  cases request with
  | write members =>
    have group : ∃ end_, Publishes engine serde here.state (runGroup engine serde healthy here.state members).published end_ :=
      runGroup_publishes restored
    obtain ⟨end_, publishes⟩ := group
    exact publishAll_reaches documented keeps publishes stored sound versioned
  | sync batches =>
    unfold serve
    dsimp only
    split
    · exact ⟨here, .refl sound versioned⟩
    rename_i overlay seq prepared ran
    split
    · exact ⟨here, .refl sound versioned⟩
    rename_i frames encoded
    obtain ⟨extends_, -⟩ := prepareFrom_extends (Overlay.over_empty here.state) ran
    have carried : Carried engine serde here.state frames (publishOverlay here.state overlay seq) := by
      refine ⟨prepared, mapM_encodeFrame encoded, ?_, prepareFrom_restored restored ran⟩
      exact extends_
    have publishes : Publishes engine serde here.state [⟨frames, publishOverlay here.state overlay seq⟩] _ :=
      .cons carried (.nil _)
    exact publishAll_reaches documented keeps publishes stored sound versioned
  | checkpoint =>
    unfold serve
    dsimp only
    split
    · rename_i ops sb ran
      have ended := checkpoint_reaches stored ran sound versioned
      exact ended
    · rename_i ops err ran
      have ended := checkpoint_reaches stored ran sound versioned
      exact ended
  | read => exact ⟨here, .refl sound versioned⟩

end Request

structure World.Healthy (engine : Engine) (serde : SerdeJson) (fileId : FileId) (world : World) (here : Place) : Prop where
  file : world.file = here.file
  stored : here.Stored engine serde
  caches : ∀ handle, CacheSound engine serde fileId here (world.caches handle)
  versioned : here.state.docs.Versioned

section Run

variable {engine : Engine} {serde : SerdeJson} {fileId : FileId} {here : Place} {world : World}

theorem World.Healthy.refresh (healthy : world.Healthy engine serde fileId here) (handle : Nat) :
    refresh engine serde fileId world handle = .ok (here.index, here.entry fileId) := by
  have sound : ∀ held, world.caches handle = some held → held.fileId = fileId → held.Sound engine serde world.file := by
    intro held there own
    rw [healthy.file]
    exact (healthy.caches handle held there own).1
  have holds := holds healthy.stored
  rw [← healthy.file] at holds
  rw [Store.refresh, healthy.file, (slots healthy.stored).currentSuperblock, ok_bind]
  dsimp only
  rw [← healthy.file, advance_holds holds sound]
  rfl

section

variable (documented : serde.Documented) (keeps : engine.KeepsMetadata)
  (healthy : world.Healthy engine serde fileId here)

include documented keeps healthy

theorem World.Healthy.step {event : Nat × Request} (restored : event.2.Restored serde) :
    ∃ last, Chain engine serde here (world.step engine serde fileId event).2 last ∧
      SegmentsVersioned (world.step engine serde fileId event).2 ∧
      (world.step engine serde fileId event).1.Healthy engine serde fileId last := by
  unfold World.step
  rw [healthy.refresh event.1]
  dsimp only
  have slot : CacheSound engine serde fileId here (installNewer (world.caches event.1) (here.entry fileId) fileId) :=
    (healthy.caches event.1).installNewer healthy.stored fileId
  obtain ⟨last, reaches⟩ := serve_reaches documented keeps restored healthy.stored slot healthy.versioned
  rw [healthy.file]
  refine ⟨last, reaches.chain, reaches.published, ⟨?_, reaches.chain.stored healthy.stored, ?_, reaches.versioned⟩⟩
  · rw [reaches.chain.exec]
    rfl
  intro handle
  dsimp only
  split
  · exact reaches.slot
  · exact reaches.chain.cacheSound (healthy.caches handle)

theorem World.Healthy.run {events : List (Nat × Request)} (restored : ∀ event ∈ events, event.2.Restored serde) :
    ∃ last, Chain engine serde here (runSegments engine serde fileId world events) last ∧
      SegmentsVersioned (runSegments engine serde fileId world events) := by
  induction events generalizing world here with
  | nil => exact ⟨here, .nil here, fun _ member => nomatch member⟩
  | cons event rest ih =>
    obtain ⟨mid, first, published, after⟩ := healthy.step documented keeps (restored event mem_cons_self)
    obtain ⟨last, others, later⟩ := ih after fun event member => restored event (mem_cons_of_mem _ member)
    refine ⟨last, first.append others, ?_⟩
    intro segment member
    rcases mem_append.mp member with own | inLater
    · exact published segment own
    · exact later segment inLater

end

end Run

/-- The file after a power cut: the first `ran` operations were made, and of those not yet synced
each is kept, dropped or torn. -/
def CutRun (file : Image) (segments : List Segment) (ran : Nat) (final : Image) : Prop :=
  Survivor sector (Inode.exec ⟨file, []⟩ ((segments.flatMap Segment.ops).take ran)).durable
    (Inode.exec ⟨file, []⟩ ((segments.flatMap Segment.ops).take ran)).pending final

/-- Any number of handles write groups, apply inbound batches and checkpoint one file, and the
power is cut anywhere: the file opens to the state after some of the publishes, with all those
that were done before the cut. -/
theorem cut_run_opens (engine : Engine) (serde : SerdeJson) (fileId : FileId) (documented : serde.Documented)
    (keeps : engine.KeepsMetadata) {file : Image} {index : Nat} {sb : Superblock} {state : DocState}
    (stored : Stored engine serde file index sb state) (versioned : state.docs.Versioned)
    (events : List (Nat × Request)) (restored : ∀ event ∈ events, event.2.Restored serde) (ran : Nat) (final : Image)
    (cut : CutRun file (runSegments engine serde fileId ⟨file, fun _ => none⟩ events) ran final) :
    ∃ front, acked (runSegments engine serde fileId ⟨file, fun _ => none⟩ events) ran <+: front ∧
      front <+: (runSegments engine serde fileId ⟨file, fun _ => none⟩ events).filterMap Segment.published ∧
      openWith engine serde final = .ok (front.getLast?.getD state) := by
  have healthy : World.Healthy engine serde fileId ⟨file, fun _ => none⟩ ⟨file, index, sb, state⟩ :=
    ⟨rfl, stored, fun _ _ none => (nomatch none), versioned⟩
  obtain ⟨last, chain, published⟩ := healthy.run documented keeps restored
  obtain ⟨front, least, most, reopened⟩ := chain.cut stored cut
  refine ⟨front, least, most, openWith_versioned ?_ reopened⟩
  rcases newest : front.getLast? with _ | newestState
  · exact versioned
  have member := most.subset (mem_of_getLast? newest)
  obtain ⟨segment, inRun, named⟩ := mem_filterMap.mp member
  exact published segment inRun newestState named

namespace Sample

def commit (depth : Nat) : List (Nat × Request) := [(0, .write [fun _ => .ok [put depth]])]

theorem emptyState_versioned : emptyState.docs.Versioned := by
  rintro collection id doc key found
  rw [emptyState, newStoreDocs, Docs.get_insert] at found
  split at found
  · cases found
    exact ⟨8, by decide, rfl⟩
  · cases found

variable {depth : Nat}

theorem put_restored (shallow : depth ≤ 127) : (put depth).Restored serde := by
  refine ⟨?_, ?_⟩
  · intro value member
    rw [mem_singleton.mp member]
    exact nested_readable shallow
  · rintro (⟨same, -⟩ | ⟨same, -⟩)
    · exact absurd same (by decide)
    · exact absurd same (by decide)

theorem runGroup_commit (wrote : encodeFrame serde 1 [put depth] = .ok frame) :
    (runGroup engine serde healthy emptyState [fun _ => .ok [put depth]]).published =
      [⟨[frame], publishOverlay emptyState (Overlay.empty.put "notes" "a" (nested depth)) 1⟩] := by
  have ran : runBody engine (fun _ => .ok [put depth]) emptyState =
      .ok (some ⟨[put depth], Overlay.empty.put "notes" "a" (nested depth)⟩) := rfl
  have framedOk : framed serde ⟨emptyState, none, none⟩ [put depth] = .ok (1, frame) := by
    have next : checkedAdd (mk emptyState none none).lastSeq 1 = some 1 := by decide
    rw [framed, next]
    dsimp only
    rw [wrote]
    rfl
  simp only [runGroup, Leading.members, Leading.member, turnState, Option.getD_none, ran, framedOk, Pending.full,
    Pending.empty, isEmpty_nil, Bool.not_true, Bool.false_and, Bool.false_eq_true, ↓reduceIte, Leading.finish,
    Leading.publish, Leading.gather, nil_append, isEmpty_cons, healthy, add, takeChange,
    Leading.acknowledge, Change.install]

theorem runSegments_commit (small : depth ≤ 1000) : ∃ file length frame io next,
    initEmpty engine serde = .ok file ∧ Stored engine serde file 0 (freshSuperblock 1 length 0) emptyState ∧
      encodeFrame serde 1 [put depth] = .ok frame ∧
      publishFrames 0 (freshSuperblock 1 length 0) [frame] = .ok (some (io, next)) ∧ io.length = 4 ∧
      runSegments engine serde (0, 0) ⟨file, fun _ => none⟩ (commit depth) =
        [⟨io, some (publishOverlay emptyState (Overlay.empty.put "notes" "a" (nested depth)) 1)⟩] := by
  obtain ⟨file, length, fresh, stored, short⟩ := initEmpty_stored
  obtain ⟨frame, wrote⟩ := put_encodes small 1
  have room : 10000 + frameRoom < u64Max := by decide
  have first : 1 ≤ 10000 := by decide
  have published : publishFrames 0 (freshSuperblock 1 length 0) [frame] = _ :=
    publishFrames_one ⟨short, first⟩ (encodeFrame_room wrote) room
  refine ⟨file, length, frame, _, _, fresh, stored, wrote, published, rfl, ?_⟩
  have healthy : World.Healthy engine serde (0, 0) ⟨file, fun _ => none⟩
      ⟨file, 0, freshSuperblock 1 length 0, emptyState⟩ :=
    ⟨rfl, stored, fun _ _ none => (nomatch none), emptyState_versioned⟩
  have group := runGroup_commit wrote
  simp only [commit, runSegments, Machine.trace, World.step, healthy.refresh 0, serve, Place.entry]
  have same : (fun _ _ => none : PublishOracle) = Store.healthy := rfl
  rw [same, group]
  simp only [publishAll, published, flatMap_cons, flatMap_nil, append_nil]

end Sample

/-- The power is cut before the slot of a commit is synced. -/
theorem cut_run_opens_sample : ∃ file final, initEmpty engine serde = .ok file ∧
    CutRun file (runSegments engine serde (0, 0) ⟨file, fun _ => none⟩ (commit 127)) 3 final ∧
    ∃ front, acked (runSegments engine serde (0, 0) ⟨file, fun _ => none⟩ (commit 127)) 3 <+: front ∧
      front <+: (runSegments engine serde (0, 0) ⟨file, fun _ => none⟩ (commit 127)).filterMap
        Segment.published ∧
      openWith engine serde final = .ok (front.getLast?.getD emptyState) := by
  obtain ⟨file, length, fresh, stored, -⟩ := initEmpty_stored
  refine ⟨file, _, fresh, Survivor.all _ _, ?_⟩
  refine cut_run_opens engine serde (0, 0) serde_documented engine_keeps stored
    emptyState_versioned (commit 127) ?_ 3 _ (Survivor.all _ _)
  intro event member
  cases mem_singleton.mp member
  intro body inGroup state ops made op inOps
  cases mem_singleton.mp inGroup
  cases made
  cases mem_singleton.mp inOps
  exact put_restored (by decide)

/-- A commit of a document nested 128 deep is done, and the store no longer opens. -/
theorem deep_commit_not_opened : ∃ file final, initEmpty engine serde = .ok file ∧
    openWith engine serde file = .ok emptyState ∧
    acked (runSegments engine serde (0, 0) ⟨file, fun _ => none⟩ (commit 128)) 4 =
      [publishOverlay emptyState (Overlay.empty.put "notes" "a" (nested 128)) 1] ∧
    CutRun file (runSegments engine serde (0, 0) ⟨file, fun _ => none⟩ (commit 128)) 4 final ∧
    ∃ err, openWith engine serde final = .error err := by
  obtain ⟨file, length, frame, io, next, fresh, stored, wrote, published, four, segments⟩ :=
    runSegments_commit (by decide : 128 ≤ 1000)
  have deep : serde.fromSlice (serde.toVec (nested 128)) = none := by
    apply serde_documented.too_deep
    rw [nested_nesting]
    decide
  have fits := stored.holds.fits
  obtain ⟨appended, newest⟩ := publishFrames_appends stored.slots.currentSuperblock stored.holds.inside published
  obtain ⟨err, fails⟩ := decodeWalPrefix_put_lost (by decide) deep wrote []
  have filled : 0 < frame.length := by
    obtain ⟨payload, -, -, rfl⟩ := encodeFrame_ok wrote
    rw [length_append, length_append, Bytes.toLe_length]
    omega
  have wal := appended.readRange_wal fits.wal.1 (by rw [flatten_singleton]; omega)
  have nothing : slice file (freshSuperblock 1 length 0).walOffset (freshSuperblock 1 length 0).walLength = [] := take_zero ..
  rw [nothing, flatten_singleton, nil_append] at wal
  rw [append_nil] at fails
  refine ⟨file, (Inode.exec ⟨file, []⟩ io).durable, fresh, openWith_versioned emptyState_versioned stored.reopen, ?_, ?_, ?_⟩
  · rw [segments]
    simp only [acked, four, Nat.le_refl, ↓reduceIte, Option.toList_some, append_nil]
  · have quiet : (Inode.exec ⟨file, []⟩ io).pending = [] := by
      obtain ⟨rfl, -⟩ := publishFrames_some published
      rw [Inode.exec_append, exec_synced, slotOps, exec_synced]
    rw [segments, CutRun, flatMap_singleton, take_of_length_le (Nat.le_of_eq four), quiet]
    exact .done _
  · have lost : ∃ err, reopen engine serde (Inode.exec ⟨file, []⟩ io).durable = .error err := by
      rw [reopen, newest, ok_bind]
      dsimp only
      unfold loadState
      cases loadSnapshot engine serde (Inode.exec ⟨file, []⟩ io).durable next with
      | error early => exact ⟨early, rfl⟩
      | ok found =>
        rw [ok_bind, wal, ok_bind, fails]
        exact ⟨err, rfl⟩
    obtain ⟨last, refused⟩ := lost
    rw [openWith, refused]
    exact ⟨last, rfl⟩

end FerroLoop.Store
