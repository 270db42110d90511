import FerroLoop.Store.ReadersInvariant

namespace FerroLoop.Store.Readers

open Bytes Checked Disk List Stage

/-- The documents a publish writes: its sequence fits, and when `exact` is claimed its frames are
those of the state it goes on from and every value in them comes back from its text. -/
def Event.Sound (engine : Engine) (serde : SerdeJson) (exact : Prop) : Event → Prop
  | .publish make => ∀ state made, make state = .ok made →
      made.state.lastSeq < u64Max ∧ (exact → Follows engine serde state made.frames made.state)
  | _ => True

variable {engine : Engine} {serde : SerdeJson} {fileId : FileId} {exact : Prop} {parity : Nat} {world : World}
  {index : Nat} {newest : Version} {older : List Version} {handle slot : Nat} {base : DiskCache}

theorem commitPublish_sound {ops : List Op} (survive : ∀ op ∈ ops, ∀ value ∈ op.values, serde.Survives value) :
    (Event.publish (commitPublish engine serde ops)).Sound engine serde exact := by
  intro state made making
  obtain ⟨⟨overlay, seq⟩, staged, rest⟩ := bind_ok making
  obtain ⟨frame, wrote, same⟩ := bind_ok rest
  cases same
  refine ⟨?_, fun _ => ⟨[(seq, ops)], ?_, publishOverlay_extends staged, ?_⟩⟩
  · obtain ⟨rfl, small, -⟩ := stageOps_ok staged
    exact small
  · rw [flatten_cons, flatten_nil, append_nil]
    exact .one wrote
  · intro frame member
    rw [mem_singleton.mp member]
    exact survive

section

variable (inv : Inv engine serde fileId exact parity world) (published : world.published = newest :: older) (filed : Filed engine serde exact parity world.file index newest older)

include inv published filed

theorem Inv.setStage {stage : Stage} (sound : stage.Sound engine serde fileId exact world handle index newest older)
    (acked : world.doubtful = false →
      settled (some ⟨handle, stage⟩) index newest older = some world.acked) :
    Inv engine serde fileId exact parity (world.setStage handle stage) := by
  refine ⟨⟨index, newest, older, published, filed, ?_, acked⟩, inv.caches,
    fun id reader there => ⟨(inv.readers id reader there).began, (inv.readers id reader there).phase⟩⟩
  intro writer there
  cases there
  cases stage <;> exact sound

theorem Inv.unlock (acked : world.doubtful = false → newest = world.acked) :
    Inv engine serde fileId exact parity { world with writer := none } := by
  refine ⟨⟨index, newest, older, published, filed, ?_, fun quiet => congrArg some (acked quiet)⟩, inv.caches,
    fun id reader there => ⟨(inv.readers id reader there).began, (inv.readers id reader there).phase⟩⟩
  intro writer there
  cases there

end

theorem Known.newest_state (known : Known fileId exact (newest :: older) base)
    (filed : Filed engine serde exact parity world.file index newest older) (same : base.sb = newest.sb) (exactly : exact) :
    newest.state = base.state := by
  obtain ⟨-, -, version, member, sameSb, rest⟩ := known
  have here : version = newest := by
    refine filed.same_version member mem_cons_self ?_
    rw [sameSb, same]
  rw [← here]
  exact (rest exactly).1

section

variable (inv : Inv engine serde fileId exact parity world)

include inv

theorem lock_inv (handle : Nat) :
    Inv engine serde fileId exact parity (world.lock engine serde fileId handle) := by
  unfold World.lock
  split
  · rename_i at_ sb free sane found
    obtain ⟨index, newest, older, published, filed, -, acked⟩ := inv.file
    rw [filed.slots.currentSuperblock] at found
    cases found
    rw [free] at acked
    split
    · rename_i held same
      obtain ⟨there, both⟩ := Option.filter_eq_some_iff.mp same
      have sameSb := (of_decide_eq_true both).2
      refine inv.setStage published filed ⟨rfl, sameSb, inv.caches handle held there, sane, ?_⟩ acked
      intro _
      exact ⟨held, there, Nat.le_refl _⟩
    · have known := inv.caches handle
      rw [published] at known
      have named : ∃ version ∈ newest :: older, version.sb = newest.sb := ⟨newest, mem_cons_self, rfl⟩
      obtain ⟨loaded, -⟩ := advance_known filed known named
      split
      · rename_i fresh advanced
        obtain ⟨fresh_, same⟩ := loaded fresh advanced
        refine inv.setStage published filed ⟨rfl, same, ?_, sane⟩ acked
        rw [published]
        exact fresh_
      · exact inv
  · exact inv

theorem refreshed_inv {fresh : DiskCache}
    (writer : world.writer = some ⟨handle, .refreshed slot fresh⟩) :
    Inv engine serde fileId exact parity (world.refreshed fileId handle slot fresh) := by
  obtain ⟨index, newest, older, published, filed, sound, acked⟩ := inv.file
  obtain ⟨here, same, known, sane⟩ := sound _ writer
  rw [writer] at acked
  obtain ⟨kept, -, installed⟩ := installRead_known inv handle known
  obtain ⟨answer, held, there, newer⟩ := installed sane
  unfold World.refreshed
  simp only
  rw [answer]
  refine kept.setStage published filed ⟨here, same, known, sane, ?_⟩ acked
  intro _
  exact ⟨held, (if_pos rfl).trans there, newer⟩

theorem failed_inv (published : world.published = newest :: older)
    (filed : Filed engine serde exact parity world.file index newest older)
    (known : Known fileId exact world.published base)
    (acked : world.doubtful = false → some newest = some world.acked) :
    Inv engine serde fileId exact parity (world.setStage handle (.failed base)) :=
  inv.setStage published filed known acked

end

theorem publish_inv (keeps : engine.KeepsMetadata) (inv : Inv engine serde fileId exact parity world)
    (writer : world.writer = some ⟨handle, .ready slot base⟩) {make : DocState → Except StoreError Publish}
    (fine : (Event.publish make).Sound engine serde exact) :
    Inv engine serde fileId exact parity (world.publish handle slot base make) := by
  obtain ⟨index, newest, older, published, filed, sound, acked⟩ := inv.file
  obtain ⟨rfl, same, known, sane, covered⟩ := sound _ writer
  rw [writer] at acked
  unfold World.publish
  split
  · exact inv
  rename_i made making
  obtain ⟨small, follows⟩ := fine _ _ making
  split
  · exact inv
  split
  · exact failed_inv inv published filed known acked
  split
  · rename_i ops sb framed
    rw [same] at framed
    have planned := publishFrames_planned (filed.fits newest mem_cons_self) framed
    obtain ⟨ops_, -⟩ := publishFrames_some framed
    refine inv.setStage published filed ⟨known, sane, covered, .inl ⟨_, _, rfl, same, .inl rfl, planned.beyond, ops_, ?_⟩⟩ ?_
    · intro target sameTarget
      cases sameTarget
      refine ⟨planned, ⟨small, fun never => nomatch never⟩, ?_⟩
      intro exactly
      rw [published] at known
      have state := known.newest_state filed same exactly
      have holds := filed.holds exactly newest mem_cons_self
      rw [state] at holds
      exact holds.publish keeps (follows exactly) framed
    · simpa [settled, landed] using acked
  · exact failed_inv inv published filed known acked

theorem checkpoint_inv (inv : Inv engine serde fileId exact parity world)
    (writer : world.writer = some ⟨handle, .ready slot base⟩) :
    Inv engine serde fileId exact parity (world.checkpoint engine serde handle slot base) := by
  obtain ⟨index, newest, older, published, filed, sound, acked⟩ := inv.file
  obtain ⟨rfl, same, known, sane, covered⟩ := sound _ writer
  rw [writer] at acked
  have fits := filed.fits newest mem_cons_self
  rw [← same] at fits
  unfold World.checkpoint
  split
  · exact inv
  split
  · rename_i ops sb ran
    obtain ⟨offset, blob, done⟩ := writeCheckpoint_cases fits ran
    have planned := done.planned known.2.1
    rw [same] at planned
    refine inv.setStage published filed
      ⟨known, sane, covered, .inl ⟨_, _, rfl, same, .inl rfl, planned.beyond, done.ops, ?_⟩⟩ ?_
    · intro target sameTarget
      cases sameTarget
      refine ⟨planned, ⟨known.2.1, fun _ => ⟨rfl, ?_⟩⟩, ?_⟩
      · rw [done.next]
      intro exactly
      rw [published] at known
      have state := known.newest_state filed same exactly
      have holds := filed.holds exactly newest mem_cons_self
      rw [state, ← same] at holds
      exact holds.checkpoint done
    · simpa [settled, landed] using acked
  · rename_i ops err ran
    obtain ⟨writes, which, beyond⟩ := writeCheckpoint_cases fits ran
    rw [same] at beyond
    refine inv.setStage published filed ⟨known, sane, covered, .inl ?_⟩ (by simpa [settled, landed] using acked)
    rcases which with rfl | rfl
    · exact ⟨writes, _, rfl, same, .inl rfl, beyond, (append_nil _).symm, fun made none_ => nomatch none_⟩
    · exact ⟨[], _, rfl, same, .inr ⟨rfl, rfl⟩, (fun write member => nomatch member),
        (append_nil _).symm, fun made none_ => nomatch none_⟩

variable {target : Option Target} {started : Bool} {write : Write} {rest : List IoOp}

section

variable (inv : Inv engine serde fileId exact parity world)

include inv

theorem begins_inv {ops : List IoOp}
    (writer : world.writer = some ⟨handle, .writing slot base ops started target⟩) :
    Inv engine serde fileId exact parity (world.setStage handle (.writing slot base ops true target)) := by
  obtain ⟨index, newest, older, published, filed, sound, acked⟩ := inv.file
  have stage := sound _ writer
  rw [writer] at acked
  exact inv.setStage published filed stage acked

theorem Inv.regrown {next : World} (grown : Grown world next)
    (readers : next.readers = world.readers) :
    ∀ id reader, next.readers id = some reader → reader.Sound fileId exact parity next := by
  intro id reader there
  rw [readers] at there
  exact (inv.readers id reader there).grown grown

section

variable (writer : world.writer = some ⟨handle, .writing slot base (.write write :: rest) started target⟩) (published : world.published = newest :: older) (filed : Filed engine serde exact parity world.file index newest older)

include writer published filed

theorem extent_inv {writes : List Write} {front : List IoOp}
    (before : Before engine serde exact world.file index newest slot base (.write write :: rest) target (write :: writes) front)
    (acked : world.doubtful = false → settled world.writer index newest older = some world.acked)
    (sound : Sound engine serde fileId exact world handle index newest older
      (.writing slot base (.write write :: rest) started target)) :
    Inv engine serde fileId exact parity (world.write handle slot base write rest target) := by
  have beyond := before.beyond write mem_cons_self
  have above := (filed.fits newest mem_cons_self).wal.1
  have extended := filed.extent beyond
  have outside : ¬ write.offset < headerBytes := by omega
  have pending : front = synced (write :: writes) := by
    rcases before.pending with pending | ⟨none_, -⟩
    · exact pending
    · cases none_
  have ops : rest = synced writes ++ target.elim [] fun made => slotOps (otherSlot index) made.sb := by
    have ops := before.ops
    rw [pending] at ops
    exact (List.cons.inj ops).2
  have grown : Grown world { world with file := write.apply world.file } := by
    refine ⟨fun _ member => member, fun _ sane => sane, ?_⟩
    rintro ⟨sb, valid⟩
    have header : Kept 0 headerBytes world.file (write.apply world.file) :=
      Kept.overwrite_before _ filed.slots.header (by omega)
    have end_ := slotOffset_end (by decide : 1 < 2)
    have inside := header.inside
    have reaches := header.reaches
    refine ⟨sb, ?_⟩
    rw [readSlot, if_neg (by omega)] at valid
    simp only
    rw [readSlot, if_neg (by omega), header.slice (Nat.zero_le _) end_]
    exact valid
  obtain ⟨known, sane, covered, -⟩ := sound
  unfold World.write
  simp only [if_neg outside, nil_append]
  have moved : Inv engine serde fileId exact parity { world with file := write.apply world.file, writer := none } := by
    refine ⟨⟨index, newest, older, published, extended, (by rintro _ ⟨⟩), ?_⟩, inv.caches,
      inv.regrown ⟨grown.published, grown.poisoned, grown.second⟩ rfl⟩
    intro quiet
    have now := acked quiet
    rw [writer] at now
    simpa [settled, landed, before.slot] using now
  refine moved.setStage published extended ?_ ?_
  · refine ⟨known, sane, covered, .inl ⟨writes, synced writes, before.slot, before.starts, .inl rfl, ?_, ops, ?_⟩⟩
    · exact fun other member => before.beyond other (mem_cons_of_mem _ member)
    · intro made same
      obtain ⟨planned, fitting, holds⟩ := before.planned made same
      exact ⟨⟨fun other member => before.beyond other (mem_cons_of_mem _ member), planned.fits, planned.epoch,
        planned.further⟩, fitting, holds⟩
  · rw [writer] at acked
    exact acked

theorem slot_inv
    (before : Before engine serde exact world.file index newest slot base (.write write :: rest) target [] [])
    (acked : world.doubtful = false → settled world.writer index newest older = some world.acked)
    (sound : Sound engine serde fileId exact world handle index newest older
      (.writing slot base (.write write :: rest) started target)) :
    Inv engine serde fileId exact parity (world.write handle slot base write rest target) := by
  have here := before.slot
  subst here
  obtain ⟨known, sane, covered, -⟩ := sound
  have ops := before.ops
  rcases target with _ | made
  · cases ops
  obtain ⟨same, restOps⟩ := List.cons.inj ops
  cases same
  obtain ⟨planned, fitting, holds⟩ := before.planned made rfl
  have inHeader : slotOffset (otherSlot slot) < headerBytes := by
    have end_ := slotOffset_end filed.slots.otherSlot_lt
    unfold slotLen at end_
    omega
  have switched := filed.publish ⟨made.sb, made.state⟩ planned holds
  have differ : slot ≠ otherSlot slot := by
    rcases otherSlot_cases filed.slots.slot with ⟨rfl, other⟩ | ⟨rfl, other⟩ <;> rw [other] <;> decide
  have quietly : world.doubtful = false → newest = world.acked := by
    intro quiet
    have now := acked quiet
    rw [writer] at now
    simpa [settled, landed] using now
  have more : ∀ version ∈ world.published, version ∈ (⟨made.sb, made.state⟩ : Version) :: newest :: older := by
    rw [published]
    exact fun version member => mem_cons_of_mem _ member
  have second : ∃ sb, readSlot (overwrite world.file (slotOffset (otherSlot slot)) (encodeSuperblock made.sb)) 1 =
      .valid sb := by
    rcases otherSlot_cases filed.slots.slot with ⟨-, other⟩ | ⟨one, -⟩
    · have valid := switched.slots.readSlot_newest
      rw [other] at valid ⊢
      exact ⟨_, valid⟩
    · have valid := filed.readSlot_other made.sb
      rw [one] at valid ⊢
      exact ⟨_, valid⟩
  unfold World.write Write.apply
  simp only [if_pos inHeader, Option.toList_some, map_cons, map_nil, cons_append, nil_append]
  rw [published]
  refine ⟨⟨otherSlot slot, ⟨made.sb, made.state⟩, newest :: older, rfl, switched, ?_, ?_⟩, ?_, ?_⟩
  · intro owner there
    cases there
    refine ⟨known.mono more, sane, covered, .inr ⟨made, rfl, rfl, ⟨filed.slots.slot, rfl⟩, ?_, .inl restOps, fitting⟩⟩
    exact ⟨newest, rfl, before.starts.symm⟩
  · intro quiet
    show (if (slot != otherSlot slot) = true then (newest :: older).head? else some _) = some world.acked
    rw [if_pos (bne_iff_ne.mpr differ), ← quietly quiet]
    rfl
  · intro other held there
    exact (inv.caches other held there).mono more
  · exact inv.regrown ⟨more, fun _ sane => sane, fun _ => second⟩ rfl

end

theorem write_inv (writer : world.writer = some ⟨handle, .writing slot base (.write write :: rest) started target⟩) :
    Inv engine serde fileId exact parity (world.write handle slot base write rest target) := by
  obtain ⟨index, newest, older, published, filed, sound, acked⟩ := inv.file
  have stage := sound _ writer
  obtain ⟨-, -, -, ⟨writes, front, before⟩ | ⟨made, after⟩⟩ := stage
  · rcases before.pending with rfl | ⟨rfl, rfl⟩
    · have ops := before.ops
      rcases writes with _ | ⟨first, others⟩
      · cases ops
      have same := (List.cons.inj ops).1
      cases same
      exact extent_inv inv writer published filed before acked (sound _ writer)
    · exact slot_inv inv writer published filed before acked (sound _ writer)
  · rcases after.ops with ops | ops <;> cases ops

theorem sync_inv (writer : world.writer = some ⟨handle, .writing slot base (.sync :: rest) started target⟩)
    (returned : Bool) : Inv engine serde fileId exact parity (world.sync handle slot base rest target returned) := by
  obtain ⟨index, newest, older, published, filed, sound, acked⟩ := inv.file
  obtain ⟨known, sane, covered, where_⟩ := sound _ writer
  unfold World.sync
  split
  · rw [writer] at acked
    refine inv.setStage published filed ⟨known, sane, covered, ?_⟩ acked
    rcases where_ with ⟨writes, front, before⟩ | ⟨made, after⟩
    · -- Only the sync behind the last extent is next.
      have ops := before.ops
      rcases before.pending with rfl | ⟨rfl, rfl⟩
      · cases writes with
        | nil =>
          have tail := (List.cons.inj ops).2
          exact .inl ⟨[], [], before.slot, before.starts, .inr ⟨rfl, rfl⟩, before.beyond, tail, before.planned⟩
        | cons first others => cases (List.cons.inj ops).1
      · cases target with
        | none => cases ops
        | some made => cases (List.cons.inj ops).1
    · refine .inr ⟨made, after.target, after.newest, after.slot, after.starts, .inr ?_, after.fitting⟩
      rcases after.ops with ops | ops
      · exact (List.cons.inj ops).2
      · cases ops
  · refine ⟨⟨index, newest, older, published, filed, ?_, ?_⟩, inv.caches, ?_⟩
    · intro owner there
      cases there
      exact known
    · -- A slot's sync leaves doubt; before the slot is written the newest version is the writer's own base.
      intro quiet
      obtain ⟨calm, last⟩ := Bool.or_eq_false_iff.mp quiet
      have now := acked calm
      rw [writer] at now
      rcases where_ with ⟨writes, front, before⟩ | ⟨made, after⟩
      · have same : newest = world.acked := by simpa [settled, landed, before.slot] using now
        exact congrArg some same
      · rcases after.ops with ops | ops
        · cases ops
          rw [after.target] at last
          cases last
        · cases ops
    · refine inv.regrown ⟨fun _ member => member, ?_, fun valid => valid⟩ rfl
      intro other now
      simp only [World.setStage] at now
      split at now
      · cases now
      · exact now

end

variable {entry : DiskCache}

theorem Known.made {published : List Version} (known : Known fileId exact published base)
    {version : Version} (member : version ∈ published) (here : entry.fileId = base.fileId) (sb : version.sb = entry.sb)
    (small : entry.state.lastSeq < u64Max)
    (same : exact → version.state = entry.state ∧ entry.walApplied = entry.sb.walLength) :
    Known fileId exact published entry :=
  ⟨here.trans known.1, small, version, member, sb, same⟩

theorem installCommit_cases (slot : Option DiskCache) (sb : Superblock) (state : DocState) :
    (base.walApplied ≠ base.sb.walLength ∧ installCommit slot base sb state = slot) ∨
      installCommit slot base sb state = installNewer slot (commitEntry base sb state) base.fileId := by
  unfold installCommit
  split
  · rename_i torn
    exact .inl ⟨torn, rfl⟩
  · exact .inr rfl

theorem Inv.install (inv : Inv engine serde fileId exact parity world) (handle : Nat)
    (known : Known fileId exact world.published entry) (current : FileId) :
    Inv engine serde fileId exact parity (world.setCache handle (installNewer (world.caches handle) entry current)) ∧
      Covers (world.setCache handle (installNewer (world.caches handle) entry current)) handle entry := by
  have same : ∀ held, world.caches handle = some held → held.fileId = entry.fileId := by
    intro held there
    rw [(inv.caches handle held there).1, known.1]
  obtain ⟨now, installed, which, newer, ahead⟩ := installNewer_ahead current same
  refine ⟨inv.setCache ?_ fun held there => ⟨now, installed, ahead held there⟩, now, (if_pos rfl).trans installed, newer⟩
  intro held there
  rw [installed] at there
  cases there
  rcases which with rfl | old
  · exact known
  · exact inv.caches handle now old

theorem finish_inv (inv : Inv engine serde fileId exact parity world)
    (writer : world.writer = some ⟨handle, .writing slot base [] started target⟩) :
    Inv engine serde fileId exact parity (world.finish handle slot base target) := by
  obtain ⟨index, newest, older, published, filed, sound, acked⟩ := inv.file
  obtain ⟨known, sane, covered, ⟨writes, front, before⟩ | ⟨made, after⟩⟩ := sound _ writer
  · have ops := before.ops
    obtain ⟨-, noSlot⟩ := append_eq_nil_iff.mp ops.symm
    cases target with
    | some made => cases noSlot
    | none =>
      refine inv.setStage published filed known ?_
      intro quiet
      have now := acked quiet
      rw [writer] at now
      simpa [settled, landed, before.slot] using now
  · have isMade := after.target
    subst isMade
    have isNewest := after.newest
    subst isNewest
    have member : (⟨made.sb, made.state⟩ : Version) ∈ world.published := by
      rw [published]
      exact mem_cons_self
    -- The acknowledged version is the newest from here on.
    have acknowledged : Inv engine serde fileId exact parity { world with acked := ⟨made.sb, made.state⟩, doubtful := false, writer := none } := by
      refine ⟨⟨index, _, older, published, filed, (fun _ there => nomatch there), fun _ => rfl⟩, inv.caches, ?_⟩
      exact inv.regrown ⟨fun _ member => member, fun _ sane => sane, fun valid => valid⟩ rfl
    simp only [World.finish]
    split
    · rename_i checkpoint
      obtain ⟨sameState, empty⟩ := after.fitting.2 checkpoint
      have entry : Known fileId exact world.published ⟨base.fileId, made.sb, base.state, 0⟩ :=
        known.made member rfl rfl known.2.1 fun _ => ⟨sameState, empty.symm⟩
      exact (acknowledged.install handle entry base.fileId).1
    · have entry : Known fileId exact world.published (commitEntry base made.sb made.state) := by
        refine known.made member rfl rfl after.fitting.1 fun exactly => ⟨rfl, ?_⟩
        obtain ⟨-, -, version, -, -, same⟩ := known
        exact if_neg (fun torn => torn (same exactly).2)
      have here : otherSlot slot = index := after.slot.2.symm
      obtain ⟨kept, covers⟩ := acknowledged.install handle entry base.fileId
      rcases installCommit_cases (world.caches handle) made.sb made.state with ⟨torn, same⟩ | same
      · rw [same]
        have unchanged_ : Inv engine serde fileId exact parity
            (World.setCache { world with acked := ⟨made.sb, made.state⟩, doubtful := false, writer := none } handle (world.caches handle)) :=
          acknowledged.setCache (inv.caches handle) fun held there => ⟨held, there, Nat.le_refl _⟩
        refine unchanged_.setStage published filed ⟨here, rfl, entry, sane, ?_⟩ fun _ => rfl
        intro exactly
        obtain ⟨-, -, version, -, -, whole⟩ := known
        exact absurd (whole exactly).2 torn
      · rw [same]
        exact kept.setStage published filed ⟨here, rfl, entry, sane, fun _ => covers⟩ fun _ => rfl

theorem settleFailed_cases (slot : Option DiskCache) :
    settleFailed slot base = some base ∨ settleFailed slot base = slot := by
  unfold settleFailed
  split
  · exact .inl rfl
  · split
    · exact .inl rfl
    · exact .inr rfl

theorem settle_inv (inv : Inv engine serde fileId exact parity world)
    (writer : world.writer = some ⟨handle, .failed base⟩) :
    Inv engine serde fileId exact parity (world.settle handle base) := by
  obtain ⟨index, newest, older, published, filed, sound, acked⟩ := inv.file
  have known : Known fileId exact world.published base := sound _ writer
  rw [writer] at acked
  unfold World.settle
  split
  · refine ⟨⟨index, newest, older, published, filed, (fun _ there => nomatch there), acked⟩, ?_,
      inv.regrown ⟨fun _ member => member, fun _ sane => sane, fun valid => valid⟩ rfl⟩
    intro other held there
    simp only [World.setCache] at there
    split at there
    · rcases settleFailed_cases (world.caches handle) with set | kept
      · rw [set] at there
        cases there
        exact known
      · rw [kept] at there
        exact inv.caches handle held there
    · exact inv.caches other held there
  · exact inv.unlock published filed fun quiet => Option.some.inj (acked quiet)

theorem release_inv (inv : Inv engine serde fileId exact parity world)
    (writer : world.writer = some ⟨handle, .ready slot base⟩) :
    Inv engine serde fileId exact parity { world with writer := none } := by
  obtain ⟨index, newest, older, published, filed, -, acked⟩ := inv.file
  rw [writer] at acked
  exact inv.unlock published filed fun quiet => Option.some.inj (acked quiet)

theorem step_inv (keeps : engine.KeepsMetadata) (inv : Inv engine serde fileId exact parity world) {event : Event}
    (fine : event.Sound engine serde exact) : Inv engine serde fileId exact parity (step engine serde fileId world event) := by
  unfold step
  split
  · exact start_inv inv _ _
  · exact check_inv inv _
  · exact readSlot_inv inv _ _
  · exact load_inv inv _
  · exact install_inv inv _
  · exact lock_inv inv _
  split
  · exact refreshed_inv inv ‹_›
  · exact publish_inv keeps inv ‹_› fine
  · exact checkpoint_inv inv ‹_›
  · exact release_inv inv ‹_›
  · exact begins_inv inv ‹_›
  · exact write_inv inv ‹_›
  · exact sync_inv inv ‹_› _
  · exact finish_inv inv ‹_›
  · exact settle_inv inv ‹_›
  · exact inv

theorem run_inv (keeps : engine.KeepsMetadata) (inv : Inv engine serde fileId exact parity world) {events : List Event}
    (fine : ∀ event ∈ events, event.Sound engine serde exact) :
    Inv engine serde fileId exact parity (run engine serde fileId world events) := by
  induction events generalizing world with
  | nil => exact inv
  | cons event rest ih =>
    exact ih (step_inv keeps inv (fine event mem_cons_self)) fun event member => fine event (mem_cons_of_mem _ member)

theorem run_append (world : World) (first second : List Event) :
    run engine serde fileId world (first ++ second) = run engine serde fileId (run engine serde fileId world first) second :=
  foldl_append

end FerroLoop.Store.Readers
