import FerroLoop.Store.Fresh
import FerroLoop.Store.ReadersStep

namespace FerroLoop.Store.Readers

open Bytes Checked Disk List

/-- A file between two publishes, every one of them acknowledged, and handles with nothing under
way. -/
structure Start (engine : Engine) (serde : SerdeJson) (fileId : FileId) (exact : Prop) (parity : Nat) (world : World) :
    Prop where
  file : ∃ index older, world.published = world.acked :: older ∧
    Filed engine serde exact parity world.file index world.acked older
  caches : ∀ handle held, world.caches handle = some held → Known fileId exact world.published held
  writer : world.writer = none
  readers : ∀ id, world.readers id = none
  poisoned : ∀ handle, world.poisoned handle = false

variable {engine : Engine} {serde : SerdeJson} {fileId : FileId} {exact : Prop}

theorem Start.inv {parity : Nat} {world : World}
    (start : Start engine serde fileId exact parity world) : Inv engine serde fileId exact parity world := by
  obtain ⟨index, older, published, filed⟩ := start.file
  refine ⟨⟨index, world.acked, older, published, filed, ?_, ?_⟩, start.caches, ?_⟩
  · intro writer there
    rw [start.writer] at there
    cases there
  · intro _
    rw [start.writer]
    rfl
  · intro id reader there
    rw [start.readers id] at there
    cases there

def opened (fileId : FileId) (file : Image) (sb : Superblock) (state : DocState) : World where
  file
  caches _ := some ⟨fileId, sb, state, sb.walLength⟩
  poisoned _ := false
  writer := none
  readers _ := none
  published := [⟨sb, state⟩]
  acked := ⟨sb, state⟩
  doubtful := false

theorem start_opened {file : Image} {sb : Superblock}
    {state : DocState} (stored : Stored engine serde file 0 sb state) (blank : readSlot file 1 = .invalid) :
    Start engine serde fileId exact (sb.epoch % 2) (opened fileId file sb state) := by
  have only : ∀ version ∈ ([⟨sb, state⟩] : List Version), version = ⟨sb, state⟩ :=
    fun version member => List.mem_singleton.mp member
  refine ⟨⟨0, [], rfl, stored.slots, ⟨sb, stored.slots.readSlot_newest⟩, ?_, ?_, pairwise_singleton _ _, ?_, ?_⟩, ?_, rfl,
    fun _ => rfl, fun _ => rfl⟩
  · intro slot found two valid
    have which : slot = 0 ∨ slot = 1 := by omega
    rcases which with rfl | rfl
    · have newest : readSlot file 0 = .valid sb := stored.slots.readSlot_newest
      have same : SlotRead.valid sb = .valid found := newest.symm.trans valid
      cases same
      exact ⟨⟨⟨sb, state⟩, mem_singleton_self _, rfl⟩, rfl⟩
    · have never : SlotRead.invalid = .valid found := blank.symm.trans valid
      cases never
  · intro version member
    rw [only version member]
    exact stored.holds.fits
  · intro version member
    rw [only version member]
    exact Nat.le_refl _
  · intro _ version member
    rw [only version member]
    exact stored.holds
  · intro handle held there
    cases there
    exact ⟨rfl, stored.holds.durable.seq, ⟨sb, state⟩, mem_singleton_self _, rfl, fun _ => ⟨rfl, rfl⟩⟩

/-! ### What an event can do -/

/-- One step of the machine, as far as the lock, the caches and the readers go. -/
inductive Effect (fileId : FileId) (world : World) (event : Event) : World → Prop
  | same : Effect fileId world event world
  | starts {id : Nat} (handle : Nat) (free : world.readers id = none) :
    Effect fileId world event
      (world.setReader id ⟨handle, world.caches handle, (false, false), .cloned (world.caches handle)⟩)
  | checks {id : Nat} {reader : Reader} {cached : Option DiskCache} (there : world.readers id = some reader)
      (cloned : reader.phase = .cloned cached) :
    Effect fileId world event (world.setReader id { reader with phase := checkPhase (world.poisoned reader.handle) cached })
  | reads {id : Nat} {reader : Reader} (phase : Phase) (torn : Bool × Bool) (there : world.readers id = some reader)
      (early : ∀ cached, reader.phase ≠ .cloned cached) (running : ∀ result, reader.phase ≠ .done result) :
    Effect fileId world event (world.setReader id { reader with phase, torn })
  | installs {id : Nat} {reader : Reader} {fresh : DiskCache} (phase : Phase) (there : world.readers id = some reader)
      (loaded : reader.phase = .loaded fresh) :
    Effect fileId world event ((world.setCache reader.handle
      (installRead fileId (world.poisoned reader.handle) (world.caches reader.handle) fresh).1).setReader id { reader with phase })
  | locks {handle : Nat} (stage : Stage) (free : world.writer = none) (sane : world.poisoned handle = false) :
    Effect fileId world event (world.setStage handle stage)
  | refreshes {handle index : Nat} {fresh : DiskCache} (writer : world.writer = some ⟨handle, .refreshed index fresh⟩) :
    Effect fileId world event (world.refreshed fileId handle index fresh)
  | goes {handle : Nat} {stage : Stage} (next : Stage) (writer : world.writer = some ⟨handle, stage⟩)
      (working : ∀ base, stage ≠ .failed base) : Effect fileId world event (world.setStage handle next)
  | writes {handle index : Nat} {base : DiskCache} {write : Write} {rest : List IoOp} {started : Bool} {target : Option Target}
      (writer : world.writer = some ⟨handle, .writing index base (.write write :: rest) started target⟩) :
    Effect fileId world event (world.write handle index base write rest target)
  | fails {handle index : Nat} {base : DiskCache} {rest : List IoOp} {started : Bool} {target : Option Target}
      (writer : world.writer = some ⟨handle, .writing index base (.sync :: rest) started target⟩) (is : event = .sync false) :
    Effect fileId world event (world.sync handle index base rest target false)
  | finishes {handle index : Nat} {base : DiskCache} {started : Bool} (made : Target)
      (writer : world.writer = some ⟨handle, .writing index base [] started (some made)⟩) :
    Effect fileId world event (world.finish handle index base (some made))
  | releases {handle index : Nat} {base : DiskCache} (writer : world.writer = some ⟨handle, .ready index base⟩) :
    Effect fileId world event { world with writer := none }
  | settles {handle : Nat} {base : DiskCache} (writer : world.writer = some ⟨handle, .failed base⟩) (is : event = .settle) :
    Effect fileId world event (world.settle handle base)

theorem Effect.of_read {fileId : FileId} {world : World} {event : Event} {id : Nat} {turn : Reader → World}
    (turned : ∀ reader, world.readers id = some reader → Effect fileId world event (turn reader)) :
    Effect fileId world event (world.read id turn) := by
  unfold World.read
  split
  · exact .same
  · exact turned _ ‹_›

theorem step_effect (engine : Engine) (serde : SerdeJson) (fileId : FileId) (world : World) (event : Event) :
    Effect fileId world event (step engine serde fileId world event) := by
  unfold step
  split
  · unfold World.start
    split
    · exact .same
    · exact .starts _ ‹_›
  · refine .of_read fun reader there => ?_
    split
    · exact .checks there ‹_›
    · exact .same
  · refine .of_read fun reader there => ?_
    split
    · rename_i current
      exact .reads _ _ there (by simp [current]) (by simp [current])
    · rename_i current
      exact .reads _ _ there (by simp [current]) (by simp [current])
    · exact .same
  · refine .of_read fun reader there => ?_
    split
    · rename_i current
      exact .reads _ reader.torn there (by simp [current]) (by simp [current])
    · exact .same
  · refine .of_read fun reader there => ?_
    split
    · exact .installs _ there ‹_›
    · exact .same
  · unfold World.lock
    split
    · rename_i free sane _
      split
      · exact .locks _ free sane
      · split
        · exact .locks _ free sane
        · exact .same
    · exact .same
  · split
    · exact .refreshes ‹_›
    · rename_i writer _ _ _ _ _ _
      unfold World.publish
      split
      · exact .same
      split
      · exact .same
      · split
        · exact .goes _ writer (by rintro _ ⟨⟩)
        · split <;> exact .goes _ writer (by rintro _ ⟨⟩)
    · rename_i writer _ _ _ _ _ _
      unfold World.checkpoint
      split
      · exact .same
      · split <;> exact .goes _ writer (by rintro _ ⟨⟩)
    · exact .releases ‹_›
    · rename_i writer _ _ _ _ _ _
      exact .goes _ writer (by rintro _ ⟨⟩)
    · exact .writes ‹_›
    · rename_i returned writer _ _ _ _ _ _
      cases returned with
      | true => exact .goes _ writer (by rintro _ ⟨⟩)
      | false => exact .fails writer rfl
    · rename_i target writer _ _ _ _ _ _
      cases target with
      | none => exact .goes _ writer (by rintro _ ⟨⟩)
      | some made => exact .finishes made writer
    · exact .settles ‹_› rfl
    · exact .same

/-! ### One step moves every cache forward -/

variable {engine : Engine} {serde : SerdeJson} {fileId : FileId} {exact : Prop} {parity : Nat} {world next : World}

def Forward (world next : World) : Prop :=
  ∀ handle, next.poisoned handle = false → world.poisoned handle = false ∧
    ∀ held, world.caches handle = some held → ∃ now, next.caches handle = some now ∧ held.sb.epoch ≤ now.sb.epoch

theorem Forward.refl (world : World) : Forward world world :=
  fun _ sane => ⟨sane, fun held there => ⟨held, there, Nat.le_refl _⟩⟩

theorem Forward.trans {last : World} (first : Forward world next) (second : Forward next last) : Forward world last := by
  intro handle sane
  obtain ⟨middle, later⟩ := second handle sane
  obtain ⟨before, earlier⟩ := first handle middle
  refine ⟨before, ?_⟩
  intro held there
  obtain ⟨mid, atMid, upTo⟩ := earlier held there
  obtain ⟨now, atEnd, further⟩ := later mid atMid
  exact ⟨now, atEnd, Nat.le_trans upTo further⟩

variable {handle : Nat}

theorem Forward.of_cache {cache : Option DiskCache} (poisoned : next.poisoned = world.poisoned)
    (caches : next.caches = (world.setCache handle cache).caches)
    (ahead : world.poisoned handle = false → ∀ held, world.caches handle = some held →
      ∃ now, cache = some now ∧ held.sb.epoch ≤ now.sb.epoch) : Forward world next := by
  intro other sane
  rw [poisoned] at sane
  refine ⟨sane, ?_⟩
  intro held there
  rw [caches]
  by_cases same : other = handle
  · subst same
    obtain ⟨now, set, newer⟩ := ahead sane held there
    exact ⟨now, (if_pos rfl).trans set, newer⟩
  · exact ⟨held, (if_neg same).trans there, Nat.le_refl _⟩

theorem Forward.same (poisoned : next.poisoned = world.poisoned) (caches : next.caches = world.caches) :
    Forward world next := by
  intro handle sane
  rw [poisoned] at sane
  rw [caches]
  exact ⟨sane, fun held there => ⟨held, there, Nat.le_refl _⟩⟩

theorem Forward.read {id : Nat} {turn : Reader → World}
    (turned : ∀ reader, world.readers id = some reader → Forward world (turn reader)) :
    Forward world (world.read id turn) := by
  unfold World.read
  split
  · exact Forward.refl world
  · rename_i reader there
    exact turned reader there

section

variable (inv : Inv engine serde fileId exact parity world)

include inv

theorem Forward.installNewer {entry : DiskCache} {current : FileId}
    (known : Known fileId exact world.published entry)
    (poisoned : next.poisoned = world.poisoned)
    (caches : next.caches = (world.setCache handle (installNewer (world.caches handle) entry current)).caches) :
    Forward world next := by
  refine Forward.of_cache poisoned caches ?_
  intro _ held there
  have same : ∀ held, world.caches handle = some held → held.fileId = entry.fileId := by
    intro held there
    rw [(inv.caches handle held there).1, known.1]
  obtain ⟨now, installed, -, -, ahead⟩ := installNewer_ahead current same
  exact ⟨now, installed, ahead held there⟩

variable {fresh : DiskCache}

theorem Forward.installRead (known : Known fileId exact world.published fresh)
    (poisoned : next.poisoned = world.poisoned)
    (caches : next.caches =
      (world.setCache handle (installRead fileId (world.poisoned handle) (world.caches handle) fresh).1).caches) :
    Forward world next := by
  unfold Readers.installRead at caches
  split at caches
  · exact Forward.of_cache poisoned caches fun _ held there => ⟨held, there, Nat.le_refl _⟩
  · exact Forward.installNewer inv known poisoned caches

theorem refreshed_forward {slot : Nat}
    (writer : world.writer = some ⟨handle, .refreshed slot fresh⟩) :
    Forward world (world.refreshed fileId handle slot fresh) := by
  obtain ⟨index, newest, older, -, -, sound, -⟩ := inv.file
  obtain ⟨-, -, known, -⟩ := sound _ writer
  exact Forward.installRead inv known rfl rfl

end

theorem finish_forward (inv : Inv engine serde fileId exact parity world) {slot : Nat} {base : DiskCache}
    {started : Bool} {target : Option Target} (writer : world.writer = some ⟨handle, .writing slot base [] started target⟩) :
    Forward world (world.finish handle slot base target) := by
  obtain ⟨index, newest, older, published, filed, sound, -⟩ := inv.file
  obtain ⟨known, -, -, ⟨writes, front, before⟩ | ⟨made, after⟩⟩ := sound _ writer
  · have ops := before.ops
    obtain ⟨-, noSlot⟩ := append_eq_nil_iff.mp ops.symm
    cases target with
    | some made => cases noSlot
    | none => exact Forward.same rfl rfl
  · have isMade := after.target
    subst isMade
    have ahead : ∀ entry : DiskCache, entry.fileId = base.fileId → ∀ held, world.caches handle = some held →
        ∃ now, installNewer (world.caches handle) entry base.fileId = some now ∧ held.sb.epoch ≤ now.sb.epoch := by
      intro entry here held there
      have same : ∀ held, world.caches handle = some held → held.fileId = entry.fileId := by
        intro held there
        rw [(inv.caches handle held there).1, here, known.1]
      obtain ⟨now, installed, -, -, further⟩ := installNewer_ahead base.fileId same
      exact ⟨now, installed, further held there⟩
    simp only [World.finish]
    split
    · exact Forward.of_cache rfl rfl fun _ => ahead ⟨base.fileId, made.sb, base.state, 0⟩ rfl
    refine Forward.of_cache rfl rfl fun _ => ?_
    rcases installCommit_cases (world.caches handle) made.sb made.state with ⟨-, same⟩ | same
    · intro held there
      exact ⟨held, same.trans there, Nat.le_refl _⟩
    · rw [same]
      exact ahead (commitEntry base made.sb made.state) rfl

theorem step_forward (inv : Inv engine serde fileId exact parity world) (event : Event) :
    Forward world (step engine serde fileId world event) := by
  have effect := step_effect engine serde fileId world event
  generalize step engine serde fileId world event = next at effect ⊢
  cases effect with
  | same => exact Forward.refl world
  | starts | checks | reads | locks | goes | writes | releases => exact Forward.same rfl rfl
  | installs _ there loaded =>
    have phase := (inv.readers _ _ there).phase
    rw [loaded] at phase
    exact Forward.installRead inv phase.1 rfl rfl
  | refreshes writer => exact refreshed_forward inv writer
  | fails writer is =>
    intro other sane
    simp only [World.sync, World.setStage, Bool.false_eq_true, if_false] at sane
    split at sane
    · cases sane
    · exact ⟨sane, fun held there => ⟨held, there, Nat.le_refl _⟩⟩
  | finishes made writer => exact finish_forward inv writer
  | settles writer is =>
    unfold World.settle
    split
    · rename_i poisoned
      refine Forward.of_cache rfl rfl fun sane => ?_
      rw [sane] at poisoned
      cases poisoned
    · exact Forward.same rfl rfl

variable {events : List Event}

theorem run_forward (keeps : engine.KeepsMetadata) (inv : Inv engine serde fileId exact parity world)
    (fine : ∀ event ∈ events, event.Sound engine serde exact) : Forward world (run engine serde fileId world events) := by
  induction events generalizing world with
  | nil => exact Forward.refl world
  | cons event rest ih =>
    have next := step_inv keeps inv (fine event mem_cons_self)
    exact (step_forward inv event).trans (ih next fun event member => fine event (mem_cons_of_mem _ member))

theorem step_poisoned (world : World) {event : Event} (returned : event ≠ .sync false) :
    (step engine serde fileId world event).poisoned = world.poisoned := by
  have effect := step_effect engine serde fileId world event
  generalize step engine serde fileId world event = next at effect ⊢
  cases effect with
  | same | starts | checks | reads | installs | locks | refreshes | goes | writes | releases => rfl
  | fails writer is => exact absurd is returned
  | finishes made writer =>
    simp only [World.finish]
    split <;> rfl
  | settles =>
    unfold World.settle
    split <;> rfl

theorem run_poisoned (world : World) (returned : ∀ event ∈ events, event ≠ .sync false) :
    (run engine serde fileId world events).poisoned = world.poisoned := by
  induction events generalizing world with
  | nil => rfl
  | cons event rest ih =>
    have tail := ih (step engine serde fileId world event) fun event member => returned event (mem_cons_of_mem _ member)
    exact tail.trans (step_poisoned world (returned event mem_cons_self))

/-- Any number of readers with torn slot reads, any handles that publish and checkpoint: as long as
a handle is not poisoned its cache never goes back, and a read of it that returns is not behind
the cache it started from and returns a version some publish made as a whole. `exact` stands for
that every document published comes back from its text. -/
theorem reads_never_go_back (keeps : engine.KeepsMetadata) (start : Start engine serde fileId exact parity world)
    (events : List Event) (fine : ∀ event ∈ events, event.Sound engine serde exact) (handle : Nat)
    (sane : (run engine serde fileId world events).poisoned handle = false) :
    (∀ front back, events = front ++ back → ∀ held, (run engine serde fileId world front).caches handle = some held →
      ∃ now, (run engine serde fileId world events).caches handle = some now ∧ held.sb.epoch ≤ now.sb.epoch) ∧
    ∀ id reader entry, (run engine serde fileId world events).readers id = some reader → reader.handle = handle →
      reader.phase = .done (.ok entry) →
      (∀ held, reader.began = some held → held.sb.epoch ≤ entry.sb.epoch) ∧
      ∃ version ∈ (run engine serde fileId world events).published, version.sb = entry.sb ∧
        (exact → version.state = entry.state) := by
  constructor
  · rintro front back rfl held there
    have middle := run_inv keeps start.inv fun event member => fine event (mem_append_left _ member)
    have ahead := run_forward keeps middle fun event member => fine event (mem_append_right _ member)
    rw [run_append] at sane ⊢
    exact (ahead handle sane).2 held there
  · intro id reader entry there owner finished
    have phase := ((run_inv keeps start.inv fine).readers id reader there).phase
    rw [finished] at phase
    obtain ⟨⟨-, -, version, member, named, same⟩, -, ahead⟩ := phase
    rw [owner] at ahead
    exact ⟨ahead sane, version, member, named, fun exactly => (same exactly).1⟩

/-! ### A store on which the theorems are tried -/

open Sample

noncomputable def sampleCommit : DocState → Except StoreError Publish :=
  commitPublish Sample.engine Sample.serde [put 1]

theorem sampleCommit_sound (exact : Prop) : (Event.publish sampleCommit).Sound Sample.engine Sample.serde exact := by
  apply commitPublish_sound
  intro op member value held
  rw [List.mem_singleton.mp member] at held
  rw [List.mem_singleton.mp held]
  exact serde_documented.reads_back _ (nested_readable (by decide))

noncomputable def readWhileCommitting : List Event :=
  [.start 0 0, .lock 1, .check 0, .publish sampleCommit, .readSlot 0 false, .write, .sync true, .begins, .readSlot 0 true,
    .write, .load 0, .sync true, .finish, .install 0]

theorem reads_never_go_back_sample : ∃ file length, initEmpty Sample.engine Sample.serde = .ok file ∧
    ∀ id reader entry,
      (run Sample.engine Sample.serde (0, 0) (opened (0, 0) file (freshSuperblock 1 length 0) emptyState)
        readWhileCommitting).readers id = some reader → reader.handle = 0 → reader.phase = .done (.ok entry) →
      (∀ held, reader.began = some held → held.sb.epoch ≤ entry.sb.epoch) ∧
      ∃ version ∈ (run Sample.engine Sample.serde (0, 0)
          (opened (0, 0) file (freshSuperblock 1 length 0) emptyState) readWhileCommitting).published,
        version.sb = entry.sb ∧ (True → version.state = entry.state) := by
  obtain ⟨file, length, fresh, stored, -⟩ := initEmpty_stored
  have start : Start Sample.engine Sample.serde (0, 0) True 1
      (opened (0, 0) file (freshSuperblock 1 length 0) emptyState) := start_opened stored (freshFile_second fresh)
  refine ⟨file, length, fresh, (reads_never_go_back engine_keeps start readWhileCommitting ?_ 0 ?_).2⟩
  · intro event member
    simp only [readWhileCommitting, mem_cons, not_mem_nil, or_false] at member
    rcases member with rfl | rfl | rfl | rfl | rfl | rfl | rfl | rfl | rfl | rfl | rfl | rfl | rfl | rfl
    all_goals first | exact sampleCommit_sound True | trivial
  · rw [run_poisoned]
    · rfl
    · intro event member failed
      subst failed
      simp [readWhileCommitting] at member

end FerroLoop.Store.Readers
