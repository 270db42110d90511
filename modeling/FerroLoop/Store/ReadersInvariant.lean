import FerroLoop.Store.ReadersSound

namespace FerroLoop.Store.Readers

open Bytes Checked Disk

variable (engine : Engine) (serde : SerdeJson) (fileId : FileId) (exact : Prop) (parity : Nat)

def Known (published : List Version) (entry : DiskCache) : Prop :=
  entry.fileId = fileId ∧ entry.state.lastSeq < u64Max ∧ ∃ version ∈ published, version.sb = entry.sb ∧
    (exact → version.state = entry.state ∧ entry.walApplied = entry.sb.walLength)

def Pending (writes : List Write) (ops : List IoOp) : Prop := ops = synced writes ∨ (writes = [] ∧ ops = [])

def Target.Fitting (made : Target) (base : DiskCache) : Prop :=
  made.state.lastSeq < u64Max ∧ (made.checkpoint = true → made.state = base.state ∧ made.sb.walLength = 0)

structure Before (file : Image) (index : Nat) (newest : Version) (slot : Nat) (base : DiskCache) (ops : List IoOp)
    (target : Option Target) (writes : List Write) (front : List IoOp) : Prop where
  slot : slot = index
  starts : base.sb = newest.sb
  pending : Pending writes front
  beyond : ∀ write ∈ writes, newest.sb.walOffset + newest.sb.walLength ≤ write.offset
  ops : ops = front ++ target.elim [] fun made => slotOps (otherSlot index) made.sb
  planned : ∀ made, target = some made → Planned newest.sb made.sb writes ∧ made.Fitting base ∧
    (exact → Holds engine serde (writes.foldl Write.apply file) made.sb made.state)

structure After (index : Nat) (newest : Version) (older : List Version) (slot : Nat) (base : DiskCache) (ops : List IoOp)
    (target : Option Target) (made : Target) : Prop where
  target : target = some made
  newest : newest = ⟨made.sb, made.state⟩
  slot : slot < 2 ∧ index = otherSlot slot
  starts : ∃ previous, older.head? = some previous ∧ previous.sb = base.sb
  ops : ops = [.sync] ∨ ops = []
  fitting : made.Fitting base

def Covers (world : World) (handle : Nat) (base : DiskCache) : Prop :=
  ∃ held, world.caches handle = some held ∧ base.sb.epoch ≤ held.sb.epoch

def Stage.Sound (world : World) (handle index : Nat) (newest : Version) (older : List Version) : Stage → Prop
  | .refreshed slot fresh => slot = index ∧ fresh.sb = newest.sb ∧ Known fileId exact world.published fresh ∧
      world.poisoned handle = false
  | .ready slot base => slot = index ∧ base.sb = newest.sb ∧ Known fileId exact world.published base ∧
      world.poisoned handle = false ∧ (exact → Covers world handle base)
  | .writing slot base ops _ target => Known fileId exact world.published base ∧ world.poisoned handle = false ∧
      (exact → Covers world handle base) ∧
      ((∃ writes front, Before engine serde exact world.file index newest slot base ops target writes front) ∨
        ∃ made, After index newest older slot base ops target made)
  | .failed base => Known fileId exact world.published base

def Stage.landed (index : Nat) : Stage → Bool
  | .writing slot _ _ _ _ => slot != index
  | _ => false

def settled (writer : Option Writer) (index : Nat) (newest : Version) (older : List Version) : Option Version :=
  if writer.any fun held => held.stage.landed index then older.head? else some newest

def NotBehind (began : Option DiskCache) (sb : Superblock) : Prop := ∀ held, began = some held → held.sb.epoch ≤ sb.epoch

def Phase.Sound (world : World) (reader : Reader) : Phase → Prop
  | .cloned cached => cached = reader.began ∧ reader.torn = (false, false)
  | .checked cached => cached = reader.began ∧ reader.torn = (false, false)
  | .between cached first => cached = reader.began ∧ reader.torn.2 = false ∧
      ((reader.torn.1 = false ∧ ∃ sb, first = .valid sb ∧ (∃ version ∈ world.published, version.sb = sb) ∧
          sb.epoch % 2 = parity) ∨
        (reader.torn.1 = true ∧ first = .invalid ∧ ∃ sb, readSlot world.file 1 = .valid sb))
  | .found cached sb => cached = reader.began ∧ reader.torn ≠ (true, true) ∧
      (∃ version ∈ world.published, version.sb = sb) ∧ NotBehind reader.began sb
  | .loaded fresh => Known fileId exact world.published fresh ∧ reader.torn ≠ (true, true) ∧ NotBehind reader.began fresh.sb
  | .done (.ok entry) => Known fileId exact world.published entry ∧ reader.torn ≠ (true, true) ∧
      (world.poisoned reader.handle = false → NotBehind reader.began entry.sb)
  | .done (.error _) => exact → reader.torn = (true, true)

structure Reader.Sound (world : World) (reader : Reader) : Prop where
  began : ∀ held, reader.began = some held → Known fileId exact world.published held
  phase : reader.phase.Sound fileId exact parity world reader

structure Inv (world : World) : Prop where
  file : ∃ index newest older, world.published = newest :: older ∧
    Filed engine serde exact parity world.file index newest older ∧
    (∀ writer, world.writer = some writer →
      writer.stage.Sound engine serde fileId exact world writer.handle index newest older) ∧
    (world.doubtful = false → settled world.writer index newest older = some world.acked)
  caches : ∀ handle held, world.caches handle = some held → Known fileId exact world.published held
  readers : ∀ id reader, world.readers id = some reader → reader.Sound fileId exact parity world

section Steps

variable {engine : Engine} {serde : SerdeJson} {fileId : FileId} {exact : Prop} {parity : Nat} {world : World}

theorem Known.mono {published more : List Version} {entry : DiskCache} (known : Known fileId exact published entry)
    (grows : ∀ version ∈ published, version ∈ more) : Known fileId exact more entry := by
  obtain ⟨here, small, version, member, named⟩ := known
  exact ⟨here, small, version, grows version member, named⟩

structure Grown (world next : World) : Prop where
  published : ∀ version ∈ world.published, version ∈ next.published
  poisoned : ∀ handle, next.poisoned handle = false → world.poisoned handle = false
  second : (∃ sb, readSlot world.file 1 = .valid sb) → ∃ sb, readSlot next.file 1 = .valid sb

theorem Reader.Sound.grown {next : World} {reader : Reader} (sound : reader.Sound fileId exact parity world)
    (grown : Grown world next) : reader.Sound fileId exact parity next := by
  refine ⟨fun held began => (sound.began held began).mono grown.published, ?_⟩
  have phase := sound.phase
  cases current : reader.phase with
  | cloned cached | checked cached =>
    rw [current] at phase
    exact phase
  | between cached first =>
    rw [current] at phase
    obtain ⟨same, whole, found⟩ := phase
    refine ⟨same, whole, ?_⟩
    rcases found with ⟨intact, sb, valid, ⟨version, member, named⟩, even⟩ | ⟨torn, invalid, second⟩
    · exact .inl ⟨intact, sb, valid, ⟨version, grown.published version member, named⟩, even⟩
    · exact .inr ⟨torn, invalid, grown.second second⟩
  | found cached sb =>
    rw [current] at phase
    obtain ⟨same, whole, ⟨version, member, named⟩, ahead⟩ := phase
    exact ⟨same, whole, ⟨version, grown.published version member, named⟩, ahead⟩
  | loaded fresh =>
    rw [current] at phase
    exact ⟨phase.1.mono grown.published, phase.2⟩
  | done result =>
    rw [current] at phase
    cases result with
    | error err => exact phase
    | ok entry => exact ⟨phase.1.mono grown.published, phase.2.1, fun sound => phase.2.2 (grown.poisoned _ sound)⟩

variable {reader : Reader} {cached : Option DiskCache}

section

variable (inv : Inv engine serde fileId exact parity world)

include inv

theorem Inv.setReader {id : Nat}
    (sound : reader.Sound fileId exact parity world) : Inv engine serde fileId exact parity (world.setReader id reader) := by
  refine ⟨inv.file, inv.caches, ?_⟩
  intro other found there
  unfold World.setReader at there
  simp only at there
  split at there
  · cases there
    exact ⟨sound.began, sound.phase⟩
  · exact ⟨(inv.readers other found there).began, (inv.readers other found there).phase⟩

theorem Inv.read {id : Nat} {turn : Reader → World}
    (turned : ∀ reader : Reader, reader.Sound fileId exact parity world → Inv engine serde fileId exact parity (turn reader)) :
    Inv engine serde fileId exact parity (world.read id turn) := by
  unfold World.read
  split
  · exact inv
  · rename_i reader there
    exact turned reader (inv.readers id reader there)

theorem start_inv (id handle : Nat) :
    Inv engine serde fileId exact parity (world.start id handle) := by
  unfold World.start
  split
  · exact inv
  · exact inv.setReader ⟨fun held there => inv.caches handle held there, rfl, rfl⟩

theorem check_inv (id : Nat) :
    Inv engine serde fileId exact parity (world.check id) := by
  refine inv.read fun reader sound => ?_
  have phase := sound.phase
  split
  · rename_i cached current
    rw [current] at phase
    obtain ⟨rfl, whole⟩ := phase
    refine inv.setReader ⟨sound.began, ?_⟩
    unfold checkPhase
    split
    · rename_i held _ began
      refine ⟨sound.began held began, ?_, ?_⟩
      · simp only [whole]
        decide
      · intro _ other same
        rw [began] at same
        cases same
        exact Nat.le_refl _
    · exact ⟨rfl, whole⟩
  · exact inv

theorem overwrites_other {slot : Nat} (two : slot < 2)
    (writes : world.overwrites slot = true) : ∃ sb, readSlot world.file (otherSlot slot) = .valid sb := by
  obtain ⟨index, newest, older, -, filed, writer, -⟩ := inv.file
  unfold World.overwrites at writes
  split at writes
  · rename_i handle at_ base write rest target current
    have offset : write.offset = slotOffset slot := beq_iff_eq.mp writes
    have header := slotOffset_end two
    have above := (filed.fits newest List.mem_cons_self).wal.1
    obtain ⟨-, -, -, before | ⟨made, after⟩⟩ := writer _ current
    · obtain ⟨extents, front, before⟩ := before
      rcases before.pending with pending | ⟨-, pending⟩
      · cases extents with
        | nil =>
          have ops := before.ops
          rw [pending] at ops
          cases ops
        | cons first others =>
          have ops := before.ops
          rw [pending] at ops
          obtain ⟨same, -⟩ := List.cons.inj ops
          cases same
          have beyond := before.beyond write List.mem_cons_self
          unfold slotLen at header
          omega
      · have ops := before.ops
        rw [pending] at ops
        rcases target with _ | made
        · cases ops
        obtain ⟨same, -⟩ := List.cons.inj ops
        cases same
        have here : slot = otherSlot index := by
          have same : otherSlot index * slotLen = slot * slotLen := offset
          exact (Nat.eq_of_mul_eq_mul_right (by decide) same).symm
        have back : otherSlot (otherSlot index) = index := by
          rcases otherSlot_cases filed.slots.slot with ⟨rfl, -⟩ | ⟨rfl, -⟩ <;> rfl
        rw [here, back]
        exact ⟨_, filed.slots.readSlot_newest⟩
    · rcases after.ops with ops | ops <;> cases ops
  · cases writes

theorem readSlot_cases {slot : Nat} (two : slot < 2) :
    readSlot world.file slot = .invalid ∨ ∃ sb, readSlot world.file slot = .valid sb ∧
      (∃ version ∈ world.published, version.sb = sb) ∧ (sb.epoch + slot) % 2 = parity := by
  obtain ⟨index, newest, older, published, filed, -⟩ := inv.file
  rw [published]
  have which : slot = index ∨ slot = otherSlot index := by
    rcases otherSlot_cases filed.slots.slot with ⟨rfl, other⟩ | ⟨rfl, other⟩ <;> rw [other] <;> omega
  rcases which with rfl | rfl
  · have valid := filed.slots.readSlot_newest
    exact .inr ⟨_, valid, filed.named _ _ two valid⟩
  · rcases filed.slots.readSlot_older with invalid | ⟨old, -, valid⟩
    · exact .inl invalid
    · exact .inr ⟨old, valid, filed.named _ _ two valid⟩

end

theorem latestSuperblock_first (sb : Superblock) : latestSuperblock (.valid sb) .invalid = .ok (0, sb) := rfl

theorem latestSuperblock_both {first second : Superblock} (differ : first.epoch ≠ second.epoch) :
    ∃ index sb, latestSuperblock (.valid first) (.valid second) = .ok (index, sb) ∧ (sb = first ∨ sb = second) := by
  by_cases older : second.epoch < first.epoch
  · refine ⟨0, first, ?_, .inl rfl⟩
    simp only [latestSuperblock, parsedSuperblock, betterSlot, ok_bind, older, ↓reduceIte]
  · refine ⟨1, second, ?_, .inr rfl⟩
    have notSame : second.epoch ≠ first.epoch := fun same => differ same.symm
    simp only [latestSuperblock, parsedSuperblock, betterSlot, ok_bind, older, notSame, ↓reduceIte]

section

variable (inv : Inv engine serde fileId exact parity world)

include inv

variable {first : SlotRead}

theorem latestSuperblock_cases (torn : Bool)
    (between : Phase.Sound fileId exact parity world reader (.between cached first)) :
    (latestSuperblock first (world.slotRead 1 torn) = .error (backend "no valid FerroStore superblock") ∧
      reader.torn.1 = true ∧ (torn && world.overwrites 1) = true) ∨
    ∃ index sb, latestSuperblock first (world.slotRead 1 torn) = .ok (index, sb) ∧
      (∃ version ∈ world.published, version.sb = sb) ∧ ¬ (reader.torn.1 = true ∧ (torn && world.overwrites 1) = true) := by
  obtain ⟨-, -, found⟩ := between
  unfold World.slotRead
  rcases found with ⟨intact, a, rfl, named, even⟩ | ⟨tore, rfl, b, valid⟩
  · refine .inr ?_
    have whole : ¬ (reader.torn.1 = true ∧ (torn && world.overwrites 1) = true) := by
      rw [intact]
      exact fun both => nomatch both.1
    split
    · exact ⟨0, a, latestSuperblock_first a, named, whole⟩
    rcases readSlot_cases inv (by decide : 1 < 2) with invalid | ⟨b, valid, other, odd⟩
    · rw [invalid]
      exact ⟨0, a, latestSuperblock_first a, named, whole⟩
    rw [valid]
    have differ : a.epoch ≠ b.epoch := by omega
    obtain ⟨index, sb, found, rfl | rfl⟩ := latestSuperblock_both differ
    · exact ⟨index, _, found, named, whole⟩
    · exact ⟨index, _, found, other, whole⟩
  · split
    · rename_i overlapped
      exact .inl ⟨rfl, tore, overlapped⟩
    rename_i whole
    refine .inr ⟨1, b, ?_, ?_, fun both => whole both.2⟩
    · rw [valid]
      rfl
    rcases readSlot_cases inv (by decide : 1 < 2) with invalid | ⟨c, same, other, -⟩
    · rw [valid] at invalid
      cases invalid
    · rw [valid] at same
      cases same
      exact other

theorem found_sound
    (torn : Bool) (sound : reader.Sound fileId exact parity world)
    (between : Phase.Sound fileId exact parity world reader (.between cached first)) :
    Reader.Sound fileId exact parity world
      { reader with phase := foundPhase fileId cached first (world.slotRead 1 torn), torn := (reader.torn.1, torn && world.overwrites 1) } := by
  refine ⟨sound.began, ?_⟩
  have began := between.1
  have notBoth : ¬ (reader.torn.1 = true ∧ (torn && world.overwrites 1) = true) →
      (reader.torn.1, torn && world.overwrites 1) ≠ (true, true) := by
    intro whole both
    exact whole (Prod.mk.inj both)
  rcases latestSuperblock_cases inv torn between with ⟨none_, first, second⟩ | ⟨index, sb, found, named, whole⟩
  · simp only [foundPhase, none_]
    intro _
    exact Prod.ext first second
  simp only [foundPhase, found]
  split
  · rename_i held ahead
    obtain ⟨there, -⟩ := Option.filter_eq_some_iff.mp ahead
    rw [began] at there
    refine ⟨sound.began held there, notBoth whole, ?_⟩
    intro _ other same
    have equal : held = other := Option.some.inj (there.symm.trans same)
    subst equal
    exact Nat.le_refl _
  · rename_i behind
    refine ⟨began, notBoth whole, named, ?_⟩
    intro held same
    have here := (sound.began held same).1
    rw [← began] at same
    unfold later at behind
    rw [same] at behind
    have fresh : ¬ (held.fileId = fileId ∧ sb.epoch < held.sb.epoch) := by
      intro both
      rw [Option.filter_some, if_pos (decide_eq_true both)] at behind
      cases behind
    exact Nat.le_of_not_lt fun older => fresh ⟨here, older⟩

theorem readSlot_inv (id : Nat) (torn : Bool) :
    Inv engine serde fileId exact parity (world.readSlot fileId id torn) := by
  refine inv.read fun reader sound => ?_
  have phase := sound.phase
  split
  · rename_i cached current
    rw [current] at phase
    refine inv.setReader ⟨sound.began, phase.1, rfl, ?_⟩
    unfold World.slotRead
    split
    · rename_i overlapped
      have second := overwrites_other inv (by decide : 0 < 2) (Bool.and_eq_true_iff.mp overlapped).2
      exact .inr ⟨overlapped, rfl, second⟩
    rename_i whole
    refine .inl ⟨Bool.eq_false_iff.mpr whole, ?_⟩
    obtain ⟨index, newest, older, published, filed, -⟩ := inv.file
    obtain ⟨sb, valid⟩ := filed.first
    obtain ⟨named, even⟩ := filed.named 0 sb (by decide) valid
    show ∃ found, readSlot world.file 0 = .valid found ∧ (∃ version ∈ world.published, version.sb = found) ∧ _
    rw [published]
    exact ⟨sb, valid, named, even⟩
  · rename_i cached first current
    rw [current] at phase
    exact inv.setReader (found_sound inv torn sound phase)
  · exact inv

end

theorem advance_known {file : Image} {index : Nat} {newest : Version} {older : List Version}
    {sb : Superblock} (filed : Filed engine serde exact parity file index newest older)
    (known : ∀ held, cached = some held → Known fileId exact (newest :: older) held)
    (named : ∃ version ∈ newest :: older, version.sb = sb) :
    (∀ fresh, advance engine serde file fileId cached sb = .ok fresh →
      Known fileId exact (newest :: older) fresh ∧ fresh.sb = sb) ∧
    (exact → ∃ fresh, advance engine serde file fileId cached sb = .ok fresh) := by
  obtain ⟨version, member, rfl⟩ := named
  have loads : exact → advance engine serde file fileId cached version.sb =
      .ok ⟨fileId, version.sb, version.state, version.sb.walLength⟩ := by
    intro exactly
    refine advance_holds (filed.holds exactly version member) ?_
    intro held there _
    obtain ⟨-, -, other, inside, sameSb, same⟩ := known held there
    obtain ⟨sameState, applied⟩ := same exactly
    have holds := filed.holds exactly other inside
    rw [sameSb, sameState] at holds
    exact ⟨holds, applied⟩
  refine ⟨?_, fun exactly => ⟨_, loads exactly⟩⟩
  intro fresh advanced
  obtain ⟨here, same, small⟩ := advance_names (filed.fits version member) (fun held there => (known held there).2.1) advanced
  refine ⟨⟨here, small, version, member, same.symm, ?_⟩, same⟩
  intro exactly
  rw [loads exactly] at advanced
  cases advanced
  exact ⟨rfl, rfl⟩

theorem load_inv (inv : Inv engine serde fileId exact parity world) (id : Nat) :
    Inv engine serde fileId exact parity (world.load engine serde fileId id) := by
  refine inv.read fun reader sound => ?_
  have phase := sound.phase
  split
  · rename_i cached sb current
    rw [current] at phase
    obtain ⟨rfl, whole, named, ahead⟩ := phase
    refine inv.setReader ⟨sound.began, ?_⟩
    unfold loadPhase
    split
    · rename_i held same
      obtain ⟨began, -⟩ := Option.filter_eq_some_iff.mp same
      refine ⟨sound.began held began, whole, ?_⟩
      intro _ other again
      have equal : held = other := Option.some.inj (began.symm.trans again)
      subst equal
      exact Nat.le_refl _
    · obtain ⟨index, newest, older, published, filed, -⟩ := inv.file
      have began := sound.began
      rw [published] at named began
      obtain ⟨loaded, loads⟩ := advance_known filed began named
      split
      · rename_i fresh advanced
        obtain ⟨known, same⟩ := loaded fresh advanced
        refine ⟨?_, whole, ?_⟩
        · rw [published]
          exact known
        · rw [same]
          exact ahead
      · rename_i err advanced
        intro exactly
        obtain ⟨fresh, other⟩ := loads exactly
        rw [advanced] at other
        cases other
  · exact inv

variable {fresh : DiskCache}

theorem installNewer_ahead {slot : Option DiskCache} (current : FileId)
    (same : ∀ held, slot = some held → held.fileId = fresh.fileId) :
    ∃ after, installNewer slot fresh current = some after ∧ (after = fresh ∨ slot = some after) ∧
      fresh.sb.epoch ≤ after.sb.epoch ∧ ∀ held, slot = some held → held.sb.epoch ≤ after.sb.epoch := by
  rcases slot with _ | held
  · exact ⟨fresh, rfl, .inl rfl, Nat.le_refl _, fun held there => nomatch there⟩
  simp only [installNewer]
  rw [if_pos (same held rfl)]
  split
  · rename_i newer
    refine ⟨fresh, rfl, .inl rfl, Nat.le_refl _, ?_⟩
    intro other there
    cases there
    exact Nat.le_of_lt newer
  · rename_i notNewer
    refine ⟨held, rfl, .inr rfl, Nat.le_of_not_lt notNewer, ?_⟩
    intro other there
    cases there
    exact Nat.le_refl _

section

variable (inv : Inv engine serde fileId exact parity world)

include inv

theorem Inv.setCache {handle : Nat} {cache : Option DiskCache}
    (known : ∀ held, cache = some held → Known fileId exact world.published held)
    (ahead : ∀ held, world.caches handle = some held → ∃ after, cache = some after ∧ held.sb.epoch ≤ after.sb.epoch) :
    Inv engine serde fileId exact parity (world.setCache handle cache) := by
  have covers : ∀ other base, Covers world other base → Covers (world.setCache handle cache) other base := by
    rintro other base ⟨held, there, newer⟩
    by_cases same : other = handle
    · subst same
      obtain ⟨after, now, further⟩ := ahead held there
      exact ⟨after, (if_pos rfl).trans now, Nat.le_trans newer further⟩
    · exact ⟨held, (if_neg same).trans there, newer⟩
  refine ⟨?_, ?_, fun id reader there => ⟨(inv.readers id reader there).began, (inv.readers id reader there).phase⟩⟩
  · obtain ⟨index, newest, older, published, filed, writer, acked⟩ := inv.file
    refine ⟨index, newest, older, published, filed, ?_, acked⟩
    rintro ⟨owner, stage⟩ there
    have sound := writer _ there
    cases stage with
    | refreshed slot fresh => exact sound
    | ready slot base =>
      obtain ⟨slot, same, base, sane, covered⟩ := sound
      exact ⟨slot, same, base, sane, fun exactly => covers _ _ (covered exactly)⟩
    | writing slot base ops started target =>
      obtain ⟨base, sane, covered, where_⟩ := sound
      exact ⟨base, sane, fun exactly => covers _ _ (covered exactly), where_⟩
    | failed base => exact sound
  · intro other held there
    simp only [World.setCache] at there
    split at there
    · exact known held there
    · exact inv.caches other held there

/-- `advance` ends with an install, and the answer is what was loaded unless the handle is
poisoned. -/
theorem installRead_known (handle : Nat)
    (known : Known fileId exact world.published fresh) :
    Inv engine serde fileId exact parity
        (world.setCache handle (installRead fileId (world.poisoned handle) (world.caches handle) fresh).1) ∧
      Known fileId exact world.published (installRead fileId (world.poisoned handle) (world.caches handle) fresh).2 ∧
      (world.poisoned handle = false →
        (installRead fileId (world.poisoned handle) (world.caches handle) fresh).2 = fresh ∧
        ∃ held, (installRead fileId (world.poisoned handle) (world.caches handle) fresh).1 = some held ∧
          fresh.sb.epoch ≤ held.sb.epoch) := by
  unfold installRead
  split
  · rename_i held poisoned there
    refine ⟨inv.setCache (inv.caches handle) fun other now => ⟨other, now, Nat.le_refl _⟩, inv.caches handle held there, ?_⟩
    intro sane
    rw [sane] at poisoned
    cases poisoned
  · have same : ∀ held, world.caches handle = some held → held.fileId = fresh.fileId := by
      intro held there
      rw [(inv.caches handle held there).1, known.1]
    obtain ⟨now, installed, which, newer, ahead⟩ := installNewer_ahead fileId same
    refine ⟨inv.setCache ?_ ?_, known, fun _ => ⟨rfl, now, installed, newer⟩⟩
    · intro held there
      rw [installed] at there
      cases there
      rcases which with rfl | old
      · exact known
      · exact inv.caches handle now old
    · intro held there
      exact ⟨now, installed, ahead held there⟩

theorem install_inv (id : Nat) :
    Inv engine serde fileId exact parity (world.install fileId id) := by
  refine inv.read fun reader sound => ?_
  have phase := sound.phase
  split
  · rename_i fresh current
    rw [current] at phase
    obtain ⟨known, whole, ahead⟩ := phase
    obtain ⟨kept, answered, same⟩ := installRead_known inv reader.handle known
    refine kept.setReader ⟨sound.began, answered, whole, ?_⟩
    intro sane
    rw [(same sane).1]
    exact ahead
  · exact inv

end

end Steps

end FerroLoop.Store.Readers
