import FerroLoop.Lib.Machine
import FerroLoop.Store.Codec
import FerroLoop.Store.Sample
import FerroLoop.Store.Staging

namespace FerroLoop.Store

open Bytes Checked Machine List DocState

/-- The frames carry the sequences right after the state's, and applying each of them in turn
succeeds and ends in `last`. -/
inductive Extends (engine : Engine) : DocState → List Frame → DocState → Prop
  | nil (state : DocState) : Extends engine state [] state
  | cons {state mid last : DocState} {ops : List Op} {rest : List Frame} (fits : state.lastSeq + 1 < u64Max)
    (applied : applyOps engine state ops = .ok mid)
    (tail : Extends engine { mid with lastSeq := state.lastSeq + 1 } rest last) :
    Extends engine state ((state.lastSeq + 1, ops) :: rest) last

namespace Extends

variable {engine : Engine} {first mid last : DocState} {front back : List Frame}

theorem append (head : Extends engine first front mid) (tail : Extends engine mid back last) :
    Extends engine first (front ++ back) last := by
  induction head with
  | nil state => exact tail
  | cons fits applied _ ih => exact .cons fits applied (ih tail)

theorem one {state next : DocState} {ops : List Op} (fits : state.lastSeq + 1 < u64Max)
    (applied : applyOps engine state ops = .ok next) :
    Extends engine state [(state.lastSeq + 1, ops)] { next with lastSeq := state.lastSeq + 1 } :=
  .cons fits applied (.nil _)

section

variable (extends_ : Extends engine first front last)

include extends_

theorem seq_lt : ∀ frame ∈ front, frame.1 < u64Max := by
  induction extends_ with
  | nil state => intro frame member; cases member
  | cons fits _ _ ih =>
    intro frame member
    rcases mem_cons.mp member with same | later
    · rw [same]; exact fits
    · exact ih frame later

variable {snapshotSeq : Nat}

theorem checkSequences {previous : Option Nat}
    (before : snapshotSeq ≤ first.lastSeq) (older : ∀ prev ∈ previous, prev ≤ first.lastSeq) :
    checkSequences snapshotSeq previous first.lastSeq front = .ok () := by
  induction extends_ generalizing previous with
  | nil state => rfl
  | @cons state mid last ops rest fits applied tail ih =>
    have increasing : (previous.any fun prev => decide (state.lastSeq + 1 ≤ prev)) = false := by
      rcases previous with _ | prev
      · rfl
      have le := older prev rfl
      simp only [Option.any_some, decide_eq_false_iff_not]
      omega
    have next : checkedAdd state.lastSeq 1 = some (state.lastSeq + 1) := if_pos fits
    have known : ∀ prev ∈ some (state.lastSeq + 1), prev ≤ state.lastSeq + 1 := by
      intro prev same
      cases same
      exact Nat.le_refl _
    have rest := ih (by simp only; omega) known
    rw [Store.checkSequences, if_neg (Nat.succ_ne_zero _), if_neg (by rw [increasing]; decide), if_neg (by omega)]
    simp only [next, ne_eq, not_true_eq_false, ↓reduceIte]
    exact rest

theorem foldlM_applyFrame
    (before : snapshotSeq ≤ first.lastSeq) : front.foldlM (applyFrame engine snapshotSeq) first = .ok last := by
  induction extends_ with
  | nil state => rfl
  | @cons state mid last ops rest fits applied tail ih =>
    have skipped : ¬ state.lastSeq + 1 ≤ snapshotSeq := by omega
    rw [foldlM_cons, applyFrame, if_neg skipped, applied]
    exact ih (by simp only; omega)

theorem applyFrames :
    applyFrames engine first first.lastSeq front = .ok last := by
  rw [Store.applyFrames, extends_.checkSequences (Nat.le_refl _) (by intro prev none; cases none)]
  exact extends_.foldlM_applyFrame (Nat.le_refl _)

end

end Extends

inductive Encoded (serde : SerdeJson) : List Frame → List UInt8 → Prop
  | nil : Encoded serde [] []
  | cons {seq : Nat} {ops : List Op} {frame : List UInt8} {rest : List Frame} {wal : List UInt8}
    (wrote : encodeFrame serde seq ops = .ok frame) (tail : Encoded serde rest wal) :
    Encoded serde ((seq, ops) :: rest) (frame ++ wal)

variable {serde : SerdeJson}

theorem Encoded.append {front back : List Frame} {head tail : List UInt8}
    (first : Encoded serde front head) (second : Encoded serde back tail) :
    Encoded serde (front ++ back) (head ++ tail) := by
  induction first with
  | nil => exact second
  | cons wrote _ ih =>
    rw [append_assoc]
    exact .cons wrote ih

variable {seq : Nat} {ops : List Op} {state snapshot : DocState}

theorem Encoded.one {frame : List UInt8}
    (wrote : encodeFrame serde seq ops = .ok frame) : Encoded serde [(seq, ops)] frame := by
  have single := Encoded.cons wrote .nil
  rwa [append_nil] at single

def FramesSurvive (serde : SerdeJson) (frames : List Frame) : Prop :=
  ∀ frame ∈ frames, ∀ op ∈ frame.2, ∀ value ∈ op.values, serde.Survives value

theorem decodeWalPrefix_encoded {frames : List Frame} {wal : List UInt8}
    (encoded : Encoded serde frames wal) (small : ∀ frame ∈ frames, frame.1 < u64Max)
    (survive : FramesSurvive serde frames) : decodeWalPrefix serde wal = .ok (frames, wal.length) := by
  induction encoded with
  | nil => exact decodeWalPrefix_nil
  | @cons seq ops frame rest wal wrote _ ih =>
    have tail := ih (fun f member => small f (mem_cons_of_mem _ member))
      (fun f member => survive f (mem_cons_of_mem _ member))
    rw [decodeWalPrefix_frame (small _ mem_cons_self) (survive _ mem_cons_self) wrote, tail, ok_bind,
      length_append]

theorem nextSeq_ok (next : nextSeq state = .ok seq) :
    seq = state.lastSeq + 1 ∧ state.lastSeq + 1 < u64Max := by
  unfold nextSeq checkedAdd at next
  split at next
  · rename_i sum found
    split at found
    · cases found
      cases next
      exact ⟨rfl, ‹_›⟩
    · cases found
  · cases next

variable {engine : Engine} {overlay : Overlay}

theorem stageOps_ok
    (staged : stageOps engine state ops = .ok (overlay, seq)) :
    seq = state.lastSeq + 1 ∧ state.lastSeq + 1 < u64Max ∧ applyOps engine state ops = .ok (overlay.apply state) := by
  obtain ⟨next, nextOk, rest⟩ := bind_ok staged
  obtain ⟨held, stagedOk, same⟩ := bind_ok rest
  cases same
  obtain ⟨equal, fits⟩ := nextSeq_ok nextOk
  have applied := stageAll_empty engine state ops
  rw [stagedOk] at applied
  exact ⟨equal, fits, applied.symm⟩

theorem publishOverlay_extends
    (staged : stageOps engine state ops = .ok (overlay, seq)) :
    Extends engine state [(seq, ops)] (publishOverlay state overlay seq) := by
  obtain ⟨rfl, fits, applied⟩ := stageOps_ok staged
  exact Extends.one fits applied

theorem commitOps_eq (engine : Engine) (state : DocState) (some_ : ops ≠ [])
    (next : nextSeq state = .ok seq) : commitOps engine state ops = applyFrame engine state.lastSeq state (seq, ops) := by
  obtain ⟨rfl, fits⟩ := nextSeq_ok next
  have staged := stageAll_empty engine state ops
  have filled : ops.isEmpty = false := isEmpty_eq_false_iff.mpr some_
  have later : ¬ state.lastSeq + 1 ≤ state.lastSeq := by omega
  rw [commitOps, filled, applyFrame, if_neg later, stageOps, next]
  cases result : Overlay.empty.stageAll engine state ops with
  | error err | ok overlay =>
    rw [result] at staged
    rw [← staged]
    rfl

structure Log where
  state : DocState
  wal : List UInt8

section

variable (engine : Engine) (serde : SerdeJson)

/-- One commit: its operations are staged, framed and appended, and the overlay is applied. A
commit that fails, or has no operation, changes nothing. -/
def commitFramed (log : Log) (ops : List Op) : Except StoreError Log :=
  if ops.isEmpty then .ok log
  else do
    let (overlay, seq) ← stageOps engine log.state ops
    let frame ← encodeFrame serde seq ops
    .ok ⟨publishOverlay log.state overlay seq, log.wal ++ frame⟩

def commitStep (log : Log) (ops : List Op) : Log × Except StoreError Unit :=
  match commitFramed engine serde log ops with
  | .ok next => (next, .ok ())
  | .error err => (log, .error err)

/-- The WAL holds frames of the operations accepted so far, and they lead from the snapshot to
the live state. -/
def Log.Follows (snapshot : DocState) (log : Log) : Prop :=
  ∃ frames, Encoded serde frames log.wal ∧ Extends engine snapshot frames log.state ∧ FramesSurvive serde frames

end

variable {log : Log}

section

variable (follows : log.Follows engine serde snapshot) (survive : ∀ op ∈ ops, ∀ value ∈ op.values, serde.Survives value)

include follows survive

theorem commitFramed_follows {next : Log}
    (committed : commitFramed engine serde log ops = .ok next) : next.Follows engine serde snapshot := by
  unfold commitFramed at committed
  split at committed
  · cases committed
    exact follows
  obtain ⟨⟨overlay, seq⟩, staged, rest⟩ := bind_ok committed
  obtain ⟨frame, wrote, same⟩ := bind_ok rest
  cases same
  obtain ⟨frames, encoded, reaches, kept⟩ := follows
  refine ⟨frames ++ [(seq, ops)], encoded.append (.one wrote), reaches.append (publishOverlay_extends staged), ?_⟩
  intro held member
  rcases mem_append.mp member with old | new
  · exact kept held old
  · rw [List.mem_singleton.mp new]
    exact survive

theorem commitStep_follows : (commitStep engine serde log ops).1.Follows engine serde snapshot := by
  unfold commitStep
  cases committed : commitFramed engine serde log ops with
  | error err => exact follows
  | ok next => exact commitFramed_follows follows survive committed

end

theorem run_follows (commits : List (List Op))
    (follows : log.Follows engine serde snapshot)
    (survive : ∀ ops ∈ commits, ∀ op ∈ ops, ∀ value ∈ op.values, serde.Survives value) :
    (run (commitStep engine serde) log commits).Follows engine serde snapshot := by
  induction commits generalizing log with
  | nil => exact follows
  | cons ops rest ih =>
    apply ih (commitStep_follows follows (survive ops mem_cons_self))
    intro later member
    exact survive later (mem_cons_of_mem _ member)

/-- Staging a list and applying the overlay is applying its operations one by one, for every
state and list; a commit is the replay of its frame, with the same last sequence; and when every
JSON value committed is one the parser restores, the WAL of a run of commits decodes and replays
over the snapshot to the live state. -/
theorem commit_run_replays (engine : Engine) (serde : SerdeJson) (documented : serde.Documented) :
    (∀ (state : DocState) (ops : List Op),
      (Overlay.empty.stageAll engine state ops).map (fun overlay => overlay.apply state) = applyOps engine state ops) ∧
    (∀ (state : DocState) (ops : List Op) (seq : Nat), ops ≠ [] → nextSeq state = .ok seq →
      commitOps engine state ops = applyFrame engine state.lastSeq state (seq, ops)) ∧
    ∀ (snapshot : DocState) (commits : List (List Op)),
      (∀ ops ∈ commits, ∀ op ∈ ops, ∀ value ∈ op.values, serde.Readable value) →
      ∃ frames : List Frame,
        decodeWalPrefix serde (run (commitStep engine serde) ⟨snapshot, []⟩ commits).wal =
          .ok (frames, (run (commitStep engine serde) ⟨snapshot, []⟩ commits).wal.length) ∧
        applyFrames engine snapshot snapshot.lastSeq frames =
          .ok (run (commitStep engine serde) ⟨snapshot, []⟩ commits).state := by
  refine ⟨stageAll_empty engine, fun state ops seq filled next => commitOps_eq engine state filled next, ?_⟩
  intro snapshot commits readable
  have initial : Log.Follows engine serde snapshot ⟨snapshot, []⟩ :=
    ⟨[], .nil, .nil snapshot, fun frame member => nomatch member⟩
  obtain ⟨frames, encoded, reaches, survive⟩ := run_follows commits initial
    fun ops inRun op inOps value held => documented.reads_back value (readable ops inRun op inOps value held)
  exact ⟨frames, decodeWalPrefix_encoded encoded reaches.seq_lt survive, reaches.applyFrames⟩

open Sample

theorem sample_commit (log : Log) (fits : log.state.lastSeq + 1 < u64Max) (depth : Nat) (small : depth ≤ 1000) :
    ∃ frame, encodeFrame Sample.serde (log.state.lastSeq + 1) [put depth] = .ok frame ∧
      commitStep Sample.engine Sample.serde log [put depth] =
        (⟨publishOverlay log.state (Overlay.empty.put "notes" "a" (nested depth)) (log.state.lastSeq + 1),
          log.wal ++ frame⟩, .ok ()) := by
  obtain ⟨frame, wrote⟩ := put_encodes small (log.state.lastSeq + 1)
  have next : nextSeq log.state = .ok (log.state.lastSeq + 1) := by
    rw [nextSeq, checkedAdd, if_pos fits]
  have staged : stageOps Sample.engine log.state [put depth] =
      .ok (Overlay.empty.put "notes" "a" (nested depth), log.state.lastSeq + 1) := by
    rw [stageOps, next]
    rfl
  refine ⟨frame, wrote, ?_⟩
  simp only [commitStep, commitFramed, List.isEmpty_cons, Bool.false_eq_true, ↓reduceIte, staged, ok_bind, wrote]

theorem commit_run_replays_sample :
    (run (commitStep Sample.engine Sample.serde) ⟨atSeq 0, []⟩
      [[put 1], [put 127]]).state.lastSeq = 2 ∧
    ∃ frames : List Frame,
      decodeWalPrefix Sample.serde (run (commitStep Sample.engine Sample.serde) ⟨atSeq 0, []⟩
          [[put 1], [put 127]]).wal =
        .ok (frames, (run (commitStep Sample.engine Sample.serde) ⟨atSeq 0, []⟩
          [[put 1], [put 127]]).wal.length) ∧
      applyFrames Sample.engine (atSeq 0) 0 frames =
        .ok (run (commitStep Sample.engine Sample.serde) ⟨atSeq 0, []⟩
          [[put 1], [put 127]]).state := by
  constructor
  · obtain ⟨_, -, first⟩ := sample_commit ⟨atSeq 0, []⟩ (by decide) 1 (by decide)
    rw [run_cons, first, run_cons]
    obtain ⟨_, -, second⟩ := sample_commit (run (commitStep Sample.engine Sample.serde)
      ⟨atSeq 0, []⟩ [[put 1]]) (by rw [run_cons, first]; show 0 + 1 + 1 < u64Max; decide)
      127 (by decide)
    rw [run_cons, first, run_nil] at second
    rw [second]
    rfl
  · refine (commit_run_replays Sample.engine Sample.serde serde_documented).2.2 (atSeq 0)
      [[put 1], [put 127]] ?_
    intro ops inRun op inOps value held
    simp only [mem_cons, not_mem_nil, or_false] at inRun
    rcases inRun with rfl | rfl
    all_goals
      cases List.mem_singleton.mp inOps
      rw [List.mem_singleton.mp held]
      exact nested_readable (by decide)

/-- A document nested 128 deep is committed, and the WAL that holds it no longer decodes. -/
theorem commit_deep_not_replayed :
    (run (commitStep Sample.engine Sample.serde) ⟨atSeq 0, []⟩ [[put 128]]).state.lastSeq = 1 ∧
    ∃ err, decodeWalPrefix Sample.serde
      (run (commitStep Sample.engine Sample.serde) ⟨atSeq 0, []⟩ [[put 128]]).wal = .error err := by
  obtain ⟨frame, wrote, committed⟩ := sample_commit ⟨atSeq 0, []⟩ (by decide) 128 (by decide)
  have deep : Sample.serde.fromSlice (Sample.serde.toVec (nested 128)) = none := by
    apply serde_documented.too_deep
    rw [nested_nesting]
    decide
  obtain ⟨err, fails⟩ := decodeWalPrefix_put_lost (by decide) deep wrote []
  rw [run_cons, committed, run_nil]
  rw [append_nil] at fails
  exact ⟨rfl, err, fails⟩

end FerroLoop.Store
