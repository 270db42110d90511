import FerroLoop.Store.Replay

/-!
Group commit. The leader runs each member's body in turn against the group's running state,
gathers the frames of the members that wrote, and publishes them in chunks of at most
`groupBytes`. What a publish does on disk is an oracle here: it succeeds or fails, and may depend
on everything published before.
-/

namespace FerroLoop.Store

open Checked

structure Staged where
  ops : List Op
  overlay : Overlay

abbrev Body := DocState → Except StoreError (List Op)

/-- A body in a transaction: each operation is staged as it is made, and one that cannot be
staged fails the transaction. `none` wrote nothing. -/
def runBody (engine : Engine) (body : Body) (state : DocState) : Except StoreError (Option Staged) := do
  let ops ← body state
  let overlay ← Overlay.empty.stageAll engine state ops
  .ok (if ops.isEmpty then none else some ⟨ops, overlay⟩)

/-- The group's state between publishes: `base` is what the last publish left, `first` the one
overlay committed since and not yet applied, `state` the base with every change since. -/
structure Running where
  base : DocState
  first : Option (Overlay × Nat)
  state : Option DocState

inductive Change where
  | overlay (overlay : Overlay) (seq : Nat)
  | state (state : DocState)

namespace Running

def lastSeq (running : Running) : Nat :=
  match running.first, running.state with
  | some (_, seq), _ => seq
  | none, some state => state.lastSeq
  | none, none => running.base.lastSeq

def turnState (running : Running) : Running × DocState :=
  let running :=
    match running.first with
    | some (overlay, seq) => { running with first := none, state := some (publishOverlay running.base overlay seq) }
    | none => running
  (running, running.state.getD running.base)

def add (running : Running) (overlay : Overlay) (seq : Nat) : Running :=
  match running.state with
  | some state => { running with state := some (publishOverlay state overlay seq) }
  | none => { running with first := some (overlay, seq) }

def takeChange (running : Running) : Option Change :=
  match running.first, running.state with
  | some (overlay, seq), _ => some (.overlay overlay seq)
  | none, some state => some (.state state)
  | none, none => none

end Running

/-- The state `install_commit` makes of the base. -/
def Change.install (change : Change) (base : DocState) : DocState :=
  match change with
  | .overlay staged seq => publishOverlay base staged seq
  | .state applied => applied

def groupBytes : Nat := 4 * 2 ^ 20

structure Committed where
  seq : Nat
  ops : List Op

structure Pending where
  frames : List (List UInt8)
  bytes : Nat
  committed : List (Nat × Committed)
  readers : List Nat

def Pending.empty : Pending := ⟨[], 0, [], []⟩

/-- What a member gets: its sequence, `none` when it wrote nothing, or its error. -/
abbrev Answer := Except StoreError (Option Nat)

structure Publish where
  frames : List (List UInt8)
  state : DocState

def framesOf (published : List Publish) : List (List UInt8) := published.flatMap Publish.frames

/-- The leader's state: what it has published, and in `turns` the state each body ran against. -/
structure Leading where
  running : Running
  pending : Pending
  results : Nat → Option Answer
  published : List Publish
  turns : List DocState

def answer (results : Nat → Option Answer) (pos : Nat) (given : Answer) : Nat → Option Answer :=
  fun other => if other = pos then some given else results other

def failRest (results : Nat → Option Answer) (err : StoreError) : Nat → Option Answer :=
  fun pos => some ((results pos).getD (.error err))

abbrev PublishOracle := List Publish → List (List UInt8) → Option StoreError

def Leading.acknowledge (leading : Leading) : Leading :=
  let committed := leading.pending.committed.foldl (fun results entry =>
    answer results entry.1 (.ok (some entry.2.seq))) leading.results
  let readers := leading.pending.readers.foldl (fun results pos => answer results pos (.ok none)) committed
  { leading with results := readers, pending := Pending.empty }

def Leading.publish (disk : PublishOracle) (leading : Leading) : Except StoreError Leading :=
  if leading.pending.frames.isEmpty then .ok leading.acknowledge
  else
    match disk leading.published leading.pending.frames with
    | some err => .error err
    | none =>
      match leading.running.takeChange with
      | none => .error (backend "a publish with frames has no change")
      | some change =>
        .ok { leading with
          running := ⟨change.install leading.running.base, none, none⟩
          published := leading.published ++ [Publish.mk leading.pending.frames (change.install leading.running.base)]
          }.acknowledge

/-- The next frame would pass the chunk's size. -/
def Pending.full (pending : Pending) (frame : List UInt8) : Bool :=
  !pending.frames.isEmpty && decide (groupBytes < pending.bytes + frame.length)

def Leading.gather (leading : Leading) (pos seq : Nat) (staged : Staged) (frame : List UInt8) : Leading :=
  { leading with
    running := leading.running.add staged.overlay seq
    pending := { leading.pending with
      frames := leading.pending.frames ++ [frame]
      bytes := leading.pending.bytes + frame.length
      committed := leading.pending.committed ++ [(pos, ⟨seq, staged.ops⟩)] } }

def framed (serde : SerdeJson) (running : Running) (ops : List Op) : Except StoreError (Nat × List UInt8) :=
  match checkedAdd running.lastSeq 1 with
  | none => .error (backend "transaction sequence overflow")
  | some seq => do
    let frame ← encodeFrame serde seq ops
    .ok (seq, frame)

section

variable (engine : Engine) (serde : SerdeJson) (disk : PublishOracle)

def Leading.member (leading : Leading) (pos : Nat) (body : Body) : Leading × Option StoreError :=
  let turn := leading.running.turnState
  let leading := { leading with running := turn.1, turns := leading.turns ++ [turn.2] }
  match runBody engine body turn.2 with
  | .error err => ({ leading with results := answer leading.results pos (.error err) }, none)
  | .ok none =>
    ({ leading with pending := { leading.pending with readers := leading.pending.readers ++ [pos] } }, none)
  | .ok (some staged) =>
    match framed serde leading.running staged.ops with
    | .error err => ({ leading with results := answer leading.results pos (.error err) }, none)
    | .ok (seq, frame) =>
      if leading.pending.full frame then
        match leading.publish disk with
        | .error err => (leading, some err)
        | .ok leading => (leading.gather pos seq staged frame, none)
      else (leading.gather pos seq staged frame, none)

/-- The group's end: the state the last publish left, or `none` when a publish failed. -/
structure GroupEnd where
  final : Option DocState
  results : Nat → Option Answer
  published : List Publish
  turns : List DocState

def Leading.stopped (leading : Leading) (err : StoreError) : GroupEnd :=
  ⟨none, failRest leading.results err, leading.published, leading.turns⟩

def Leading.finish (disk : PublishOracle) (leading : Leading) : GroupEnd :=
  match leading.publish disk with
  | .error err => leading.stopped err
  | .ok leading => ⟨some leading.running.base, leading.results, leading.published, leading.turns⟩

/-- The members from position `pos` on. -/
def Leading.members (engine : Engine) (serde : SerdeJson) (disk : PublishOracle) (leading : Leading) (pos : Nat) :
    List Body → GroupEnd
  | [] => leading.finish disk
  | body :: rest =>
    match leading.member engine serde disk pos body with
    | (next, none) => next.members engine serde disk (pos + 1) rest
    | (next, some err) => next.stopped err

def runGroup (base : DocState) (members : List Body) : GroupEnd :=
  Leading.members engine serde disk ⟨⟨base, none, none⟩, Pending.empty, fun _ => none, [], []⟩ 0 members

/-- The group once its leader has the locks and the refreshed state, or the error of getting
them: then no body runs and every member gets the error. -/
def leadGroup (locked : Except StoreError DocState) (members : List Body) : GroupEnd :=
  match locked with
  | .error err => ⟨none, failRest (fun _ => none) err, [], []⟩
  | .ok base => runGroup engine serde disk base members

end

inductive Outcome where
  | failed (err : StoreError)
  | read
  | wrote (seq : Nat) (ops : List Op) (frame : List UInt8)

def outcome (engine : Engine) (serde : SerdeJson) (state : DocState) (body : Body) : Outcome :=
  match runBody engine body state with
  | .error err => .failed err
  | .ok none => .read
  | .ok (some staged) =>
    match framed serde ⟨state, none, none⟩ staged.ops with
    | .error err => .failed err
    | .ok (seq, frame) => .wrote seq staged.ops frame

def settled (engine : Engine) (state : DocState) : Outcome → DocState
  | .wrote _ ops _ =>
    match commitOps engine state ops with
    | .ok next => next
    | .error _ => state
  | _ => state

/-- The members one at a time, each over the state the successful ones before it left. -/
def serial (engine : Engine) (serde : SerdeJson) : DocState → List Body → List (DocState × Outcome)
  | _, [] => []
  | state, body :: rest =>
    (state, outcome engine serde state body) ::
      serial engine serde (settled engine state (outcome engine serde state body)) rest

def serialEnd (engine : Engine) (serde : SerdeJson) : DocState → List Body → DocState
  | state, [] => state
  | state, body :: rest => serialEnd engine serde (settled engine state (outcome engine serde state body)) rest

def Outcome.frame? : Outcome → Option (List UInt8)
  | .wrote _ _ frame => some frame
  | _ => none

def writtenFrames (turns : List (DocState × Outcome)) : List (List UInt8) := turns.filterMap fun turn => turn.2.frame?

def framesBefore (plan : List (DocState × Outcome)) (pos : Nat) : Nat := (writtenFrames (plan.take pos)).length

/-- A group that did what the plan, the members one at a time, does: `seen` says which states
the bodies ran against, `order` that the published frames are the first of the plan's, `acked`
that a writing member is acknowledged exactly when its frame is among them. -/
structure SerialGroup (disk : PublishOracle) (plan : List (DocState × Outcome)) (last : DocState) (ended : GroupEnd) :
    Prop where
  seen : ∃ ran, ended.turns = (plan.take ran).map Prod.fst ∧ (ended.final.isSome → ran = plan.length)
  order : framesOf ended.published <+: writtenFrames plan
  acked : ∀ pos seq, ended.results pos = some (.ok (some seq)) ↔
    (∃ state ops frame, plan[pos]? = some (state, .wrote seq ops frame)) ∧
      framesBefore plan pos < (framesOf ended.published).length
  answered : ∀ pos < plan.length, ended.results pos ≠ none
  final : ∀ state, ended.final = some state → state = last ∧ framesOf ended.published = writtenFrames plan
  lost : ended.final = none → ∃ chunk err, chunk ≠ [] ∧ disk ended.published chunk = some err ∧
    framesOf ended.published ++ chunk <+: writtenFrames plan

namespace Running

def current (running : Running) : DocState :=
  match running.first with
  | some (overlay, seq) => publishOverlay running.base overlay seq
  | none => running.state.getD running.base

/-- An overlay waits only while no later member has run. -/
def Ok (running : Running) : Prop := running.first = none ∨ running.state = none

variable (running : Running)

theorem turnState_fst : running.turnState.1.first = none := by
  obtain ⟨base, first, state⟩ := running
  cases first with
  | none => rfl
  | some held => rfl

theorem turnState_snd : running.turnState.2 = running.current := by
  obtain ⟨base, first, state⟩ := running
  cases first with
  | none => rfl
  | some held => rfl

theorem turnState_current : running.turnState.1.current = running.current := by
  obtain ⟨base, first, state⟩ := running
  cases first with
  | none => rfl
  | some held => rfl

theorem turnState_takeChange :
    running.turnState.1.takeChange = none ↔ running.takeChange = none := by
  obtain ⟨base, first, state⟩ := running
  cases first with
  | none => rfl
  | some held => exact ⟨fun none => (nomatch none), fun none => (nomatch none)⟩

theorem lastSeq_current : running.lastSeq = running.current.lastSeq := by
  obtain ⟨base, first, state⟩ := running
  cases first with
  | some held => rfl
  | none => cases state <;> rfl

variable {running : Running}

section

variable (applied : running.first = none) (overlay : Overlay) (seq : Nat)

include applied overlay seq

theorem add_current : (running.add overlay seq).current = publishOverlay running.current overlay seq := by
  obtain ⟨base, first, state⟩ := running
  cases applied
  cases state <;> rfl

theorem add_ok : (running.add overlay seq).Ok := by
  obtain ⟨base, first, state⟩ := running
  cases applied
  cases state with
  | none => exact .inr rfl
  | some state => exact .inl rfl

theorem add_takeChange : (running.add overlay seq).takeChange ≠ none := by
  obtain ⟨base, first, state⟩ := running
  cases applied
  cases state with
  | none | some state => exact fun none => nomatch none

end

theorem takeChange_none (nothing : running.takeChange = none) :
    running.first = none ∧ running.current = running.base := by
  obtain ⟨base, first, state⟩ := running
  cases first with
  | some held => cases nothing
  | none =>
    cases state with
    | some state => cases nothing
    | none => exact ⟨rfl, rfl⟩

theorem install_takeChange {change : Change} (taken : running.takeChange = some change) :
    change.install running.base = running.current := by
  obtain ⟨base, first, state⟩ := running
  cases first with
  | some held => cases taken; rfl
  | none =>
    cases state with
    | some state => cases taken; rfl
    | none => cases taken

end Running

theorem framed_current (serde : SerdeJson) (running : Running) (ops : List Op) :
    framed serde running ops = framed serde ⟨running.current, none, none⟩ ops := by
  unfold framed
  rw [running.lastSeq_current]
  rfl

variable {state : DocState} {serde : SerdeJson} {frame : List UInt8}

theorem framed_ok {ops : List Op} {seq : Nat}
    (done : framed serde ⟨state, none, none⟩ ops = .ok (seq, frame)) :
    nextSeq state = .ok seq ∧ encodeFrame serde seq ops = .ok frame := by
  unfold framed Running.lastSeq at done
  unfold nextSeq
  rcases next : checkedAdd state.lastSeq 1 with _ | found
  · rw [next] at done; cases done
  rw [next] at done
  obtain ⟨bytes, wrote, same⟩ := bind_ok done
  cases same
  exact ⟨rfl, wrote⟩

variable {engine : Engine} {staged : Staged}

theorem runBody_staged {body : Body}
    (ran : runBody engine body state = .ok (some staged)) :
    staged.ops ≠ [] ∧ Overlay.empty.stageAll engine state staged.ops = .ok staged.overlay := by
  obtain ⟨ops, -, rest⟩ := bind_ok ran
  obtain ⟨overlay, stagedOk, same⟩ := bind_ok rest
  split at same
  · cases same
  rename_i filled
  cases same
  refine ⟨?_, stagedOk⟩
  intro empty
  subst empty
  exact filled rfl

theorem settled_staged {body : Body}
    {seq : Nat} (ran : runBody engine body state = .ok (some staged))
    (done : framed serde ⟨state, none, none⟩ staged.ops = .ok (seq, frame)) :
    outcome engine serde state body = .wrote seq staged.ops frame ∧
      settled engine state (outcome engine serde state body) = publishOverlay state staged.overlay seq := by
  obtain ⟨filled, stagedOk⟩ := runBody_staged ran
  obtain ⟨next, -⟩ := framed_ok done
  have wrote : outcome engine serde state body = .wrote seq staged.ops frame := by
    unfold outcome
    rw [ran]
    simp only [done]
  refine ⟨wrote, ?_⟩
  have some_ : staged.ops.isEmpty = false := List.isEmpty_eq_false_iff.mpr filled
  rw [wrote]
  simp only [settled, commitOps, some_, Bool.false_eq_true, ↓reduceIte, stageOps, next, ok_bind, stagedOk]

end FerroLoop.Store
