import FerroLoop.Wire.Delivery.Canonical

/-!
The pure transition of one delivery record with its recipient and global control
(`transition` and `transition_capacity_retirement` of `crates/core/src/wire_delivery.rs`).
Every check stands in the order of the source, so a refusal names the reason the source names.
-/

namespace FerroLoop.Wire.Delivery

/-- What a transition can end with besides a delta: one of the store errors it raises, or the
panic a checked build raises at an arithmetic underflow or an index out of range. -/
inductive Fault where
  | revisionExhausted
  | ownershipCorrupt
  | panic
  deriving DecidableEq

/-- The text of the `Backend` error; a panic is not an error value. -/
def Fault.backend : Fault → Option String
  | .revisionExhausted => some "delivery revision exhausted"
  | .ownershipCorrupt => some "delivery capacity ownership is corrupt"
  | .panic => none

def refused (reason : HoldReason) : DeliveryDelta where
  record := none
  reservation := none
  recipient := none
  global := none
  receipt := none
  result := .refused reason

def bump (revision : Revision) : Except Fault Revision :=
  if revision.value + 1 < 2 ^ 64 then .ok ⟨revision.value + 1⟩
  else .error .revisionExhausted

def distinctRecipients : List ActiveOwner → Bool
  | [] => true
  | owner :: rest =>
    rest.all (fun later => later.key.recipientId ≠ owner.key.recipientId) && distinctRecipients rest

def validGlobal (global : GlobalControl) : Bool :=
  global.activeIndex.length ≤ 16 &&
  global.activeAttempts == global.activeIndex.length &&
  distinctRecipients global.activeIndex

def AttemptSummary.fresh (attempt : AttemptSummary) : Bool :=
  attempt.armedAt.isNone && attempt.frozen.isNone && attempt.evidence.isNone &&
  attempt.capacity == .held

def validRecord (record : DeliveryRecord) (key : DeliveryKey) : Bool :=
  record.schema == deliverySchemaVersion &&
  record.key == key &&
  record.binding.recipientId == key.recipientId &&
  record.attempts.length ≤ 3 &&
  record.prepares == record.attempts.length &&
  (record.eligibility != .prepared || record.attempts.getLast?.any AttemptSummary.fresh) &&
  (record.attempts.filter (·.frozen.isSome)).length ≤ 1 &&
  (record.attempts.filter (·.capacity == .held)).length ≤ 1

def exactLifetime (attempt : AttemptBinding) (admitted : Option LifetimeRegistration) : Bool :=
  admitted == some attempt.lifetime &&
  attempt.daemon == attempt.lifetime.inst &&
  attempt.worker == attempt.lifetime.worker &&
  attempt.connection == attempt.lifetime.connection

def identityReason (ctx : TransitionContext) : Option HoldReason :=
  let expected := IdentityResolution.unique ctx.key.recipientId ctx.recipient.binding.bindingRevision
  if ctx.recipient.identityConflict then some .aliasConflict
  else if ctx.identity.selector = .conflict ∨ ctx.identity.receiptAlias = .conflict then
    some .aliasConflict
  else if ctx.identity.selector ≠ expected ∨ ctx.identity.receiptAlias ≠ expected ∨
      ctx.identity.registry.all (fun a => a.id ≠ ctx.key.recipientId ∨ a.status ≠ .active) then
    some .unknownIdentity
  else none

def selectorBounded : WireAddress → Bool
  | .agentName name | .area name | .group name => name.utf8ByteSize ≤ 4096
  | .agentId id => id.iri.len ≤ 4096
  | .role role => role.asWire.utf8ByteSize ≤ 4096
  | .areaRole area role => area.utf8ByteSize ≤ 4096 && role.asWire.utf8ByteSize ≤ 4096
  | .all | .council => true

def boundedTexts (ctx : TransitionContext) (message : WireMessage) (receipt : DeliveryReceipt) : Bool :=
  ([some message.id.iri, some message.threadId.iri, message.replyTo.map (·.iri),
      message.correlationId.map (·.iri), message.senderId.map (·.iri),
      some ctx.key.recipientId.iri].all fun id => id.all (·.len ≤ 4096)) &&
  receipt.recipientName.utf8ByteSize ≤ 4096

section

variable (sha : Sha256) (ctx : TransitionContext)

def immutableReason (generation : Digest) (now : At) : Option HoldReason :=
  let binding := ctx.recipient.binding
  if !ctx.continuity.intact then some .continuityLost
  else if ctx.continuity.schema ≠ deliverySchemaVersion then some .unsupportedVersion
  else if !ctx.continuity.enabled then some .disabled
  else if binding.authorityId ≠ "ai-lab-0" ∨ binding.localEpoch ≠ ctx.continuity.localEpoch ∨
      binding.policyHash ≠ ctx.continuity.policyHash then some .wrongHome
  else match identityReason ctx with
    | some reason => some reason
    | none =>
      match ctx.message, ctx.receipt with
      | some message, some receipt =>
        if message.id ≠ ctx.key.originalId ∨ receipt.messageId ≠ ctx.key.originalId ∨
            receipt.recipientId ≠ ctx.key.recipientId.iri then some .corrupt
        else if !selectorBounded message.to_ || !boundedTexts ctx message receipt then
          some .evidenceOverflow
        else if canonicalGeneration sha message ≠ generation ∨ ctx.reservation.any
            (fun r => r.originalId ≠ ctx.key.originalId ∨ r.generation ≠ generation) then
          some .generationConflict
        else if message.createdAt ≤ ctx.continuity.cutover then some .legacyUncertain
        else if message.deadlineAt.any (fun deadline => deadline ≤ now) ∨ receipt.status = .expired then
          some .expired
        else if message.subject.utf8ByteSize > 512 ∨ message.body.utf8ByteSize > 262144 ∨
            message.senderName.utf8ByteSize > 4096 ∨
            message.senderHost.any (fun host => host.utf8ByteSize > 4096) then
          some .evidenceOverflow
        else if receipt.status ≠ .pending then some .legacyUncertain
        else none
      | _, _ => some .corrupt

def summaryReservation (attempt : AttemptSummary) : AttemptSummary :=
  { attempt with
    frozen := attempt.frozen.map fun frozen => { frozen with bytes := [] }
    detail := List.replicate 300 (Char.ofNat 0)
    evidence := some <| match attempt.frozen with
      | some frozen =>
        if frozen.transport = .steer then
          .appServerAccepted attempt.route.threadId (frozen.expectedTurn.getD "")
        else .mutationUnconfirmed
      | none => .mutationUnconfirmed }

@[irreducible] def boundedSummary (attempt : AttemptSummary) : Bool :=
  (summaryReservation attempt).json.size ≤ 8192 && attempt.route.threadId.utf8ByteSize ≤ 4096 &&
    attempt.route.executable.all fun path => path.utf8ByteSize ≤ 4096

/-- Frozen bytes have a bound of their own; everything else counts. -/
@[irreducible] def boundedRecord (record : DeliveryRecord) : Bool :=
  { record with attempts := record.attempts.map summaryReservation }.json.size ≤ 32768 - 1024

/-- `-= 1` on a `u8`. -/
def decrement (n : Nat) : Except Fault Nat :=
  if n = 0 then .error .panic else .ok (n - 1)

structure Cell where
  record : DeliveryRecord
  recipient : RecipientControl
  global : GlobalControl

/-- Take the capacity of attempt `index` back, if it still holds it. The flag says whether it did. -/
def releaseCapacity (cell : Cell) (index : Nat) (state : CapacityState) : Except Fault (Cell × Bool) :=
  match cell.record.attempts[index]? with
  | none => .error .panic
  | some attempt =>
    if attempt.capacity ≠ .held then .ok (cell, false)
    else
      let owner : ActiveOwner := { key := cell.record.key, attempt := attempt.binding }
      if cell.recipient.active ≠ some owner ∨ owner ∉ cell.global.activeIndex ∨
          !validGlobal cell.global then
        .error .ownershipCorrupt
      else do
        let activeAttempts ← decrement cell.global.activeAttempts
        let recipientRevision ← bump cell.recipient.revision
        let globalRevision ← bump cell.global.revision
        return ({
          record := { cell.record with
            attempts := cell.record.attempts.set index { attempt with capacity := state } }
          recipient := { cell.recipient with active := none, revision := recipientRevision }
          global := { cell.global with
            activeIndex := cell.global.activeIndex.filter (· ≠ owner)
            activeAttempts, revision := globalRevision } }, true)

structure Work where
  cell : Cell
  capacityChanged : Bool := false
  recipientChanged : Bool := false
  receipt : Option DeliveryReceipt := none

def applied (work : Work) : DeliveryDelta where
  record := some work.cell.record
  reservation := none
  recipient := if work.recipientChanged then some work.cell.recipient else none
  global := if work.capacityChanged then some work.cell.global else none
  receipt := work.receipt
  result := .applied (work.cell.record.view work.cell.recipient)

def unchanged (record : DeliveryRecord) (recipient : RecipientControl) : DeliveryDelta :=
  { refused .unconfirmed with result := .applied (record.view recipient) }

def Work.updateRecord (work : Work) (f : DeliveryRecord → DeliveryRecord) : Work :=
  { work with cell := { work.cell with record := f work.cell.record } }

/-- Release the capacity of attempt `index` and note whether anything changed. -/
def Work.release (work : Work) (index : Nat) : Except Fault Work := do
  let (cell, changed) ← releaseCapacity work.cell index .released
  return { work with cell, capacityChanged := changed, recipientChanged := changed }

def Work.setBarrier (work : Work) (barrier : Option DeliveryKey) : Except Fault Work := do
  let revision ← (if work.recipientChanged then .ok work.cell.recipient.revision
    else bump work.cell.recipient.revision)
  return { work with
    cell := { work.cell with recipient := { work.cell.recipient with barrier, revision } }
    recipientChanged := true }

def Work.liftBarrier (work : Work) : Except Fault Work :=
  if work.cell.recipient.barrier = some work.cell.record.key then work.setBarrier none else .ok work

def Work.raiseBarrier (work : Work) : Except Fault Work :=
  if work.cell.recipient.barrier ≠ some work.cell.record.key then
    work.setBarrier (some work.cell.record.key)
  else .ok work

def preparedSummary (input : PrepareInput) : AttemptSummary where
  binding := input.attempt
  route := input.route
  frozen := none
  preparedAt := input.now
  armedAt := none
  evidence := none
  detail := []
  capacity := .held

def startRecord (ctx : TransitionContext) (input : PrepareInput) : DeliveryRecord :=
  ctx.record.getD {
    schema := deliverySchemaVersion
    key := ctx.key
    generation := input.generation
    binding := input.binding
    revision := ⟨0⟩
    eligibility := .eligible
    prepares := 0
    attempts := []
    acknowledgment := {}
    held := none
    annotation := "" }

def prepareRecord (record : DeliveryRecord) (input : PrepareInput) : DeliveryRecord :=
  { record with
    attempts := record.attempts.map (fun prior => { prior with frozen := none }) ++ [preparedSummary input]
    prepares := record.prepares + 1
    eligibility := .prepared
    held := none }

def AttemptSummary.unresolved (attempt : AttemptSummary) : Bool :=
  attempt.armedAt.isSome &&
  (attempt.evidence != some .definitiveNoMutation || attempt.capacity != .released)

def prepareReason (input : PrepareInput) : Option HoldReason :=
  if ctx.record.any (fun r => r.eligibility != .eligible || r.acknowledgment.manualAt.isSome ||
      r.acknowledgment.legacyUnknown) then some .unconfirmed
  else if ctx.record.any (fun r => r.attempts.any AttemptSummary.unresolved) then some .corrupt
  else match immutableReason sha ctx input.generation input.now with
    | some reason => some reason
    | none =>
      if input.binding ≠ ctx.recipient.binding ∨
          ctx.record.any (fun r => r.generation ≠ input.generation ∨ r.binding ≠ input.binding) then
        some .generationConflict
      else if !exactLifetime input.attempt ctx.lifetime then some .unsupportedBackend
      else if ctx.recipient.barrier.isSome then some .unconfirmed
      else if ctx.global.activeAttempts ≥ 16 ∨ ctx.recipient.active.isSome then some .capacity
      else if input.route.threadId = "" ∨ input.binding.authorityId.utf8ByteSize > 4096 then
        some .evidenceOverflow
      else if !boundedSummary (preparedSummary input) then some .evidenceOverflow
      else if (startRecord ctx input).attempts.any (fun a => a.binding.token = input.attempt.token) then
        some .corrupt
      else none

def prepareExhausted (record : DeliveryRecord) : Except Fault DeliveryDelta :=
  if record.eligibility = .eligible then do
    let revision ← bump record.revision
    return { refused .budgetExhausted with
      record := some { record with eligibility := .held, held := some .budgetExhausted, revision } }
  else .ok (refused .budgetExhausted)

def transitionPrepare (input : PrepareInput) : Except Fault DeliveryDelta :=
  if ctx.record.isSome && ctx.reservation.isNone then .ok (refused .corrupt)
  else match ctx.record.filter (·.prepares ≥ 3) with
    | some record => prepareExhausted record
    | none =>
      match prepareReason sha ctx input with
      | some reason => .ok (refused reason)
      | none => do
        let record := prepareRecord (startRecord ctx input) input
        let revision ← bump record.revision
        let record := { record with revision }
        if !boundedRecord record then return refused .evidenceOverflow
        let owner : ActiveOwner := { key := ctx.key, attempt := input.attempt }
        let recipientRevision ← bump ctx.recipient.revision
        let globalRevision ← bump ctx.global.revision
        return {
          record := some record
          reservation := some { originalId := ctx.key.originalId, generation := input.generation }
          recipient := some { ctx.recipient with active := some owner, revision := recipientRevision }
          global := some { ctx.global with
            activeAttempts := ctx.global.activeAttempts + 1
            activeIndex := ctx.global.activeIndex ++ [owner]
            revision := globalRevision }
          receipt := none
          result := .prepared record }

def armReason (record : DeliveryRecord) (attempt : AttemptSummary) (input : ArmInput) : Option HoldReason :=
  let owner : ActiveOwner := { key := record.key, attempt := input.attempt }
  if !attempt.fresh then some .corrupt
  else if attempt.binding ≠ input.attempt ∨ attempt.route ≠ input.route ∨
      !exactLifetime input.attempt ctx.lifetime then some .corrupt
  else if input.now < attempt.preparedAt ∨
      input.now.unixMillis - attempt.preparedAt.unixMillis ≥ 20000 then some .expired
  else match immutableReason sha ctx record.generation input.now with
    | some reason => some reason
    | none =>
      if record.binding ≠ ctx.recipient.binding ∨ ctx.recipient.barrier.isSome then
        some .generationConflict
      else if ctx.recipient.active ≠ some owner ∨ owner ∉ ctx.global.activeIndex then some .corrupt
      else if input.frozen.renderer ≠ peerRendererVersion then some .unsupportedVersion
      else if input.frozen.bytes.length > 1048576 + 14 ∨
          input.frozen.expectedTurn.any (fun turn => turn.utf8ByteSize > 4096) ∨
          (input.attempt.lane == .hook) ≠ (input.frozen.transport == .stdout) ∨
          (input.frozen.transport = .steer ∧ input.frozen.expectedTurn.all (· = "")) then
        some .evidenceOverflow
      else if canonicalPayload sha record.generation input.frozen.renderer input.frozen.bytes ≠
          input.frozen.digest then some .generationConflict
      else none

def armedAttempt (attempt : AttemptSummary) (input : ArmInput) : AttemptSummary :=
  { attempt with frozen := some input.frozen, armedAt := some input.now }

def transitionArm (record : DeliveryRecord) (input : ArmInput) : Except Fault DeliveryDelta :=
  if record.revision ≠ input.revision ∨ record.eligibility ≠ .prepared then .ok (refused .corrupt)
  else match record.attempts.getLast? with
    | none => .ok (refused .corrupt)
    | some attempt =>
      match armReason sha ctx record attempt input with
      | some reason => .ok (refused reason)
      | none => do
        let armed := armedAttempt attempt input
        let record := { record with
          attempts := record.attempts.dropLast ++ [armed], eligibility := .mutationArmed }
        if !boundedSummary armed then return refused .evidenceOverflow
        if !boundedRecord record then return refused .evidenceOverflow
        let recipientRevision ← bump ctx.recipient.revision
        let revision ← bump record.revision
        let record := { record with revision }
        return {
          record := some record
          reservation := none
          recipient := some { ctx.recipient with
            barrier := some record.key, revision := recipientRevision }
          global := none
          receipt := none
          result := .armed record }

/-! ### The commands that answer with a view -/

inductive Progress where
  | answer (delta : DeliveryDelta)
  | goOn (work : Work)

def finish : Progress → Except Fault DeliveryDelta
  | .answer delta => .ok delta
  | .goOn work => do
    let revision ← bump work.cell.record.revision
    return applied (work.updateRecord fun record => { record with revision })

def reopen (record : DeliveryRecord) : DeliveryRecord :=
  { record with
    eligibility := if record.prepares < 3 then .eligible else .held
    held := if record.prepares ≥ 3 then some .budgetExhausted else none }

def findAttempt (record : DeliveryRecord) (binding : AttemptBinding) : Option Nat :=
  record.attempts.findIdx? (·.binding = binding)

def releaseCommand (start : Work) (input : ReleaseInput) : Except Fault Progress :=
  let record := start.cell.record
  if record.revision ≠ input.revision then .ok (.answer (refused .corrupt))
  else match findAttempt record input.attempt with
    | none => .ok (.answer (refused .corrupt))
    | some index =>
      match record.attempts[index]? with
      | none => .error .panic
      | some attempt =>
        if index + 1 ≠ record.attempts.length ∨
            (record.eligibility ≠ .prepared ∧ record.eligibility ≠ .mutationArmed) ∨
            (input.proof ≠ .preMutationRefused ∧ input.proof ≠ .definitiveNoMutation) ∨
            attempt.capacity = .retired ∨
            (attempt.armedAt.isSome ∧ input.proof ≠ .definitiveNoMutation) then
          .ok (.answer (refused .unconfirmed))
        else do
          let work := start.updateRecord fun record => { record with
            attempts := record.attempts.set index
              { attempt with evidence := some input.proof, frozen := none } }
          let work ← work.release index
          let work ← work.liftBarrier
          return .goOn (work.updateRecord reopen)

def evidenceFits (attempt : AttemptSummary) : DeliveryEvidence → Bool
  | .vendorQueued => attempt.frozen.any (·.transport == .queue)
  | .hookEmissionCompleted => attempt.frozen.any (·.transport == .stdout)
  | .appServerAccepted thread turn => attempt.frozen.any fun frozen =>
      frozen.transport == .steer && thread == attempt.route.threadId && frozen.expectedTurn == some turn
  | .mutationUnconfirmed | .definitiveNoMutation => true
  | .preMutationRefused => false

def evidenceOverflows (input : SettleInput) : Bool :=
  input.detail.length > 300 ||
  match input.evidence with
  | .appServerAccepted thread turn => thread.utf8ByteSize > 4096 || turn.utf8ByteSize > 4096
  | _ => false

def uncertaintyFenced (record : DeliveryRecord) : Bool :=
  record.eligibility == .held &&
  (record.held == some .unconfirmed || record.held == some .evidenceOverflow)

/-- A contradictory report fences the whole key. A newer unarmed attempt can no longer arm, so
its capacity is released; an armed one may still emit and keeps it. -/
def settleContradiction (start : Work) : Except Fault Progress := do
  let newest := start.cell.record.attempts.length - 1
  let work ← (if start.cell.record.attempts.getLast?.any (·.armedAt.isNone) then start.release newest
    else .ok start)
  let work := work.updateRecord fun record =>
    { record with eligibility := .held, held := some .unconfirmed }
  let work ← work.raiseBarrier
  return .goOn work

def settledReceipt (record : DeliveryRecord) (receipt : DeliveryReceipt) (input : SettleInput) :
    DeliveryReceipt :=
  { receipt with
    status := if receipt.status = .pending then .delivered else receipt.status
    attempts := Nat.max receipt.attempts record.prepares
    updatedAt := receipt.updatedAt.max input.now }

def positiveEvidence : DeliveryEvidence → Bool
  | .vendorQueued | .appServerAccepted _ _ | .hookEmissionCompleted => true
  | _ => false

/-- What the first evidence of attempt `index` does to eligibility, hold and barrier. -/
def settleOutcome (work : Work) (index : Nat) (input : SettleInput) : Except Fault Work :=
  if input.evidence = .mutationUnconfirmed ∨ evidenceOverflows input then
    let work := work.updateRecord fun record => { record with
      eligibility := .held
      held := some (if evidenceOverflows input then .evidenceOverflow else .unconfirmed) }
    work.raiseBarrier
  else do
    let work ← work.liftBarrier
    if input.evidence = .definitiveNoMutation then
      return work.updateRecord fun record => { record with
        attempts := record.attempts.modify index fun a => { a with frozen := none }
        eligibility := if record.prepares < 3 ∧ record.acknowledgment.manualAt.isNone ∧
            !record.acknowledgment.legacyUnknown then .eligible else .held
        held := if record.prepares ≥ 3 then some .budgetExhausted else none }
    else return work.updateRecord fun record => { record with eligibility := .settled, held := none }

section

variable (receipt : Option DeliveryReceipt) (start : Work)

/-- The first evidence for an armed attempt. Later evidence cannot erase historical uncertainty
or a retired scope's fence: there only the evidence, the receipt and the capacity change. -/
def settleFirst (index : Nat)
    (attempt : AttemptSummary) (input : SettleInput) (detail : Excerpt) : Except Fault Progress :=
  if !evidenceFits attempt input.evidence then .ok (.answer (refused .unconfirmed))
  else do
    let fenced := attempt.capacity = .retired ∨ uncertaintyFenced start.cell.record
    let work := start.updateRecord fun record => { record with
      attempts := record.attempts.set index { attempt with evidence := some input.evidence, detail } }
    let work ← work.release index
    let work ← (if fenced then .ok work else settleOutcome work index input)
    return .goOn { work with
      receipt := if positiveEvidence input.evidence then
          receipt.map fun r => settledReceipt work.cell.record r input
        else none }

def settleCommand (input : SettleInput) : Except Fault Progress :=
  let record := start.cell.record
  match findAttempt record input.attempt with
  | none => .ok (.answer (refused .corrupt))
  | some index =>
    match record.attempts[index]? with
    | none => .error .panic
    | some attempt =>
      if attempt.armedAt.isNone ∨ input.evidence = .preMutationRefused then
        .ok (.answer (refused .unconfirmed))
      else
        let detail := input.detail.toList.take 300
        if attempt.evidence = some input.evidence ∧ attempt.detail = detail then
          .ok (.answer (unchanged record start.cell.recipient))
        else if record.revision ≠ input.revision then .ok (.answer (refused .corrupt))
        else if attempt.evidence.isSome then settleContradiction start
        else settleFirst receipt start index attempt input detail

/-- Release the newest attempt of a record that is still prepared. `none` is a prepared record
without attempts, which the callers refuse. -/
def Work.releasePrepared (work : Work) : Except Fault (Option Work) :=
  if work.cell.record.eligibility = .prepared then
    if work.cell.record.attempts = [] then .ok none
    else do
      let work ← work.release (work.cell.record.attempts.length - 1)
      return some work
  else .ok (some work)

def manualAckCommand (input : ManualAckInput) : Except Fault Progress :=
  let record := start.cell.record
  if record.acknowledgment.manualAt.isSome then .ok (.answer (unchanged record start.cell.recipient))
  else do
    let start := start.updateRecord fun record => { record with
      acknowledgment := { record.acknowledgment with manualAt := some input.at_ } }
    match ← start.releasePrepared with
    | none => return .answer (refused .corrupt)
    | some work =>
      let work := if record.eligibility = .prepared then
          work.updateRecord fun record => { record with eligibility := .held }
        else work
      return .goOn { work with
        receipt := receipt.map fun r => { r with
          status := .acked
          ackedAt := some (r.ackedAt.getD input.at_)
          updatedAt := r.updatedAt.max input.at_ } }

end

def invalidatePreparedCommand (start : Work) (revision : Revision) : Except Fault Progress :=
  let record := start.cell.record
  if record.revision ≠ revision ∨ record.eligibility ≠ .prepared then .ok (.answer (refused .corrupt))
  else do
    match ← start.releasePrepared with
    | none => return .answer (refused .corrupt)
    | some work => return .goOn (work.updateRecord reopen)

/-- The record with the note, or `none` when the note does not fit. -/
def annotated (record : DeliveryRecord) (text : String) : Option DeliveryRecord :=
  let noted := { record with annotation := record.annotation ++ text }
  if record.annotation.utf8ByteSize + text.utf8ByteSize > 4096 then none
  else if boundedRecord noted then some noted
  else none

def annotateCommand (start : Work) (text : String) : Except Fault Progress :=
  match annotated start.cell.record text with
  | some noted => .ok (.goOn (start.updateRecord fun _ => noted))
  | none => do
    let start := start.updateRecord fun record =>
      { record with held := if record.held ≠ some .unconfirmed then some .evidenceOverflow else record.held }
    match ← start.releasePrepared with
    | none => return .answer (refused .corrupt)
    | some work => return .goOn (work.updateRecord fun record => { record with eligibility := .held })

def closeCommand (start : Work) : Except Fault Progress := do
  match ← start.releasePrepared with
  | none => return .answer (refused .corrupt)
  | some work => return .goOn (work.updateRecord fun record => { record with
      eligibility := .held
      held := if record.held.isNone then some .disabled else record.held })

def capacityConsistent (key : DeliveryKey) (recipient : RecipientControl) (global : GlobalControl) : Bool :=
  global.activeIndex.filter (fun owner => owner.key.recipientId = key.recipientId) ==
    recipient.active.toList

def headRefuses (ctx : TransitionContext) (command : DeliveryCommand) : Bool :=
  !validGlobal ctx.global || command.key != ctx.key ||
  ctx.recipient.binding.recipientId != ctx.key.recipientId ||
  !capacityConsistent ctx.key ctx.recipient ctx.global ||
  ctx.record.any (fun record => !validRecord record ctx.key) ||
  ctx.message.any (fun message => message.id != ctx.key.originalId) ||
  ctx.receipt.any (fun receipt => receipt.messageId != ctx.key.originalId ||
    receipt.recipientId != ctx.key.recipientId.iri)

def reservationMatches (reservation : Option IdReservation) (record : DeliveryRecord) : Bool :=
  reservation.any fun r => r.originalId == record.key.originalId && r.generation == record.generation

def transition (command : DeliveryCommand) : Except Fault DeliveryDelta :=
  if headRefuses ctx command then .ok (refused .corrupt)
  else match command with
    | .prepare input => transitionPrepare sha ctx input
    | command =>
      match ctx.record with
      | none => .ok (refused .corrupt)
      | some record =>
        if !reservationMatches ctx.reservation record then .ok (refused .corrupt)
        else
          let start : Work := { cell := { record, recipient := ctx.recipient, global := ctx.global } }
          match command with
          -- Answered above: the source marks this arm unreachable.
          | .prepare _ => .ok (refused .corrupt)
          | .arm input => transitionArm sha ctx record input
          | .release input => releaseCommand start input >>= finish
          | .settle input => settleCommand ctx.receipt start input >>= finish
          | .manualAck input => manualAckCommand ctx.receipt start input >>= finish
          | .invalidatePrepared _ revision _ => invalidatePreparedCommand start revision >>= finish
          | .annotate _ text => annotateCommand start text >>= finish
          | .close _ => closeCommand start >>= finish

end

/-- Exact compare-and-swap retirement of an armed owner; it says nothing of the emitter's end. -/
def transitionCapacityRetirement (ctx : TransitionContext) (target : CapacityRetirementTarget) :
    Except Fault CapacityRetirementDelta :=
  let unchanged (result : CapacityRetirementResult) : CapacityRetirementDelta :=
    { record := none, recipient := none, global := none, result }
  match ctx.record with
  | none => .ok (unchanged .stale)
  | some record =>
    if ctx.key ≠ target.owner.key ∨ !validRecord record ctx.key ∨ !validGlobal ctx.global then
      .ok (unchanged .stale)
    else match findAttempt record target.owner.attempt with
      | none => .ok (unchanged .stale)
      | some index =>
        match record.attempts[index]? with
        | none => .error .panic
        | some attempt =>
          if attempt.capacity ≠ .held then
            .ok (unchanged (.alreadyReleased (record.view ctx.recipient)))
          else if attempt.armedAt.isNone ∨ record.revision ≠ target.recordRevision ∨
              ctx.recipient.revision ≠ target.recipientRevision ∨
              ctx.global.revision ≠ target.globalRevision ∨
              ctx.recipient.active ≠ some target.owner ∨
              target.owner ∉ ctx.global.activeIndex then .ok (unchanged .stale)
          else do
            let (cell, _) ← releaseCapacity
              { record, recipient := ctx.recipient, global := ctx.global } index .retired
            let revision ← bump cell.record.revision
            let record := { cell.record with revision }
            return {
              record := some record
              recipient := some cell.recipient
              global := some cell.global
              result := .retired (record.view cell.recipient) }

end FerroLoop.Wire.Delivery
