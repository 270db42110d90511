import FerroLoop.Wire.Delivery.Effect

namespace FerroLoop.Wire.Delivery
open Checked Option Work Fault Moves Ends

/-- The delta stores nothing. Only a repeated settlement and a repeated acknowledgement are
answered with a view and without a change. -/
structure DeliveryDelta.Idle (delta : DeliveryDelta) (kind : Kind) (acked : Prop) : Prop where
  record : delta.record = none
  reservation : delta.reservation = none
  recipient : delta.recipient = none
  global : delta.global = none
  notPrepared : ∀ record, delta.result ≠ .prepared record
  notArmed : ∀ record, delta.result ≠ .armed record
  applied : ∀ view, delta.result = .applied view → kind = .settle ∨ (kind = .manualAck ∧ acked)

theorem refused_idle (reason : HoldReason) (kind : Kind) (acked : Prop) :
    (refused reason).Idle kind acked where
  record := rfl
  reservation := rfl
  recipient := rfl
  global := rfl
  notPrepared := by simp [refused]
  notArmed := by simp [refused]
  applied := by simp [refused]

variable {kind : Kind} {earlier : List AttemptSummary} {w : Work} {a attempt : AttemptSummary} {c : Cell}
  {record : DeliveryRecord} {index : Nat} {ctx : TransitionContext} {sha : Sha256}

theorem unchanged_idle (record : DeliveryRecord) (recipient : RecipientControl) {acked : Prop}
    (repeated : kind = .settle ∨ (kind = .manualAck ∧ acked)) :
    (unchanged record recipient).Idle kind acked where
  record := rfl
  reservation := rfl
  recipient := rfl
  global := rfl
  notPrepared := by simp [unchanged]
  notArmed := by simp [unchanged]
  applied := fun _ _ => repeated

def Advances (kind : Kind) (c : Cell) (earlier : List AttemptSummary) (a : AttemptSummary) :
    Progress → Prop
  | .answer delta => delta.Idle kind c.record.acknowledgment.manualAt.isSome
  | .goOn w => (∃ a', Moved kind c w.cell earlier a a') ∧
      (w.recipientChanged = false → w.cell.recipient = c.recipient) ∧
      (w.capacityChanged = false → w.cell.global = c.global)

variable {a' : AttemptSummary}

theorem advances_goOn
    {e : Eligibility} {h : Option HoldReason} {k : AcknowledgmentState} {t : String}
    (steady : Steady c earlier a) (tracks : Tracks c a w a') (token : a'.binding = a.binding)
    (record : w.cell.record = { c.record with
      attempts := earlier ++ [a'], eligibility := e, held := h, acknowledgment := k, annotation := t })
    (moves : Moves c.record.key c.record.prepares kind (c.front a) ⟨a', e, h, k, w.cell.recipient.barrier⟩) :
    Advances kind c earlier a (.goOn w) := by
  refine ⟨⟨a', ?_⟩, tracks.recipientKept, tracks.globalKept⟩
  refine ⟨steady.newest, ?_, ?_, ?_, ?_, ?_, ?_, tracks.recipient, token, tracks.ownership, ?_⟩
  case refine_7 => simpa only [Cell.front, record] using moves
  all_goals rw [record]

theorem findAttempt_some {binding : AttemptBinding}
    (h : findAttempt record binding = some index) :
    ∃ attempt, record.attempts[index]? = some attempt ∧ attempt.binding = binding := by
  obtain ⟨inside, found, _⟩ := List.findIdx?_eq_some_iff_getElem.mp h
  exact ⟨_, List.getElem?_eq_getElem inside, by simpa using found⟩

section

variable (steady : Steady c earlier a)

include steady

theorem Steady.at_newest (found : c.record.attempts[index]? = some attempt)
    (newest : index + 1 = c.record.attempts.length) : index = earlier.length ∧ attempt = a := by
  rw [steady.newest] at found newest
  have position : index = earlier.length := by simpa using newest
  subst position
  exact ⟨rfl, by simpa using found.symm⟩

theorem Steady.cases (found : c.record.attempts[index]? = some attempt) :
    (index = earlier.length ∧ attempt = a) ∨ attempt ∈ earlier := by
  rw [steady.newest] at found
  by_cases inside : index < earlier.length
  · rw [List.getElem?_append_left inside] at found
    exact .inr (List.mem_of_getElem? found)
  have bound : index < (earlier ++ [a]).length := (List.getElem?_eq_some_iff.mp found).1
  have position : index = earlier.length := by simp at bound; omega
  subst position
  exact .inl ⟨rfl, by simpa using found.symm⟩

theorem Steady.length : c.record.attempts.length = earlier.length + 1 := by
  simp [steady.newest]

theorem Steady.set_newest (a' : AttemptSummary) : c.record.attempts.set earlier.length a' = earlier ++ [a'] := by
  simp [steady.newest]

end

theorem modify_newest (earlier : List AttemptSummary) (a : AttemptSummary)
    (f : AttemptSummary → AttemptSummary) :
    (earlier ++ [a]).modify earlier.length f = earlier ++ [f a] := by
  induction earlier with
  | nil => rfl
  | cons b rest ih => simpa using ih

theorem releaseCommand_ends
    (steady : Steady c earlier a) (input : ReleaseInput) :
    Ends Benign (releaseCommand { cell := c } input) (Advances .release c earlier a) := by
  unfold releaseCommand
  dsimp only
  split
  · exact refused_idle _ _ _
  split
  · exact refused_idle _ _ _
  rename_i index located
  obtain ⟨attempt, found, _⟩ := findAttempt_some located
  rw [found]
  dsimp only
  split
  · exact refused_idle _ _ _
  rename_i guards
  push Not at guards
  obtain ⟨newest, standing, proof, notRetired, armed⟩ := guards
  obtain ⟨rfl, rfl⟩ := steady.at_newest found newest
  refine bind (release_ends steady rfl rfl rfl (steady.set_newest _) rfl rfl) ?_
  rintro w ⟨record, barrier, _, tracks⟩
  refine bind (liftBarrier_ends tracks) ?_
  rintro w' ⟨record', barrier', _, tracks'⟩
  have lowered : w'.cell.recipient.barrier = lifted c.record.key c.recipient.barrier := by
    rw [barrier', barrier, record]
    rfl
  refine advances_goOn (w := w'.updateRecord reopen) steady (tracks'.updateRecord rfl reopen)
    (freed_binding _ _) (by simp only [updateRecord, reopen, record', record]; rfl) ?_
  have standing' : c.record.eligibility = .prepared ∨ c.record.eligibility = .mutationArmed := by
    by_cases prepared : c.record.eligibility = .prepared
    · exact .inl prepared
    · exact .inr (standing prepared)
  simp only [updateRecord, lowered]
  exact release input.proof standing' notRetired armed

theorem settleContradiction_ends
    (steady : Steady c earlier a) :
    Ends Benign (settleContradiction { cell := c }) (Advances .settle c earlier a) := by
  unfold settleContradiction
  have last : c.record.attempts.getLast? = some a := by simp [steady.newest]
  have position : c.record.attempts.length - 1 = earlier.length := by simp [steady.length]
  simp only [last, position, any_some]
  have released : Ends Benign
      (if a.armedAt.isNone then release { cell := c } earlier.length else .ok { cell := c })
      fun w => ∃ a₁, a₁ = (if a.armedAt.isNone then a.freed .released else a) ∧
        w.cell.record = { c.record with attempts := earlier ++ [a₁] } ∧
        w.cell.recipient.barrier = c.recipient.barrier ∧ Tracks c a w a₁ := by
    split
    · refine (release_ends steady rfl rfl rfl steady.newest rfl rfl).mono ?_
      rintro w ⟨record, barrier, _, tracks⟩
      exact ⟨_, rfl, record, barrier, tracks⟩
    · exact ⟨a, rfl, by rw [← steady.newest], rfl, Tracks.start c a⟩
  refine released.bind ?_
  rintro w ⟨a₁, shape, record, barrier, tracks⟩
  refine bind (raiseBarrier_ends (tracks.updateRecord rfl _)) ?_
  rintro w' ⟨record', barrier', _, tracks'⟩
  have raised : w'.cell.recipient.barrier = some c.record.key := by
    rw [barrier']
    simp only [updateRecord, record]
  refine advances_goOn (w := w') steady tracks' ?_ (by rw [record']; simp only [updateRecord, record]; rfl) ?_
  · rw [shape]
    split
    · exact freed_binding _ _
    · rfl
  · simp only [raised, shape]
    exact contradict

theorem settleOutcome_ends {a₁ : AttemptSummary}
    {input : SettleInput} {detail : Excerpt}
    (armed : a.armedAt.isSome) (open_ : a.evidence = none) (notRetired : a.capacity ≠ .retired)
    (notFenced : ¬ (c.front a).fenced)
    (shape : a₁ = { a with evidence := some input.evidence, detail }.freed .released)
    (record : w.cell.record = { c.record with attempts := earlier ++ [a₁] })
    (barrier : w.cell.recipient.barrier = c.recipient.barrier) (tracks : Tracks c a w a₁) :
    Ends Benign (settleOutcome w earlier.length input) fun w' =>
      ∃ a' e h, a'.binding = a.binding ∧ Tracks c a w' a' ∧
        w'.cell.record = { c.record with attempts := earlier ++ [a'], eligibility := e, held := h } ∧
        Moves c.record.key c.record.prepares .settle (c.front a)
          ⟨a', e, h, c.record.acknowledgment, w'.cell.recipient.barrier⟩ := by
  have token : a₁.binding = a.binding := by rw [shape]; exact freed_binding _ _
  unfold settleOutcome
  split
  · refine (raiseBarrier_ends (tracks.updateRecord rfl _)).mono ?_
    rintro w' ⟨record', barrier', _, tracks'⟩
    refine ⟨a₁, _, _, token, tracks', by rw [record']; simp only [updateRecord, record]; rfl, ?_⟩
    have raised : w'.cell.recipient.barrier = some c.record.key := by
      rw [barrier']
      simp only [updateRecord, record]
    rw [raised, shape]
    refine settleUncertain input.evidence detail _ armed open_ notRetired ?_
    by_cases overflow : evidenceOverflows input <;> simp [overflow]
  · refine bind (liftBarrier_ends tracks) ?_
    rintro w' ⟨record', barrier', _, tracks'⟩
    have lowered : w'.cell.recipient.barrier = lifted c.record.key c.recipient.barrier := by
      rw [barrier', barrier, record]
    split
    · rename_i noMutation
      have capacity : ({ a₁ with frozen := none } : AttemptSummary).capacity = a₁.capacity := rfl
      refine ⟨{ a₁ with frozen := none }, _, _, token, tracks'.updateRecord capacity _, by
        simp only [updateRecord, record', record, modify_newest]; rfl, ?_⟩
      simp only [updateRecord, lowered]
      have thawed : ({ a₁ with frozen := none } : AttemptSummary) =
          { a with evidence := some .definitiveNoMutation, detail, frozen := none }.freed .released := by
        rw [shape, noMutation]
        unfold AttemptSummary.freed
        split <;> rfl
      rw [thawed]
      exact settleNoMutation detail armed open_ notRetired notFenced
    · refine ⟨a₁, _, _, token, tracks'.updateRecord rfl _, by
        simp only [updateRecord, record', record]; rfl, ?_⟩
      simp only [updateRecord, lowered, shape]
      exact settlePositive input.evidence detail armed open_ notRetired notFenced

theorem settleFirst_ends
    (steady : Steady c earlier a) (receipt : Option DeliveryReceipt) (input : SettleInput) (detail : Excerpt)
    (armed : a.armedAt.isSome) (open_ : a.evidence = none) :
    Ends Benign (settleFirst receipt { cell := c } earlier.length a input detail)
      (Advances .settle c earlier a) := by
  unfold settleFirst
  split
  · exact refused_idle _ _ _
  refine bind (release_ends steady rfl rfl rfl (steady.set_newest _) rfl rfl) ?_
  rintro w ⟨record, barrier, _, tracks⟩
  have settled : Ends Benign
      (if a.capacity = .retired ∨ uncertaintyFenced c.record then .ok w
        else settleOutcome w earlier.length input)
      fun w' => ∃ a' e h, a'.binding = a.binding ∧ Tracks c a w' a' ∧
        w'.cell.record = { c.record with attempts := earlier ++ [a'], eligibility := e, held := h } ∧
        Moves c.record.key c.record.prepares .settle (c.front a)
          ⟨a', e, h, c.record.acknowledgment, w'.cell.recipient.barrier⟩ := by
    split
    · rename_i fenced
      refine ⟨_, _, _, ?_, tracks, record, ?_⟩
      · exact freed_binding _ _
      rw [barrier]
      exact settleFenced input.evidence detail armed open_ fenced
    · rename_i clear
      push Not at clear
      exact settleOutcome_ends armed open_ clear.1 clear.2 rfl record barrier tracks
  refine settled.bind ?_
  rintro w' ⟨a', e, h, token, tracks', record', moves⟩
  exact advances_goOn steady ⟨tracks'.recipient, tracks'.ownership.congr rfl rfl rfl, tracks'.recipientKept,
    tracks'.globalKept⟩ token record' moves

theorem settleCommand_ends
    (steady : Steady c earlier a) (receipt : Option DeliveryReceipt) (input : SettleInput) :
    Ends Benign (settleCommand receipt { cell := c } input) (Advances .settle c earlier a) := by
  unfold settleCommand
  dsimp only
  split
  · exact refused_idle _ _ _
  rename_i index located
  obtain ⟨attempt, found, _⟩ := findAttempt_some located
  rw [found]
  dsimp only
  split
  · exact refused_idle _ _ _
  rename_i guards
  push Not at guards
  obtain ⟨armed, _⟩ := guards
  have armed : attempt.armedAt.isSome := isSome_iff_ne_none.mpr (by simpa using armed)
  split
  · exact unchanged_idle _ _ (.inl rfl)
  split
  · exact refused_idle _ _ _
  split
  · exact settleContradiction_ends steady
  rename_i open_
  have open_ : attempt.evidence = none := by simpa using open_
  -- An earlier armed attempt has its evidence, so this one is the newest.
  rcases steady.cases found with ⟨rfl, rfl⟩ | earlier_
  · exact settleFirst_ends steady receipt input _ armed open_
  · have settled := steady.settled _ earlier_ armed
    rw [open_] at settled
    cases settled

theorem releasePrepared_ends
    (steady : Steady c earlier a) (recipient : w.cell.recipient = c.recipient)
    (global : w.cell.global = c.global) (key : w.cell.record.key = c.record.key)
    (newest : w.cell.record.attempts = earlier ++ [a])
    (standing : w.cell.record.eligibility = c.record.eligibility) :
    Ends Benign w.releasePrepared fun out => ∃ w', out = some w' ∧
      w'.cell.record = { w.cell.record with attempts := earlier ++ [(c.front a).stopped] } ∧
      w'.cell.recipient.barrier = c.recipient.barrier ∧ Tracks c a w' (c.front a).stopped := by
  unfold releasePrepared Front.stopped
  have standing' : (c.front a).eligibility = w.cell.record.eligibility := standing.symm
  have same : (c.front a).attempt = a := rfl
  rw [standing', same]
  split
  · have nonempty : w.cell.record.attempts ≠ [] := by simp [newest]
    have position : w.cell.record.attempts.length - 1 = earlier.length := by simp [newest]
    rw [if_neg nonempty, position]
    refine bind (release_ends steady recipient global key newest rfl rfl) ?_
    rintro w' ⟨record, barrier, _, tracks⟩
    exact ⟨w', rfl, record, barrier, tracks⟩
  · refine ⟨w, rfl, by rw [← newest], by rw [recipient], ?_⟩
    exact ⟨by rw [recipient], .kept rfl (by rw [recipient]) (by rw [global]) (by rw [global]),
      fun _ => recipient, fun _ => global⟩

theorem freed_front_binding (c : Cell) (a : AttemptSummary) : (c.front a).stopped.binding = a.binding := by
  unfold Front.stopped
  split
  · exact freed_binding _ _
  · rfl

theorem manualAckCommand_ends
    (steady : Steady c earlier a) (receipt : Option DeliveryReceipt) (input : ManualAckInput) :
    Ends Benign (manualAckCommand receipt { cell := c } input) (Advances .manualAck c earlier a) := by
  unfold manualAckCommand
  dsimp only
  split
  · rename_i acked
    exact unchanged_idle _ _ (.inr ⟨rfl, acked⟩)
  rename_i fresh
  have fresh : (c.front a).acknowledgment.manualAt = none := by simpa [Cell.front] using fresh
  refine bind (releasePrepared_ends steady rfl rfl rfl steady.newest rfl) ?_
  rintro _ ⟨w, rfl, record, barrier, tracks⟩
  refine advances_goOn (e := if c.record.eligibility = .prepared then .held else c.record.eligibility)
    (h := c.record.held) (k := { c.record.acknowledgment with manualAt := some input.at_ })
    (t := c.record.annotation) steady ?_ (freed_front_binding c a) ?_ ?_
  · refine ⟨?_, ?_, ?_, ?_⟩
    all_goals dsimp only; split
    · exact tracks.recipient
    · exact tracks.recipient
    · exact tracks.ownership.congr rfl rfl rfl
    · exact tracks.ownership.congr rfl rfl rfl
    · exact tracks.recipientKept
    · exact tracks.recipientKept
    · exact tracks.globalKept
    · exact tracks.globalKept
  · split <;> simp only [updateRecord, record]
  · have same : (if c.record.eligibility = .prepared then
        w.updateRecord fun record => { record with eligibility := .held } else w).cell.recipient.barrier =
        c.recipient.barrier := by split <;> exact barrier
    simp only [same]
    exact acknowledge input.at_ fresh

theorem invalidatePreparedCommand_ends
    (steady : Steady c earlier a) (revision : Revision) :
    Ends Benign (invalidatePreparedCommand { cell := c } revision)
      (Advances .invalidatePrepared c earlier a) := by
  unfold invalidatePreparedCommand
  dsimp only
  split
  · exact refused_idle _ _ _
  rename_i guards
  push Not at guards
  have prepared : (c.front a).eligibility = .prepared := guards.2
  refine bind (releasePrepared_ends steady rfl rfl rfl steady.newest rfl) ?_
  rintro _ ⟨w, rfl, record, barrier, tracks⟩
  refine advances_goOn (w := w.updateRecord reopen) steady (tracks.updateRecord rfl reopen)
    (freed_front_binding c a) (by simp only [updateRecord, reopen, record]; rfl) ?_
  simp only [updateRecord, barrier, Front.stopped, prepared, ↓reduceIte]
  exact invalidate prepared

theorem annotated_some {noted : DeliveryRecord} {text : String}
    (h : annotated record text = some noted) :
    noted = { record with annotation := record.annotation ++ text } := by
  unfold annotated at h
  dsimp only at h
  split at h
  · cases h
  split at h
  · exact (Option.some.inj h).symm
  · cases h

theorem annotateCommand_ends
    (steady : Steady c earlier a) (text : String) :
    Ends Benign (annotateCommand { cell := c } text) (Advances .annotate c earlier a) := by
  unfold annotateCommand
  cases fits : annotated c.record text with
  | some noted =>
    have shape := annotated_some fits
    subst shape
    have tracks : Tracks c a _ a := (Tracks.start c a).updateRecord rfl
      fun _ => { c.record with annotation := c.record.annotation ++ text }
    refine advances_goOn steady tracks rfl (by simp only [updateRecord, steady.newest]; rfl) ?_
    exact note
  | none =>
    refine bind (releasePrepared_ends steady rfl rfl rfl steady.newest rfl) ?_
    rintro _ ⟨w, rfl, record, barrier, tracks⟩
    refine advances_goOn (w := w.updateRecord _) steady (tracks.updateRecord rfl _)
      (freed_front_binding c a) (by simp only [updateRecord, record]; rfl) ?_
    simp only [updateRecord, barrier]
    exact overflow

theorem closeCommand_ends
    (steady : Steady c earlier a) :
    Ends Benign (closeCommand { cell := c }) (Advances .close c earlier a) := by
  refine bind (releasePrepared_ends steady rfl rfl rfl steady.newest rfl) ?_
  rintro _ ⟨w, rfl, record, barrier, tracks⟩
  refine advances_goOn (w := w.updateRecord _) steady (tracks.updateRecord rfl _)
    (freed_front_binding c a) (by simp only [updateRecord, record]; rfl) ?_
  simp only [updateRecord, barrier]
  exact close

/-- The delta stores the cell `c'` over the context. -/
structure DeliveryDelta.Stores (delta : DeliveryDelta) (recipient : RecipientControl) (global : GlobalControl)
    (c' : Cell) : Prop where
  record : delta.record = some c'.record
  reservation : delta.reservation = none
  recipient : delta.recipient.getD recipient = c'.recipient
  global : delta.global.getD global = c'.global
  notPrepared : ∀ record, delta.result ≠ .prepared record

inductive Changes (kind : Kind) (c : Cell) (earlier : List AttemptSummary) (a : AttemptSummary)
    (delta : DeliveryDelta) : Prop
  | idle (idle : delta.Idle kind c.record.acknowledgment.manualAt.isSome)
  | stored (c' : Cell) (a' : AttemptSummary) (stores : delta.Stores c.recipient c.global c')
      (moved : Moved kind c c' earlier a a')
      (armed : ∀ record, delta.result = .armed record → ∃ attempt, kind = .arm attempt)

theorem Moved.revise {c' : Cell}
    (moved : Moved kind c c' earlier a a') (revision : Revision) :
    Moved kind c { c' with record := { c'.record with revision } } earlier a a' where
  before := moved.before
  after := moved.after
  schema := moved.schema
  key := moved.key
  generation := moved.generation
  binding := moved.binding
  prepares := moved.prepares
  recipient := moved.recipient
  token := moved.token
  ownership := moved.ownership.congr rfl rfl rfl
  moves := moved.moves

theorem finish_ends
    {progress : Progress} (advances : Advances kind c earlier a progress) :
    Ends Benign (finish progress) (Changes kind c earlier a) := by
  cases progress with
  | answer delta => exact .idle advances
  | goOn w =>
    obtain ⟨⟨a', moved⟩, recipientKept, globalKept⟩ := advances
    refine (bump_ends _).bind fun revision _ => ?_
    refine .stored { w.cell with record := { w.cell.record with revision } } a' ?_ (moved.revise revision)
      (by simp [applied])
    refine ⟨rfl, rfl, ?_, ?_, by simp [applied]⟩
    · cases changed : w.recipientChanged with
      | true => simp [applied, updateRecord, changed]
      | false => simp [applied, updateRecord, changed, recipientKept changed]
    · cases changed : w.capacityChanged with
      | true => simp [applied, updateRecord, changed]
      | false => simp [applied, updateRecord, changed, globalKept changed]

theorem ite_none {α : Type} {c : Prop} [Decidable c] {a : α} {rest : Option α}
    (h : (if c then some a else rest) = none) : ¬ c ∧ rest = none := by
  split at h
  · cases h
  · exact ⟨‹¬ c›, h⟩

theorem immutableReason_none {generation : Digest} {now : At}
    (h : immutableReason sha ctx generation now = none) :
    ∀ r, ctx.reservation = some r → r.originalId = ctx.key.originalId ∧ r.generation = generation := by
  unfold immutableReason at h
  iterate 4 obtain ⟨_, h⟩ := ite_none h
  cases identity : identityReason ctx with
  | some reason => simp [identity] at h
  | none =>
    rcases message : ctx.message with _ | message_
    · simp [identity, message] at h
    rcases receipt : ctx.receipt with _ | receipt_
    · simp [identity, message, receipt] at h
    simp only [identity, message, receipt] at h
    iterate 2 obtain ⟨_, h⟩ := ite_none h
    obtain ⟨matching, _⟩ := ite_none h
    intro r reserved
    rw [not_or, reserved] at matching
    simpa using matching.2

theorem armReason_none
    {input : ArmInput} (h : armReason sha ctx record attempt input = none) :
    attempt.fresh ∧ attempt.binding = input.attempt ∧ ctx.recipient.barrier = none := by
  unfold armReason at h
  obtain ⟨fresh, h⟩ := ite_none h
  obtain ⟨same, h⟩ := ite_none h
  obtain ⟨_, h⟩ := ite_none h
  cases immutable : immutableReason sha ctx record.generation input.now with
  | some reason => simp [immutable] at h
  | none =>
    simp only [immutable] at h
    obtain ⟨clear, _⟩ := ite_none h
    push Not at same clear
    exact ⟨by simpa using fresh, same.1, by simpa using clear.2⟩

theorem transitionArm_ends
    (steady : Steady c earlier a) (sha : Sha256) (ctx : TransitionContext) (input : ArmInput)
    (recipient : ctx.recipient = c.recipient) :
    Ends Benign (transitionArm sha ctx c.record input) (Changes (.arm input.attempt) c earlier a) := by
  have last : c.record.attempts.getLast? = some a := by simp [steady.newest]
  unfold transitionArm
  split
  · exact .idle (refused_idle _ _ _)
  rename_i guards
  push Not at guards
  simp only [last]
  cases admitted : armReason sha ctx c.record a input with
  | some reason => exact .idle (refused_idle _ _ _)
  | none => ?_
  obtain ⟨fresh, binding, barrier⟩ := armReason_none admitted
  refine ite (fun _ => Changes.idle (refused_idle _ _ _)) fun _ => ?_
  refine ite (fun _ => Changes.idle (refused_idle _ _ _)) fun _ => ?_
  refine (bump_ends _).bind fun recipientRevision _ => ?_
  refine (bump_ends _).bind fun revision _ => ?_
  have shape : c.record.attempts.dropLast ++ [armedAttempt a input] = earlier ++ [armedAttempt a input] := by
    simp [steady.newest]
  simp only [ends_pure, shape, recipient]
  rw [recipient] at barrier
  refine .stored
    { record := { c.record with
        attempts := earlier ++ [armedAttempt a input], eligibility := .mutationArmed, revision }
      recipient := { c.recipient with barrier := some c.record.key, revision := recipientRevision }
      global := c.global } (armedAttempt a input) ?_ ?_ (fun _ _ => ⟨_, rfl⟩)
  · exact ⟨rfl, rfl, rfl, rfl, by simp⟩
  · exact ⟨steady.newest, rfl, rfl, rfl, rfl, rfl, rfl, rfl, rfl, .kept rfl rfl rfl rfl,
      arm input guards.2 fresh binding barrier⟩

structure Admitted (ctx : TransitionContext) (input : PrepareInput) : Prop where
  budget : ∀ r, ctx.record = some r → r.prepares < 3
  eligible : ∀ r, ctx.record = some r → r.eligibility = .eligible
  unacked : ∀ r, ctx.record = some r →
    r.acknowledgment.manualAt = none ∧ r.acknowledgment.legacyUnknown = false
  resolved : ∀ r, ctx.record = some r → ∀ a ∈ r.attempts, a.armedAt.isSome →
    a.evidence = some .definitiveNoMutation ∧ a.capacity = .released
  same : ∀ r, ctx.record = some r → r.generation = input.generation ∧ r.binding = input.binding
  token : ∀ r, ctx.record = some r → ∀ a ∈ r.attempts, a.binding.token ≠ input.attempt.token
  reservation : ∀ r, ctx.reservation = some r →
    r.originalId = ctx.key.originalId ∧ r.generation = input.generation
  binding : input.binding = ctx.recipient.binding
  barrier : ctx.recipient.barrier = none
  active : ctx.recipient.active = none
  room : ctx.global.activeAttempts < 16

theorem prepareReason_none {input : PrepareInput}
    (budget : ∀ r, ctx.record = some r → r.prepares < 3) (h : prepareReason sha ctx input = none) :
    Admitted ctx input := by
  obtain ⟨standing, h⟩ := ite_none h
  obtain ⟨resolved, h⟩ := ite_none h
  cases immutable : immutableReason sha ctx input.generation input.now with
  | some reason => simp [immutable] at h
  | none => ?_
  simp only [immutable] at h
  obtain ⟨same, h⟩ := ite_none h
  obtain ⟨_, h⟩ := ite_none h
  obtain ⟨barrier, h⟩ := ite_none h
  obtain ⟨room, h⟩ := ite_none h
  iterate 2 obtain ⟨_, h⟩ := ite_none h
  obtain ⟨token, _⟩ := ite_none h
  push Not at same room
  obtain ⟨available, idle⟩ := room
  refine ⟨budget, ?_, ?_, ?_, ?_, ?_, immutableReason_none immutable, same.1, by simpa using barrier, by simpa using idle,
    by omega⟩
  · intro r h
    simp only [h, any_some] at standing
    simpa using (show ¬ _ from fun other => standing (by simp [other]) : ¬ r.eligibility ≠ .eligible)
  · intro r h
    simp only [h, any_some, Bool.or_eq_true, not_or] at standing
    exact ⟨by simpa using standing.1.2, by simpa using standing.2⟩
  · intro r h a member armed
    simp only [h, any_some, List.any_eq_true, not_exists, not_and] at resolved
    have this := resolved a member
    simpa [AttemptSummary.unresolved, armed] using this
  · intro r h
    have this := same.2
    simpa [h] using this
  · intro r h a member
    simp only [startRecord, h, getD_some, List.any_eq_true, not_exists, not_and] at token
    simpa using token a member

structure DeliveryDelta.Prepares (delta : DeliveryDelta) (ctx : TransitionContext) (input : PrepareInput) :
    Prop where
  record : ∃ revision, delta.record =
    some { prepareRecord (startRecord ctx input) input with revision }
  reservation : delta.reservation =
    some { originalId := ctx.key.originalId, generation := input.generation }
  recipient : ∃ revision, delta.recipient =
    some { ctx.recipient with active := some { key := ctx.key, attempt := input.attempt }, revision }
  global : ∃ revision, delta.global = some { ctx.global with
    activeAttempts := ctx.global.activeAttempts + 1
    activeIndex := ctx.global.activeIndex ++ [{ key := ctx.key, attempt := input.attempt }], revision }
  result : ∃ record, delta.result = .prepared record

inductive Effect (ctx : TransitionContext) (command : DeliveryCommand) (delta : DeliveryDelta) : Prop
  | idle (idle : delta.Idle command.kind
      (∃ record, ctx.record = some record ∧ record.acknowledgment.manualAt.isSome))
  | prepared (input : PrepareInput) (same : command = .prepare input) (admitted : Admitted ctx input)
      (prepares : delta.Prepares ctx input)
  | stored (record : DeliveryRecord) (earlier : List AttemptSummary) (a : AttemptSummary) (c' : Cell)
      (a' : AttemptSummary) (present : ctx.record = some record)
      (stores : delta.Stores ctx.recipient ctx.global c')
      (moved : Moved command.kind { record, recipient := ctx.recipient, global := ctx.global } c' earlier a a')
      (armed : ∀ record, delta.result = .armed record → ∃ attempt, command.kind = .arm attempt)

def TransitionContext.Steady (ctx : TransitionContext) : Prop :=
  ∀ record, ctx.record = some record →
    ∃ earlier a, Delivery.Steady { record, recipient := ctx.recipient, global := ctx.global } earlier a

theorem prepareExhausted_ends
    (input : PrepareInput)
    (present : ctx.record = some record) (spent : 3 ≤ record.prepares)
    (steady : Steady { record, recipient := ctx.recipient, global := ctx.global } earlier a) :
    Ends Benign (prepareExhausted record) (Effect ctx (.prepare input)) := by
  unfold prepareExhausted
  split
  · rename_i eligible
    refine (bump_ends _).bind fun revision _ => ?_
    refine .stored record earlier a
      { record := { record with eligibility := .held, held := some .budgetExhausted, revision }
        recipient := ctx.recipient, global := ctx.global } a present
      ⟨rfl, rfl, rfl, rfl, by simp [refused]⟩ ?_ (by simp [refused])
    exact ⟨steady.newest, steady.newest, rfl, rfl, rfl, rfl, rfl, rfl, rfl, .kept rfl rfl rfl rfl,
      exhaust spent eligible⟩
  · exact .idle (refused_idle _ _ _)

theorem transitionPrepare_ends (sha : Sha256) (steady : ctx.Steady)
    (input : PrepareInput) :
    Ends Benign (transitionPrepare sha ctx input) (Effect ctx (.prepare input)) := by
  unfold transitionPrepare
  split
  · exact .idle (refused_idle _ _ _)
  split
  · rename_i record spent
    obtain ⟨present, spent⟩ := filter_eq_some_iff.mp spent
    obtain ⟨earlier, a, steady⟩ := steady record present
    exact prepareExhausted_ends input present (by simpa using spent) steady
  rename_i within
  have budget : ∀ r, ctx.record = some r → r.prepares < 3 := by
    intro r present
    simpa [present, Option.filter] using within
  cases admitted : prepareReason sha ctx input with
  | some reason => exact .idle (refused_idle _ _ _)
  | none => ?_
  refine (bump_ends _).bind fun revision _ => ?_
  refine ite (fun _ => Effect.idle (refused_idle _ _ _)) fun _ => ?_
  refine (bump_ends _).bind fun recipientRevision _ => ?_
  refine (bump_ends _).bind fun globalRevision _ => ?_
  exact .prepared input rfl (prepareReason_none budget admitted) ⟨⟨_, rfl⟩, rfl, ⟨_, rfl⟩, ⟨_, rfl⟩, ⟨_, rfl⟩⟩

variable {command : DeliveryCommand}

theorem Changes.effect
    {delta : DeliveryDelta}
    (changes : Changes kind { record, recipient := ctx.recipient, global := ctx.global } earlier a delta)
    (present : ctx.record = some record) (same : command.kind = kind) : Effect ctx command delta := by
  subst same
  cases changes with
  | idle idle =>
    refine .idle { idle with applied := fun view h => ?_ }
    rcases idle.applied view h with settle | ⟨ack, acked⟩
    · exact .inl settle
    · exact .inr ⟨ack, record, present, acked⟩
  | stored c' a' stores moved armed => exact .stored record earlier a c' a' present stores moved armed

theorem onRecord_ends (steady : ctx.Steady)
    {body : DeliveryRecord → Except Fault DeliveryDelta}
    (ends : ∀ record earlier a,
      Delivery.Steady { record, recipient := ctx.recipient, global := ctx.global } earlier a →
      Ends Benign (body record)
        (Changes command.kind { record, recipient := ctx.recipient, global := ctx.global } earlier a)) :
    Ends Benign
      (match ctx.record with
        | none => .ok (refused .corrupt)
        | some record =>
          if !reservationMatches ctx.reservation record then .ok (refused .corrupt) else body record)
      (Effect ctx command) := by
  rcases present : ctx.record with _ | record
  · exact .idle (refused_idle _ _ _)
  dsimp only
  split
  · exact .idle (refused_idle _ _ _)
  obtain ⟨earlier, a, steady⟩ := steady record present
  exact (ends record earlier a steady).mono fun _ changes => changes.effect present rfl

theorem transition_ends (sha : Sha256) (steady : ctx.Steady)
    (command : DeliveryCommand) :
    Ends Benign (transition sha ctx command) (Effect ctx command) := by
  unfold transition
  split
  · exact .idle (refused_idle _ _ _)
  cases command with
  | prepare input => exact transitionPrepare_ends sha steady input
  | arm input =>
    exact onRecord_ends steady fun record earlier a steady => transitionArm_ends steady sha ctx input rfl
  | release input =>
    exact onRecord_ends steady fun record earlier a steady =>
      (releaseCommand_ends steady input).bind fun _ => finish_ends
  | settle input =>
    exact onRecord_ends steady fun record earlier a steady =>
      (settleCommand_ends steady ctx.receipt input).bind fun _ => finish_ends
  | manualAck input =>
    exact onRecord_ends steady fun record earlier a steady =>
      (manualAckCommand_ends steady ctx.receipt input).bind fun _ => finish_ends
  | invalidatePrepared key revision now =>
    exact onRecord_ends steady fun record earlier a steady =>
      (invalidatePreparedCommand_ends steady revision).bind fun _ => finish_ends
  | annotate key text =>
    exact onRecord_ends steady fun record earlier a steady =>
      (annotateCommand_ends steady text).bind fun _ => finish_ends
  | close key =>
    exact onRecord_ends steady fun record earlier a steady =>
      (closeCommand_ends steady).bind fun _ => finish_ends

inductive RetirementEffect (ctx : TransitionContext) (delta : CapacityRetirementDelta) : Prop
  | idle (record : delta.record = none) (recipient : delta.recipient = none) (global : delta.global = none)
      (result : ∀ view, delta.result ≠ .retired view)
  | stored (record : DeliveryRecord) (earlier : List AttemptSummary) (a : AttemptSummary) (c' : Cell)
      (a' : AttemptSummary) (present : ctx.record = some record) (newRecord : delta.record = some c'.record)
      (newRecipient : delta.recipient = some c'.recipient) (newGlobal : delta.global = some c'.global)
      (moved : Moved .retire { record, recipient := ctx.recipient, global := ctx.global } c' earlier a a')

theorem transitionCapacityRetirement_ends (steady : ctx.Steady)
    (target : CapacityRetirementTarget) :
    Ends Benign (transitionCapacityRetirement ctx target) (RetirementEffect ctx) := by
  unfold transitionCapacityRetirement
  split
  · exact .idle rfl rfl rfl (by simp)
  rename_i record present
  obtain ⟨earlier, a, steady⟩ := steady record present
  split
  · exact .idle rfl rfl rfl (by simp)
  split
  · exact .idle rfl rfl rfl (by simp)
  rename_i index located
  obtain ⟨attempt, found, _⟩ := findAttempt_some located
  rw [found]
  dsimp only
  split
  · exact .idle rfl rfl rfl (by simp)
  rename_i held
  have held : attempt.capacity = .held := by simpa using held
  split
  · exact .idle rfl rfl rfl (by simp)
  rename_i guards
  push Not at guards
  have armed : attempt.armedAt.isSome := isSome_iff_ne_none.mpr (by simpa using guards.1)
  -- Only the newest attempt can still hold its capacity.
  rcases steady.cases found with ⟨rfl, rfl⟩ | past
  · refine (releaseCapacity_ends steady (by decide) rfl rfl rfl steady.newest rfl rfl).bind ?_
    rintro ⟨cell, _⟩ ⟨shape, barrier, recipient, ownership, _⟩
    refine (bump_ends _).bind fun revision _ => ?_
    have retired : attempt.freed .retired = { attempt with capacity := .retired } := by
      simp [AttemptSummary.freed, held]
    rw [retired] at shape ownership
    dsimp only at shape barrier recipient ownership
    refine .stored record earlier attempt { cell with record := { cell.record with revision } }
      { attempt with capacity := .retired } present rfl rfl rfl ?_
    refine ⟨steady.newest, by simp [shape], by simp [shape], by simp [shape], by simp [shape],
      by simp [shape], by simp [shape], recipient, rfl, ownership.congr rfl rfl rfl, ?_⟩
    have front : Cell.front { cell with record := { cell.record with revision } }
        { attempt with capacity := .retired } =
        { Cell.front { record, recipient := ctx.recipient, global := ctx.global } attempt with
          attempt := { attempt with capacity := .retired } } := by
      simp [Cell.front, shape, barrier]
    rw [front]
    exact retire armed held
  · exact absurd held (steady.free _ past)

end FerroLoop.Wire.Delivery
