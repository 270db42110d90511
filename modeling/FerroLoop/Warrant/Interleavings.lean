import FerroLoop.Warrant.SpentOnce
import Mathlib.Data.List.Induction

namespace FerroLoop.Warrant

open Std Text Checked Gate System

/-- The call is between taking the lock and letting go of it. -/
def Stage.InSection : Stage → Prop
  | .holding => True
  | .writing _ _ => True
  | .releasing _ => True
  | _ => False

def Stage.Replies (outcome : Outcome) : Stage → Prop
  | .releasing reply => reply = .ok outcome
  | .done reply => reply = .ok outcome
  | _ => False

structure Inv (s : System) : Prop where
  sound : Sound s.file
  exclusive : ∀ i, (s.stages i).InSection → s.holder = some i
  writes : ∀ i next outcome, s.stages i = .writing next outcome → Writes s.file next outcome
  marked : ∀ i outcome, (s.stages i).Replies outcome → Marked s.file outcome
  once : ∀ i j one other id, (s.stages i).Replies one → (s.stages j).Replies other → one.Spends id → other.Spends id → i = j

theorem Inv.start : Inv start where
  sound ledger held := by cases held
  exclusive i inside := inside.elim
  writes i next outcome held := by cases held
  marked i outcome replied := replied.elim
  once i j one other id replied := replied.elim

theorem stages_at (s : System) (i j : Nat) (stage : Stage) :
    (s.at_ i stage).stages j = if j = i then stage else s.stages j := by
  exact Function.update_apply s.stages i stage j

variable {s : System} {i : Nat} {stage : Stage} {holder : Option Nat}

theorem Inv.advance (inv : Inv s) (section' : stage.InSection → holder = some i)
    (others : ∀ j, j ≠ i → (s.stages j).InSection → holder = some j)
    (writes : ∀ next outcome, stage = .writing next outcome → Writes s.file next outcome)
    (replies : ∀ outcome, stage.Replies outcome →
      (s.stages i).Replies outcome ∨ (Marked s.file outcome ∧ ∀ id, ¬ outcome.Spends id)) :
    Inv { s.at_ i stage with holder := holder } := by
  refine ⟨inv.sound, ?_, ?_, ?_, ?_⟩
  · intro j inside
    rw [show ({ s.at_ i stage with holder := holder } : System).stages j = (s.at_ i stage).stages j from rfl, stages_at] at inside
    split at inside
    · rename_i same
      rw [same]
      exact section' inside
    · exact others j ‹_› inside
  · intro j next outcome held
    rw [show ({ s.at_ i stage with holder := holder } : System).stages j = (s.at_ i stage).stages j from rfl, stages_at] at held
    split at held
    · exact writes next outcome held
    · exact inv.writes j next outcome held
  · intro j outcome held
    rw [show ({ s.at_ i stage with holder := holder } : System).stages j = (s.at_ i stage).stages j from rfl, stages_at] at held
    split at held
    · rcases replies outcome held with before | ⟨marked, -⟩
      · exact inv.marked i outcome before
      · exact marked
    · exact inv.marked j outcome held
  · -- A reply that spends was there before.
    have before : ∀ j outcome id, ({ s.at_ i stage with holder := holder } : System).stages j |>.Replies outcome →
        outcome.Spends id → (s.stages j).Replies outcome := by
      intro j outcome id held spends
      rw [show ({ s.at_ i stage with holder := holder } : System).stages j = (s.at_ i stage).stages j from rfl, stages_at] at held
      split at held
      · rename_i same
        rw [same]
        rcases replies outcome held with before | ⟨-, spendsNot⟩
        · exact before
        · exact absurd spends (spendsNot id)
      · exact held
    intro j k one other id first second spends spends'
    exact inv.once j k one other id (before j one id first spends) (before k other id second spends') spends spends'

theorem Inv.at_ (inv : Inv s) (section' : stage.InSection → s.holder = some i)
    (writes : ∀ next outcome, stage = .writing next outcome → Writes s.file next outcome)
    (replies : ∀ outcome, stage.Replies outcome →
      (s.stages i).Replies outcome ∨ (Marked s.file outcome ∧ ∀ id, ¬ outcome.Spends id)) : Inv (s.at_ i stage) :=
  @Inv.advance s i stage s.holder inv section' (fun j _ inside => inv.exclusive j inside) writes replies

variable {outcome : Outcome}

theorem Inv.write (inv : Inv s) {next : OwnerWarrantLedger} (here : s.stages i = .writing next outcome) :
    Inv { s.at_ i (.releasing (.ok outcome)) with file := some next } := by
  have mine := inv.writes i next outcome here
  have holds : s.holder = some i := inv.exclusive i (by rw [here]; trivial)
  have shape : ∀ j, ({ s.at_ i (.releasing (.ok outcome)) with file := some next } : System).stages j =
      if j = i then .releasing (.ok outcome) else s.stages j := fun j => stages_at s i j _
  have notSpent : ∀ j other id, (s.stages j).Replies other → other.Spends id → ¬ outcome.Spends id := by
    -- What has been spent is marked in the file the holder read.
    intro j other id replied spends spends'
    cases other with
    | issued stored | revoked stored => cases spends
    | verified v =>
      obtain ⟨consumed, -, rfl⟩ := spends
      obtain ⟨ledger, now, held, there, -, spent⟩ := inv.marked j _ replied consumed
      rw [mine.unspent _ spends' ledger now held there] at spent
      cases spent
  refine ⟨?_, ?_, ?_, ?_, ?_⟩
  · rintro ledger held
    cases held
    exact ⟨mine.keyed, mine.current⟩
  · intro j inside
    rw [shape] at inside
    split at inside
    · rename_i same
      rw [same]
      exact holds
    · exact inv.exclusive j inside
  · intro j other written held
    rw [shape] at held
    split at held
    · cases held
    · rename_i apart
      have too : s.holder = some j := inv.exclusive j (by rw [held]; trivial)
      exact absurd (Option.some.inj (too.symm.trans holds)) apart
  · intro j other held
    rw [shape] at held
    split at held
    · cases Except.ok.inj held
      exact mine.marked
    · exact mine.keeps.marked (inv.marked j other held)
  · intro j k one other id first second spends spends'
    rw [shape] at first second
    split at first
    · cases Except.ok.inj first
      split at second
      · rename_i same same'
        rw [same, same']
      · exact absurd spends (notSpent k other id second spends')
    · split at second
      · cases Except.ok.inj second
        exact absurd spends' (notSpent j one id first spends)
      · exact inv.once j k one other id first second spends spends'

section Turns

variable (outside : Outside) (calls : Nat → Call)

inductive Move (s : System) (i : Nat) : System → Prop where
  | stays : Move s i s
  | ends (running : ∀ reply, s.stages i ≠ .done reply) : Move s i (s.end_ i)
  | begins (here : s.stages i = .fresh) : Move s i (s.at_ i (begin outside s.file (calls i)))
  | looks (here : s.stages i = .reading) : Move s i (s.at_ i (.done (look outside s.file (calls i))))
  | locks (here : s.stages i = .locking) (free : s.holder = none) : Move s i { s.at_ i .holding with holder := some i }
  | changes (here : s.stages i = .holding) (draws : List String) :
    Move s i (s.at_ i (change outside draws s.file (calls i)))
  | writes {next : OwnerWarrantLedger} {outcome : Outcome} (here : s.stages i = .writing next outcome) :
    Move s i { s.at_ i (.releasing (.ok outcome)) with file := some next }
  | releases {reply : Except GateError Outcome} (here : s.stages i = .releasing reply) :
    Move s i { s.at_ i (.done reply) with holder := none }

variable {outside calls}

theorem turn_moves (s : System) (t : Turn) : Move outside calls s t.call (s.turn outside calls t) := by
  unfold turn
  split
  · exact .stays
  rename_i running
  split
  · exact .ends running
  split
  · exact .begins ‹_›
  · exact .looks ‹_›
  · split
    · exact .locks ‹_› ‹_›
    · exact .stays
  · exact .changes ‹_› t.draws
  · exact .writes ‹_›
  · exact .releases ‹_›
  · exact .stays

theorem begin_cases (file : Option OwnerWarrantLedger) (call : Call) :
    begin outside file call = .locking ∨ begin outside file call = .reading ∨
      ∃ e, begin outside file call = .done (.error e) := by
  cases call with
  | issue args key nowMs =>
    simp only [begin]
    split
    · exact .inr (.inr ⟨_, rfl⟩)
    · exact .inl rfl
  | verify idOrToken targetAgent consume nowMs =>
    simp only [begin]
    split
    · exact .inr (.inr ⟨_, rfl⟩)
    split
    · exact .inr (.inr ⟨_, rfl⟩)
    split
    · exact .inr (.inr ⟨_, rfl⟩)
    · split
      · exact .inl rfl
      · exact .inr (.inl rfl)
  | revoke grantId nowMs =>
    simp only [begin]
    split
    · exact .inr (.inr ⟨_, rfl⟩)
    · exact .inl rfl

variable {file : Option OwnerWarrantLedger}

theorem look_ok {call : Call} (looked : look outside file call = .ok outcome) :
    ∃ idOrToken targetAgent consume nowMs ledger grant inLedger, call = .verify idOrToken targetAgent consume nowMs ∧
      checkIn outside idOrToken targetAgent nowMs file = .ok (ledger, grant, inLedger) ∧ outcome = .verified ⟨grant, inLedger, false⟩ := by
  cases call with
  | issue args key nowMs | revoke grantId nowMs => cases looked
  | verify idOrToken targetAgent consume nowMs =>
    simp only [look] at looked
    rcases checked : checkIn outside idOrToken targetAgent nowMs file with e | found
    · rw [checked] at looked
      cases looked
    obtain ⟨ledger, grant, inLedger⟩ := found
    rw [checked] at looked
    exact ⟨_, _, _, _, ledger, grant, inLedger, rfl, checked, (Except.ok.inj looked).symm⟩

variable {draws : List String}

theorem change_replies {call : Call}
    (changed : change outside draws file call = .releasing (.ok outcome)) :
    ∃ idOrToken targetAgent consume nowMs ledger grant, call = .verify idOrToken targetAgent consume nowMs ∧
      checkIn outside idOrToken targetAgent nowMs file = .ok (ledger, grant, false) ∧ outcome = .verified ⟨grant, false, false⟩ := by
  cases call with
  | issue args key nowMs =>
    simp only [change] at changed
    split at changed
    · cases changed
    · split at changed <;> cases changed
  | verify idOrToken targetAgent consume nowMs =>
    simp only [change] at changed
    split at changed
    · cases changed
    rename_i ledger grant inLedger checked
    split at changed
    · cases changed
    rename_i absent
    cases changed
    cases inLedger with
    | true => exact absurd rfl absent
    | false => exact ⟨_, _, _, _, ledger, grant, rfl, checked, rfl⟩
  | revoke grantId nowMs =>
    simp only [change] at changed
    split at changed <;> cases changed

theorem change_section (draws : List String) (file : Option OwnerWarrantLedger) (call : Call) :
    (change outside draws file call).InSection ∧ ∀ reply, change outside draws file call ≠ .done reply := by
  cases call with
  | issue args key nowMs | verify idOrToken targetAgent consume nowMs =>
    simp only [change]
    split
    · exact ⟨trivial, fun _ same => by cases same⟩
    · split <;> exact ⟨trivial, fun _ same => by cases same⟩
  | revoke grantId nowMs =>
    simp only [change]
    split <;> exact ⟨trivial, fun _ same => by cases same⟩

theorem marked_unconsumed (file : Option OwnerWarrantLedger) (grant : OwnerGrant) (inLedger : Bool) :
    Marked file (.verified ⟨grant, inLedger, false⟩) ∧ ∀ id, ¬ (Outcome.verified ⟨grant, inLedger, false⟩).Spends id :=
  ⟨nofun, fun _ spends => nomatch spends.1⟩

variable {s' : System}

theorem Inv.move (inv : Inv s) (move : Move outside calls s i s') : Inv s' := by
  cases move with
  | stays => exact inv
  | ends running =>
    refine inv.advance (fun inside => inside.elim) ?_ (fun _ _ same => by cases same) (fun outcome replied => nomatch replied)
    intro j apart inside
    rw [if_neg]
    · exact inv.exclusive j inside
    · intro mine
      exact apart (Option.some.inj ((inv.exclusive j inside).symm.trans mine))
  | begins here =>
    rcases begin_cases s.file (calls i) with stage | stage | ⟨e, stage⟩
    · rw [stage]
      exact inv.at_ (fun inside => inside.elim) (fun _ _ same => by cases same) fun outcome replied => replied.elim
    · rw [stage]
      exact inv.at_ (fun inside => inside.elim) (fun _ _ same => by cases same) fun outcome replied => replied.elim
    · rw [stage]
      exact inv.at_ (fun inside => inside.elim) (fun _ _ same => by cases same) fun outcome replied => nomatch replied
  | looks here =>
    refine inv.at_ (fun inside => inside.elim) (fun _ _ same => by cases same) ?_
    intro outcome replied
    obtain ⟨-, -, -, -, ledger, grant, inLedger, -, -, rfl⟩ := look_ok replied
    exact .inr (marked_unconsumed s.file grant inLedger)
  | locks here free =>
    refine inv.advance (fun _ => rfl) ?_ (fun _ _ same => by cases same) (fun outcome replied => replied.elim)
    intro j apart inside
    rw [inv.exclusive j inside] at free
    cases free
  | changes here draws =>
    refine inv.at_ (fun _ => inv.exclusive i (by rw [here]; trivial))
      (fun next outcome changed => change_writes inv.sound changed) ?_
    intro outcome replied
    cases stage : change outside draws s.file (calls i) with
    | releasing reply =>
      rw [stage] at replied
      cases (show reply = .ok outcome from replied)
      obtain ⟨-, -, -, -, ledger, grant, -, -, rfl⟩ := change_replies stage
      exact .inr (marked_unconsumed s.file grant false)
    | done reply => exact absurd stage ((change_section draws s.file (calls i)).2 reply)
    | fresh | reading | locking | holding | writing next written => rw [stage] at replied; exact replied.elim
  | writes here => exact inv.write here
  | releases here =>
    refine inv.advance (fun inside => inside.elim) ?_ (fun _ _ same => by cases same) ?_
    · intro j apart inside
      have mine : s.holder = some i := inv.exclusive i (by rw [here]; trivial)
      exact absurd (Option.some.inj ((inv.exclusive j inside).symm.trans mine)) apart
    · intro outcome replied
      rw [here]
      exact .inl replied

theorem Inv.keeps (inv : Inv s) (move : Move outside calls s i s') : FileExtends s.file s'.file := by
  cases move with
  | writes here => exact (inv.writes i _ _ here).keeps
  | _ => exact .refl s.file

def Stage.Verified (v : VerifiedGrant) : Stage → Prop
  | .writing _ (.verified w) => w = v
  | .releasing (.ok (.verified w)) => w = v
  | .done (.ok (.verified w)) => w = v
  | _ => False

variable (outside calls) in
/-- The call finds the grant good in the file as it is; only a call that reads without the lock leaves a grant of the
ledger unspent. -/
def Finds (s : System) (j : Nat) (v : VerifiedGrant) : Prop :=
  ∃ idOrToken targetAgent consume nowMs ledger, calls j = .verify idOrToken targetAgent consume nowMs ∧
    checkIn outside idOrToken targetAgent nowMs s.file = .ok (ledger, v.grant, v.inLedger) ∧
    (s.stages j ≠ .reading → v.consumed = v.inLedger)

theorem change_verified {j : Nat} {v : VerifiedGrant}
    (after : (change outside draws s.file (calls j)).Verified v) : Finds outside calls s j v := by
  cases call : calls j with
  | issue args key nowMs =>
    rw [call] at after
    simp only [change] at after
    split at after
    · exact after.elim
    · split at after <;> exact after.elim
  | revoke grantId nowMs =>
    rw [call] at after
    simp only [change] at after
    split at after <;> exact after.elim
  | verify idOrToken targetAgent consume nowMs =>
    rw [call] at after
    simp only [change] at after
    split at after
    · exact after.elim
    rename_i ledger found inLedger checked
    refine ⟨idOrToken, targetAgent, consume, nowMs, ledger, call, ?_⟩
    split at after
    · rename_i held
      have same : (⟨found, true, true⟩ : VerifiedGrant) = v := after
      subst same
      rw [held] at checked
      exact ⟨checked, fun _ => rfl⟩
    · rename_i absent
      have same : (⟨found, false, false⟩ : VerifiedGrant) = v := after
      subst same
      rw [Bool.eq_false_iff.mpr absent] at checked
      exact ⟨checked, fun _ => rfl⟩

theorem Move.verified (move : Move outside calls s i s') {j : Nat} {v : VerifiedGrant}
    (after : (s'.stages j).Verified v) :
    (s.stages j).Verified v ∨ (s.stages j ≠ .fresh ∧ Finds outside calls s j v) := by
  have moved : ∀ stage, ((s.at_ i stage).stages j).Verified v → (j = i ∧ stage.Verified v) ∨ (s.stages j).Verified v := by
    intro stage held
    rw [stages_at] at held
    split at held
    · exact .inl ⟨‹_›, held⟩
    · exact .inr held
  cases move with
  | stays => exact .inl after
  | ends running =>
    rcases moved _ after with ⟨-, held⟩ | before
    · exact held.elim
    · exact .inl before
  | begins here =>
    rcases moved _ after with ⟨-, held⟩ | before
    · rcases begin_cases s.file (calls i) with stage | stage | ⟨e, stage⟩
      all_goals
        rw [stage] at held
        exact held.elim
    · exact .inl before
  | looks here =>
    rcases moved _ after with ⟨rfl, held⟩ | before
    · refine .inr ⟨by rw [here]; nofun, ?_⟩
      rcases looked : look outside s.file (calls j) with e | outcome
      · rw [looked] at held
        exact held.elim
      obtain ⟨idOrToken, targetAgent, consume, nowMs, ledger, found, inLedger, call, checked, rfl⟩ := look_ok looked
      rw [looked] at held
      have same : (⟨found, inLedger, false⟩ : VerifiedGrant) = v := held
      subst same
      exact ⟨idOrToken, targetAgent, consume, nowMs, ledger, call, checked, fun unread => absurd here unread⟩
    · exact .inl before
  | locks here free =>
    rcases moved _ after with ⟨-, held⟩ | before
    · exact held.elim
    · exact .inl before
  | changes here draws =>
    rcases moved _ after with ⟨rfl, held⟩ | before
    · exact .inr ⟨by rw [here]; nofun, change_verified held⟩
    · exact .inl before
  | @writes next outcome here =>
    rcases moved _ after with ⟨rfl, held⟩ | before
    · left
      rw [here]
      cases outcome with
      | issued stored | revoked stored => exact held.elim
      | verified v => exact held
    · exact .inl before
  | @releases reply here =>
    rcases moved _ after with ⟨rfl, held⟩ | before
    · left
      rw [here]
      rcases reply with e | outcome
      · exact held.elim
      cases outcome with
      | issued stored | revoked stored => exact held.elim
      | verified v => exact held
    · exact .inl before

theorem Inv.run (inv : Inv s) (turns : List Turn) :
    Inv (turns.foldl (turn outside calls) s) ∧ FileExtends s.file (turns.foldl (turn outside calls) s).file := by
  induction turns generalizing s with
  | nil => exact ⟨inv, .refl s.file⟩
  | cons t rest ih =>
    obtain ⟨kept, extends'⟩ := ih (inv.move (turn_moves s t))
    exact ⟨kept, (inv.keeps (turn_moves s t)).trans extends'⟩

theorem after_append (past more : List Turn) :
    after outside calls (past ++ more) = more.foldl (turn outside calls) (after outside calls past) :=
  List.foldl_append

theorem Inv.unverified (inv : Inv s) {id : String}
    (revoked : ∃ ledger now, s.file = some ledger ∧ ledger.grants[id]? = some now ∧ now.revokedAt.isSome = true) {j : Nat}
    (before : ∀ v : VerifiedGrant, v.grant.grantId = id → ¬ (s.stages j).Verified v) (turns : List Turn) :
    ∀ v : VerifiedGrant, v.grant.grantId = id → ¬ ((turns.foldl (turn outside calls) s).stages j).Verified v := by
  induction turns generalizing s with
  | nil => exact before
  | cons t rest ih =>
    obtain ⟨ledger, now, held, there, marked⟩ := revoked
    refine ih (inv.move (turn_moves s t)) ?_ ?_
    · obtain ⟨ledger', held', -, entries⟩ := inv.keeps (turn_moves s t) ledger held
      obtain ⟨now', there', kept⟩ := entries id now there
      exact ⟨ledger', now', held', there', (kept.revoked marked).symm ▸ marked⟩
    intro v named verified
    rcases (turn_moves s t).verified verified with earlier | ⟨-, idOrToken, targetAgent, consume, nowMs, seen, -, checked, -⟩
    · exact before v named earlier
    · obtain ⟨there', passed⟩ := checkIn_ok (fun ledger held => (inv.sound ledger held).1) checked
      cases held.symm.trans there'
      exact passed.unrevoked there marked named

theorem verified_seen (turns : List Turn) {j : Nat} {v : VerifiedGrant}
    (verified : ((after outside calls turns).stages j).Verified v) :
    ∃ past, past <+: turns ∧ (after outside calls past).stages j ≠ .fresh ∧
      Finds outside calls (after outside calls past) j v := by
  induction turns using List.reverseRecOn with
  | nil => exact verified.elim
  | append_singleton past t ih =>
    rw [after_append] at verified
    rcases (turn_moves (after outside calls past) t).verified verified with earlier | ⟨running, finds⟩
    · obtain ⟨first, front, seen⟩ := ih earlier
      exact ⟨first, front.trans (List.prefix_append past [t]), seen⟩
    · exact ⟨past, List.prefix_append past [t], running, finds⟩

theorem Finds.token {j : Nat} {v : VerifiedGrant} (inv : Inv s) (finds : Finds outside calls s j v) {token : String}
    {targetAgent : Option String} {consume : Bool} {nowMs : UInt64} (call : calls j = .verify token targetAgent consume nowMs)
    (portable : startsWith (trim token) tokenStart = true) :
    ∃ ledger parsed, s.file = some ledger ∧ TokenSound outside ledger (trim token) v.grant parsed := by
  obtain ⟨idOrToken, target, spends, now, ledger, called, checked, -⟩ := finds
  cases call.symm.trans called
  obtain ⟨there, passed⟩ := checkIn_ok (fun ledger held => (inv.sound ledger held).1) checked
  have named := passed.named
  unfold namedGrant at named
  rw [if_pos portable] at named
  obtain ⟨parsed, sound, -⟩ := tokenGrant_ok named
  exact ⟨ledger, parsed, there, sound⟩

theorem begin_reading {call : Call} (reads : begin outside file call = .reading) : call.consumes = false := by
  cases call with
  | issue args key nowMs => rfl
  | revoke grantId nowMs => rfl
  | verify idOrToken targetAgent consume nowMs =>
    cases consume with
    | false => rfl
    | true =>
      unfold begin at reads
      dsimp only at reads
      split at reads
      · cases reads
      split at reads
      · cases reads
      split at reads
      · cases reads
      · cases reads

/-- A call that reads without the lock spends nothing. -/
theorem Move.reading (move : Move outside calls s i s') {j : Nat} (reads : s'.stages j = .reading) :
    s.stages j = .reading ∨ (calls j).consumes = false := by
  have moved : ∀ stage, (s.at_ i stage).stages j = .reading → (j = i ∧ stage = .reading) ∨ s.stages j = .reading := by
    intro stage held
    rw [stages_at] at held
    split at held
    · exact .inl ⟨‹_›, held⟩
    · exact .inr held
  cases move with
  | stays => exact .inl reads
  | begins here =>
    rcases moved _ reads with ⟨rfl, begun⟩ | before
    · exact .inr (begin_reading begun)
    · exact .inl before
  | changes here draws =>
    rcases moved _ reads with ⟨rfl, changed⟩ | before
    · have inside := (@change_section outside draws s.file (calls j)).1
      rw [changed] at inside
      exact inside.elim
    · exact .inl before
  | ends running | looks here | locks here free | writes here | releases here =>
    rcases moved _ reads with ⟨-, same⟩ | before
    · cases same
    · exact .inl before

theorem consumes_locks (turns : List Turn) {j : Nat} (consumes : (calls j).consumes = true) :
    (after outside calls turns).stages j ≠ .reading := by
  induction turns using List.reverseRecOn with
  | nil => exact fun reads => by cases reads
  | append_singleton past t ih =>
    rw [after_append]
    intro reads
    rcases (turn_moves (after outside calls past) t).reading reads with before | plain
    · exact ih before
    · exact absurd (plain.symm.trans consumes) Bool.false_ne_true

/-- A consuming check that returned wrote its mark, or the file it read held no such grant and the grant may be used again. -/
theorem consuming_returned {turns : List Turn} {j : Nat} {v : VerifiedGrant} (consumes : (calls j).consumes = true)
    (returned : (after outside calls turns).stages j = .done (.ok (.verified v))) :
    v.consumed = true ∨ (v.grant.singleUse = false ∧ ∃ past ledger, past <+: turns ∧
      (after outside calls past).stages j ≠ .fresh ∧ (after outside calls past).file = some ledger ∧
      ledger.grants[v.grant.grantId]? = none) := by
  obtain ⟨past, front, running, _, _, _, _, ledger, -, checked, spent⟩ := @verified_seen outside calls turns j v (by rw [returned]; rfl)
  have same := spent (consumes_locks past consumes)
  have inv : Inv (after outside calls past) := (Inv.start.run past).1
  obtain ⟨held, passed⟩ := checkIn_ok (fun ledger held => (inv.sound ledger held).1) checked
  cases found : v.inLedger with
  | true => exact .inl (same.trans found)
  | false =>
    obtain ⟨absent, reusable⟩ := passed.absent found
    exact .inr ⟨reusable, past, ledger, front, running, held, absent⟩

end Turns

/-- In every run of any number of calls on one ledger: of the consuming checks one at most returns a single-use grant;
what a call returned stays in every later file, a consuming check's mark too unless the file it read held no such grant
and the grant may be used again, and every file extends the ones before; a check that has not begun when a revocation
returned does not find the grant good; and a token is found good only for a payload that bears a signature of the key
pinned in the file read, and that is the entry of that file where it has one. -/
theorem warrants_hold (outside : Outside) (calls : Nat → Call) (turns : List Turn) :
    (∀ i j v w, (calls i).consumes = true → (calls j).consumes = true →
      (after outside calls turns).stages i = .done (.ok (.verified v)) →
      (after outside calls turns).stages j = .done (.ok (.verified w)) →
      v.grant.grantId = w.grant.grantId → v.grant.singleUse = true → w.grant.singleUse = true → i = j) ∧
    (∀ i j stored more v, (after outside calls turns).stages i = .done (.ok (.revoked stored)) →
      (after outside calls turns).stages j = .fresh →
      (after outside calls (turns ++ more)).stages j = .done (.ok (.verified v)) → v.grant.grantId ≠ stored.grant.grantId) ∧
    (∀ more, FileExtends (after outside calls turns).file (after outside calls (turns ++ more)).file) ∧
    (∀ i outcome, (after outside calls turns).stages i = .done (.ok outcome) →
      Marked (after outside calls turns).file outcome) ∧
    (∀ i v, (calls i).consumes = true → (after outside calls turns).stages i = .done (.ok (.verified v)) →
      (∃ ledger now, (after outside calls turns).file = some ledger ∧ ledger.grants[v.grant.grantId]? = some now ∧
        now.grant = v.grant ∧ now.consumedAt.isSome = true) ∨
      (v.grant.singleUse = false ∧ ∃ past ledger, past <+: turns ∧ (after outside calls past).stages i ≠ .fresh ∧
        (after outside calls past).file = some ledger ∧ ledger.grants[v.grant.grantId]? = none)) ∧
    ∀ i v token targetAgent consume nowMs, calls i = .verify token targetAgent consume nowMs → startsWith (trim token) tokenStart = true →
      (after outside calls turns).stages i = .done (.ok (.verified v)) →
      ∃ past ledger parsed, past <+: turns ∧ (after outside calls past).stages i ≠ .fresh ∧
        (after outside calls past).file = some ledger ∧ TokenSound outside ledger (trim token) v.grant parsed := by
  have inv : ∀ past, Inv (after outside calls past) := fun past => (Inv.start.run past).1
  have replies : ∀ i outcome, (after outside calls turns).stages i = .done (.ok outcome) →
      ((after outside calls turns).stages i).Replies outcome := by
    intro i outcome returned
    rw [returned]
    rfl
  have spends : ∀ i v, (calls i).consumes = true → (after outside calls turns).stages i = .done (.ok (.verified v)) →
      v.grant.singleUse = true → v.consumed = true := by
    intro i v consumes returned single
    refine (consuming_returned consumes returned).resolve_right ?_
    rintro ⟨reusable, -⟩
    exact absurd (reusable.symm.trans single) Bool.false_ne_true
  refine ⟨?_, ?_, ?_, ?_, ?_, ?_⟩
  · intro i j v w consumes consumes' first second same single single'
    exact (inv turns).once i j _ _ v.grant.grantId (replies i _ first) (replies j _ second)
      ⟨spends i v consumes first single, single, rfl⟩ ⟨spends j w consumes' second single', single', same.symm⟩
  · intro i j stored more v returned fresh verified same
    obtain ⟨ledger, now, held, there, -, time, marked⟩ := (inv turns).marked i _ (replies i _ returned)
    rw [after_append] at verified
    have early : ∀ found : VerifiedGrant, found.grant.grantId = stored.grant.grantId →
        ¬ ((after outside calls turns).stages j).Verified found := by
      intro found _ seen
      rw [fresh] at seen
      exact seen
    have never := @Inv.unverified _ outside calls (inv turns) _ ⟨ledger, now, held, there, time.symm ▸ marked⟩ j early more v same
    rw [verified] at never
    exact never rfl
  · intro more
    rw [after_append]
    exact ((inv turns).run more).2
  · intro i outcome returned
    exact (inv turns).marked i outcome (replies i outcome returned)
  · intro i v consumes returned
    rcases consuming_returned consumes returned with consumed | unheld
    · exact .inl ((inv turns).marked i _ (replies i _ returned) consumed)
    · exact .inr unheld
  · intro i v token targetAgent consume nowMs call portable verified
    obtain ⟨past, front, running, finds⟩ := @verified_seen outside calls turns i v (by rw [verified]; rfl)
    obtain ⟨ledger, parsed, held, sound⟩ := finds.token (inv past) call portable
    exact ⟨past, ledger, parsed, front, running, held, sound⟩

namespace Sample

/-- Bytes are spelled as characters, and a signature is the key in front of the message. -/
def outside : Outside where
  b64urlDecode text := some (text.toList.map fun c => c.toNat.toUInt8)
  b64urlEncode bytes := String.ofList (bytes.map fun byte => Char.ofNat byte.toNat)
  payloadToVec payload := .ok (payload.grantId.toList.map fun c => c.toNat.toUInt8)
  payloadFromSlice _ := none
  ed25519 publicKey message signature := publicKey ++ message == signature
  atFromUnixMillis _ := "1970-01-01T00:00:00.000Z"
  atParse _ := some 0

def request : IssueGrantArgs where
  targetAgent := "felicia"
  scope := "merge"
  statement := "merge the change"
  ttlSecs := none
  noExpiry := true
  singleUse := true
  issuedBy := none

/-- A single-use grant, and every other call consumes it. -/
def calls : Nat → Call
  | 0 => .issue request ⟨[75], fun message => 75 :: message⟩ 0
  | _ => .verify "g1" (some "felicia") true 0

/-- Each call takes its turns until it has returned. -/
def turns : List Turn := [0, 1, 2].flatMap fun call => List.replicate 5 ⟨call, ["g1"], false⟩

def grant : OwnerGrant where
  grantId := "g1"
  issuedBy := "lmcfarlin"
  targetAgent := "felicia"
  scope := "merge"
  statement := "merge the change"
  createdAt := "1970-01-01T00:00:00.000Z"
  expiresAt := none
  singleUse := true
  publicKeyB64 := "K"
  signatureB64 := "Kg1"
  compactToken := "flw1.g1.Kg1"

end Sample

/-- The first consuming check spends the grant, and its mark is in the file. -/
theorem warrants_hold_sample :
    ∃ ledger now, (after Sample.outside Sample.calls Sample.turns).file = some ledger ∧
      ledger.grants[Sample.grant.grantId]? = some now ∧ now.grant = Sample.grant ∧ now.consumedAt.isSome = true := by
  have returned : (after Sample.outside Sample.calls Sample.turns).stages 1 = .done (.ok (.verified ⟨Sample.grant, true, true⟩)) :=
    rfl
  rcases (warrants_hold Sample.outside Sample.calls Sample.turns).2.2.2.2.1 1 _ rfl returned with marked | ⟨reusable, -⟩
  · exact marked
  · cases reusable

/-- In every run of any number of calls, one call at most is between taking the lock and letting go of it, and what it
is about to write extends the file as it is now and takes no grant that the file has as spent. -/
theorem ledger_update_kept (outside : Outside) (calls : Nat → Call) (turns : List Turn) :
    (∀ i j, ((after outside calls turns).stages i).InSection → ((after outside calls turns).stages j).InSection →
      i = j) ∧
    ∀ i next outcome, (after outside calls turns).stages i = .writing next outcome →
      Writes (after outside calls turns).file next outcome := by
  have inv : Inv (after outside calls turns) := (Inv.start.run turns).1
  refine ⟨?_, inv.writes⟩
  intro i j first second
  have held := inv.exclusive i first
  rw [inv.exclusive j second] at held
  exact (Option.some.inj held).symm

end FerroLoop.Warrant
