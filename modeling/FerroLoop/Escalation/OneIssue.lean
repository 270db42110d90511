import FerroLoop.Escalation.Router
import FerroLoop.Lib.Checked
import FerroLoop.Lib.Machine

namespace FerroLoop.Escalation

open Machine Checked

/-- The item, and every `Prepared` a caller holds. -/
structure Sequence where
  item : Item
  prepared : List Prepared := []

inductive Call where
  | prepare (world : World) (id : Iri) (kind : Kind)
  | escalate (prepared : Nat) (by_ reason : String) (nowMs : UInt64) (luck : Item.Luck)
  | abandon (world : World) (id : Iri) (kind : Kind)

inductive Answer where
  | done
  | escalated (issue : Iri)
  | refused (error : StoreError)
  deriving DecidableEq

def Sequence.step (s : Sequence) : Call → Sequence × Answer
  | .prepare world id kind =>
    match s.item.prepareEscalation world id kind with
    | .ok at_ => ({ s with prepared := s.prepared ++ [at_] }, .done)
    | .error e => (s, .refused e)
  | .escalate i by_ reason nowMs luck =>
    match s.prepared[i]? with
    | none => (s, .done)
    | some at_ =>
      match s.item.escalate at_ by_ reason nowMs luck with
      | (item, .ok issue) => ({ s with item }, .escalated issue)
      | (item, .error e) => ({ s with item }, .refused e)
  | .abandon world id kind =>
    match s.item.abandonEscalation world id kind with
    | .ok item => ({ s with item }, .done)
    | .error e => (s, .refused e)

variable {at_ : Prepared}

namespace Item

structure Sound (s : Item) : Prop where
  one : s.issues.length ≤ 1
  named : ∀ t, s.tombstone = some t → s.issues = [t.to_] ∧ s.mark = none

section

variable (s : Item) (at_ : Prepared) (luck : Luck)

def creates : Bool :=
  s.issues.isEmpty && luck.create != .fails && !(Outgoing.security at_.outgoing && luck.isPublic)

def created : Item :=
  if s.creates at_ luck then { s with issues := [luck.url] } else s

theorem createEscalated_eq : (s.createEscalated at_.outgoing luck).1 = s.created at_ luck ∧
      ∀ issue, (s.createEscalated at_.outgoing luck).2 = .ok issue → (s.created at_ luck).issues.head? = some issue := by
  unfold createEscalated created creates
  cases found : s.issues with
  | cons first rest =>
    cases luck.create with
    | fails => exact ⟨rfl, fun issue answered => by cases answered⟩
    | lands | unanswered => exact ⟨rfl, fun issue answered => by cases answered; exact congrArg List.head? found⟩
  | nil =>
    cases luck.create with
    | fails => exact ⟨rfl, fun issue answered => by cases answered⟩
    | lands =>
      cases Outgoing.security at_.outgoing && luck.isPublic with
      | true => exact ⟨rfl, fun issue answered => by cases answered⟩
      | false => exact ⟨rfl, fun issue answered => by cases answered; rfl⟩
    | unanswered =>
      cases Outgoing.security at_.outgoing && luck.isPublic with
      | true | false => exact ⟨rfl, fun issue answered => by cases answered⟩

theorem finishEscalation_cases : (s.finishEscalation at_ luck).1 = s.created at_ luck ∨
      ∃ mark issue, s.mark = some mark ∧ (s.created at_ luck).issues.head? = some issue ∧
        (s.finishEscalation at_ luck).1 = { s.created at_ luck with
          mark := none, tombstone := some ⟨s.item.id, issue, mark.by_, mark.reason, mark.atMs⟩ } := by
  obtain ⟨same, answered⟩ := createEscalated_eq s at_ luck
  have kept : (s.created at_ luck).mark = s.mark ∧ (s.created at_ luck).item = s.item := by
    unfold created
    split <;> exact ⟨rfl, rfl⟩
  unfold finishEscalation
  cases result : s.createEscalated at_.outgoing luck with
  | mk after answer =>
    rw [result] at same answered
    subst same
    rcases answer with e | issue
    · exact .inl rfl
    dsimp only
    split
    · exact .inl rfl
    unfold replaceByTombstone
    rcases marked : (s.created at_ luck).mark with _ | mark
    · exact .inl rfl
    refine .inr ⟨mark, issue, kept.1.symm.trans marked, answered issue rfl, ?_⟩
    rw [kept.2]

end

variable {s : Item}

theorem startEscalation_cases {marked : Item} {by_ reason : String} {nowMs : UInt64}
    (started : s.startEscalation at_ by_ reason nowMs = .ok marked) :
    (at_.resumes.isSome = true ∧ marked = s) ∨
      (at_.resumes = none ∧ s.mark = none ∧ s.tombstone = none ∧ marked = { s with mark := some ⟨by_, reason, nowMs⟩ }) := by
  unfold startEscalation at started
  cases resumed : at_.resumes with
  | some mark =>
    rw [resumed] at started
    cases started
    exact .inl ⟨rfl, rfl⟩
  | none =>
    rw [resumed] at started
    dsimp only at started
    split at started
    · cases started
    unfold setMark at started
    cases replaced : s.tombstone with
    | some t =>
      rw [replaced] at started
      cases started
    | none =>
      cases held : s.mark with
      | some mark =>
        rw [replaced, held] at started
        cases started
      | none =>
        rw [replaced, held] at started
        cases started
        exact .inr ⟨rfl, rfl, rfl, rfl⟩

theorem abandonEscalation_ok {after : Item} {world : World} {id : Iri} {kind : Kind}
    (abandoned : s.abandonEscalation world id kind = .ok after) : s.issues = [] ∧ after = { s with mark := none } := by
  obtain ⟨item, -, abandoned⟩ := bind_ok abandoned
  rcases held : s.mark with _ | mark
  · rw [held] at abandoned
    cases abandoned
  rw [held] at abandoned
  obtain ⟨-, -, abandoned⟩ := bind_ok abandoned
  obtain ⟨-, -, abandoned⟩ := bind_ok abandoned
  obtain ⟨found, searched, abandoned⟩ := bind_ok abandoned
  obtain ⟨-, -, searched⟩ := bind_ok searched
  cases searched
  cases listed : s.issues with
  | cons issue rest =>
    rw [listed] at abandoned
    cases abandoned
  | nil =>
    rw [listed] at abandoned
    have unmarked : s.unmark = .ok after := abandoned
    unfold unmark at unmarked
    rw [held] at unmarked
    cases unmarked
    exact ⟨rfl, by rw [listed]⟩

theorem creates_empty {luck : Luck} (creates : s.creates at_ luck = true) : s.issues = [] := by
  unfold Item.creates at creates
  simp only [Bool.and_eq_true, List.isEmpty_iff] at creates
  exact creates.1.1

theorem Sound.untombstoned (sound : s.Sound) (none : s.issues = []) : s.tombstone = Option.none := by
  rcases replaced : s.tombstone with _ | t
  · rfl
  have listed := (sound.named t replaced).1
  rw [none] at listed
  cases listed

theorem Sound.created (sound : s.Sound) (at_ : Prepared) (luck : Luck) : (s.created at_ luck).Sound := by
  unfold Item.created
  split
  · rename_i creates
    have fresh := sound.untombstoned (creates_empty creates)
    refine ⟨Nat.le_refl 1, fun t replaced => ?_⟩
    rw [fresh] at replaced
    cases replaced
  · exact sound

theorem Sound.finishEscalation (sound : s.Sound) (at_ : Prepared) (luck : Luck) :
    (s.finishEscalation at_ luck).1.Sound := by
  rcases finishEscalation_cases s at_ luck with same | ⟨mark, issue, -, first, same⟩
  · rw [same]
    exact sound.created at_ luck
  rw [same]
  have one := (sound.created at_ luck).one
  refine ⟨one, fun t replaced => ?_⟩
  cases replaced
  refine ⟨?_, rfl⟩
  show (s.created at_ luck).issues = [issue]
  rcases listed : (s.created at_ luck).issues with _ | ⟨head, rest⟩
  · rw [listed] at first
    cases first
  rw [listed] at first one
  cases first
  have short : rest.length = 0 := by
    rw [List.length_cons] at one
    omega
  rw [List.length_eq_zero_iff.mp short]

theorem Sound.escalate (sound : s.Sound) (at_ : Prepared) (by_ reason : String) (nowMs : UInt64) (luck : Luck) :
    (s.escalate at_ by_ reason nowMs luck).1.Sound := by
  unfold Item.escalate
  rcases started : s.startEscalation at_ by_ reason nowMs with e | marked
  · exact sound
  rcases startEscalation_cases started with ⟨-, same⟩ | ⟨-, -, whole, same⟩
  · rw [same]
    exact sound.finishEscalation at_ luck
  rw [same]
  apply Sound.finishEscalation
  refine ⟨sound.one, fun t replaced => ?_⟩
  rw [whole] at replaced
  cases replaced

/-- The item and its issue are one copy: at most one issue was created, the item takes no local writes
once there is one, a tombstone names it, and only an item without an issue can be abandoned. -/
structure OneCopy (s : Item) : Prop where
  one : s.issues.length ≤ 1
  exclusive : s.issues ≠ [] → s.writable = false
  named : ∀ t, s.tombstone = some t → s.issues = [t.to_]
  abandons : ∀ (world : World) (id : Iri) (kind : Kind) (after : Item),
    s.abandonEscalation world id kind = .ok after → s.issues = []

theorem Sound.oneCopy_iff (sound : s.Sound) : s.OneCopy ↔ (s.issues ≠ [] → s.writable = false) :=
  ⟨OneCopy.exclusive, fun exclusive => ⟨sound.one, exclusive, fun t replaced => (sound.named t replaced).1,
    fun _ _ _ _ abandoned => (abandonEscalation_ok abandoned).1⟩⟩

theorem writable_marked (held : s.mark.isSome = true) : s.writable = false := by
  unfold writable
  rw [Option.isSome_iff_exists] at held
  obtain ⟨mark, same⟩ := held
  rw [same]
  rfl

theorem writable_replaced {t : Tombstone} (replaced : s.tombstone = some t) : s.writable = false := by
  unfold writable
  rw [replaced]
  exact Bool.and_false _

theorem finishEscalation_marked (held : s.mark.isSome = true) (at_ : Prepared) (luck : Luck) :
    (s.finishEscalation at_ luck).1.writable = false := by
  rcases finishEscalation_cases s at_ luck with same | ⟨mark, issue, -, -, same⟩
  · rw [same]
    apply writable_marked
    unfold created
    split <;> exact held
  · rw [same]
    exact writable_replaced rfl

theorem finishEscalation_unmarked (free : s.mark = none) (at_ : Prepared) (luck : Luck) :
    (s.finishEscalation at_ luck).1 = s.created at_ luck := by
  rcases finishEscalation_cases s at_ luck with same | ⟨mark, issue, held, -, -⟩
  · exact same
  · rw [free] at held
    cases held

def Held (s : Item) (at_ : Prepared) (luck : Luck) : Prop :=
  at_.resumes.isSome = true → s.creates at_ luck = true → s.mark.isSome = true

theorem escalate_exactly (sound : s.Sound) (exclusive : s.issues ≠ [] → s.writable = false) (at_ : Prepared)
    (by_ reason : String) (nowMs : UInt64) (luck : Luck) :
    ((s.escalate at_ by_ reason nowMs luck).1.issues ≠ [] → (s.escalate at_ by_ reason nowMs luck).1.writable = false) ↔
      s.Held at_ luck := by
  unfold escalate
  cases started : s.startEscalation at_ by_ reason nowMs with
  | error e =>
    refine ⟨fun _ resumed => ?_, fun _ => exclusive⟩
    unfold startEscalation at started
    obtain ⟨mark, same⟩ := Option.isSome_iff_exists.mp resumed
    rw [same] at started
    cases started
  | ok marked =>
    dsimp only
    rcases startEscalation_cases started with ⟨resumed, same⟩ | ⟨fresh, -, -, same⟩
    · subst same
      cases held : marked.mark with
      | some mark =>
        have isHeld : marked.mark.isSome = true := by rw [held]; rfl
        exact ⟨fun _ _ _ => isHeld, fun _ _ => finishEscalation_marked isHeld at_ luck⟩
      | none =>
        rw [finishEscalation_unmarked held]
        constructor
        · intro after _ creates
          have fresh := sound.untombstoned (creates_empty creates)
          unfold created at after
          rw [if_pos creates] at after
          have closed := after (List.cons_ne_nil _ _)
          unfold writable at closed
          rw [held, fresh] at closed
          cases closed
        · intro holds
          unfold created
          split
          · rename_i creates
            have marked := holds resumed creates
            rw [held] at marked
            cases marked
          · exact exclusive
    · subst same
      refine ⟨fun _ resumed => ?_, fun _ _ => finishEscalation_marked rfl at_ luck⟩
      rw [fresh] at resumed
      cases resumed

end Item

namespace Sequence

def Resumable (s : Sequence) : Call → Prop
  | .prepare .. | .abandon .. => True
  | .escalate i _ _ _ luck => ∀ at_ : Prepared, s.prepared[i]? = some at_ → s.item.Held at_ luck

variable (s : Sequence)

theorem escalate_item {i : Nat} (held : s.prepared[i]? = some at_) (by_ reason : String)
    (nowMs : UInt64) (luck : Item.Luck) :
    (s.step (.escalate i by_ reason nowMs luck)).1.item = (s.item.escalate at_ by_ reason nowMs luck).1 := by
  unfold step
  dsimp only
  rw [held]
  dsimp only
  cases s.item.escalate at_ by_ reason nowMs luck with
  | mk item answer => cases answer <;> rfl

theorem prepare_item (world : World) (id : Iri) (kind : Kind) :
    (s.step (.prepare world id kind)).1.item = s.item := by
  unfold step
  dsimp only
  cases s.item.prepareEscalation world id kind <;> rfl

theorem abandon_item (world : World) (id : Iri) (kind : Kind) :
    (s.step (.abandon world id kind)).1.item = s.item ∨
      (s.item.issues = [] ∧ (s.step (.abandon world id kind)).1.item = { s.item with mark := none }) := by
  unfold step
  dsimp only
  cases abandoned : s.item.abandonEscalation world id kind with
  | error e => exact .inl rfl
  | ok after => exact .inr (Item.abandonEscalation_ok abandoned)

theorem step_sound (call : Call) (sound : s.item.Sound) : (s.step call).1.item.Sound := by
  cases call with
  | prepare world id kind =>
    rw [prepare_item]
    exact sound
  | abandon world id kind =>
    rcases abandon_item s world id kind with same | ⟨-, same⟩
    · rw [same]
      exact sound
    · rw [same]
      exact ⟨sound.one, fun t replaced => ⟨(sound.named t replaced).1, rfl⟩⟩
  | escalate i by_ reason nowMs luck =>
    cases held : s.prepared[i]? with
    | none =>
      have idle : (s.step (.escalate i by_ reason nowMs luck)).1 = s := by
        unfold step
        dsimp only
        rw [held]
      rw [idle]
      exact sound
    | some at_ =>
      rw [escalate_item s held]
      exact sound.escalate at_ by_ reason nowMs luck

theorem step_exactly (call : Call) (sound : s.item.Sound) (copy : s.item.OneCopy) :
    (s.step call).1.item.OneCopy ↔ s.Resumable call := by
  rw [(step_sound s call sound).oneCopy_iff]
  cases call with
  | prepare world id kind =>
    rw [prepare_item]
    exact ⟨fun _ => trivial, fun _ => copy.exclusive⟩
  | abandon world id kind =>
    refine ⟨fun _ => trivial, fun _ => ?_⟩
    rcases abandon_item s world id kind with same | ⟨none, same⟩
    · rw [same]
      exact copy.exclusive
    · rw [same]
      exact fun listed => absurd none listed
  | escalate i by_ reason nowMs luck =>
    cases held : s.prepared[i]? with
    | none =>
      have idle : (s.step (.escalate i by_ reason nowMs luck)).1 = s := by
        unfold step
        dsimp only
        rw [held]
      rw [idle]
      refine ⟨fun _ at_ found => ?_, fun _ => copy.exclusive⟩
      rw [held] at found
      cases found
    | some at_ =>
      rw [escalate_item s held, Item.escalate_exactly sound copy.exclusive]
      refine ⟨fun holds other found => ?_, fun holds => holds at_ held⟩
      rw [held] at found
      cases found
      exact holds

end Sequence

/-- In every state of a sequence of calls on one local item the item and its issue are one copy, exactly
when each escalation that resumes a mark and creates the issue finds the item still marked. -/
theorem one_issue_one_copy (item : Local) (calls : List Call) :
    (∀ past, past <+: calls → (run Sequence.step ⟨⟨item, none, none, []⟩, []⟩ past).item.OneCopy) ↔
      Throughout Sequence.step Sequence.Resumable ⟨⟨item, none, none, []⟩, []⟩ calls := by
  have sound : (⟨item, none, none, []⟩ : Item).Sound := ⟨Nat.zero_le 1, fun t replaced => by cases replaced⟩
  have start : (⟨item, none, none, []⟩ : Item).OneCopy := sound.oneCopy_iff.mpr fun listed => absurd rfl listed
  exact prefixes_iff (fun s call sound => Sequence.step_sound s call sound) Sequence.step_exactly sound start calls

/-- Everything a call asks for is there. -/
def readyWorld : World where
  claims := false
  kindOf := .ok .record
  map := .ok []
  tracker := .ok ()
  up := .ok ()
  requirePrivate := .ok ()
  aliasHeld := fun _ => none
  recordOf := .error .unreachable
  findings := .ok []

def sampleRecord : Local := .record ⟨"urn:fl:1", "urn:fl:p", "A title", .todo, [], none⟩

/-- A first escalation cannot create its issue, a second one is prepared to resume it, the first one is
abandoned, and the second one creates the issue of an item that is open to writes again. -/
theorem abandoned_item_escalates :
    let s := run Sequence.step ⟨⟨sampleRecord, none, none, []⟩, []⟩
      [.prepare readyWorld "urn:fl:1" .record, .escalate 0 "alice" "why" 5 ⟨.fails, "i/7", false, true⟩,
        .prepare readyWorld "urn:fl:1" .record, .abandon readyWorld "urn:fl:1" .record,
        .escalate 1 "alice" "why" 9 ⟨.lands, "i/7", false, true⟩]
    s.item.issues = ["i/7"] ∧ s.item.writable = true := by
  decide +kernel

end FerroLoop.Escalation
