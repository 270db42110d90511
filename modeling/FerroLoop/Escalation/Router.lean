import FerroLoop.Lib.Text

/-!
The router's escalation of a local item to GitHub (`crates/core/src/escalate.rs`) over the local store's
marks and tombstones (`crates/core/src/escalation.rs`, `crates/core/src/mem.rs`) and a GitHub tier whose
search finds every issue (`crates/core/src/mem_issues.rs`). What a call reads besides the item's own mark,
tombstone and issue is an argument of it.
-/

namespace FerroLoop.Escalation

open Text

abbrev Iri := String

inductive Kind where
  | project
  | gate
  | record
  | finding
  | state
  | agent
  | message
  | workflow
  | workflowRun
  deriving DecidableEq

inductive Tier where
  | local_
  | github
  deriving DecidableEq

inductive State where
  | todo
  | doing
  | review
  | done
  | needsHuman
  deriving DecidableEq

inductive FindingState where
  | raised
  | reproduced
  | assigned
  | fixed
  | withdrawn
  deriving DecidableEq

structure Record where
  id : Iri
  project : Iri
  title : String
  state : State
  alsoKnownAs : List Iri
  area : Option String
  deriving DecidableEq

structure Finding where
  id : Iri
  project : Iri
  record : Iri
  raisedBy : String
  claim : String
  state : FindingState
  assignedTo : Option String
  alsoKnownAs : List Iri
  security : Bool
  area : Option String
  deriving DecidableEq

inductive Local where
  | record (r : Record)
  | finding (f : Finding)
  deriving DecidableEq

def Local.id : Local → Iri
  | .record r => r.id
  | .finding f => f.id

def Local.kind : Local → Kind
  | .record _ => .record
  | .finding _ => .finding

def Local.project : Local → Iri
  | .record r => r.project
  | .finding f => f.project

def Local.alsoKnownAs : Local → List Iri
  | .record r => r.alsoKnownAs
  | .finding f => f.alsoKnownAs

def Local.closed : Local → Option String
  | .record r => if r.state = .done then some "done" else none
  | .finding f =>
    match f.state with
    | .fixed => some "fixed"
    | .withdrawn => some "withdrawn"
    | _ => none

structure Mark where
  by_ : String
  reason : String
  atMs : UInt64
  deriving DecidableEq

structure Tombstone where
  from_ : Iri
  to_ : Iri
  by_ : String
  reason : String
  atMs : UInt64
  deriving DecidableEq

inductive EscalationFault where
  | notLocal (id : Iri)
  | alreadyEscalated (id to_ : Iri)
  | closed (id : Iri) (state : String)
  | title (id : Iri) (why : String)
  | aliasTaken (name issue : Iri)
  | alreadyMarked (id : Iri) (kind : Kind)
  | notMarked (id : Iri)
  | issueExists (id : Iri) (kind : Kind) (issue : Iri)
  | tooLong (id : Iri) (what : String) (len max : Nat)
  deriving DecidableEq

inductive StoreError where
  | escalation (fault : EscalationFault)
  | escalated (from_ to_ : Iri)
  | notOwned (id : Iri)
  | wrongKind (id : Iri) (expected found : Kind)
  | noSuchRecord (id : Iri)
  | noSuchFinding (id : Iri)
  | securityNotPrivate (repo visibility : String)
  | sensitiveNamedPublic (what repo visibility : String)
  | unreachable
  | backend (text : String)
  deriving DecidableEq

structure AreaRoute where
  area : String
  tier : Tier
  sensitive : Bool
  deriving DecidableEq

abbrev RoutingMap := List AreaRoute

structure RecordSeen where
  id : Iri
  title : String
  tier : Tier
  deriving DecidableEq

inductive Outgoing where
  | record (record : Record) (findings : List Finding)
  | finding (finding : Finding) (record : RecordSeen)
  deriving DecidableEq

def Outgoing.kind : Outgoing → Kind
  | .record .. => .record
  | .finding .. => .finding

structure Prepared where
  id : Iri
  kind : Kind
  outgoing : Outgoing
  resumes : Option Mark
  found : Option Iri
  deriving DecidableEq

/-! ### The checks before anything is written -/

def issueTitleMax : Nat := 256

def escalationBodyBudget : Nat := 50000

/-- The most bytes one byte becomes in the issue's text, and in its block. -/
def shown : Nat := 8

def kept : Nat := 6

def sensitive (map : RoutingMap) (area : Option String) : Bool :=
  area.any fun a =>
    match map.find? fun r => r.area == a with
    | some route => route.sensitive
    | none => true

structure BodyPart where
  what : String
  len : Nat
  per : Nat
  deriving DecidableEq

def BodyPart.weight (p : BodyPart) : Nat := p.len * p.per

def recordTitlePart (record : RecordSeen) : List BodyPart :=
  if record.tier = .local_ then [⟨"the title of the record it is about", record.title.utf8ByteSize, shown + kept⟩] else []

def ownParts : Outgoing → List BodyPart
  | .record .. => []
  | .finding finding record =>
    ⟨"the finding's claim", finding.claim.utf8ByteSize, 1⟩ :: recordTitlePart record ++
      [⟨"the name of who raised it", finding.raisedBy.utf8ByteSize, kept⟩,
        ⟨"the name of who it is assigned to", (finding.assignedTo.map String.utf8ByteSize).getD 0, kept⟩]

def Outgoing.aliases : Outgoing → List Iri
  | .record r _ => r.alsoKnownAs
  | .finding f _ => f.alsoKnownAs

def bodyParts (out : Outgoing) (by_ reason : String) : List BodyPart :=
  ownParts out ++
    [⟨"the name of who escalates it", by_.utf8ByteSize, shown + kept⟩,
      ⟨"the reason", reason.utf8ByteSize, shown + kept⟩,
      ⟨"the list of its aliases", (out.aliases.map String.utf8ByteSize).sum, kept⟩]

/-- The last of the heaviest parts, as `max_by_key` picks it. -/
def heaviest : List BodyPart → Option BodyPart
  | [] => none
  | p :: rest =>
    match heaviest rest with
    | none => some p
    | some q => if p.weight ≤ q.weight then some q else some p

def bodyRefused (id : Iri) (out : Outgoing) (by_ reason : String) : Option EscalationFault :=
  let parts := bodyParts out by_ reason
  let total := (parts.map BodyPart.weight).sum
  if total ≤ escalationBodyBudget then none
  else (heaviest parts).map fun p =>
    .tooLong id p.what p.len ((escalationBodyBudget - (total - p.weight)) / p.per)

def titleRefused (title : String) : Option String :=
  if title = "" then some "it is empty, and an issue needs a title"
  else if issueTitleMax < title.length then
    some ("it is " ++ toString title.length ++ " characters, and GitHub's limit is " ++ toString issueTitleMax)
  else if trim title ≠ title then some "it starts or ends with whitespace, which GitHub may trim"
  else none

structure Item where
  item : Local
  mark : Option Mark := none
  tombstone : Option Tombstone := none
  issues : List Iri := []
  deriving DecidableEq

structure World where
  claims : Bool
  kindOf : Except StoreError Kind
  map : Except StoreError RoutingMap
  tracker : Except StoreError Unit
  up : Except StoreError Unit
  requirePrivate : Except StoreError Unit
  aliasHeld : Iri → Option Iri
  recordOf : Except StoreError (Tier × Record)
  findings : Except StoreError (List Finding)

namespace Item

def writable (s : Item) : Bool := s.mark.isNone && s.tombstone.isNone

section

variable (s : Item) (world : World)

def findEscalated : Except StoreError (Option Iri) := do
  world.up
  return s.issues.head?

def aliasTaken (name : Iri) : Except StoreError (Option Iri) := do
  world.up
  if name = s.item.id ∨ name ∈ s.item.alsoKnownAs then return s.issues.head?.or (world.aliasHeld name)
  return world.aliasHeld name

def localItem (id : Iri) (kind : Kind) : Except StoreError Local :=
  if world.claims then .error (.escalation (.notLocal id))
  else
    match s.tombstone with
    | some t => .error (.escalation (.alreadyEscalated t.from_ t.to_))
    | none =>
      match world.kindOf with
      | .error (.notOwned _) => .error (.escalation (.notLocal id))
      | .error e => .error e
      | .ok found =>
        let expected := if kind = .finding then .finding else .record
        if found ≠ expected then .error (.wrongKind id expected found)
        else if s.item.kind ≠ expected then
          .error (if expected = .record then .noSuchRecord id else .noSuchFinding id)
        else .ok s.item

def namesFreeFrom (s : Item) (world : World) (id : Iri) : List Iri → Except StoreError (Option Iri)
  | [] => .ok none
  | name :: rest => do
    match ← s.aliasTaken world name with
    | none => namesFreeFrom s world id rest
    | some issue =>
      if name = id ∧ (← s.findEscalated world) = some issue then return some issue
      throw (.escalation (.aliasTaken name issue))

def namesFree (id : Iri) (aliases : List Iri) : Except StoreError (Option Iri) :=
  namesFreeFrom s world id (id :: aliases)

def privateOrRefuse (world : World) (what : String) : Except StoreError Unit :=
  match world.requirePrivate with
  | .error (.securityNotPrivate repo visibility) => .error (.sensitiveNamedPublic what repo visibility)
  | other => other

def openFindings (world : World) (map : RoutingMap) (record : Record) : Except StoreError (List Finding) := do
  let all ← world.findings
  return all.filter fun f =>
    f.state ≠ .fixed && f.state ≠ .withdrawn && (!f.security && !sensitive map f.area) &&
      (f.record == record.id || record.alsoKnownAs.contains f.record)

def outgoingRecord (map : RoutingMap) (found : Option Iri) (record : Record) :
    Except StoreError (Outgoing × Option Iri) := do
  let found' ← if found.isNone then do
      if let some why := titleRefused record.title then throw (.escalation (.title record.id why))
      if sensitive map record.area then privateOrRefuse world "this record"
      s.namesFree world record.id record.alsoKnownAs
    else pure found
  return (.record record (← openFindings world map record), found')

def outgoingFinding (map : RoutingMap) (found : Option Iri) (finding : Finding) :
    Except StoreError (Outgoing × Option Iri) := do
  let (tier, record) ← world.recordOf
  let found' ← if found.isNone then do
      let own := finding.security || sensitive map finding.area
      let about := tier == .local_ && sensitive map record.area
      if own || about then
        privateOrRefuse world (if own then "this finding" else "this finding, about a record in a sensitive area,")
      s.namesFree world finding.id finding.alsoKnownAs
    else pure found
  return (.finding finding ⟨record.id, record.title, tier⟩, found')

def prepareEscalation (id : Iri) (kind : Kind) : Except StoreError Prepared := do
  let item ← s.localItem world id kind
  let map ← world.map
  world.tracker
  let found ← match s.mark with
    | some _ => s.findEscalated world
    | none => pure none
  if found.isNone then
    if let some state := item.closed then throw (.escalation (.closed item.id state))
  let (outgoing, found') ← match item with
    | .record r => outgoingRecord s world map found r
    | .finding f => outgoingFinding s world map found f
  return ⟨item.id, outgoing.kind, outgoing, s.mark, found'⟩

def setMark (s : Item) (mark : Mark) : Except StoreError Item :=
  match s.tombstone, s.mark with
  | some t, _ => .error (.escalated s.item.id t.to_)
  | none, some _ => .error (.escalation (.alreadyMarked s.item.id s.item.kind))
  | none, none => .ok { s with mark := some mark }

def unmark (s : Item) : Except StoreError Item :=
  match s.mark with
  | none => .error (.escalation (.notMarked s.item.id))
  | some _ => .ok { s with mark := none }

def replaceByTombstone (s : Item) (to_ : Iri) : Except StoreError Item :=
  match s.mark with
  | none => .error (.escalation (.notMarked s.item.id))
  | some mark =>
    .ok { s with mark := none, tombstone := some ⟨s.item.id, to_, mark.by_, mark.reason, mark.atMs⟩ }

inductive Create where
  | fails
  | lands
  | unanswered
  deriving DecidableEq

/-- What an escalation meets: how the create ends, the number of a new issue, whether the repository
shows security findings to the public, and whether the tombstone's write goes through. -/
structure Luck where
  create : Create
  url : Iri
  isPublic : Bool
  tombstoned : Bool
  deriving DecidableEq

def Outgoing.security : Outgoing → Bool
  | .record .. => false
  | .finding finding _ => finding.security

def createEscalated (s : Item) (out : Outgoing) (luck : Luck) : Item × Except StoreError Iri :=
  match luck.create, s.issues.head? with
  | .fails, _ => (s, .error .unreachable)
  | _, some issue => (s, .ok issue)
  | create, none =>
    if Outgoing.security out && luck.isPublic then (s, .error (.securityNotPrivate "acme/widgets" "public"))
    else ({ s with issues := [luck.url] }, if create = .unanswered then .error .unreachable else .ok luck.url)

def startEscalation (s : Item) (at_ : Prepared) (by_ reason : String) (nowMs : UInt64) : Except StoreError Item :=
  match at_.resumes with
  | some _ => .ok s
  | none =>
    match bodyRefused at_.id at_.outgoing by_ reason with
    | some fault => .error (.escalation fault)
    | none => s.setMark ⟨by_, reason, nowMs⟩

def finishEscalation (s : Item) (at_ : Prepared) (luck : Luck) : Item × Except StoreError Iri :=
  match s.createEscalated at_.outgoing luck with
  | (after, .error e) => (after, .error e)
  | (after, .ok issue) =>
    if !luck.tombstoned then (after, .error (.backend "the tombstone was not written"))
    else
      match after.replaceByTombstone issue with
      | .error e => (after, .error e)
      | .ok last => (last, .ok issue)

def escalate (s : Item) (at_ : Prepared) (by_ reason : String) (nowMs : UInt64) (luck : Luck) :
    Item × Except StoreError Iri :=
  match s.startEscalation at_ by_ reason nowMs with
  | .error e => (s, .error e)
  | .ok marked => marked.finishEscalation at_ luck

def abandonEscalation (id : Iri) (kind : Kind) : Except StoreError Item := do
  let item ← s.localItem world id kind
  if s.mark.isNone then throw (.escalation (.notMarked item.id))
  world.tracker
  if let some issue ← s.findEscalated world then throw (.escalation (.issueExists item.id item.kind issue))
  s.unmark

end

end Item

end FerroLoop.Escalation
