import Mathlib.Data.List.Basic
import Mathlib.Algebra.Ring.Nat

/-!
The survivor registry of the host (`crates/host/src/survivor_registry.rs`) and the steps of the Unix host that change it
(`spawn_admitted`, `spawn_unix`, `unix_status`, `Host::open` and `recover` in `crates/host/src/lib.rs`, with the hand-off of
`crates/host/src/child/unix.rs`). Each event makes at most one publish, as its last action, so that a crash falls between
any two of them. The file holds what `serde_json` made of the registry; a publish that fails leaves the file as it was or
has already replaced it.
-/

namespace FerroLoop.Host

inductive SessionPhase where
  | running
  | leaderExited

/-- The processes of a session as the supervisor reported them. -/
structure Processes where
  supervisorPid : UInt32
  supervisorStart : UInt64
  vendorPid : UInt32
  vendorStart : UInt64
  pgid : UInt32

structure SurvivorRecord where
  session : String
  epoch : Nat
  phase : SessionPhase
  processes : Processes
  groupLeaderPid : UInt32
  groupLeaderStart : UInt64
  groupLeaderReaped : Bool
  leaderCode : Option Int
  leaderSignal : Option Int

structure Registry where
  highWater : Nat
  sessions : List SurvivorRecord
  alerts : List String

structure Disk where
  magic : UInt32
  registry : Registry

inductive ContainmentRefusal where
  | corruptRegistry
  | epochExhausted
  | spawnRejected
  | cleanupUnresolved
  | identityUnproven
  | pidfdUnavailable
  | unanchoredGroup

def ContainmentRefusal.asStr : ContainmentRefusal → String
  | .corruptRegistry => "corrupt registry"
  | .epochExhausted => "epoch exhausted"
  | .spawnRejected => "spawn rejected"
  | .cleanupUnresolved => "cleanup unresolved"
  | .identityUnproven => "unproven ownership"
  | .pidfdUnavailable => "pidfd unavailable"
  | .unanchoredGroup => "unanchored group"

inductive HostError where
  | refusal (refusal : ContainmentRefusal)
  | io (text : String)

def magic : UInt32 := 0x464C4831

def maxBytes : Nat := 1024 * 1024

def maxAlerts : Nat := 1000

def Registry.empty : Registry := ⟨0, [], []⟩

def Registry.allocEpoch (registry : Registry) : Except ContainmentRefusal Nat :=
  if registry.highWater + 1 < 2 ^ 64 then .ok (registry.highWater + 1) else .error .epochExhausted

/-- `SessionId::new` accepts the name. -/
def isSessionId (name : String) : Bool :=
  let chars := name.toList
  decide (1 ≤ chars.length ∧ chars.length ≤ 64) && chars.all fun c => c.isAlphanum || c == '.' || c == '_' || c == '-'

def checkSessions (highWater : Nat) : List String → List SurvivorRecord → Except ContainmentRefusal Unit
  | _, [] => .ok ()
  | names, session :: rest =>
    if session.epoch = 0 ∨ session.epoch > highWater then .error .corruptRegistry
    else if isSessionId session.session = false then .error .corruptRegistry
    else if session.session ∈ names then .error .corruptRegistry
    else checkSessions highWater (session.session :: names) rest

def validateRegistry (registry : Registry) : Except ContainmentRefusal Unit :=
  if registry.alerts.length > maxAlerts then .error .corruptRegistry
  else checkSessions registry.highWater [] registry.sessions

/-- `serde_json` on the file's record, and how long the texts it writes are. -/
structure SerdeJson where
  Text : Type
  size : Text → Nat
  toVec : Disk → Except String Text
  fromSlice : Text → Option Disk

/-- What is written is not empty and is read back. -/
structure SerdeJson.Lawful (serde : SerdeJson) : Prop where
  written : ∀ disk, ∃ text, serde.toVec disk = .ok text ∧ 0 < serde.size text ∧ serde.fromSlice text = some disk

variable (serde : SerdeJson)

def parseBytes (text : serde.Text) : Except ContainmentRefusal Registry :=
  if serde.size text = 0 ∨ serde.size text > maxBytes then .error .corruptRegistry
  else
    match serde.fromSlice text with
    | none => .error .corruptRegistry
    | some disk =>
      if disk.magic ≠ magic then .error .corruptRegistry
      else (validateRegistry disk.registry).map fun _ => disk.registry

def loadPath : Option serde.Text → Except ContainmentRefusal Registry
  | none => .ok .empty
  | some text => parseBytes serde text

/-- How the replacement of the file ends. -/
inductive Replace where
  | failed (text : String)
  /-- The file is replaced, and a sync after that fails. -/
  | unsynced (text : String)
  | done

def publish (file : Option serde.Text) (registry : Registry) (ends : Replace) : Option serde.Text × Except HostError Unit :=
  match serde.toVec ⟨magic, registry⟩ with
  | .error err => (file, .error (.io err))
  | .ok text =>
    if serde.size text > maxBytes then (file, .error (.refusal .corruptRegistry))
    else
      match ends with
      | .failed err => (file, .error (.io err))
      | .unsynced err => (some text, .error (.io err))
      | .done => (some text, .ok ())

section

variable (registry : Registry) (session : String)

def Registry.retire : Registry :=
  { registry with sessions := registry.sessions.filter fun record => record.session ≠ session }

def Registry.alert (registry : Registry) (text : String) : Registry := { registry with alerts := registry.alerts ++ [text] }

def SurvivorRecord.leader (record : SurvivorRecord) (code signal : Option Int) : SurvivorRecord :=
  { record with phase := .leaderExited, groupLeaderReaped := true, leaderCode := code, leaderSignal := signal }

/-- The first record of the session takes the exit of its leader. -/
def markFirst (session : String) (code signal : Option Int) : List SurvivorRecord → List SurvivorRecord
  | [] => []
  | record :: rest =>
    if record.session = session then record.leader code signal :: rest else record :: markFirst session code signal rest

def Registry.markLeader (code signal : Option Int) : Registry :=
  { registry with sessions := markFirst session code signal registry.sessions }

def SurvivorRecord.spawned (session : String) (epoch : Nat) (processes : Processes) : SurvivorRecord :=
  ⟨session, epoch, .running, processes, processes.vendorPid, processes.vendorStart, false, none, none⟩

def Registry.record (epoch : Nat) (processes : Processes) : Registry :=
  { registry with highWater := epoch, sessions := registry.sessions ++ [.spawned session epoch processes] }

end

/-- A child that its supervisor was told to let run. -/
structure Child where
  session : String
  epoch : Nat
  cleaned : Bool

inductive Stage where
  | starting
  | recorded
  /-- The publish of the record failed. -/
  | refused
  | released
deriving DecidableEq

def Stage.ofPublish : Except HostError Unit → Stage
  | .ok _ => .recorded
  | .error _ => .refused

/-- The one spawn under way. Its child waits at a gate until it is released. -/
structure Spawning where
  session : String
  epoch : Nat
  stage : Stage

/-- An open host: its registry, the sessions whose status threads run, and the spawn under way. -/
structure Serving where
  registry : Registry
  watchers : List (String × Nat)
  spawning : Option Spawning

inductive Process where
  | down
  | recovering (registry : Registry) (todo kept : List SurvivorRecord) (failed : Bool)
  /-- The recovery failed; `Host::open` publishes once more. -/
  | closing (registry : Registry)
  | serving (host : Serving)

structure World where
  file : Option serde.Text
  process : Process
  children : List Child

def World.start : World serde := ⟨none, .down, []⟩

inductive Event where
  /-- A spawn that passes the other checks of `spawn_admitted`. -/
  | spawn (session : String)
  | identified (processes : Processes) (ends : Replace)
  | go
  | execOk
  /-- The hand-off fails; `aborted` when both processes are proven to be gone. -/
  | spawnFails (aborted : Bool) (ends : Replace)
  | leader (session : String) (epoch : Nat) (code signal : Option Int) (ends : Replace)
  | cleanup (session : String) (epoch : Nat) (complete : Bool) (ends : Replace)
  | crash
  | opens
  /-- `cleanup_recorded` on the next recorded session. -/
  | recoverOne (refused : Option ContainmentRefusal)
  | recovered (ends : Replace)
  | closed (ends : Replace)

def cleanedAs (session : String) (epoch : Nat) (children : List Child) : List Child :=
  children.map fun child => if child.session = session ∧ child.epoch = epoch then { child with cleaned := true } else child

/-- `retire_epoch_keep`, and whether it publishes. -/
def Registry.retireEpochKeep (registry : Registry) (session : String) (epoch : Nat) : Registry × Bool :=
  let had := registry.sessions.any fun record => record.session = session
  let kept := { registry.retire session with highWater := max registry.highWater epoch }
  (kept, had || kept.highWater = epoch)

variable {serde}

section

variable (world : World serde) (host : Serving)

def World.spawn (session : String) : World serde :=
  if host.spawning.isSome ∨ isSessionId session = false ∨ (host.registry.sessions.any fun record => record.session = session) then
    world
  else
    match host.registry.allocEpoch with
    | .error _ => world
    | .ok epoch =>
      { world with process := .serving { host with spawning := some ⟨session, epoch, .starting⟩ } }

def World.identified (spawning : Spawning) (processes : Processes) (ends : Replace) : World serde :=
  let registry := host.registry.record spawning.session spawning.epoch processes
  let (file, result) := publish serde world.file registry ends
  { world with
    file, process := .serving { host with registry, spawning := some { spawning with stage := .ofPublish result } } }

def World.spawnFails (spawning : Spawning) (aborted : Bool) (ends : Replace) : World serde :=
  if aborted then
    let (registry, publishes) := host.registry.retireEpochKeep spawning.session spawning.epoch
    { file := if publishes then (publish serde world.file registry ends).1 else world.file
      process := .serving { host with registry, spawning := none }
      children := cleanedAs spawning.session spawning.epoch world.children }
  else { world with process := .serving { host with spawning := none } }

/-- A report of a status thread changes the registry and publishes it. -/
def World.reports (ends : Replace) : World serde :=
  { world with file := (publish serde world.file host.registry ends).1, process := .serving host }

def World.serve : Event → World serde
  | .spawn session => world.spawn host session
  | .leader session epoch code signal ends =>
    if (session, epoch) ∈ host.watchers then
      world.reports { host with registry := host.registry.markLeader session code signal } ends
    else world
  | .cleanup session epoch complete ends =>
    if (session, epoch) ∈ host.watchers then
      let watchers := host.watchers.filter fun watcher => watcher ≠ (session, epoch)
      if complete then
        { world with children := cleanedAs session epoch world.children }.reports
          { host with registry := host.registry.retire session, watchers } ends
      else world.reports { host with registry := host.registry.alert "cleanup unresolved", watchers } ends
    else world
  | event =>
    match host.spawning with
    | none => world
    | some spawning =>
      match event, spawning.stage with
      | .identified processes ends, .starting => world.identified host spawning processes ends
      | .go, .recorded =>
        { world with
          process := .serving { host with spawning := some { spawning with stage := .released } }
          children := world.children ++ [⟨spawning.session, spawning.epoch, false⟩] }
      | .execOk, .released =>
        { world with
          process := .serving { host with watchers := host.watchers ++ [(spawning.session, spawning.epoch)], spawning := none } }
      | .spawnFails aborted ends, _ => world.spawnFails host spawning aborted ends
      | _, _ => world

end

def World.step (world : World serde) (event : Event) : World serde × Unit :=
  (match event, world.process with
    | .crash, _ => { world with process := .down }
    | .opens, .down =>
      match loadPath serde world.file with
      | .error _ => world
      | .ok registry => { world with process := .recovering registry registry.sessions [] false }
    | .recoverOne none, .recovering registry (session :: todo) kept failed =>
      { world with
        process := .recovering registry todo kept failed
        children := cleanedAs session.session session.epoch world.children }
    | .recoverOne (some refused), .recovering registry (session :: todo) kept _ =>
      { world with process := .recovering (registry.alert refused.asStr) todo (kept ++ [session]) true }
    | .recovered ends, .recovering registry [] kept failed =>
      let after := { registry with sessions := kept }
      let (file, result) := publish serde world.file after ends
      { world with file, process := if result.isOk && !failed then .serving ⟨after, [], none⟩ else .closing after }
    | .closed ends, .closing registry =>
      { world with file := (publish serde world.file registry ends).1, process := .down }
    | event, .serving host => world.serve host event
    | _, _ => world, ())

end FerroLoop.Host
