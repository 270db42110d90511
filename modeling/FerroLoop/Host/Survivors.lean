import FerroLoop.Host.Registry
import FerroLoop.Lib.Machine
import Mathlib.Data.List.Nodup

namespace FerroLoop.Host

open Machine List World

variable {serde : SerdeJson}

/-- An event that adds an alert finds room for it. -/
def AlertRoom (world : World serde) (event : Event) : Prop :=
  match event, world.process with
  | .recoverOne (some _), .recovering registry _ _ _ => registry.alerts.length < maxAlerts
  | .cleanup _ _ false _, .serving host => host.registry.alerts.length < maxAlerts
  | _, _ => True

/-- The file is the text of a registry, and loads as that registry. -/
def World.Loads (world : World serde) : Prop :=
  ∀ text, world.file = some text →
    ∃ registry, serde.toVec ⟨magic, registry⟩ = .ok text ∧ loadPath serde (some text) = .ok registry

/-- The sessions of the records, each with its epoch. -/
def Registry.keys (registry : Registry) : List (String × Nat) :=
  registry.sessions.map fun record => (record.session, record.epoch)

/-- Every child that was let run and is not cleaned up has a record in the file. -/
def World.Remembers (world : World serde) : Prop :=
  ∀ child ∈ world.children, child.cleaned = false →
    ∃ text disk, world.file = some text ∧ serde.fromSlice text = some disk ∧ (child.session, child.epoch) ∈ disk.registry.keys

/-- No epoch is given to two children that were let run. -/
def UniqueEpochs (children : List Child) : Prop := (children.map Child.epoch).Nodup

/-- A registry that loads but for its alerts, and has a record of every child that needs one. -/
structure Registry.Sound (calm : Prop) (children : List Child) (registry : Registry) : Prop where
  records : ∀ key ∈ registry.keys, 0 < key.2 ∧ key.2 ≤ registry.highWater ∧ isSessionId key.1 = true
  names : (registry.keys.map Prod.fst).Nodup
  covers : ∀ child ∈ children, child.cleaned = false → (child.session, child.epoch) ∈ registry.keys
  alerts : calm → registry.alerts.length ≤ maxAlerts

/-- The later children are the earlier ones, some of them cleaned up since. -/
structure Marked (before after : List Child) : Prop where
  epochs : after.map Child.epoch = before.map Child.epoch
  dirty : ∀ child ∈ after, child.cleaned = false → child ∈ before

variable {calm : Prop} {children : List Child} {highWater : Nat}

theorem checkSessions_ok {sessions : List SurvivorRecord} : ∀ {names : List String},
    (∀ record ∈ sessions, 0 < record.epoch ∧ record.epoch ≤ highWater ∧ isSessionId record.session = true) →
    (sessions.map SurvivorRecord.session).Nodup → (∀ record ∈ sessions, record.session ∉ names) →
    checkSessions highWater names sessions = .ok () := by
  induction sessions with
  | nil => intros; rfl
  | cons session rest ih =>
    intro names records nodup fresh
    obtain ⟨positive, bounded, valid⟩ := records session mem_cons_self
    rw [map_cons, nodup_cons] at nodup
    rw [checkSessions, if_neg (by omega), if_neg (by simp [valid]), if_neg (fresh session mem_cons_self)]
    refine ih (fun record member => records record (mem_cons_of_mem _ member)) nodup.2 ?_
    intro record member listed
    rcases mem_cons.mp listed with same | old
    · exact nodup.1 (same ▸ mem_map_of_mem member)
    · exact fresh record (mem_cons_of_mem _ member) old

theorem Registry.Sound.validates {registry : Registry} (sound : registry.Sound True children) :
    validateRegistry registry = .ok () := by
  rw [validateRegistry, if_neg (by have := sound.alerts trivial; omega)]
  refine checkSessions_ok ?_ ?_ (fun _ _ none => not_mem_nil none)
  · intro record member
    exact sound.records _ (mem_map_of_mem member)
  · have names := sound.names
    rwa [Registry.keys, map_map] at names

variable {session : String} {file : Option serde.Text} {ends : Replace} {failed : Bool} {kept : List SurvivorRecord}

variable {epoch : Nat}

theorem Registry.Sound.unique {registry : Registry} (sound : registry.Sound calm children)
    {other : Nat} (one : (session, epoch) ∈ registry.keys) (two : (session, other) ∈ registry.keys) :
    epoch = other :=
  congrArg Prod.snd (inj_on_of_nodup_map sound.names one two rfl)

theorem Registry.Sound.of_keys {registry other : Registry} (sound : registry.Sound calm children)
    (keys : other.keys = registry.keys) (highWater : other.highWater = registry.highWater)
    (alerts : calm → other.alerts.length ≤ maxAlerts) : other.Sound calm children := by
  refine ⟨?_, keys ▸ sound.names, keys ▸ sound.covers, alerts⟩
  rw [keys, highWater]
  exact sound.records

variable {after : List Child}

theorem Marked.bounded (marked : Marked children after)
    (epochs : ∀ child ∈ children, child.epoch ≤ highWater) : ∀ child ∈ after, child.epoch ≤ highWater := by
  intro child member
  have listed : child.epoch ∈ children.map Child.epoch := marked.epochs ▸ mem_map_of_mem member
  obtain ⟨old, there, same⟩ := mem_map.mp listed
  rw [← same]
  exact epochs old there

theorem Registry.Sound.marked {registry : Registry} (sound : registry.Sound calm children)
    (marked : Marked children after) : registry.Sound calm after := by
  refine ⟨sound.records, sound.names, ?_, sound.alerts⟩
  intro child member dirty
  exact sound.covers child (marked.dirty child member dirty) dirty

theorem Registry.Sound.alert {registry : Registry} (sound : registry.Sound calm children) {text : String}
    (room : calm → registry.alerts.length < maxAlerts) : (registry.alert text).Sound calm children := by
  refine sound.of_keys rfl rfl ?_
  intro quiet
  have less := room quiet
  simp only [Registry.alert, length_append, length_singleton]
  omega

theorem markLeader_keys (registry : Registry) (session : String) (code signal : Option Int) :
    (registry.markLeader session code signal).keys = registry.keys := by
  have marked : ∀ sessions : List SurvivorRecord,
      (markFirst session code signal sessions).map (fun record => (record.session, record.epoch)) =
        sessions.map fun record => (record.session, record.epoch) := by
    intro sessions
    induction sessions with
    | nil => rfl
    | cons first rest ih =>
      rw [markFirst]
      split
      · rfl
      · rw [map_cons, map_cons, ih]
  exact marked registry.sessions

theorem mem_retire_keys {registry : Registry} {key : String × Nat} :
    key ∈ (registry.retire session).keys ↔ key ∈ registry.keys ∧ key.1 ≠ session := by
  simp only [Registry.keys, Registry.retire, mem_map, mem_filter, decide_eq_true_eq]
  constructor
  · rintro ⟨record, ⟨member, other⟩, rfl⟩
    exact ⟨⟨record, member, rfl⟩, other⟩
  · rintro ⟨⟨record, member, rfl⟩, other⟩
    exact ⟨record, ⟨member, other⟩, rfl⟩

theorem retire_keys_sublist (registry : Registry) (session : String) :
    (registry.retire session).keys.Sublist registry.keys :=
  List.Sublist.map _ filter_sublist

/-- A session is retired once no child of that name needs its record. -/
theorem Registry.Sound.retire {registry : Registry} (sound : registry.Sound calm children)
    (marked : Marked children after)
    (gone : ∀ child ∈ after, child.cleaned = false → child.session ≠ session) :
    (registry.retire session).Sound calm after := by
  refine ⟨?_, ?_, ?_, sound.alerts⟩
  · intro key member
    exact sound.records key (mem_retire_keys.mp member).1
  · exact sound.names.sublist ((retire_keys_sublist registry session).map _)
  · intro child member dirty
    exact mem_retire_keys.mpr ⟨(sound.marked marked).covers child member dirty, gone child member dirty⟩

/-- The file holds a registry: nothing yet, or its text. -/
def Stores (file : Option serde.Text) (registry : Registry) : Prop :=
  (file = none ∧ registry = .empty) ∨
    ∃ text, file = some text ∧ serde.toVec ⟨magic, registry⟩ = .ok text ∧ serde.size text ≤ maxBytes

variable {stored : Registry}

theorem publish_stores (stores : Stores file stored) (registry : Registry)
    (ends : Replace) :
    ∃ after, Stores (publish serde file registry ends).1 after ∧ (after = stored ∨ after = registry) ∧
      ((publish serde file registry ends).2.isOk = true → after = registry) := by
  unfold publish
  rcases wrote : serde.toVec ⟨magic, registry⟩ with err | text
  · exact ⟨stored, stores, .inl rfl, fun ok => Bool.noConfusion ok⟩
  dsimp only
  split
  · exact ⟨stored, stores, .inl rfl, fun ok => Bool.noConfusion ok⟩
  rename_i fits
  have written : Stores (some text) registry := .inr ⟨text, rfl, wrote, by omega⟩
  cases ends with
  | failed err => exact ⟨stored, stores, .inl rfl, fun ok => Bool.noConfusion ok⟩
  | unsynced err | done => exact ⟨registry, written, .inr rfl, fun _ => rfl⟩

theorem Stores.read (lawful : serde.Lawful) {text : serde.Text} (stores : Stores (some text) stored) :
    0 < serde.size text ∧ serde.size text ≤ maxBytes ∧ serde.toVec ⟨magic, stored⟩ = .ok text ∧
      serde.fromSlice text = some ⟨magic, stored⟩ := by
  rcases stores with ⟨none, _⟩ | ⟨held, same, wrote, fits⟩
  · cases none
  cases same
  obtain ⟨written, made, filled, back⟩ := lawful.written ⟨magic, stored⟩
  cases wrote.symm.trans made
  exact ⟨filled, fits, wrote, back⟩

/-- What the file holds is loaded, or refused by the validation. -/
theorem Stores.loads (lawful : serde.Lawful) (stores : Stores file stored) :
    loadPath serde file = (if file.isSome then (validateRegistry stored).map fun _ => stored else .ok .empty) := by
  rcases file with _ | text
  · rfl
  obtain ⟨filled, fits, _, back⟩ := stores.read lawful
  rw [loadPath, parseBytes, if_neg (by omega), back]
  rfl

theorem Stores.loaded (lawful : serde.Lawful) {file : Option serde.Text} {registry : Registry}
    (stores : Stores file stored) (loaded : loadPath serde file = .ok registry) : registry = stored := by
  rw [stores.loads lawful] at loaded
  cases file with
  | none =>
    rcases stores with ⟨_, rfl⟩ | ⟨text, none, _⟩
    · exact (Except.ok.inj loaded).symm
    · cases none
  | some text =>
    cases valid : validateRegistry stored with
    | error refused =>
      rw [valid] at loaded
      cases loaded
    | ok done =>
      rw [valid] at loaded
      exact (Except.ok.inj loaded).symm

def Process.registry? : Process → Option Registry
  | .down => none
  | .recovering registry todo kept _ => some { registry with sessions := kept ++ todo }
  | .closing registry => some registry
  | .serving host => some host.registry

structure Spawning.Sound (spawning : Spawning) (host : Serving) (stored : Registry) (children : List Child) : Prop where
  fresh : spawning.stage ≠ .released → ∀ child ∈ children, child.epoch < spawning.epoch
  apart : ∀ watcher ∈ host.watchers, watcher.1 ≠ spawning.session
  starting : spawning.stage = .starting → spawning.epoch = host.registry.highWater + 1 ∧
    isSessionId spawning.session = true ∧ ∀ key ∈ host.registry.keys, key.1 ≠ spawning.session
  listed : spawning.stage ≠ .starting → (spawning.session, spawning.epoch) ∈ host.registry.keys
  durable : spawning.stage = .recorded ∨ spawning.stage = .released →
    (spawning.session, spawning.epoch) ∈ stored.keys

structure Serving.Sound (host : Serving) (stored : Registry) (children : List Child) : Prop where
  watched : ∀ watcher ∈ host.watchers, watcher ∈ host.registry.keys
  spawning : ∀ spawning, host.spawning = some spawning → spawning.Sound host stored children

/-- `stored` is what the file holds. -/
structure Durable (calm : Prop) (file : Option serde.Text) (children : List Child) (stored : Registry) : Prop where
  stores : Stores file stored
  sound : stored.Sound calm children
  epochs : ∀ child ∈ children, child.epoch ≤ stored.highWater
  unique : UniqueEpochs children

structure World.Sound (calm : Prop) (world : World serde) (stored : Registry) : Prop where
  durable : Durable calm world.file world.children stored
  held : ∀ registry, world.process.registry? = some registry →
    registry.Sound calm world.children ∧ stored.highWater ≤ registry.highWater
  serving : ∀ host, world.process = .serving host → host.Sound stored world.children

theorem Durable.marked {file : Option serde.Text}
    (durable : Durable calm file children stored) (marked : Marked children after) : Durable calm file after stored := by
  refine ⟨durable.stores, durable.sound.marked marked, marked.bounded durable.epochs, ?_⟩
  rw [UniqueEpochs, marked.epochs]
  exact durable.unique

variable {spawning : Spawning}

theorem Spawning.Sound.marked {host : Serving}
    (sound : spawning.Sound host stored children) (marked : Marked children after) :
    spawning.Sound host stored after := by
  refine ⟨?_, sound.apart, sound.starting, sound.listed, sound.durable⟩
  intro gated child member
  have listed : child.epoch ∈ children.map Child.epoch := marked.epochs ▸ mem_map_of_mem member
  obtain ⟨old, there, same⟩ := mem_map.mp listed
  rw [← same]
  exact sound.fresh gated old there

variable {next : Serving}

/-- The host goes on with a registry of the same epochs, and the file holds what it held or that registry. -/
theorem Spawning.Sound.host {host : Serving} {after : Registry}
    (sound : spawning.Sound host stored children) (watchers : ∀ watcher ∈ next.watchers, watcher ∈ host.watchers)
    (highWater : next.registry.highWater = host.registry.highWater)
    (fewer : ∀ key ∈ next.registry.keys, key ∈ host.registry.keys)
    (kept : (spawning.session, spawning.epoch) ∈ host.registry.keys →
      (spawning.session, spawning.epoch) ∈ next.registry.keys)
    (file : after = stored ∨ after = next.registry) : spawning.Sound next after children := by
  refine ⟨sound.fresh, fun watcher member => sound.apart watcher (watchers watcher member), ?_,
    fun begun => kept (sound.listed begun), ?_⟩
  · intro begins
    obtain ⟨number, valid, fresh⟩ := sound.starting begins
    exact ⟨highWater ▸ number, valid, fun key member => fresh key (fewer key member)⟩
  · intro begun
    rcases file with rfl | rfl
    · exact sound.durable begun
    · exact kept (sound.listed (by rcases begun with h | h <;> simp [h]))

theorem Marked.refl (children : List Child) : Marked children children := ⟨rfl, fun _ member _ => member⟩

theorem cleanedAs_marked (session : String) (epoch : Nat) (children : List Child) :
    Marked children (cleanedAs session epoch children) := by
  refine ⟨?_, ?_⟩
  · rw [cleanedAs, map_map]
    refine map_congr_left fun child _ => ?_
    simp only [Function.comp_apply]
    split <;> rfl
  · intro child member dirty
    obtain ⟨old, there, rfl⟩ := mem_map.mp member
    split at dirty
    · cases dirty
    · rename_i other
      rw [if_neg other]
      exact there

/-- Who is still to be cleaned up is not of that session and epoch. -/
theorem cleanedAs_apart {children : List Child} {child : Child}
    (member : child ∈ cleanedAs session epoch children) (dirty : child.cleaned = false) :
    (child.session, child.epoch) ≠ (session, epoch) := by
  obtain ⟨old, _, rfl⟩ := mem_map.mp member
  split at dirty
  · cases dirty
  rename_i other
  rw [if_neg other]
  intro same
  exact other ⟨congrArg Prod.fst same, congrArg Prod.snd same⟩

theorem ofPublish_ne_starting (result : Except HostError Unit) : Stage.ofPublish result ≠ .starting := by
  cases result <;> exact fun same => nomatch same

theorem ofPublish_isOk {result : Except HostError Unit}
    (written : Stage.ofPublish result = .recorded ∨ Stage.ofPublish result = .released) : result.isOk = true := by
  cases result with
  | ok done => rfl
  | error err => rcases written with h | h <;> cases h

/-- After a publish the file holds what it held or what was published. -/
theorem World.Sound.published {registry : Registry} {process : Process}
    (durable : Durable calm file children stored) (held : registry.Sound calm children)
    (high : stored.highWater ≤ registry.highWater)
    (same : ∀ other, process.registry? = some other → other = registry)
    (serving : ∀ after, after = stored ∨ after = registry →
      ((publish serde file registry ends).2.isOk = true → after = registry) →
      ∀ host, process = .serving host → host.Sound after children) :
    ∃ after, World.Sound calm (World.mk (publish serde file registry ends).1 process children) after := by
  obtain ⟨after, holds, which, ok⟩ := publish_stores durable.stores registry ends
  have current : after.Sound calm children ∧ stored.highWater ≤ after.highWater ∧ after.highWater ≤ registry.highWater := by
    rcases which with rfl | rfl
    · exact ⟨durable.sound, Nat.le_refl _, high⟩
    · exact ⟨held, high, Nat.le_refl _⟩
  refine ⟨after, ⟨holds, current.1, ?_, durable.unique⟩, ?_, serving after which ok⟩
  · intro child member
    exact Nat.le_trans (durable.epochs child member) current.2.1
  · intro other named
    rw [same other named]
    exact ⟨held, current.2.2⟩

variable {world : World serde} {stored : Registry}

section

variable (sound : world.Sound calm stored)

include sound

theorem World.Sound.crashed :
    Sound calm { world with process := .down } stored :=
  ⟨sound.durable, fun _ none => (nomatch none), fun _ none => (nomatch none)⟩

theorem World.Sound.opened :
    Sound calm { world with process := .recovering stored stored.sessions [] false } stored := by
  refine ⟨sound.durable, ?_, fun _ none => nomatch none⟩
  intro registry same
  cases same
  exact ⟨sound.durable.sound, Nat.le_refl _⟩

variable {session : SurvivorRecord} {todo : List SurvivorRecord}

theorem World.Sound.cleanedOne {registry : Registry}
    (here : world.process = .recovering registry (session :: todo) kept failed) :
    Sound calm { world with
      process := .recovering registry todo kept failed
      children := cleanedAs session.session session.epoch world.children } stored := by
  have marked := cleanedAs_marked session.session session.epoch world.children
  obtain ⟨held, high⟩ := sound.held _ (by rw [here]; rfl)
  have keys : ∀ key, key ∈ ({ registry with sessions := kept ++ session :: todo } : Registry).keys ↔
      key = (session.session, session.epoch) ∨ key ∈ ({ registry with sessions := kept ++ todo } : Registry).keys := by
    intro key
    simp only [Registry.keys, map_append, map_cons, mem_append, mem_cons]
    exact or_left_comm
  refine ⟨sound.durable.marked marked, ?_, fun _ none => nomatch none⟩
  rintro other ⟨⟩
  refine ⟨⟨?_, ?_, ?_, held.alerts⟩, high⟩
  · intro key member
    exact held.records key ((keys key).mpr (.inr member))
  · refine held.names.sublist (List.Sublist.map _ (List.Sublist.map _ ?_))
    exact (List.Sublist.refl kept).append (sublist_cons_self _ _)
  · intro child member dirty
    rcases (keys _).mp ((held.marked marked).covers child member dirty) with same | kept
    · exact absurd same (cleanedAs_apart member dirty)
    · exact kept

theorem World.Sound.refusedOne {registry : Registry}
    {text : String} (here : world.process = .recovering registry (session :: todo) kept failed)
    (room : calm → registry.alerts.length < maxAlerts) :
    Sound calm { world with process := .recovering (registry.alert text) todo (kept ++ [session]) true } stored := by
  obtain ⟨held, high⟩ := sound.held _ (by rw [here]; rfl)
  refine ⟨sound.durable, ?_, fun _ none => nomatch none⟩
  intro other same
  cases same
  rw [append_assoc]
  exact ⟨held.alert room, high⟩

theorem World.Sound.recovered {registry : Registry}
    (here : world.process = .recovering registry [] kept failed) (process : Process)
    (goes : process = .serving ⟨{ registry with sessions := kept }, [], none⟩ ∨
      process = .closing { registry with sessions := kept }) :
    ∃ after, Sound calm
      (World.mk (publish serde world.file { registry with sessions := kept } ends).1 process world.children) after := by
  obtain ⟨held, high⟩ := sound.held _ (by rw [here]; rfl)
  rw [append_nil] at held high
  refine Sound.published sound.durable held high ?_ ?_
  · intro other same
    rcases goes with rfl | rfl <;> exact (Option.some.inj same).symm
  intro after _ _ host same
  rcases goes with rfl | rfl
  · cases same
    exact ⟨fun _ none => (nomatch none), fun _ none => (nomatch none)⟩
  · cases same

theorem World.Sound.closed {registry : Registry} (here : world.process = .closing registry) :
    ∃ after, Sound calm
      (World.mk (publish serde world.file registry ends).1 .down world.children) after := by
  obtain ⟨held, high⟩ := sound.held _ (by rw [here]; rfl)
  exact Sound.published sound.durable held high
    (fun _ none => nomatch none) fun _ _ _ _ none => nomatch none

end

section Serve

variable {host : Serving} (sound : world.Sound calm stored) (here : world.process = .serving host)

include sound here

theorem World.Sound.idle (spawning : Option Spawning)
    (begun : ∀ one, spawning = some one → one.Sound { host with spawning } stored world.children) :
    Sound calm { world with process := .serving { host with spawning } } stored := by
  obtain ⟨held, high⟩ := sound.held _ (by rw [here]; rfl)
  refine ⟨sound.durable, ?_, ?_⟩
  · intro other same
    cases same
    exact ⟨held, high⟩
  · intro next same
    cases same
    exact ⟨(sound.serving host here).watched, begun⟩

variable {ends : Replace}

/-- A report publishes a registry of the same epochs that has a record less at most. -/
theorem World.Sound.reported (marked : Marked world.children after)
    (held : next.registry.Sound calm after) (highWater : next.registry.highWater = host.registry.highWater)
    (fewer : ∀ key ∈ next.registry.keys, key ∈ host.registry.keys)
    (watchers : ∀ watcher ∈ next.watchers, watcher ∈ host.watchers ∧ watcher ∈ next.registry.keys)
    (spawning : next.spawning = host.spawning)
    (kept : ∀ one, host.spawning = some one → (one.session, one.epoch) ∈ host.registry.keys →
      (one.session, one.epoch) ∈ next.registry.keys) :
    ∃ now, World.Sound calm (World.mk (publish serde world.file next.registry ends).1 (.serving next) after) now := by
  obtain ⟨_, high⟩ := sound.held _ (by rw [here]; rfl)
  refine Sound.published (sound.durable.marked marked) held (by rw [highWater]; exact high)
    (fun other same => (Option.some.inj same).symm) ?_
  intro now which _ served same
  cases same
  refine ⟨fun watcher member => (watchers watcher member).2, ?_⟩
  intro one begun
  rw [spawning] at begun
  exact (((sound.serving host here).spawning one begun).marked marked).host
    (fun watcher member => (watchers watcher member).1) highWater fewer (kept one begun) which

variable {session : String}

theorem World.Sound.serve_leader {code signal : Option Int} :
    ∃ now, Sound calm
      (world.reports { host with registry := host.registry.markLeader session code signal } ends) now := by
  obtain ⟨held, _⟩ := sound.held _ (by rw [here]; rfl)
  have keys := markLeader_keys host.registry session code signal
  exact sound.reported here (Marked.refl _) (held.of_keys keys rfl held.alerts) rfl (fun key member => keys ▸ member)
    (fun watcher member => ⟨member, keys ▸ (sound.serving host here).watched watcher member⟩) rfl
    fun one _ member => keys ▸ member

theorem World.Sound.serve_unresolved {watchers : List (String × Nat)} {text : String}
    (fewer : ∀ watcher ∈ watchers, watcher ∈ host.watchers) (room : calm → host.registry.alerts.length < maxAlerts) :
    ∃ now, Sound calm
      (world.reports { host with registry := host.registry.alert text, watchers } ends) now := by
  obtain ⟨held, _⟩ := sound.held _ (by rw [here]; rfl)
  exact sound.reported here (Marked.refl _) (held.alert room) rfl (fun _ member => member)
    (fun watcher member => ⟨fewer watcher member, (sound.serving host here).watched watcher (fewer watcher member)⟩) rfl
    fun _ _ member => member

theorem World.Sound.serve_retired
    (watched : (session, epoch) ∈ host.watchers) :
    ∃ now, Sound calm
      ({ world with children := cleanedAs session epoch world.children }.reports
        { host with
          registry := host.registry.retire session
          watchers := host.watchers.filter fun watcher => watcher ≠ (session, epoch) } ends) now := by
  obtain ⟨held, _⟩ := sound.held _ (by rw [here]; rfl)
  have marked := cleanedAs_marked session epoch world.children
  have own := (sound.serving host here).watched _ watched
  refine sound.reported here marked (held.retire marked ?_) rfl (fun key member => (mem_retire_keys.mp member).1) ?_ rfl ?_
  · intro child member dirty same
    subst same
    have key := (held.marked marked).covers child member dirty
    exact cleanedAs_apart member dirty (Prod.ext rfl (held.unique key own))
  · intro watcher member
    obtain ⟨old, other⟩ := mem_filter.mp member
    have key := (sound.serving host here).watched watcher old
    refine ⟨old, mem_retire_keys.mpr ⟨key, ?_⟩⟩
    rintro rfl
    exact of_decide_eq_true other (Prod.ext rfl (held.unique key own))
  · intro one begun member
    refine mem_retire_keys.mpr ⟨member, ?_⟩
    intro same
    exact ((sound.serving host here).spawning one begun).apart _ watched same.symm

theorem World.Sound.serve_spawn (session : String) : Sound calm (world.spawn host session) stored := by
  unfold spawn
  split
  · exact sound
  rename_i free
  simp only [not_or, any_eq_true, decide_eq_true_eq, not_exists, not_and, Bool.not_eq_false] at free
  obtain ⟨_, valid, absent⟩ := free
  obtain ⟨_, high⟩ := sound.held _ (by rw [here]; rfl)
  have unnamed : ∀ key ∈ host.registry.keys, key.1 ≠ session := by
    intro key member same
    obtain ⟨record, listed, rfl⟩ := mem_map.mp member
    exact absent record listed same
  unfold Registry.allocEpoch
  split
  · exact sound
  rename_i epoch allocated
  split at allocated
  · cases allocated
    refine sound.idle here _ ?_
    rintro one ⟨⟩
    refine ⟨?_, ?_, fun _ => ⟨rfl, valid, unnamed⟩, fun begun => absurd rfl begun, ?_⟩
    · intro _ child member
      exact Nat.lt_succ_of_le (Nat.le_trans (sound.durable.epochs child member) high)
    · intro watcher member
      exact unnamed watcher ((sound.serving host here).watched watcher member)
    · rintro (begun | begun) <;> cases begun
  · cases allocated

variable {spawning : Spawning} (begun : host.spawning = some spawning)

include begun

theorem World.Sound.serve_identified (stage : spawning.stage = .starting) (processes : Processes) (ends : Replace) :
    ∃ now, Sound calm (world.identified host spawning processes ends) now := by
  obtain ⟨held, high⟩ := sound.held _ (by rw [here]; rfl)
  have started := (sound.serving host here).spawning spawning begun
  obtain ⟨number, valid, fresh⟩ := started.starting stage
  have keys : (host.registry.record spawning.session spawning.epoch processes).keys =
      host.registry.keys ++ [(spawning.session, spawning.epoch)] := map_append
  refine World.Sound.published sound.durable ?_ (by simp only [Registry.record]; omega)
    (fun other same => (Option.some.inj same).symm) ?_
  · refine ⟨?_, ?_, ?_, held.alerts⟩
    · rw [keys]
      intro key member
      rcases mem_append.mp member with old | new
      · obtain ⟨positive, bounded, named⟩ := held.records key old
        exact ⟨positive, by simp only [Registry.record]; omega, named⟩
      · cases mem_singleton.mp new
        exact ⟨by simp only; omega, Nat.le_refl _, valid⟩
    · rw [keys, map_append, nodup_append]
      refine ⟨held.names, nodup_singleton _, ?_⟩
      intro name member other new same
      obtain ⟨key, listed, rfl⟩ := mem_map.mp member
      exact fresh key listed (same.trans (mem_singleton.mp new))
    · intro child member dirty
      rw [keys]
      exact mem_append_left _ (held.covers child member dirty)
  · intro now which ok next same
    cases same
    refine ⟨?_, ?_⟩
    · intro watcher member
      rw [keys]
      exact mem_append_left _ ((sound.serving host here).watched watcher member)
    rintro one ⟨⟩
    have listed : (spawning.session, spawning.epoch) ∈
        (host.registry.record spawning.session spawning.epoch processes).keys := by
      rw [keys]
      exact mem_append_right _ mem_cons_self
    refine ⟨fun _ => started.fresh (by rw [stage]; decide), started.apart,
      fun begins => absurd begins (ofPublish_ne_starting _), fun _ => listed, ?_⟩
    intro written
    rw [ok (ofPublish_isOk written)]
    exact listed

/-- The child is let run: its record is in the file by now. -/
theorem World.Sound.serve_go (stage : spawning.stage = .recorded) :
    Sound calm { world with
      process := .serving { host with spawning := some { spawning with stage := .released } }
      children := world.children ++ [⟨spawning.session, spawning.epoch, false⟩] } stored := by
  obtain ⟨held, high⟩ := sound.held _ (by rw [here]; rfl)
  have started := (sound.serving host here).spawning spawning begun
  have listed := started.listed (by rw [stage]; decide)
  have durable := started.durable (.inl stage)
  have fresh := started.fresh (by rw [stage]; decide)
  have covered : ∀ registry : Registry, registry.Sound calm world.children →
      (spawning.session, spawning.epoch) ∈ registry.keys →
      registry.Sound calm (world.children ++ [⟨spawning.session, spawning.epoch, false⟩]) := by
    intro registry kept own
    refine ⟨kept.records, kept.names, ?_, kept.alerts⟩
    intro child member dirty
    rcases mem_append.mp member with old | new
    · exact kept.covers child old dirty
    · rw [mem_singleton.mp new]
      exact own
  refine ⟨⟨sound.durable.stores, covered stored sound.durable.sound durable, ?_, ?_⟩, ?_, ?_⟩
  · intro child member
    rcases mem_append.mp member with old | new
    · exact sound.durable.epochs child old
    · rw [mem_singleton.mp new]
      exact (sound.durable.sound.records _ durable).2.1
  · rw [UniqueEpochs, map_append, nodup_append]
    refine ⟨sound.durable.unique, nodup_singleton _, ?_⟩
    intro epoch member other new same
    obtain ⟨child, old, rfl⟩ := mem_map.mp member
    have less := fresh child old
    rw [same, mem_singleton.mp new] at less
    exact Nat.lt_irrefl _ less
  · intro other same
    cases same
    exact ⟨covered host.registry held listed, high⟩
  · intro next same
    cases same
    refine ⟨(sound.serving host here).watched, ?_⟩
    rintro one ⟨⟩
    exact ⟨fun gated => absurd rfl gated, started.apart, fun begins => (nomatch begins), fun _ => listed, fun _ => durable⟩

theorem World.Sound.serve_execOk (stage : spawning.stage = .released) :
    Sound calm { world with
      process := .serving { host with
        watchers := host.watchers ++ [(spawning.session, spawning.epoch)]
        spawning := none } } stored := by
  have listed := ((sound.serving host here).spawning spawning begun).listed (by rw [stage]; decide)
  refine ⟨sound.durable, ?_, ?_⟩
  · rintro other ⟨⟩
    exact sound.held _ (by rw [here]; rfl)
  rintro next ⟨⟩
  refine ⟨?_, fun _ none => nomatch none⟩
  intro watcher member
  rcases mem_append.mp member with old | new
  · exact (sound.serving host here).watched watcher old
  · rw [mem_singleton.mp new]
    exact listed

/-- The child that was given up is the only one of its session that could need a record. -/
theorem World.Sound.serve_aborted :
    ∀ child ∈ cleanedAs spawning.session spawning.epoch world.children, child.cleaned = false →
      child.session ≠ spawning.session := by
  obtain ⟨held, _⟩ := sound.held _ (by rw [here]; rfl)
  have started := (sound.serving host here).spawning spawning begun
  have marked := cleanedAs_marked spawning.session spawning.epoch world.children
  intro child member dirty same
  have key := (held.marked marked).covers child member dirty
  rw [same] at key
  by_cases first : spawning.stage = .starting
  · exact (started.starting first).2.2 _ key rfl
  · exact cleanedAs_apart member dirty (Prod.ext same (held.unique key (started.listed first)))

theorem World.Sound.serve_fails (aborted : Bool) (ends : Replace) :
    ∃ now, Sound calm (world.spawnFails host spawning aborted ends) now := by
  unfold spawnFails
  rcases aborted with _ | _
  · exact ⟨stored, sound.idle here none fun _ none => nomatch none⟩
  obtain ⟨held, high⟩ := sound.held _ (by rw [here]; rfl)
  have started := (sound.serving host here).spawning spawning begun
  have marked := cleanedAs_marked spawning.session spawning.epoch world.children
  have retired := held.retire marked (sound.serve_aborted here begun)
  have kept : (host.registry.retireEpochKeep spawning.session spawning.epoch).1.Sound calm
      (cleanedAs spawning.session spawning.epoch world.children) := by
    refine ⟨?_, retired.names, retired.covers, retired.alerts⟩
    intro key member
    obtain ⟨positive, bounded, valid⟩ := retired.records key member
    exact ⟨positive, Nat.le_trans bounded (Nat.le_max_left _ _), valid⟩
  have higher : stored.highWater ≤ (host.registry.retireEpochKeep spawning.session spawning.epoch).1.highWater :=
    Nat.le_trans high (Nat.le_max_left _ _)
  have watched : ∀ watcher ∈ host.watchers,
      watcher ∈ (host.registry.retireEpochKeep spawning.session spawning.epoch).1.keys := by
    intro watcher member
    exact mem_retire_keys.mpr ⟨(sound.serving host here).watched watcher member, started.apart watcher member⟩
  simp only [if_true]
  split
  · refine Sound.published (sound.durable.marked marked) kept higher
      (fun other same => (Option.some.inj same).symm) ?_
    intro now _ _ next same
    cases same
    exact ⟨watched, fun _ none => nomatch none⟩
  · refine ⟨stored, sound.durable.marked marked, ?_, ?_⟩
    · intro other same
      cases same
      exact ⟨kept, higher⟩
    · intro next same
      cases same
      exact ⟨watched, fun _ none => nomatch none⟩

end Serve

theorem World.Sound.serve {host : Serving} (sound : world.Sound calm stored) (here : world.process = .serving host)
    (event : Event) (room : calm → AlertRoom world event) : ∃ now, Sound calm (world.serve host event) now := by
  have stays : ∃ now, Sound calm world now := ⟨stored, sound⟩
  unfold World.serve
  split
  · exact ⟨stored, sound.serve_spawn here _⟩
  · split
    · exact sound.serve_leader here
    · exact stays
  · rename_i session epoch complete ends
    split
    · rename_i watched
      cases complete with
      | true => exact sound.serve_retired here watched
      | false =>
        refine sound.serve_unresolved here (fun watcher member => (mem_filter.mp member).1) ?_
        intro quiet
        simpa only [AlertRoom, here] using room quiet
    · exact stays
  · split
    · exact stays
    rename_i spawning begun
    split
    · exact sound.serve_identified here begun ‹_› _ _
    · exact ⟨stored, sound.serve_go here begun ‹_›⟩
    · exact ⟨stored, sound.serve_execOk here begun ‹_›⟩
    · exact sound.serve_fails here begun _ _
    · exact stays

theorem World.Sound.step (lawful : serde.Lawful) (sound : world.Sound calm stored) (event : Event)
    (room : calm → AlertRoom world event) : ∃ now, Sound calm (world.step event).1 now := by
  have stays : ∃ now, Sound calm world now := ⟨stored, sound⟩
  unfold World.step
  dsimp only
  split
  · exact ⟨stored, sound.crashed⟩
  · split
    · exact stays
    · rename_i registry loaded
      cases sound.durable.stores.loaded lawful loaded
      exact ⟨_, sound.opened⟩
  · rename_i here
    exact ⟨stored, sound.cleanedOne here⟩
  · rename_i here
    refine ⟨stored, sound.refusedOne here ?_⟩
    intro quiet
    simpa only [AlertRoom, here] using room quiet
  · rename_i here
    refine sound.recovered here _ ?_
    split
    · exact .inl rfl
    · exact .inr rfl
  · rename_i here
    exact sound.closed here
  · rename_i here
    exact sound.serve here _ room
  · exact stays

theorem sound_start (calm : Prop) : Sound calm (start serde) .empty := by
  have none : ∀ {α : Type} {p : α → Prop}, ∀ a ∈ ([] : List α), p a := fun a member => (not_mem_nil member).elim
  exact ⟨⟨.inl ⟨rfl, rfl⟩, ⟨none, nodup_nil, none, fun _ => Nat.zero_le _⟩, none, nodup_nil⟩,
    fun _ none => (nomatch none), fun _ none => (nomatch none)⟩

theorem sound_run (lawful : serde.Lawful) {events : List Event} (sound : world.Sound calm stored)
    (room : calm → Machine.Throughout step AlertRoom world events) :
    ∃ now, Sound calm (run step world events) now := by
  induction events generalizing world stored with
  | nil => exact ⟨stored, sound⟩
  | cons event rest ih =>
    obtain ⟨now, next⟩ := sound.step lawful event fun quiet => (room quiet).1
    exact ih next fun quiet => (room quiet).2

theorem World.Sound.remembers (lawful : serde.Lawful) (sound : world.Sound calm stored) : world.Remembers := by
  intro child member dirty
  have key := sound.durable.sound.covers child member dirty
  cases held : world.file with
  | none =>
    rcases held ▸ sound.durable.stores with ⟨_, rfl⟩ | ⟨text, none, _⟩
    · exact (not_mem_nil key).elim
    · cases none
  | some text =>
    obtain ⟨_, _, _, back⟩ := Stores.read lawful (held ▸ sound.durable.stores)
    exact ⟨text, _, rfl, back, key⟩

theorem World.Sound.loads (lawful : serde.Lawful) (sound : world.Sound True stored) : world.Loads := by
  intro text held
  have stores : Stores (some text) stored := held ▸ sound.durable.stores
  obtain ⟨_, _, wrote, _⟩ := stores.read lawful
  refine ⟨stored, wrote, ?_⟩
  rw [stores.loads lawful, sound.durable.sound.validates]
  rfl

/-- In every run no epoch is given to two children that were let run, and each of them has a record until it is cleaned
up; in a run in which every alert finds room, the file also loads as what was published. -/
theorem registry_loads_and_remembers (serde : SerdeJson) (lawful : serde.Lawful) (events : List Event) :
    (Machine.Throughout step AlertRoom (start serde) events →
      (run step (start serde) events).Loads) ∧
    UniqueEpochs (run step (start serde) events).children ∧
    (run step (start serde) events).Remembers := by
  refine ⟨?_, ?_, ?_⟩
  · intro room
    obtain ⟨now, sound⟩ := sound_run lawful (sound_start True) fun _ => room
    exact sound.loads lawful
  · obtain ⟨now, sound⟩ := @sound_run serde False _ _ lawful events (sound_start False) fun none => none.elim
    exact sound.durable.unique
  · obtain ⟨now, sound⟩ := @sound_run serde False _ _ lawful events (sound_start False) fun none => none.elim
    exact sound.remembers lawful

namespace Sample

/-- The text is held as its value, with the size of the JSON in the runs here: 384 bytes for a record, 21 for an alert. -/
def asValue : SerdeJson where
  Text := Disk
  size disk := 64 + 384 * disk.registry.sessions.length + 21 * disk.registry.alerts.length
  toVec := .ok
  fromSlice := some

theorem asValue_lawful : asValue.Lawful := ⟨fun disk => ⟨disk, rfl, by simp only [asValue]; omega, rfl⟩⟩

def processes : Processes := ⟨41, 7, 42, 8, 42⟩

/-- A host opens on an empty directory, lets a child run and dies. -/
def events : List Event := [.opens, .recovered .done, .spawn "s", .identified processes .done, .go, .crash]

/-- An open that cannot prove the recorded processes gone. -/
def refusedOpen : List Event := [.opens, .recoverOne (some .identityUnproven), .recovered .done, .closed .done]

def registry (n : Nat) : Registry :=
  ⟨1, [.spawned "s" 1 processes], List.replicate n ContainmentRefusal.identityUnproven.asStr⟩

def text (n : Nat) : asValue.Text := (⟨magic, registry n⟩ : Disk)

def stuck (n : Nat) : World asValue := ⟨some (text n), .down, [⟨"s", 1, false⟩]⟩

theorem text_size (n : Nat) : asValue.size (text n) = 448 + 21 * n := by
  simp only [asValue, text, registry, length_singleton, length_replicate]

variable {n : Nat}

theorem publish_registry (few : n ≤ maxAlerts + 1) (file : Option asValue.Text) :
    publish asValue file (registry n) .done = (some (text n), .ok ()) := by
  have fits : ¬asValue.size (text n) > maxBytes := by
    rw [text_size]
    simp only [maxAlerts, maxBytes] at few ⊢
    omega
  exact if_neg fits

theorem load_text (few : n ≤ maxAlerts + 1) :
    loadPath asValue (some (text n)) = if n ≤ maxAlerts then .ok (registry n) else .error .corruptRegistry := by
  have size : ¬(asValue.size (text n) = 0 ∨ asValue.size (text n) > maxBytes) := by
    rw [text_size]
    simp only [maxAlerts, maxBytes] at few ⊢
    omega
  rw [loadPath, parseBytes, if_neg size]
  change (validateRegistry (registry n)).map (fun _ => registry n) = _
  unfold validateRegistry
  have alerts : (registry n).alerts.length = n := length_replicate
  split
  · rw [if_neg (by omega)]
    rfl
  · rw [if_pos (by omega)]
    rfl

theorem stuck_next (few : n ≤ maxAlerts) : run step (stuck n) refusedOpen = stuck (n + 1) := by
  have alerts : (registry n).alert ContainmentRefusal.identityUnproven.asStr = registry (n + 1) := by
    simp only [Registry.alert, registry, replicate_succ']
  have opened : step (stuck n) .opens =
      (⟨some (text n), .recovering (registry n) (registry n).sessions [] false, [⟨"s", 1, false⟩]⟩, ()) := by
    simp only [step, stuck, load_text (Nat.le_succ_of_le few), if_pos few]
  have refused : step (⟨some (text n), .recovering (registry n) (registry n).sessions [] false, [⟨"s", 1, false⟩]⟩ :
      World asValue) (.recoverOne (some .identityUnproven)) =
      (⟨some (text n), .recovering (registry (n + 1)) [] (registry (n + 1)).sessions true, [⟨"s", 1, false⟩]⟩, ()) := by
    rw [← alerts]
    rfl
  have published : ∀ file, publish asValue file (registry (n + 1)) .done = (some (text (n + 1)), .ok ()) :=
    fun file => publish_registry (Nat.succ_le_succ few) file
  have recovered : step (⟨some (text n), .recovering (registry (n + 1)) [] (registry (n + 1)).sessions true,
      [⟨"s", 1, false⟩]⟩ : World asValue) (.recovered .done) =
      (⟨some (text (n + 1)), .closing (registry (n + 1)), [⟨"s", 1, false⟩]⟩, ()) := by
    have again := published (some (text n))
    simp only [step]
    change ((⟨(publish asValue (some (text n)) (registry (n + 1)) .done).1, _, _⟩ : World asValue), ()) = _
    rw [again]
    rfl
  rw [refusedOpen, run_cons, opened, run_cons, refused, run_cons, recovered, run_cons,
    run_nil]
  simp only [step, published]
  rfl

theorem stuck_run (n : Nat) (few : n ≤ maxAlerts + 1) :
    run step (stuck 0) (List.replicate n refusedOpen).flatten = stuck n := by
  induction n with
  | zero => rfl
  | succ n ih =>
    rw [replicate_succ', flatten_append, run_append, ih (by omega), flatten_singleton]
    exact stuck_next (by omega)

theorem events_stuck : run step (start asValue) events = stuck 0 := by
  rfl

end Sample

/-- The next start finds the child's processes unproven and leaves one alert. -/
theorem registry_loads_and_remembers_sample :
    (run step (start Sample.asValue) (Sample.events ++ Sample.refusedOpen)).Loads :=
  (registry_loads_and_remembers Sample.asValue Sample.asValue_lawful (Sample.events ++ Sample.refusedOpen)).1
    ⟨trivial, trivial, trivial, trivial, trivial, trivial, trivial, show 0 < maxAlerts by decide, trivial, trivial, trivial⟩

/-- A child whose processes cannot be proven gone leaves one alert at every start: after 1001 starts the file that was
published does not load. -/
theorem alerts_outgrow_registry : ¬∀ events, (run step (start Sample.asValue) events).Loads := by
  intro all
  have loads := all (Sample.events ++ (List.replicate (maxAlerts + 1) Sample.refusedOpen).flatten)
  rw [run_append, Sample.events_stuck, Sample.stuck_run _ (Nat.le_refl _)] at loads
  obtain ⟨registry, _, loaded⟩ := loads _ rfl
  rw [Sample.load_text (Nat.le_refl _), if_neg (by decide)] at loaded
  cases loaded

end FerroLoop.Host
