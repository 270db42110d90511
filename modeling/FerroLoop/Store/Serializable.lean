import FerroLoop.Store.RemoteTxn

namespace FerroLoop.Store

open Checked Machine List RemoteBase

/-- What the two sides run with: `sent` is the operations of a commit as the server reads them. -/
structure Remote (Digest : Type) where
  engine : Engine
  serde : SerdeJson
  reading : Reading Digest
  parseGet : ParseGet
  transport : Transport
  sent : List Op → Except StoreError (List Op)

section Alone

variable {Digest : Type} (remote : Remote Digest)

def RemoteTxn.ask {β : Type} (read : β → ReadKey → Option Tree × β) (txn : RemoteTxn) (method : Method) (base : β) :
    Option Tree × β :=
  match txn.asks method with
  | none => (none, base)
  | some key => read base key

/-- One method, over a base that is read with `read` and failed with `fail`. -/
def Remote.callMethod {β : Type} (read : β → ReadKey → Option Tree × β) (fail : β → StoreError → β) (txn : RemoteTxn)
    (method : Method) (base : β) : method.Result × RemoteTxn × β :=
  let asked := txn.ask read method base
  let done := txn.perform remote.engine remote.reading remote.parseGet asked.1 method
  (done.1, done.2.1, match done.2.2 with
    | none => asked.2
    | some err => fail asked.2 err)

def Remote.readAt (state : DocState) (failed : Option StoreError) (key : ReadKey) : Option Tree × Option StoreError :=
  if failed.isSome then (none, failed)
  else
    match fetched remote.reading remote.transport state key with
    | .error err => (none, some err)
    | .ok (tree, _) => (some tree, none)

def failAt (failed : Option StoreError) (err : StoreError) : Option StoreError := some (failed.getD err)

def Remote.runOver (state : DocState) :
    Program → RemoteTxn → Option StoreError → Except StoreError Unit × RemoteTxn × Option StoreError
  | .done result, txn, failed => (result, txn, failed)
  | .call method next, txn, failed =>
    let done := remote.callMethod (remote.readAt state) failAt txn method failed
    Remote.runOver state (next done.1) done.2.1 done.2.2

def toSend (result : Except StoreError Unit) (txn : RemoteTxn) (failed : Option StoreError) : Except StoreError (List Op) :=
  match failed with
  | some err => .error err
  | none => do
    result
    if txn.failed then .error (backend "a transaction whose staged op failed cannot commit") else .ok txn.ops

def Remote.alone (state : DocState) (body : Program) : Except StoreError (List Op) := do
  let ended := remote.runOver state body RemoteTxn.start none
  let ops ← toSend ended.1 ended.2.1 ended.2.2
  remote.sent ops

inductive Txn where
  | here (body : Body)
  | remote (body : Program)

def Txn.alone (state : DocState) : Txn → Except StoreError (List Op)
  | .here body => body state
  | .remote body => remote.alone state body

def replay : DocState → List Txn → Except StoreError (DocState × List (List Op))
  | state, [] => .ok (state, [])
  | state, txn :: rest => do
    let ops ← txn.alone remote state
    let next ← commitOps remote.engine state ops
    let (last, others) ← replay next rest
    .ok (last, ops :: others)

end Alone

structure Attempt (Digest : Type) where
  body : Program
  program : Program
  txn : RemoteTxn
  base : RemoteBase Digest

/-! ### A validated snapshot stands in for the state -/

section Snapshot

variable {Digest : Type} (remote : Remote Digest)

def Agrees (state : DocState) (reads : List (ReadKey × Digest)) : Prop :=
  ∀ read ∈ reads, fingerprint remote.reading state read.1 = read.2

/-- Every cached answer was recorded, and is the answer wherever its hash is the recorded one. -/
def RemoteBase.Cached (base : RemoteBase Digest) : Prop :=
  ∀ entry ∈ base.cache, ∃ digest, (entry.1, digest) ∈ base.reads ∧
    ∀ state, fingerprint remote.reading state entry.1 = digest →
      fetched remote.reading remote.transport state entry.1 = .ok (entry.2, digest)

/-- An attempt that has not failed is where its body alone would be, over every state that agrees
with what it recorded. -/
structure Attempt.Sound (attempt : Attempt Digest) : Prop where
  cached : attempt.base.Cached remote
  follows : attempt.base.error = none → ∀ state, Agrees remote state attempt.base.reads →
    remote.runOver state attempt.body RemoteTxn.start none = remote.runOver state attempt.program attempt.txn none

structure Remote.Faithful : Prop where
  hash : Function.Injective remote.reading.sha256
  encoding : Function.Injective remote.reading.toVec

def Attempt.called (attempt : Attempt Digest) (server : DocState) (lost : Option StoreError) (method : Method)
    (next : method.Result → Program) : Attempt Digest :=
  let done := remote.callMethod (read remote.reading remote.transport server lost) fail attempt.txn
    method attempt.base
  { attempt with program := next done.1, txn := done.2.1, base := done.2.2 }

/-- An answer that an attempt got, with the base after it: what is recorded there lets the body
alone get the same answer, unless the attempt has failed. -/
structure AnswerSound (base after : RemoteBase Digest) (answer : Option Tree)
    (alone : DocState → Option Tree × Option StoreError) : Prop where
  grows : ∀ read ∈ base.reads, read ∈ after.reads
  same : after.error = none → ∀ state, Agrees remote state after.reads → alone state = (answer, none)
  cached : after.Cached remote
  failed : after.error = none → base.error = none

variable {remote}

theorem fetched_again (faithful : remote.Faithful) {pinned : DocState} {key : ReadKey} {tree : Tree} {digest : Digest}
    (answered : fetched remote.reading remote.transport pinned key = .ok (tree, digest)) :
    ∀ state, fingerprint remote.reading state key = digest →
      fetched remote.reading remote.transport state key = .ok (tree, digest) := by
  intro state same
  have digestIs : digest = fingerprint remote.reading pinned key := by
    unfold fetched at answered
    dsimp only at answered
    split at answered
    · cases answered
    obtain ⟨received, -, rest⟩ := bind_ok answered
    split at rest
    · cases rest
      rfl
    · cases rest
  have sameAnswer : eval remote.reading state key = eval remote.reading pinned key :=
    faithful.encoding (faithful.hash (same.trans digestIs))
  unfold fetched
  rw [sameAnswer]
  exact answered

variable {base : RemoteBase Digest}

theorem RemoteBase.read_sound (faithful : remote.Faithful) (cached : base.Cached remote)
    (server : DocState) (lost : Option StoreError) (key : ReadKey) :
    AnswerSound remote base (base.read remote.reading remote.transport server lost key).2
      (base.read remote.reading remote.transport server lost key).1 (fun state => remote.readAt state none key) := by
  have direct : ∀ {state : DocState} {tree : Tree} {digest : Digest},
      fetched remote.reading remote.transport state key = .ok (tree, digest) →
        remote.readAt state none key = (some tree, none) := by
    intro state tree digest answered
    rw [Remote.readAt, answered]
    rfl
  unfold read
  split
  · rename_i failed
    refine ⟨fun read member => member, ?_, cached, fun none => none⟩
    intro none
    rw [none] at failed
    cases failed
  · rename_i sane
    have fine : base.error = none := by
      cases held : base.error with
      | none => rfl
      | some err => exact absurd (by rw [held]; rfl) sane
    split
    · rename_i hit found
      have member := mem_of_find?_eq_some found
      have named : hit.1 = key := by
        have matches_ := find?_some found
        exact of_decide_eq_true matches_
      refine ⟨fun read member => member, ?_, cached, fun none => none⟩
      intro _ state agrees
      obtain ⟨digest, recorded, again⟩ := cached hit member
      have answered := again state (agrees _ recorded)
      rw [named] at answered
      exact direct answered
    · split
      · exact ⟨fun read member => member, fun none => (nomatch none), cached, fun none => (nomatch none)⟩
      dsimp only
      split
      · exact ⟨fun read member => member, fun none => (nomatch none), cached, fun none => (nomatch none)⟩
      rename_i tree digest answered
      have again := fetched_again faithful answered
      refine ⟨fun read member => mem_append_left _ member, ?_, ?_, fun _ => fine⟩
      · intro _ state agrees
        exact direct (again state (agrees (key, digest) (mem_append_right _ (mem_singleton.mpr rfl))))
      intro entry member
      rcases mem_append.mp member with old | new
      · obtain ⟨held, recorded, rest⟩ := cached entry old
        exact ⟨held, mem_append_left _ recorded, rest⟩
      · rw [mem_singleton.mp new]
        exact ⟨digest, mem_append_right _ (mem_singleton.mpr rfl), again⟩

theorem RemoteBase.fail_error (base : RemoteBase Digest) (err : StoreError) : (base.fail err).error ≠ none :=
  fun none => nomatch none

theorem RemoteTxn.ask_sound (faithful : remote.Faithful) (cached : base.Cached remote)
    (server : DocState) (lost : Option StoreError) (txn : RemoteTxn) (method : Method) :
    AnswerSound remote base (txn.ask (read remote.reading remote.transport server lost) method base).2
      (txn.ask (read remote.reading remote.transport server lost) method base).1
      (fun state => txn.ask (remote.readAt state) method none) := by
  unfold RemoteTxn.ask
  cases txn.asks method with
  | none => exact ⟨fun read member => member, fun _ _ _ => rfl, cached, fun none => none⟩
  | some key => exact read_sound faithful cached server lost key

theorem Attempt.Sound.called (faithful : remote.Faithful) {attempt : Attempt Digest} (sound : attempt.Sound remote)
    {method : Method} {next : method.Result → Program} (here : attempt.program = .call method next) (server : DocState)
    (lost : Option StoreError) : (attempt.called remote server lost method next).Sound remote := by
  have asked := RemoteTxn.ask_sound faithful sound.cached server lost attempt.txn method
  unfold Attempt.called Remote.callMethod
  dsimp only
  generalize attempt.txn.ask (read remote.reading remote.transport server lost) method attempt.base = got at asked ⊢
  cases refused : (attempt.txn.perform remote.engine remote.reading remote.parseGet got.1 method).2.2 with
  | some err => exact ⟨asked.cached, fun none => absurd none (got.2.fail_error err)⟩
  | none =>
    refine ⟨asked.cached, ?_⟩
    intro fine state agrees
    have earlier := sound.follows (asked.failed fine) state fun read member => agrees read (asked.grows read member)
    have answer : attempt.txn.ask (remote.readAt state) method none = (got.1, none) := asked.same fine state agrees
    rw [earlier, here, Remote.runOver]
    unfold Remote.callMethod
    rw [answer]
    dsimp only
    rw [refused]

end Snapshot

structure Entry where
  txn : Txn
  ops : List Op

structure Server (Digest : Type) where
  state : DocState
  clients : Nat → Option (Attempt Digest)
  history : List Entry

inductive ServerEvent where
  /-- A local write body, run and committed. -/
  | write (medium : Medium) (body : Body)
  | begins (client : Nat) (body : Program)
  /-- The next method of a client's body; `lost` is the error of its call, if it makes one and that fails. -/
  | advance (client : Nat) (lost : Option StoreError)
  /-- A body that has ended is sent to commit, with its session still open or not. -/
  | commit (client : Nat) (medium : Medium) (session : Nat) (isOpen : Bool)

section Server

variable {Digest : Type} [DecidableEq Digest] (remote : Remote Digest)

namespace Server

def setClient (server : Server Digest) (client : Nat) (attempt : Option (Attempt Digest)) : Server Digest :=
  { server with clients := fun other => if other = client then attempt else server.clients other }

def record (server : Server Digest) (after : DocState) (entry : Entry) : Server Digest :=
  if after.lastSeq = server.state.lastSeq then { server with state := after }
  else { server with state := after, history := server.history ++ [entry] }

end Server

def Attempt.commit (attempt : Attempt Digest) (session : Nat) (isOpen : Bool) (ops : List Op) : CommitTxn Digest where
  session := attempt.base.pinned.map fun state => ⟨session, if isOpen then some state.lastSeq else none⟩
  baseSeq := attempt.base.pinned.map DocState.lastSeq
  reads := attempt.base.reads
  ops := ops

def Server.commitRemote (server : Server Digest) (attempt : Attempt Digest) (result : Except StoreError Unit)
    (medium : Medium) (session : Nat) (isOpen : Bool) : Server Digest :=
  match toSend result attempt.txn attempt.base.error with
  | .error _ => server
  | .ok ops =>
    if ops.isEmpty then server
    else
      match remote.sent ops with
      | .error _ => server
      | .ok sent =>
        server.record
          (commitTxn remote.engine remote.serde remote.reading medium server.state (attempt.commit session isOpen sent)).2
          ⟨.remote attempt.body, sent⟩

def Server.step (server : Server Digest) : ServerEvent → Server Digest × Unit
  | .write medium body =>
    (server.record (writeLocal remote.engine remote.serde medium server.state body).2
      ⟨.here body, (body server.state).toOption.getD []⟩, ())
  | .begins client body => (server.setClient client (some ⟨body, body, RemoteTxn.start, start⟩), ())
  | .advance client lost =>
    match server.clients client with
    | none => (server, ())
    | some attempt =>
      match attempt.program with
      | .done _ => (server, ())
      | .call method next => (server.setClient client (some (attempt.called remote server.state lost method next)), ())
  | .commit client medium session isOpen =>
    match server.clients client with
    | none => (server, ())
    | some attempt =>
      match attempt.program with
      | .call _ _ => (server, ())
      | .done result => ((server.commitRemote remote attempt result medium session isOpen).setClient client none, ())

structure Server.Serial (start : DocState) (server : Server Digest) : Prop where
  history : replay remote start (server.history.map Entry.txn) = .ok (server.state, server.history.map Entry.ops)
  clients : ∀ client attempt, server.clients client = some attempt → attempt.Sound remote

variable {remote}

variable {start : DocState} {server : Server Digest}

omit [DecidableEq Digest] in
theorem replay_snoc {state next : DocState} {txns : List Txn} {opss : List (List Op)} {txn : Txn} {ops : List Op}
    (front : replay remote start txns = .ok (state, opss)) (alone : txn.alone remote state = .ok ops)
    (committed : commitOps remote.engine state ops = .ok next) :
    replay remote start (txns ++ [txn]) = .ok (next, opss ++ [ops]) := by
  induction txns generalizing start opss with
  | nil =>
    cases front
    rw [nil_append, replay, alone, ok_bind, committed]
    rfl
  | cons first rest ih =>
    obtain ⟨firstOps, firstOk, afterFirst⟩ := bind_ok front
    obtain ⟨mid, midOk, afterMid⟩ := bind_ok afterFirst
    obtain ⟨⟨last, others⟩, restOk, same⟩ := bind_ok afterMid
    cases same
    rw [cons_append, replay, firstOk, ok_bind, midOk, ok_bind, ih restOk]
    rfl

omit [DecidableEq Digest] in
theorem Server.Serial.record (serial : server.Serial remote start)
    {after : DocState} {entry : Entry}
    (wrote : after = server.state ∨ (entry.txn.alone remote server.state = .ok entry.ops ∧ entry.ops ≠ [] ∧
      commitOps remote.engine server.state entry.ops = .ok after)) :
    (server.record after entry).Serial remote start := by
  unfold Server.record
  rcases wrote with rfl | ⟨alone, filled, committed⟩
  · rw [if_pos rfl]
    exact serial
  have next := (commitOps_ok filled committed).1
  rw [if_neg (by omega)]
  refine ⟨?_, serial.clients⟩
  have longer := replay_snoc serial.history alone committed
  simp only [map_append, map_singleton]
  exact longer

omit [DecidableEq Digest] in
theorem Server.Serial.setClient (serial : server.Serial remote start)
    {client : Nat} {attempt : Option (Attempt Digest)} (sound : ∀ held, attempt = some held → held.Sound remote) :
    (server.setClient client attempt).Serial remote start := by
  refine ⟨serial.history, ?_⟩
  intro other held there
  unfold Server.setClient at there
  dsimp only at there
  split at there
  · exact sound held there
  · exact serial.clients other held there

theorem Server.Serial.commitRemote (serial : server.Serial remote start)
    {attempt : Attempt Digest} (sound : attempt.Sound remote) {result : Except StoreError Unit}
    (ended : attempt.program = .done result) (medium : Medium) (session : Nat) (isOpen : Bool) :
    (server.commitRemote remote attempt result medium session isOpen).Serial remote start := by
  unfold Server.commitRemote
  split
  · exact serial
  rename_i ops sends
  split
  · exact serial
  split
  · exact serial
  rename_i sent arrived
  apply serial.record
  rcases commitTxn_cases remote.engine remote.serde remote.reading medium server.state
    (attempt.commit session isOpen sent) with same | ⟨_, -, agrees, -, filled, committed⟩
  · exact .inl same
  have fine : attempt.base.error = none := by
    cases held : attempt.base.error with
    | none => rfl
    | some err =>
      rw [held] at sends
      cases sends
  have follows := sound.follows fine server.state agrees
  rw [ended, Remote.runOver] at follows
  refine .inr ⟨?_, filled, committed⟩
  show remote.alone server.state attempt.body = .ok sent
  unfold Remote.alone
  rw [follows]
  dsimp only
  rw [← fine, sends]
  exact arrived

theorem Server.Serial.step (faithful : remote.Faithful)
    (serial : server.Serial remote start) (event : ServerEvent) :
    (server.step remote event).1.Serial remote start := by
  cases event with
  | write medium body =>
    apply serial.record
    rcases writeLocal_cases remote.engine remote.serde medium server.state body with same | ⟨ops, made, filled, committed⟩
    · exact .inl same
    have staged : (body server.state).toOption.getD [] = ops := by
      rw [made]
      rfl
    rw [staged]
    exact .inr ⟨made, filled, committed⟩
  | begins client body =>
    apply serial.setClient
    intro held same
    cases same
    exact ⟨fun entry member => (nomatch member), fun _ _ _ => rfl⟩
  | advance client lost =>
    unfold Server.step
    dsimp only
    split
    · exact serial
    rename_i attempt there
    split
    · exact serial
    rename_i method next here
    apply serial.setClient
    intro held same
    cases same
    exact (serial.clients client attempt there).called faithful here server.state lost
  | commit client medium session isOpen =>
    unfold Server.step
    dsimp only
    split
    · exact serial
    rename_i attempt there
    split
    · exact serial
    rename_i result ended
    apply Server.Serial.setClient (serial.commitRemote (serial.clients client attempt there) ended medium session isOpen)
    rintro held none
    cases none

/-- Whatever the local writes, the clients' reads and their commits do in whatever order, the
transactions that committed, run alone one at a time in commit order, stage the operations that
were committed and leave the committed state. -/
theorem remote_serializable (remote : Remote Digest) (faithful : remote.Faithful) (start : DocState) (events : List ServerEvent) :
    let final := run (Server.step remote) ⟨start, fun _ => none, []⟩ events
    replay remote start (final.history.map Entry.txn) = .ok (final.state, final.history.map Entry.ops) := by
  have initial : Server.Serial remote start ⟨start, fun _ => none, []⟩ :=
    ⟨rfl, fun _ _ none => nomatch none⟩
  exact (run_invariant (fun _ event serial => serial.step faithful event) initial events).history

end Server

namespace Sample

noncomputable def remote : Remote (List UInt8) := ⟨engine, serde, reading, fun _ => .ok none, fun tree => .ok tree, fun ops => .ok ops⟩

theorem remote_faithful : remote.Faithful where
  hash := fun _ _ same => same
  encoding := by
    intro first second same
    have whole : code first ++ [] = code second ++ [] := congrArg (· ++ []) same
    exact (code_cancel first second whole).1

/-- Copies the note `a` to `id`, or puts an empty one there. -/
def copyNote (id : String) : Program :=
  .call (.get "notes" "a") fun found =>
    .call (.put "notes" id (if found.isSome then nested 1 else Value.null)) fun _ => .done (.ok ())

/-- Two clients read the note before it is there. One commits, then the note is written, and the
other has to run again. -/
def race : List ServerEvent :=
  [.begins 0 (copyNote "b"), .begins 1 (copyNote "c"), .advance 0 none, .advance 1 none, .advance 0 none, .advance 1 none,
    .commit 0 inMemory 1 true, .write inMemory (fun _ => .ok [.put "notes" "a" Value.null]), .commit 1 inMemory 2 true,
    .begins 1 (copyNote "c"), .advance 1 none, .advance 1 none, .commit 1 inMemory 3 true]

end Sample

theorem remote_serializable_sample :
    let final := run (Server.step Sample.remote) ⟨DocState.atSeq 0, fun _ => none, []⟩ Sample.race
    final.history.length = 3 ∧
      replay Sample.remote (DocState.atSeq 0) (final.history.map Entry.txn) = .ok (final.state, final.history.map Entry.ops) :=
  ⟨by decide +kernel, remote_serializable Sample.remote Sample.remote_faithful (DocState.atSeq 0) Sample.race⟩

end FerroLoop.Store
