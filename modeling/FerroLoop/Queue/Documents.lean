import FerroLoop.Store.State
import Std.Data.String.ToNat
import Std.Data.ExtTreeSet

/-!
The documents of the message queue: one per message, one high-water per topic, one per
acknowledgement, and what is read from them.
-/

namespace FerroLoop.Queue

open Store

abbrev BTreeSet (α : Type) [Ord α] := Std.ExtTreeSet α compare

structure MqRecord where
  seq : Nat
  key : String
  payload : Value

def mqMessageCollection (topic : String) : String := "mq:" ++ topic

def mqHwCollection (topic : String) : String := "mq_hw:" ++ topic

def mqAckCollection (topic group : String) : String := "mq_ack:" ++ (topic ++ ":" ++ group)

def mqHighWaterId : String := "high_water"

theorem find_canonical {fields : List (String × Tree)} (canonical : Tree.fieldsCanonical fields) {name : String}
    {field : String × Tree} (found : fields.find? (fun field => field.1 == name) = some field) : field.2.Canonical := by
  induction fields with
  | nil => cases found
  | cons first rest ih =>
    rw [List.find?_cons] at found
    split at found
    · cases found
      exact canonical.1
    · exact ih canonical.2 found

def field (doc : Value) (name : String) : Option Value :=
  match doc with
  | ⟨.object fields, canonical⟩ =>
    match found : fields.find? (fun field => field.1 == name) with
    | some field => some ⟨field.2, find_canonical canonical.2 found⟩
    | none => none
  | _ => none

def asU64 (value : Value) : Option Nat :=
  match value.tree with
  | .number (.posInt n) => some n.toNat
  | _ => none

def asStr (value : Value) : Option String :=
  match value.tree with
  | .string text => some text
  | _ => none

def isObject (value : Value) : Bool :=
  match value.tree with
  | .object _ => true
  | _ => false

/-- `{"seq": seq}`. -/
def seqDoc (seq : Nat) : Value :=
  ⟨.object [("seq", .number (.posInt (UInt64.ofNat seq)))], List.pairwise_singleton _ _, trivial, trivial⟩

theorem messageFields_ordered : ["key", "payload", "seq"].Pairwise (· < ·) := by decide

/-- `{"seq": seq, "key": key, "payload": payload}`, its fields in key order. -/
def messageDoc (record : MqRecord) : Value :=
  ⟨.object [("key", .string record.key), ("payload", record.payload.tree),
      ("seq", .number (.posInt (UInt64.ofNat record.seq)))],
    messageFields_ordered, trivial, record.payload.canonical, trivial, trivial⟩

def unsigned : List Char → List Char
  | '+' :: rest => rest
  | chars => chars

/-- `str::parse::<u64>`: digits after an optional plus sign. -/
def parseU64 (text : String) : Option Nat :=
  let chars := unsigned text.toList
  if chars.isEmpty ∨ ¬ chars.all Char.isDigit then none
  else
    let n := Nat.ofDigitChars 10 chars 0
    if n < u64Max then some n else none

section

variable (docs : Docs) (topic : String)

def mqHighWater : Except StoreError (Option Nat) :=
  match docs.get (mqHwCollection topic) mqHighWaterId with
  | none => .ok none
  | some doc =>
    match (field doc "seq").bind asU64 with
    | some seq => .ok (some seq)
    | none => .error (corrupt ("mq high-water for " ++ topic ++ " has no seq"))

def storedSeq (entry : String × Value) : Option Nat :=
  ((field entry.2 "seq").bind asU64).or (parseU64 entry.1)

def maxStoredMqSeq : Nat :=
  (docs.inCollection (mqMessageCollection topic)).foldl (fun most entry => most.max ((storedSeq entry).getD 0)) 0

def nextAfter (floor : Nat) : Except StoreError Nat :=
  match checkedAdd floor 1 with
  | some next => .ok next
  | none => .error (backend "mq sequence overflow")

def nextMqSeq : Except StoreError Nat := do
  let held ← mqHighWater docs topic
  nextAfter (held.getD (maxStoredMqSeq docs topic))

def nextMqSeqForMemory : Except StoreError Nat := do
  let held ← mqHighWater docs topic
  nextAfter ((held.getD 0).max (maxStoredMqSeq docs topic))

def loadRecord (entry : String × Value) : Except StoreError MqRecord :=
  if ¬ isObject entry.2 then .error (corrupt ("mq document " ++ entry.1 ++ " is not an object"))
  else
    match (field entry.2 "seq").bind asU64 with
    | none => .error (corrupt ("mq document " ++ entry.1 ++ " has no seq"))
    | some seq =>
      .ok ⟨seq, ((field entry.2 "key").bind asStr).getD "", (field entry.2 "payload").getD Value.null⟩

def loadRecords : List (String × Value) → Except StoreError (List MqRecord)
  | [] => .ok []
  | entry :: rest => do
    let record ← loadRecord entry
    let records ← loadRecords rest
    .ok (record :: records)

def notAfter (a b : MqRecord) : Bool := a.seq < b.seq || (a.seq == b.seq && decide (a.key ≤ b.key))

def loadMq : Except StoreError (List MqRecord) := do
  let records ← loadRecords (docs.inCollection (mqMessageCollection topic))
  .ok (records.mergeSort notAfter)

end

def ackedSeqs (docs : Docs) (topic group : String) : List Nat :=
  (docs.inCollection (mqAckCollection topic group)).filterMap storedSeq

def unreadMq (docs : Docs) (topic group : String) (limit : Nat) : Except StoreError (List MqRecord) :=
  if limit = 0 then .ok []
  else do
    let records ← loadMq docs topic
    .ok ((records.filter fun record => !(ackedSeqs docs topic group).contains record.seq).take limit)

theorem field_seqDoc {seq : Nat} (small : seq < u64Max) : (field (seqDoc seq) "seq").bind asU64 = some seq := by
  show some (UInt64.ofNat seq).toNat = some seq
  exact congrArg some (Nat.mod_eq_of_lt small)

variable (topic other : String) {record : MqRecord}

theorem field_messageDoc (small : record.seq < u64Max) :
    (field (messageDoc record) "seq").bind asU64 = some record.seq := by
  show some (UInt64.ofNat record.seq).toNat = some record.seq
  exact congrArg some (Nat.mod_eq_of_lt small)

theorem loadRecord_messageDoc (small : record.seq < u64Max) (id : String) :
    loadRecord (id, messageDoc record) = .ok record := by
  have seq := field_messageDoc small
  have key : (field (messageDoc record) "key").bind asStr = some record.key := rfl
  have payload : field (messageDoc record) "payload" = some record.payload := rfl
  have object : isObject (messageDoc record) = true := rfl
  simp only [loadRecord, object, seq, key, payload]
  rfl

theorem storedSeq_seqDoc {seq : Nat} (small : seq < u64Max) (id : String) : storedSeq (id, seqDoc seq) = some seq := by
  unfold storedSeq
  rw [field_seqDoc small]
  rfl

theorem storedSeq_messageDoc (small : record.seq < u64Max) (id : String) :
    storedSeq (id, messageDoc record) = some record.seq := by
  unfold storedSeq
  rw [field_messageDoc small]
  rfl

theorem toString_injective {m n : Nat} (same : toString m = toString n) : m = n := Nat.repr_injective same

theorem append_left_cancel {front first second : String} (same : front ++ first = front ++ second) : first = second := by
  have chars := congrArg String.toList same
  simp only [String.toList_append, List.append_cancel_left_eq] at chars
  exact String.toList_injective chars

theorem mqMessageCollection_injective {topic other : String}
    (same : mqMessageCollection topic = mqMessageCollection other) : topic = other := append_left_cancel same

theorem mqHwCollection_injective {topic other : String} (same : mqHwCollection topic = mqHwCollection other) :
    topic = other := append_left_cancel same

theorem ne_of_char {first second : String} (place : Nat) (differ : first.toList[place]? ≠ second.toList[place]?) :
    first ≠ second := by
  intro same
  exact differ (by rw [same])

theorem message_ne_hw : mqMessageCollection topic ≠ mqHwCollection other := by
  apply ne_of_char 2
  simp only [mqMessageCollection, mqHwCollection, String.toList_append]
  exact (by decide : (some ':' : Option Char) ≠ some '_')

theorem message_ne_ack (group : String) : mqMessageCollection topic ≠ mqAckCollection other group := by
  apply ne_of_char 2
  simp only [mqMessageCollection, mqAckCollection, String.toList_append]
  exact (by decide : (some ':' : Option Char) ≠ some '_')

theorem hw_ne_ack (group : String) : mqHwCollection topic ≠ mqAckCollection other group := by
  apply ne_of_char 3
  simp only [mqHwCollection, mqAckCollection, String.toList_append]
  exact (by decide : (some 'h' : Option Char) ≠ some 'a')

end FerroLoop.Queue
