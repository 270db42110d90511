import FerroLoop.Queue.Planning

namespace FerroLoop.Queue

open Store Checked Map Option

variable {docs : Docs} {seq : Nat} {collection id : String} {doc : Value}

theorem mem_inCollection :
    (id, doc) ∈ docs.inCollection collection ↔ docs.get collection id = some doc := by
  unfold Docs.inCollection Docs.get
  cases docs.nested[collection]? with
  | none => simp
  | some held => exact Std.ExtTreeMap.mem_toList_iff_getElem?_eq_some

theorem le_foldl_max {entries : List (String × Value)} {entry : String × Value} (member : entry ∈ entries) (first : Nat) :
    (storedSeq entry).getD 0 ≤ entries.foldl (fun most entry => most.max ((storedSeq entry).getD 0)) first := by
  have grows : ∀ (entries : List (String × Value)) (first : Nat),
      first ≤ entries.foldl (fun most entry => most.max ((storedSeq entry).getD 0)) first := by
    intro entries
    induction entries with
    | nil => exact fun _ => Nat.le_refl _
    | cons entry rest ih => exact fun first => Nat.le_trans (Nat.le_max_left _ _) (ih _)
  induction entries generalizing first with
  | nil => cases member
  | cons head rest ih =>
    rcases List.mem_cons.mp member with here | later
    · subst here
      exact Nat.le_trans (Nat.le_max_right _ _) (grows rest _)
    · exact ih later _

variable {topic : String}

theorem le_maxStoredMqSeq
    (held : docs.get (mqMessageCollection topic) id = some doc) (read : storedSeq (id, doc) = some seq) :
    seq ≤ maxStoredMqSeq docs topic := by
  have most := le_foldl_max (mem_inCollection.mpr held) 0
  rwa [read] at most

theorem nextAfter_ok {floor : Nat} (ok : nextAfter floor = .ok seq) : seq = floor + 1 ∧ seq < u64Max := by
  unfold nextAfter checkedAdd at ok
  split at ok
  · rename_i next sum
    cases ok
    split at sum
    · rename_i small
      cases sum
      exact ⟨rfl, small⟩
    · cases sum
  · cases ok

theorem parseU64_toString (small : seq < u64Max) : parseU64 (toString seq) = some seq := by
  have chars : (toString seq).toList = Nat.toDigits 10 seq := Nat.toList_repr
  have digits : (Nat.toDigits 10 seq).all Char.isDigit = true := by
    rw [List.all_eq_true]
    exact fun c member => Nat.isDigit_of_mem_toDigits (by decide) (by decide) member
  have filled : (Nat.toDigits 10 seq).isEmpty = false := by
    rw [List.isEmpty_eq_false_iff]
    exact Nat.toDigits_ne_nil
  have unsigned : unsigned (Nat.toDigits 10 seq) = Nat.toDigits 10 seq := by
    unfold unsigned
    split
    · rename_i rest sign
      have plus : '+' ∈ Nat.toDigits 10 seq := by rw [sign]; exact List.mem_cons_self
      exact absurd (Nat.isDigit_of_mem_toDigits (by decide) (by decide) plus) (by decide)
    · rfl
  unfold parseU64
  rw [chars, unsigned]
  rw [if_neg (by simp [digits, filled]), Nat.ofDigitChars_ten_toDigits, if_pos small]

def ceiling (docs : Docs) (topics : BTreeMap String Topic) (topic : String) : Option Nat :=
  match topics[topic]? with
  | some state => some state.highWater
  | none =>
    match mqHighWater docs topic with
    | .ok held => held
    | .error _ => none

def Plain (id : String) (doc : Value) : Prop := ∀ m, parseU64 id = some m → ∃ n, storedSeq (id, doc) = some n ∧ m ≤ n

structure Floors (past : String → Nat → Prop) (docs : Docs) (topics : BTreeMap String Topic) : Prop where
  plain : ∀ topic id doc, docs.get (mqMessageCollection topic) id = some doc → Plain id doc
  stored : ∀ topic id doc n c, docs.get (mqMessageCollection topic) id = some doc → storedSeq (id, doc) = some n →
    ceiling docs topics topic = some c → n ≤ c
  sane : ∀ (topic : String) (state : Topic), topics[topic]? = some state → state.Sane
  water : ∀ (topic : String) (state : Topic), topics[topic]? = some state →
    mqHighWater docs topic = .ok none ∨ mqHighWater docs topic = .ok (some state.persistedHighWater)
  /-- A published sequence is below the document's high-water, or still to be persisted. -/
  published : ∀ topic seq, past topic seq → (∃ high, mqHighWater docs topic = .ok (some high) ∧ seq ≤ high) ∨
    ∃ state, topics[topic]? = some state ∧ state.persistedHighWater < seq ∧ seq ≤ state.highWater

structure Fresh (past : String → Nat → Prop) (docs : Docs) (topics : BTreeMap String Topic) (topic : String) (seq : Nat) :
    Prop where
  published : ∀ other, past topic other → other < seq
  stored : ∀ id doc n, docs.get (mqMessageCollection topic) id = some doc → storedSeq (id, doc) = some n → n < seq
  buffered : ∀ (state : Topic) (key : Nat) (entry : Buffered), topics[topic]? = some state →
    state.messages[key]? = some entry → entry.record.seq < seq
  /-- The message overwrites no document. -/
  vacant : docs.get (mqMessageCollection topic) (toString seq) = none

variable {seq : Nat}

namespace Floors

variable {past : String → Nat → Prop} {docs : Docs} {topics : BTreeMap String Topic}

variable {topic : String} {state : Topic}

section

variable (floors : Floors past docs topics)

include floors

theorem published_le (was : past topic seq) :
    ∃ c, ceiling docs topics topic = some c ∧ seq ≤ c := by
  unfold ceiling
  rcases floors.published topic seq was with ⟨high, read, below⟩ | ⟨state, held, _, below⟩
  · rcases held : topics[topic]? with _ | state
    · rw [read]
      exact ⟨high, rfl, below⟩
    rcases floors.water topic state held with none | some
    · rw [none] at read
      cases read
    · rw [some] at read
      cases read
      exact ⟨state.highWater, rfl, Nat.le_trans below (floors.sane topic state held).persisted⟩
  · rw [held]
    exact ⟨state.highWater, rfl, below⟩

theorem vacant_of_stored (small : seq < u64Max)
    (above : ∀ id doc n, docs.get (mqMessageCollection topic) id = some doc → storedSeq (id, doc) = some n → n < seq) :
    docs.get (mqMessageCollection topic) (toString seq) = none := by
  rcases found : docs.get (mqMessageCollection topic) (toString seq) with _ | doc
  · rfl
  obtain ⟨n, read, least⟩ := floors.plain topic _ doc found seq (parseU64_toString small)
  have below := above _ doc n found read
  omega

theorem fresh_buffered (held : topics[topic]? = some state) (small : state.highWater + 1 < u64Max) :
    Fresh past docs topics topic (state.highWater + 1) := by
  have top : ceiling docs topics topic = some state.highWater := by rw [ceiling, held]
  have above : ∀ id doc n, docs.get (mqMessageCollection topic) id = some doc → storedSeq (id, doc) = some n →
      n < state.highWater + 1 := by
    intro id doc n found read
    exact Nat.lt_succ_of_le (floors.stored topic id doc n _ found read top)
  refine ⟨?_, above, ?_, floors.vacant_of_stored small above⟩
  · intro other was
    obtain ⟨c, same, below⟩ := floors.published_le was
    rw [top] at same
    cases same
    exact Nat.lt_succ_of_le below
  · intro state' key entry here found
    rw [held] at here
    cases here
    obtain ⟨same, below, _⟩ := (floors.sane topic state held).keyed key entry found
    rw [same]
    exact Nat.lt_succ_of_le below

theorem fresh_direct (absent : topics[topic]? = none)
    (next : nextMqSeq docs topic = .ok seq) : Fresh past docs topics topic seq ∧ seq < u64Max := by
  obtain ⟨held, read, rest⟩ := bind_ok next
  obtain ⟨same, small⟩ := nextAfter_ok rest
  have top : ceiling docs topics topic = held := by rw [ceiling, absent, read]
  have above : ∀ id doc n, docs.get (mqMessageCollection topic) id = some doc → storedSeq (id, doc) = some n → n < seq := by
    intro id doc n found number
    cases held with
    | none =>
      have most := le_maxStoredMqSeq found number
      simp only [getD_none] at same
      omega
    | some high =>
      have most := floors.stored topic id doc n high found number top
      simp only [getD_some] at same
      omega
  refine ⟨⟨?_, above, ?_, floors.vacant_of_stored small above⟩, small⟩
  · intro other was
    obtain ⟨c, found, below⟩ := floors.published_le was
    rw [top] at found
    subst found
    simp only [getD_some] at same
    omega
  · intro state key entry here
    rw [absent] at here
    cases here

theorem put
    (notHw : ∀ topic, collection ≠ mqHwCollection topic)
    (message : ∀ topic, collection = mqMessageCollection topic → Plain id doc ∧
      ∀ n c, storedSeq (id, doc) = some n → ceiling docs topics topic = some c → n ≤ c) :
    Floors past (docs.insert collection id doc) topics := by
  have water : ∀ topic, mqHighWater (docs.insert collection id doc) topic = mqHighWater docs topic := by
    intro topic
    apply mqHighWater_congr
    rw [Docs.get_insert, if_neg]
    exact fun same => notHw topic (Prod.mk.inj same).1
  have top : ∀ topic, ceiling (docs.insert collection id doc) topics topic = ceiling docs topics topic := by
    intro topic
    simp only [ceiling, water]
  refine ⟨?_, ?_, floors.sane, ?_, ?_⟩
  · intro topic other found held
    rw [Docs.get_insert] at held
    split at held
    · rename_i same
      obtain ⟨rfl, rfl⟩ := Prod.mk.inj same
      cases held
      exact (message topic rfl).1
    · exact floors.plain topic other found held
  · intro topic other found n c held read high
    rw [top] at high
    rw [Docs.get_insert] at held
    split at held
    · rename_i same
      obtain ⟨rfl, rfl⟩ := Prod.mk.inj same
      cases held
      exact (message topic rfl).2 n c read high
    · exact floors.stored topic other found n c held read high
  · intro topic state held
    rw [water]
    exact floors.water topic state held
  · intro topic seq was
    rw [water]
    exact floors.published topic seq was

theorem remove
    (notHw : ∀ topic, collection ≠ mqHwCollection topic) : Floors past (docs.remove collection id) topics := by
  have water : ∀ topic, mqHighWater (docs.remove collection id) topic = mqHighWater docs topic := by
    intro topic
    apply mqHighWater_congr
    rw [Docs.get_remove, if_neg]
    exact fun same => notHw topic (Prod.mk.inj same).1
  have kept : ∀ {other found doc}, (docs.remove collection id).get other found = some doc →
      docs.get other found = some doc := by
    intro other found doc held
    rw [Docs.get_remove] at held
    split at held
    · cases held
    · exact held
  refine ⟨fun topic other found held => floors.plain topic other found (kept held), ?_, floors.sane, ?_, ?_⟩
  · intro topic other found n c held read high
    simp only [ceiling, water] at high
    exact floors.stored topic other found n c (kept held) read high
  · intro topic state held
    rw [water]
    exact floors.water topic state held
  · intro topic seq was
    rw [water]
    exact floors.published topic seq was

theorem forget {fewer : String → Nat → Prop}
    (known : ∀ topic seq, fewer topic seq → past topic seq) : Floors fewer docs topics :=
  { floors with published := fun topic seq was => floors.published topic seq (known topic seq was) }

theorem advance {next : Topic}
    (held : topics[topic]? = some state) (sane : next.Sane) (persisted : next.persistedHighWater = state.persistedHighWater)
    (grows : state.highWater ≤ next.highWater) : Floors past docs (topics.insert topic next) := by
  refine ⟨floors.plain, ?_, ?_, ?_, ?_⟩
  · intro other id doc n c found read high
    unfold ceiling at high
    rw [getElem?_insert] at high
    split at high
    · rename_i found' here
      split at here
      · rename_i same
        subst same
        cases here
        cases high
        exact Nat.le_trans (floors.stored topic id doc n _ found read (by rw [ceiling, held])) grows
      · cases high
        exact floors.stored other id doc n _ found read (by rw [ceiling, here])
    · rename_i here
      split at here
      · cases here
      · exact floors.stored other id doc n c found read (by rw [ceiling, here]; exact high)
  · intro other found here
    rcases insert_cases here with ⟨_, rfl⟩ | ⟨_, here⟩
    · exact sane
    · exact floors.sane other found here
  · intro other found here
    rcases insert_cases here with ⟨rfl, rfl⟩ | ⟨_, here⟩
    · rw [persisted]
      exact floors.water topic state held
    · exact floors.water other found here
  · intro other seq was
    rcases floors.published other seq was with document | ⟨found, here, above, below⟩
    · exact .inl document
    right
    rw [getElem?_insert]
    split
    · rename_i same
      subst same
      rw [held] at here
      cases here
      exact ⟨next, rfl, by rw [persisted]; exact above, Nat.le_trans below grows⟩
    · exact ⟨found, here, above, below⟩

theorem erase (held : topics[topic]? = some state)
    (settled : state.highWater = state.persistedHighWater) : Floors past docs (topics.erase topic) := by
  refine ⟨floors.plain, ?_, ?_, ?_, ?_⟩
  · intro other id doc n c found read high
    unfold ceiling at high
    rw [getElem?_erase] at high
    by_cases same : topic = other
    · subst same
      rw [if_pos rfl] at high
      rcases floors.water topic state held with none | some
      · rw [none] at high
        cases high
      rw [some] at high
      cases high
      rw [← settled]
      exact floors.stored topic id doc n _ found read (by rw [ceiling, held])
    · rw [if_neg same] at high
      exact floors.stored other id doc n c found read high
  · intro other found here
    rw [getElem?_erase] at here
    split at here
    · cases here
    · exact floors.sane other found here
  · intro other found here
    rw [getElem?_erase] at here
    split at here
    · cases here
    · exact floors.water other found here
  · intro other seq was
    rcases floors.published other seq was with document | ⟨found, here, above, below⟩
    · exact .inl document
    right
    rw [getElem?_erase, if_neg]
    · exact ⟨found, here, above, below⟩
    intro same
    subst same
    rw [held] at here
    cases here
    omega

theorem seed {next : Nat} (absent : topics[topic]? = none)
    (read : nextMqSeqForMemory docs topic = .ok next) : Floors past docs (topics.insert topic (.seeded (next - 1))) := by
  obtain ⟨held, water, rest⟩ := bind_ok read
  obtain ⟨peak, small⟩ := nextAfter_ok rest
  have same : next = max (held.getD 0) (maxStoredMqSeq docs topic) + 1 := peak
  have top : ceiling docs topics topic = held := by rw [ceiling, absent, water]
  -- A present high-water is above the stored messages, so it is the seed.
  have exact_ : ∀ high, held = some high → next - 1 = high := by
    intro high some
    subst some
    have most : maxStoredMqSeq docs topic ≤ high := by
      have bounded : ∀ (entries : List (String × Value)) (first : Nat), first ≤ high →
          (∀ entry ∈ entries, (storedSeq entry).getD 0 ≤ high) →
          entries.foldl (fun most entry => most.max ((storedSeq entry).getD 0)) first ≤ high := by
        intro entries
        induction entries with
        | nil => exact fun _ least _ => least
        | cons entry rest ih =>
          intro first least all
          apply ih
          · exact Nat.max_le.mpr ⟨least, all entry List.mem_cons_self⟩
          · exact fun entry member => all entry (List.mem_cons_of_mem _ member)
      apply bounded _ 0 (Nat.zero_le _)
      intro entry member
      cases number : storedSeq entry with
      | none => exact Nat.zero_le _
      | some n => exact floors.stored topic entry.1 entry.2 n high (mem_inCollection.mp member) number top
    simp only [getD_some] at same
    omega
  refine ⟨floors.plain, ?_, ?_, ?_, ?_⟩
  · intro other id doc n c found number high
    unfold ceiling at high
    rw [getElem?_insert] at high
    by_cases here : topic = other
    · subst here
      rw [if_pos rfl] at high
      cases high
      have most := le_maxStoredMqSeq found number
      show n ≤ next - 1
      omega
    · rw [if_neg here] at high
      exact floors.stored other id doc n c found number high
  · intro other found here
    rcases insert_cases here with ⟨_, rfl⟩ | ⟨_, here⟩
    · refine ⟨?_, Nat.le_refl _, ?_⟩
      · intro key entry impossible
        cases impossible
      · show next - 1 < u64Max
        omega
    · exact floors.sane other found here
  · intro other found here
    rcases insert_cases here with ⟨rfl, rfl⟩ | ⟨_, here⟩
    · rcases held with _ | high
      · exact .inl water
      right
      rw [water]
      show _ = Except.ok (some (next - 1))
      rw [exact_ high rfl]
    · exact floors.water other found here
  · intro other seq was
    rcases floors.published other seq was with document | ⟨found, here, above, below⟩
    · exact .inl document
    right
    rw [getElem?_insert, if_neg]
    · exact ⟨found, here, above, below⟩
    · intro same
      subst same
      rw [absent] at here
      cases here

end

end Floors

/-- What was published, and one more. -/
def Also (past : String → Nat → Prop) (topic : String) (seq : Nat) : String → Nat → Prop :=
  fun other n => past other n ∨ other = topic ∧ n = seq

theorem mqHighWater_put (small : seq < u64Max)
    (held : docs.get (mqHwCollection topic) mqHighWaterId = some (seqDoc seq)) : mqHighWater docs topic = .ok (some seq) := by
  unfold mqHighWater
  rw [held]
  simp only [field_seqDoc small]

theorem plain_message {record : MqRecord} (small : record.seq < u64Max) : Plain (toString record.seq) (messageDoc record) := by
  intro m spelled
  rw [parseU64_toString small] at spelled
  cases spelled
  exact ⟨record.seq, storedSeq_messageDoc small _, Nat.le_refl _⟩

theorem get_storeMessage_hw (docs : Docs) (topic other : String) (record : MqRecord) :
    (storeMessage docs topic record).get (mqHwCollection other) mqHighWaterId =
      if topic = other then some (seqDoc record.seq) else docs.get (mqHwCollection other) mqHighWaterId := by
  unfold storeMessage putHighWater putMessage
  rw [Docs.get_insert, Docs.get_insert]
  by_cases same : topic = other
  · subst same
    rw [if_pos rfl, if_pos rfl]
  · rw [if_neg, if_neg, if_neg same]
    · exact fun equal => message_ne_hw topic other (Prod.mk.inj equal).1
    · exact fun equal => same (mqHwCollection_injective (Prod.mk.inj equal).1)

theorem get_storeMessage_message (docs : Docs) (topic other id : String) (record : MqRecord) :
    (storeMessage docs topic record).get (mqMessageCollection other) id =
      if topic = other ∧ toString record.seq = id then some (messageDoc record)
      else docs.get (mqMessageCollection other) id := by
  unfold storeMessage putHighWater putMessage
  rw [Docs.get_insert, if_neg, Docs.get_insert]
  · by_cases same : topic = other ∧ toString record.seq = id
    · obtain ⟨rfl, rfl⟩ := same
      rw [if_pos rfl, if_pos ⟨rfl, rfl⟩]
    rw [if_neg, if_neg same]
    intro equal
    obtain ⟨collection, number⟩ := Prod.mk.inj equal
    exact same ⟨mqMessageCollection_injective collection, number⟩
  · exact fun equal => message_ne_hw other topic (Prod.mk.inj equal).1.symm

namespace Floors

variable {past : String → Nat → Prop} {docs : Docs} {topics : BTreeMap String Topic}

variable {topic : String}

section

variable (floors : Floors past docs topics)

include floors

theorem direct (record : MqRecord) (absent : topics[topic]? = none)
    (next : nextMqSeq docs topic = .ok record.seq) :
    Floors (Also past topic record.seq) (storeMessage docs topic record) topics := by
  obtain ⟨fresh, small⟩ := floors.fresh_direct absent next
  have mine : mqHighWater (storeMessage docs topic record) topic = .ok (some record.seq) := by
    apply mqHighWater_put small
    rw [get_storeMessage_hw, if_pos rfl]
  have others : ∀ other, topic ≠ other → mqHighWater (storeMessage docs topic record) other = mqHighWater docs other := by
    intro other differ
    apply mqHighWater_congr
    rw [get_storeMessage_hw, if_neg differ]
  have top : ∀ other, topic ≠ other →
      ceiling (storeMessage docs topic record) topics other = ceiling docs topics other := by
    intro other differ
    simp only [ceiling, others other differ]
  refine ⟨?_, ?_, floors.sane, ?_, ?_⟩
  · intro other id doc held
    rw [get_storeMessage_message] at held
    split at held
    · rename_i same
      obtain ⟨rfl, rfl⟩ := same
      cases held
      exact plain_message small
    · exact floors.plain other id doc held
  · intro other id doc n c held read high
    by_cases differ : topic = other
    · subst differ
      rw [ceiling, absent, mine] at high
      cases high
      rw [get_storeMessage_message] at held
      split at held
      · rename_i same
        cases held
        rw [storedSeq_messageDoc small] at read
        cases read
        exact Nat.le_refl _
      · exact Nat.le_of_lt (fresh.stored id doc n held read)
    · rw [get_storeMessage_message, if_neg (fun same => differ same.1)] at held
      rw [top other differ] at high
      exact floors.stored other id doc n c held read high
  · intro other state held
    have differ : topic ≠ other := by
      intro same
      subst same
      rw [absent] at held
      cases held
    rw [others other differ]
    exact floors.water other state held
  · intro other seq was
    by_cases same : topic = other
    · subst same
      refine .inl ⟨record.seq, mine, ?_⟩
      rcases was with before | ⟨_, now⟩
      · exact Nat.le_of_lt (fresh.published seq before)
      · exact Nat.le_of_eq now
    · rcases was with before | ⟨here, _⟩
      · rw [others other same]
        exact floors.published other seq before
      · exact absurd here.symm same

variable {state : Topic} {entry : Buffered}

theorem hold
    (held : topics[topic]? = some state) (next : entry.record.seq = state.highWater + 1)
    (small : entry.record.seq < u64Max) (kind : entry.durability ≠ .durable) :
    Floors (Also past topic entry.record.seq) docs (topics.insert topic (state.hold entry)) := by
  have sane := floors.sane topic state held
  have kept : (state.hold entry).Sane := by
    refine ⟨?_, ?_, small⟩
    · intro key found there
      rcases insert_cases there with ⟨here, rfl⟩ | ⟨_, there⟩
      · exact ⟨here, by rw [← here]; exact Nat.le_refl _, kind⟩
      · obtain ⟨same, below, other⟩ := sane.keyed key found there
        exact ⟨same, by show key ≤ entry.record.seq; omega, other⟩
    · have bound := sane.persisted
      show state.persistedHighWater ≤ entry.record.seq
      omega
  have moved := floors.advance held kept rfl (by show state.highWater ≤ entry.record.seq; omega)
  refine { moved with published := ?_ }
  rintro other seq (before | ⟨rfl, rfl⟩)
  · exact moved.published other seq before
  refine .inr ⟨state.hold entry, ?_, ?_, Nat.le_refl _⟩
  · rw [getElem?_insert, if_pos rfl]
  · have bound := sane.persisted
    show state.persistedHighWater < entry.record.seq
    omega

theorem acknowledge {group : String}
    {newAck removed : Bool} (held : topics[topic]? = some state) :
    Floors past docs (topics.insert topic (state.acknowledge group seq entry newAck removed)) := by
  have sane := floors.sane topic state held
  have kept : (state.acknowledge group seq entry newAck removed).Sane := by
    refine ⟨?_, sane.persisted, sane.small⟩
    intro key found there
    unfold Topic.acknowledge at there
    split at there
    · rw [getElem?_erase] at there
      split at there
      · cases there
      · exact sane.keyed key found there
    · exact sane.keyed key found there
  exact floors.advance held kept rfl (Nat.le_refl _)

theorem settle {task : Task} (planned : task.Planned topics)
    {settled : BTreeMap String Topic} (each : ∀ name, settled[name]? = (topics[name]?).map (task.after name)) :
    Floors (fun topic seq => past topic seq ∨
        ∃ candidate, task.candidate = some candidate ∧ topic = candidate.topic ∧ seq = candidate.record.seq)
      (putAll docs (taskPuts docs task)) settled := by
  have water : ∀ (name : String) (state : Topic), topics[name]? = some state → hwOf docs name ≤ state.highWater := by
    intro name state held
    have bound := (floors.sane name state held).persisted
    rcases floors.water name state held with read | read
    · rw [hwOf_ok read]
      exact Nat.zero_le _
    · rw [hwOf_ok read]
      exact bound
  have small : ∀ (name : String) (state : Topic), topics[name]? = some state → task.high name state < u64Max := by
    intro name state held
    exact planned.high_small (floors.sane name state held).small
  -- The high-water document of a topic is its high-water once anything put it.
  have highWater : ∀ name, mqHighWater (putAll docs (taskPuts docs task)) name = mqHighWater docs name ∧
      (∀ put ∈ taskPuts docs task, ¬ put.At (mqHwCollection name) mqHighWaterId) ∨
      ∃ state, topics[name]? = some state ∧
        mqHighWater (putAll docs (taskPuts docs task)) name = .ok (some (task.high name state)) ∧
        (task.after name state).persistedHighWater = task.high name state := by
    intro name
    rcases get_putAll docs (taskPuts docs task) (mqHwCollection name) mqHighWaterId with ⟨same, none⟩ | ⟨put, member, place, held⟩
    · exact .inl ⟨mqHighWater_congr same, none⟩
    obtain ⟨state, here, doc, touched⟩ := planned.hw_put water member place
    rw [doc] at held
    refine .inr ⟨state, here, mqHighWater_put (small name state here) held, ?_⟩
    rw [Task.after_persisted planned here (floors.sane name state here), if_pos touched]
  have absent : ∀ name, topics[name]? = none → mqHighWater (putAll docs (taskPuts docs task)) name = mqHighWater docs name := by
    intro name none
    rcases highWater name with ⟨same, _⟩ | ⟨state, here, _⟩
    · exact same
    · rw [none] at here
      cases here
  refine ⟨?_, ?_, ?_, ?_, ?_⟩
  · intro name id doc held
    rcases get_putAll docs (taskPuts docs task) (mqMessageCollection name) id with ⟨same, _⟩ | ⟨put, member, place, found⟩
    · rw [same] at held
      exact floors.plain name id doc held
    obtain ⟨state, record, here, spelled, content, below⟩ := planned.message_put floors.sane member place
    rw [found, content] at held
    cases held
    subst spelled
    have bound := small name state here
    exact plain_message (by omega)
  · intro name id doc n c held read high
    unfold ceiling at high
    rw [each] at high
    cases here : topics[name]? with
    | none =>
      rw [here] at high
      simp only [map_none] at high
      rw [absent name here] at high
      rcases get_putAll docs (taskPuts docs task) (mqMessageCollection name) id with ⟨same, _⟩ | ⟨put, member, place, _⟩
      · rw [same] at held
        exact floors.stored name id doc n c held read (by rw [ceiling, here]; exact high)
      · obtain ⟨state, _, there, _⟩ := planned.message_put floors.sane member place
        rw [here] at there
        cases there
    | some state =>
      rw [here] at high
      simp only [map_some, Option.some.injEq, Task.after_highWater] at high
      have grows := planned.high_ge here
      rcases get_putAll docs (taskPuts docs task) (mqMessageCollection name) id with ⟨same, _⟩ | ⟨put, member, place, found⟩
      · rw [same] at held
        have old := floors.stored name id doc n _ held read (by rw [ceiling, here])
        omega
      obtain ⟨state', record, there, spelled, content, below⟩ := planned.message_put floors.sane member place
      rw [here] at there
      cases there
      have bound := small name state here
      rw [found, content] at held
      cases held
      rw [storedSeq_messageDoc (by omega)] at read
      cases read
      omega
  · intro name after here
    rw [each] at here
    obtain ⟨state, held, same⟩ := map_eq_some_iff.mp here
    subst same
    exact planned.after_sane held (floors.sane name state held)
  · intro name after here
    rw [each] at here
    obtain ⟨state, held, same⟩ := map_eq_some_iff.mp here
    subst same
    rcases highWater name with ⟨same, none⟩ | ⟨state', there, read, put⟩
    · rw [same, planned.persisted_untouched held (floors.sane name state held) none]
      exact floors.water name state held
    rw [held] at there
    cases there
    rw [read, put]
    exact .inr rfl
  · intro name seq was
    rcases highWater name with ⟨same, none⟩ | ⟨state, held, read, _⟩
    · rcases was with before | ⟨candidate, offered, rfl, rfl⟩
      · rw [same]
        rcases floors.published name seq before with document | ⟨state, held, above, below⟩
        · exact .inl document
        refine .inr ⟨task.after name state, ?_, ?_, ?_⟩
        · rw [each, held]
          rfl
        · rw [planned.persisted_untouched held (floors.sane name state held) none]
          exact above
        · rw [Task.after_highWater]
          exact Nat.le_trans below (planned.high_ge held)
      · -- The candidate's own high-water is always put.
        obtain ⟨state, held, next, _⟩ := (planned.offers candidate offered).fresh
        have high : task.high candidate.topic state = candidate.record.seq := by simp only [Task.high, offered, ↓reduceIte]
        have settled := planned.hw_untouched held none (.inr (by omega)) (floors.sane _ state held)
        have bound := (floors.sane _ state held).persisted
        omega
    · refine .inl ⟨_, read, ?_⟩
      rcases was with before | ⟨candidate, offered, rfl, rfl⟩
      · obtain ⟨c, top, below⟩ := floors.published_le before
        rw [ceiling, held] at top
        cases top
        exact Nat.le_trans below (planned.high_ge held)
      · simp only [Task.high, offered, ↓reduceIte]
        exact Nat.le_refl _

end

end Floors

end FerroLoop.Queue
