import FerroLoop.Queue.Contents

namespace FerroLoop.Queue

open Store Checked List Contents

theorem notAfter_trans (a b c : MqRecord) (first : notAfter a b = true) (second : notAfter b c = true) :
    notAfter a c = true := by
  simp only [notAfter, Bool.or_eq_true, Bool.and_eq_true, decide_eq_true_eq, beq_iff_eq] at first second ⊢
  rcases first with less | ⟨same, key⟩
  · rcases second with more | ⟨equal, _⟩
    · exact .inl (Nat.lt_trans less more)
    · exact .inl (by omega)
  · rcases second with more | ⟨equal, other⟩
    · exact .inl (by omega)
    · exact .inr ⟨same.trans equal, le_trans key other⟩

theorem notAfter_total (a b : MqRecord) : (notAfter a b || notAfter b a) = true := by
  simp only [notAfter, Bool.or_eq_true, Bool.and_eq_true, decide_eq_true_eq, beq_iff_eq]
  rcases Nat.lt_trichotomy a.seq b.seq with less | same | more
  · exact .inl (.inl less)
  · rcases le_total a.key b.key with key | key
    · exact .inl (.inr ⟨same, key⟩)
    · exact .inr (.inr ⟨same.symm, key⟩)
  · exact .inr (.inl more)

theorem strict_of_rising {records : List MqRecord} (rising : records.Pairwise fun a b => a.seq < b.seq) :
    Sorted.Strict notAfter records := by
  refine rising.imp ?_
  intro a b less
  simp only [notAfter, Bool.or_eq_true, Bool.and_eq_true, decide_eq_true_eq, beq_iff_eq, Bool.or_eq_false_iff,
    Bool.and_eq_false_iff, decide_eq_false_iff_not]
  exact ⟨.inl less, by omega, .inl (by simp; omega)⟩

def recordOf (entry : String × Value) : MqRecord :=
  match loadRecord entry with
  | .ok record => record
  | .error _ => ⟨0, "", Value.null⟩

variable {entry : String × Value} {record : MqRecord}

theorem recordOf_ok (ok : loadRecord entry = .ok record) :
    recordOf entry = record := by
  rw [recordOf, ok]

theorem loadRecords_ok {entries : List (String × Value)} (each : ∀ entry ∈ entries, ∃ record, loadRecord entry = .ok record) :
    loadRecords entries = .ok (entries.map recordOf) := by
  induction entries with
  | nil => rfl
  | cons entry rest ih =>
    obtain ⟨record, ok⟩ := each entry mem_cons_self
    have others := ih fun other member => each other (mem_cons_of_mem _ member)
    rw [loadRecords, ok, map_cons, recordOf_ok ok]
    simp only [others, ok_bind]

def diskRecords (docs : Docs) (topic : String) : List MqRecord :=
  ((docs.inCollection (mqMessageCollection topic)).map recordOf).mergeSort notAfter

theorem inCollection_distinct (docs : Docs) (collection : String) :
    (docs.inCollection collection).Pairwise fun a b => a.1 ≠ b.1 := by
  unfold Docs.inCollection
  cases docs.nested[collection]? with
  | none => exact List.Pairwise.nil
  | some held => exact Map.toList_distinct held

variable {group : String}

namespace Contents

variable {sent : String → List Sent} {acked : String → String → Nat → Prop} {gone : String → Nat → Prop} {docs : Docs}
  {topics : BTreeMap String Topic}

variable {topic : String}

section

variable (contents : Contents sent acked gone docs topics)

include contents

theorem load_entry
    (member : entry ∈ docs.inCollection (mqMessageCollection topic)) :
    ∃ one ∈ sent topic, one.durability ≠ .ephemeral ∧ messageAt topics topic one.record.seq = none ∧
      loadRecord entry = .ok one.record ∧ entry.1 = toString one.record.seq := by
  obtain ⟨one, sentOne, kind, spelled, content, absent⟩ := contents.disk topic entry.1 entry.2 (mem_inCollection.mp member)
  refine ⟨one, sentOne, kind, absent, ?_, spelled⟩
  have same : entry = (entry.1, messageDoc one.record) := by rw [← content]
  rw [same]
  exact loadRecord_messageDoc (contents.small topic one sentOne) _

theorem loadMq_ok (topic : String) :
    loadMq docs topic = .ok (diskRecords docs topic) := by
  unfold loadMq diskRecords
  rw [loadRecords_ok, ok_bind]
  intro entry member
  obtain ⟨one, _, _, _, ok, _⟩ := contents.load_entry member
  exact ⟨one.record, ok⟩

theorem mem_diskRecords :
    record ∈ diskRecords docs topic ↔ ∃ one ∈ sent topic, one.durability ≠ .ephemeral ∧
      messageAt topics topic one.record.seq = none ∧ one.record = record := by
  unfold diskRecords
  rw [mem_mergeSort, mem_map]
  constructor
  · rintro ⟨entry, member, same⟩
    obtain ⟨one, sentOne, kind, absent, ok, _⟩ := contents.load_entry member
    rw [recordOf_ok ok] at same
    exact ⟨one, sentOne, kind, absent, same⟩
  · rintro ⟨one, sentOne, kind, absent, rfl⟩
    rcases contents.kept topic one sentOne kind with document | buffered
    · refine ⟨_, mem_inCollection.mpr document, ?_⟩
      exact recordOf_ok (loadRecord_messageDoc (contents.small topic one sentOne) _)
    · rw [absent] at buffered
      cases buffered

theorem diskRecords_nodup (topic : String) :
    (diskRecords docs topic).Nodup := by
  unfold diskRecords
  rw [(mergeSort_perm _ _).nodup_iff, List.Nodup, pairwise_map]
  refine (inCollection_distinct docs (mqMessageCollection topic)).imp_of_mem ?_
  intro a b first second differ same
  obtain ⟨one, _, _, _, ok, spelled⟩ := contents.load_entry first
  obtain ⟨other, _, _, _, ok', spelled'⟩ := contents.load_entry second
  rw [recordOf_ok ok, recordOf_ok ok'] at same
  apply differ
  rw [spelled, spelled', same]

end

theorem diskRecords_sorted (docs : Docs) (topic : String) :
    (diskRecords docs topic).Pairwise fun a b => notAfter a b = true :=
  pairwise_mergeSort notAfter_trans notAfter_total _

/-- No other pair of the same joined name acknowledged anything. -/
def Apart (acked : String → String → Nat → Prop) (topic group : String) : Prop :=
  ∀ other member seq, mqAckCollection other member = mqAckCollection topic group → acked other member seq →
    acked topic group seq

theorem mem_ackedSeqs (contents : Contents sent acked gone docs topics) {seq : Nat} :
    seq ∈ ackedSeqs docs topic group ↔ docs.get (mqAckCollection topic group) (toString seq) = some (seqDoc seq) := by
  unfold ackedSeqs
  rw [mem_filterMap]
  constructor
  · rintro ⟨⟨id, doc⟩, member, read⟩
    have held := mem_inCollection.mp member
    obtain ⟨other, who, n, _, was, spelled, content⟩ := contents.ackDisk topic group id doc held
    subst spelled content
    rw [storedSeq_seqDoc (contents.ackSmall other who n was)] at read
    cases read
    exact held
  · intro held
    obtain ⟨other, who, n, _, was, spelled, _⟩ := contents.ackDisk topic group _ _ held
    rw [← toString_injective spelled] at was
    exact ⟨_, mem_inCollection.mpr held, storedSeq_seqDoc (contents.ackSmall other who seq was) _⟩

theorem acked_iff (contents : Contents sent acked gone docs topics) (apart : Apart acked topic group)
    {seq : Nat} : acked topic group seq ↔ seq ∈ ackedSeqs docs topic group ∨ ackedAt topics topic group seq = true := by
  rw [contents.mem_ackedSeqs]
  constructor
  · exact contents.ackKept topic group seq
  rintro (document | memory)
  · obtain ⟨other, who, n, same, was, spelled, _⟩ := contents.ackDisk topic group _ _ document
    rw [← toString_injective spelled] at was
    exact apart other who seq same was
  · exact (contents.ackMemory topic group seq memory).1

def memoryOf (topics : BTreeMap String Topic) (topic : String) : List Buffered :=
  (topics[topic]?).elim [] Topic.buffered

theorem mem_memoryOf {entry : Buffered} :
    entry ∈ memoryOf topics topic ↔ ∃ seq, messageAt topics topic seq = some entry := by
  unfold memoryOf messageAt
  cases topics[topic]? with
  | none => simp
  | some state => exact Topic.mem_buffered

theorem memoryOf_distinct (contents : Contents sent acked gone docs topics) (topic : String) :
    (memoryOf topics topic).Pairwise fun a b => a.record.seq ≠ b.record.seq := by
  unfold memoryOf
  rcases held : topics[topic]? with _ | state
  · exact List.Pairwise.nil
  simp only [Option.elim_some, Topic.buffered]
  rw [pairwise_map]
  refine (Map.toList_distinct state.messages).imp_of_mem ?_
  intro a b first second differ same
  have keyed : ∀ entry ∈ state.messages.toList, entry.2.record.seq = entry.1 := by
    intro entry member
    have there := Std.ExtTreeMap.mem_toList_iff_getElem?_eq_some.mp member
    exact (contents.memory topic entry.1 entry.2 ((messageAt_held held entry.1).trans there)).2
  rw [keyed a first, keyed b second] at same
  exact differ same

theorem mergeMemory_ok {hidden : Nat → Bool} {merged : List MqRecord} {entries : List Buffered}
    (apart : ∀ record ∈ merged, ∀ entry ∈ entries, record.seq ≠ entry.record.seq)
    (distinct : entries.Pairwise fun a b => a.record.seq ≠ b.record.seq) :
    mergeMemory hidden merged entries =
      .ok (merged ++ (entries.filter fun entry => !hidden entry.record.seq).map Buffered.record) := by
  induction entries generalizing merged with
  | nil => rw [mergeMemory, filter_nil, map_nil, append_nil]
  | cons entry rest ih =>
    obtain ⟨first, others⟩ := pairwise_cons.mp distinct
    have later : ∀ record ∈ merged, ∀ other ∈ rest, record.seq ≠ other.record.seq :=
      fun record member other inside => apart record member other (mem_cons_of_mem _ inside)
    rw [mergeMemory]
    split
    · rename_i hides
      rw [ih later others, filter_cons_of_neg (by simp [hides])]
    rename_i shown
    have new : merged.any (fun record => record.seq == entry.record.seq) = false := by
      rw [any_eq_false]
      intro record member same
      exact apart record member entry mem_cons_self (beq_iff_eq.mp same)
    rw [new]
    rw [ih _ others, filter_cons_of_pos (by simp [shown]), map_cons, append_assoc]
    · rfl
    intro record member other inside
    rcases mem_append.mp member with old | now
    · exact later record old other inside
    · rw [mem_singleton.mp now]
      exact first other inside

/-- What a group has still to read, in order. -/
def unread (sent : List Sent) (acked gone : Nat → Bool) : List MqRecord :=
  (sent.filter fun one => !(decide (one.durability = .ephemeral) && gone one.record.seq) && !acked one.record.seq).map
    Sent.record

theorem mem_unread {sent : List Sent} {acked gone : Nat → Bool} :
    record ∈ unread sent acked gone ↔ ∃ one ∈ sent, ¬ (one.durability = .ephemeral ∧ gone one.record.seq = true) ∧
      ¬ acked one.record.seq = true ∧ one.record = record := by
  simp [unread, and_assoc, imp_iff_not_or]

section Poll

variable {topic group : String} {isAcked isGone : Nat → Bool}

section

variable (contents : Contents sent acked gone docs topics)

include contents

theorem unread_strict : Sorted.Strict notAfter (unread (sent topic) isAcked isGone) := by
  apply strict_of_rising
  unfold unread
  rw [pairwise_map]
  exact (contents.ordered topic).filter _

theorem unread_perm (apart : Apart acked topic group)
    (ackedIs : ∀ seq, isAcked seq = true ↔ acked topic group seq) (goneIs : ∀ seq, isGone seq = true ↔ gone topic seq) :
    (((diskRecords docs topic).filter fun record => !(ackedSeqs docs topic group).contains record.seq) ++
      ((memoryOf topics topic).filter fun entry => !((ackedSeqs docs topic group).contains entry.record.seq ||
        ackedAt topics topic group entry.record.seq)).map Buffered.record).Perm (unread (sent topic) isAcked isGone) := by
  have known : ∀ seq, isAcked seq = true ↔ seq ∈ ackedSeqs docs topic group ∨ ackedAt topics topic group seq = true :=
    fun seq => (ackedIs seq).trans (contents.acked_iff apart)
  rw [perm_ext_iff_of_nodup ?_ (unread_strict contents).nodup]
  · intro record
    rw [mem_append, mem_filter, mem_map, mem_unread, contents.mem_diskRecords]
    constructor
    · rintro (⟨⟨one, member, kind, absent, rfl⟩, shown⟩ | ⟨entry, member, rfl⟩)
      · refine ⟨one, member, fun both => kind both.1, ?_, rfl⟩
        rw [known]
        rintro (document | memory)
        · simp [document] at shown
        -- An acknowledgement in memory is of a message that is not on disk.
        have none := (contents.ackMemory topic group _ memory).2
        rcases contents.kept topic one member kind with there | buffered
        · rw [none] at there
          cases there
        · rw [absent] at buffered
          cases buffered
      · obtain ⟨inside, shown⟩ := mem_filter.mp member
        obtain ⟨seq, there⟩ := mem_memoryOf.mp inside
        obtain ⟨sentOne, keyed⟩ := contents.memory topic seq entry there
        refine ⟨_, sentOne, ?_, ?_, rfl⟩
        · rintro ⟨kind, taken⟩
          have is := (contents.ephemeral topic _ sentOne kind).mp (by dsimp only; rw [keyed, there]; rfl)
          exact is ((goneIs _).mp taken)
        · rw [known]
          simpa [not_or] using shown
    · rintro ⟨one, member, visible, unacked, rfl⟩
      rw [known, not_or] at unacked
      cases place : messageAt topics topic one.record.seq with
      | none =>
        left
        refine ⟨⟨one, member, ?_, place, rfl⟩, by simpa using unacked.1⟩
        intro kind
        have taken : gone topic one.record.seq := by
          apply Classical.byContradiction
          intro still
          have buffered := (contents.ephemeral topic one member kind).mpr still
          rw [place] at buffered
          cases buffered
        exact visible ⟨kind, (goneIs _).mpr taken⟩
      | some entry =>
        right
        obtain ⟨sentOne, keyed⟩ := contents.memory topic _ entry place
        have same := contents.unique member sentOne keyed.symm
        refine ⟨entry, mem_filter.mpr ⟨mem_memoryOf.mpr ⟨_, place⟩, ?_⟩, ?_⟩
        · rw [keyed]
          simpa [not_or] using unacked
        · rw [same]
  · refine nodup_append.mpr ⟨(contents.diskRecords_nodup topic).filter _, ?_, ?_⟩
    · rw [List.Nodup, pairwise_map]
      refine ((memoryOf_distinct contents topic).filter _).imp ?_
      intro a b differ same
      exact differ (by rw [same])
    · intro a onDisk b inMemory same
      obtain ⟨one, _, _, absent, rfl⟩ := contents.mem_diskRecords.mp (mem_filter.mp onDisk).1
      obtain ⟨entry, member, rfl⟩ := mem_map.mp inMemory
      obtain ⟨seq, there⟩ := mem_memoryOf.mp (mem_filter.mp member).1
      obtain ⟨_, keyed⟩ := contents.memory topic seq entry there
      rw [same, keyed, there] at absent
      cases absent

theorem unreadMq_ok (limit : Nat) :
    unreadMq docs topic group limit = .ok (((diskRecords docs topic).filter fun record =>
      !(ackedSeqs docs topic group).contains record.seq).take limit) := by
  unfold unreadMq
  split
  · rename_i zero
    rw [zero, take_zero]
  · rw [contents.loadMq_ok, ok_bind]

end

theorem disk_sorted (docs : Docs) (topic group : String) :
    ((diskRecords docs topic).filter fun record => !(ackedSeqs docs topic group).contains record.seq).Pairwise
      fun a b => notAfter a b = true :=
  (diskRecords_sorted docs topic).filter _

end Poll

end Contents

def Handle.memoryPart (handle : Handle) (topic group : String) : List MqRecord :=
  ((memoryOf handle.runtime.topics topic).filter fun entry =>
    !((ackedSeqs handle.docs topic group).contains entry.record.seq ||
      ackedAt handle.runtime.topics topic group entry.record.seq)).map Buffered.record

variable {sent : String → List Sent} {acked : String → String → Nat → Prop} {gone : String → Nat → Prop} {handle : Handle}
  {topic : String}

theorem Handle.mergeBuffer_ok
    (contents : Contents sent acked gone handle.docs handle.runtime.topics)
    {disk : List MqRecord} (part : ∀ record ∈ disk, record ∈ diskRecords handle.docs topic) :
    handle.mergeBuffer topic group disk = .ok (disk ++ handle.memoryPart topic group) := by
  have distinct := contents.memoryOf_distinct topic
  have apart : ∀ record ∈ disk, ∀ entry ∈ memoryOf handle.runtime.topics topic, record.seq ≠ entry.record.seq := by
    intro record member entry inside same
    obtain ⟨one, _, _, absent, rfl⟩ := contents.mem_diskRecords.mp (part record member)
    obtain ⟨seq, there⟩ := mem_memoryOf.mp inside
    rw [same, (contents.memory topic seq entry there).2, there] at absent
    cases absent
  unfold mergeBuffer memoryPart ackedAt
  unfold memoryOf at distinct apart ⊢
  cases held : handle.runtime.topics[topic]? with
  | none => simp
  | some buffer =>
    rw [held] at distinct apart
    exact mergeMemory_ok apart distinct

theorem Handle.poll_ok
    (contents : Contents sent acked gone handle.docs handle.runtime.topics)
    {isAcked isGone : Nat → Bool} (apart : Apart acked topic group)
    (ackedIs : ∀ seq, isAcked seq = true ↔ acked topic group seq) (goneIs : ∀ seq, isGone seq = true ↔ gone topic seq)
    (idle : handle.busy = false) (unused : handle.used = false → memoryOf handle.runtime.topics topic = [])
    (limit : Nat) :
    handle.pollMqGroup topic group limit = .ok ((unread (sent topic) isAcked isGone).take limit) := by
  have perm := contents.unread_perm apart ackedIs goneIs
  have strict : Sorted.Strict notAfter (unread (sent topic) isAcked isGone) := contents.unread_strict
  have sorted := disk_sorted handle.docs topic group
  unfold pollMqGroup
  split
  · rename_i never
    rw [unused (Bool.not_eq_true _ ▸ never), filter_nil, map_nil, append_nil] at perm
    rw [contents.unreadMq_ok, Sorted.eq_of_perm strict sorted perm]
  rw [idle, contents.unreadMq_ok]
  simp only [Bool.false_eq_true, ↓reduceIte, ok_bind]
  rw [Handle.mergeBuffer_ok contents, ok_bind, memoryPart,
    Sorted.take_merged notAfter_trans notAfter_total strict sorted perm]
  intro record member
  exact (mem_filter.mp (mem_of_mem_take member)).1

end FerroLoop.Queue
