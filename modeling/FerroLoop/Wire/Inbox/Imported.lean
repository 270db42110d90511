import FerroLoop.Wire.Inbox.Holdings

namespace FerroLoop.Wire.Inbox

open List Option WireStore

def arrival (message : WireMessage) (past : List Item) : Option (List DeliveryReceipt) :=
  past.findSome? fun item =>
    match item with
    | .message among other => if other = message then some among else none
    | .receipt _ => none

def Known (registry : Registry) (past : List Item) (message : WireMessage) (recipient : Iri) :
    Set (Copy recipient message.id) :=
  {copy | Item.receipt copy.receipt ∈ past ∨
    ∃ among one, arrival message past = some among ∧ opened registry message among recipient = some one ∧
      copy.receipt = pendingReceipt message one}

def Possible (registry : Registry) (receipts : List DeliveryReceipt) (message : WireMessage) (recipient : Iri) : Prop :=
  (∃ one ∈ registry.recipients message, one.1 = recipient) ∨
    ∃ receipt ∈ receipts, receipt.recipientId = recipient ∧ receipt.messageId = message.id

def Apart (registry : Registry) (messages : List WireMessage) (receipts : List DeliveryReceipt) : Prop :=
  ∀ first ∈ messages, ∀ second ∈ messages, registry.free first.id = true → registry.free second.id = true →
    ∀ one other, Possible registry receipts first one → Possible registry receipts second other →
      inboxKey one first.id = inboxKey other second.id → first.id = second.id

structure Valid (messages : List WireMessage) (receipts : List DeliveryReceipt) : Prop where
  valid : ∀ message ∈ messages, validate message = .ok ()
  content : ∀ first ∈ messages, ∀ second ∈ messages, first.id = second.id → first = second
  stamped : ∀ receipt ∈ receipts, Stamped receipt

def Due (messages : List WireMessage) (receipts : List DeliveryReceipt) (past : List Item) : Item → Prop
  | .message among message => message ∈ messages ∧ ∀ receipt ∈ among, receipt ∈ receipts
  | .receipt receipt =>
    receipt ∈ receipts ∧ ∀ message ∈ messages, message.id = receipt.messageId → (arrival message past).isSome = true

theorem arrival_append (message : WireMessage) (past : List Item) (item : Item) :
    arrival message (past ++ [item]) = (arrival message past).or (arrival message [item]) := by
  unfold arrival
  rw [findSome?_append]

theorem arrival_message (message other : WireMessage) (among : List DeliveryReceipt) :
    arrival message [.message among other] = if other = message then some among else none := by
  unfold arrival
  by_cases same : other = message <;> simp [same]

theorem arrival_receipt (message : WireMessage) (receipt : DeliveryReceipt) : arrival message [.receipt receipt] = none :=
  rfl

section Run

variable {registry : Registry} {messages : List WireMessage} {receipts : List DeliveryReceipt}

/-- What the store is after the items of `past`. -/
structure Imported (registry : Registry) (messages : List WireMessage) (receipts : List DeliveryReceipt)
    (past : List Item) (store : WireStore) : Prop where
  agents : store.registry.agents = registry.agents
  areas : store.registry.areas = registry.areas
  free : ∀ id, store.registry.free id = registry.free id
  known : ∀ message, (arrival message past).isSome = true → message ∈ messages
  stored : ∀ id message, store.message? id = some message ↔
    message.id = id ∧ registry.free id = true ∧ (arrival message past).isSome = true
  arrived : ∀ receipt, Item.receipt receipt ∈ past → ∀ message ∈ messages, message.id = receipt.messageId →
    (arrival message past).isSome = true
  held : ∀ message ∈ messages, registry.free message.id = true → ∀ recipient,
    Possible registry receipts message recipient →
      Holds store.inbox[inboxKey recipient message.id]? (Known registry past message recipient)
  kept : ∀ key, store.inbox[key]?.isSome = true → ∃ message ∈ messages, registry.free message.id = true ∧
    ∃ recipient, Possible registry receipts message recipient ∧ key = inboxKey recipient message.id

theorem Imported.start : Imported registry messages receipts [] (empty registry) where
  agents := rfl
  areas := rfl
  free := fun _ => rfl
  known := fun _ came => by cases came
  stored := fun id message => by simp [message?, empty, arrival]
  arrived := fun receipt came => by cases came
  held := fun message _ _ recipient _ => by
    simp [Holds, empty, Known, arrival]
  kept := fun key held => by simp [empty] at held

variable {past : List Item} {among : List DeliveryReceipt} {message : WireMessage}

theorem Imported.again {store : WireStore} (imported : Imported registry messages receipts past store)
    (mem : message ∈ messages)
    (seen : registry.free message.id = true → (arrival message past).isSome = true) :
    Imported registry messages receipts (past ++ [.message among message]) store := by
  have same : ∀ other, registry.free other.id = true →
      arrival other (past ++ [.message among message]) = arrival other past := by
    intro other free
    rw [arrival_append, arrival_message]
    by_cases equal : message = other
    · subst equal
      obtain ⟨first, came⟩ := isSome_iff_exists.mp (seen free)
      rw [came, some_or]
    · rw [if_neg equal, or_none]
  refine { agents := imported.agents, areas := imported.areas, free := imported.free, known := ?_, stored := ?_,
           arrived := ?_, held := ?_, kept := imported.kept }
  · intro other came
    rw [arrival_append, arrival_message] at came
    by_cases equal : message = other
    · subst equal
      exact mem
    · rw [if_neg equal, or_none] at came
      exact imported.known other came
  · intro id other
    rw [imported.stored]
    constructor
    · rintro ⟨rfl, free, came⟩
      exact ⟨rfl, free, by rw [same other free]; exact came⟩
    · rintro ⟨rfl, free, came⟩
      exact ⟨rfl, free, by rw [← same other free]; exact came⟩
  · intro receipt came other among_ of_
    have before : Item.receipt receipt ∈ past := by simpa using came
    obtain ⟨first, arrived⟩ := isSome_iff_exists.mp (imported.arrived receipt before other among_ of_)
    rw [arrival_append, arrived]
    rfl
  · intro other memOther free recipient possible
    have copies : Known registry (past ++ [.message among message]) other recipient = Known registry past other recipient := by
      unfold Known
      rw [same other free]
      simp
    rw [copies]
    exact imported.held other memOther free recipient possible

theorem Holds.none_of_empty {recipient : Iri} {id : MessageId} {held : Option DeliveryReceipt}
    (holds : Holds held (∅ : Set (Copy recipient id))) : held = none := by
  rcases held with _ | receipt
  · rfl
  obtain ⟨copy, _, sums⟩ := holds
  obtain ⟨one, absent, _⟩ := sums.time
  exact absurd absent (Set.notMem_empty one)

def openedCopy {registry : Registry} {message : WireMessage} {among : List DeliveryReceipt} {recipient : Iri}
    {one : Iri × String} (found : opened registry message among recipient = some one) : Copy recipient message.id where
  receipt := pendingReceipt message one
  recipientId := by
    have matched := find?_some found
    simp only [Bool.and_eq_true, beq_iff_eq] at matched
    exact matched.1
  messageId := rfl
  stamped := by simp [Stamped, pendingReceipt]

theorem opened_congr {first second : Registry} (agents : first.agents = second.agents) (areas : first.areas = second.areas)
    (message : WireMessage) (among : List DeliveryReceipt) (recipient : Iri) :
    opened first message among recipient = opened second message among recipient := by
  unfold opened
  rw [Registry.recipients_congr agents areas]

theorem Imported.unknown {store : WireStore} (imported : Imported registry messages receipts past store)
    (mem : message ∈ messages) (absent : arrival message past = none) (recipient : Iri) :
    Known registry past message recipient = ∅ := by
  apply Set.eq_empty_of_forall_notMem
  rintro copy (came | ⟨among, one, arrived, _⟩)
  · have seen := imported.arrived copy.receipt came message mem copy.messageId.symm
    rw [absent] at seen
    cases seen
  · rw [absent] at arrived
    cases arrived

theorem Imported.store {store : WireStore} (imported : Imported registry messages receipts past store)
    (valid : Valid messages receipts) (apart : Apart registry messages receipts)
    (mem : message ∈ messages) (absent : store.message? message.id = none)
    (free : registry.free message.id = true) {next : Registry}
    (indexed : indexMessageId store.registry message.id.iri = .ok next) :
    Imported registry messages receipts (past ++ [.message among message]) (store.storeMessage among next message) := by
  obtain ⟨_, agents, areas, frees⟩ := indexMessageId_ok indexed
  have agents' := agents.trans imported.agents
  have areas' := areas.trans imported.areas
  have fresh : arrival message past = none := by
    rcases came : arrival message past with _ | first
    · rfl
    have stored := (imported.stored message.id message).mpr ⟨rfl, free, by rw [came]; rfl⟩
    rw [absent] at stored
    cases stored
  have first : arrival message (past ++ [.message among message]) = some among := by
    rw [arrival_append, arrival_message, fresh, if_pos rfl, none_or]
  have other : ∀ another, another ≠ message → arrival another (past ++ [.message among message]) = arrival another past := by
    intro another differs
    rw [arrival_append, arrival_message, if_neg (fun same => differs same.symm), or_none]
  refine { agents := ?_, areas := ?_, free := ?_, known := ?_, stored := ?_, arrived := ?_, held := ?_, kept := ?_ }
  · rw [storeMessage_registry]
    exact agents'
  · rw [storeMessage_registry]
    exact areas'
  · intro id
    rw [storeMessage_registry, frees]
    exact imported.free id
  · intro another came
    by_cases same : another = message
    · subst same
      exact mem
    · rw [other another same] at came
      exact imported.known another came
  · intro id another
    rw [storeMessage_message?]
    by_cases here : message.id = id
    · subst here
      rw [if_pos rfl]
      constructor
      · rintro ⟨rfl⟩
        exact ⟨rfl, free, by rw [first]; rfl⟩
      rintro ⟨sameId, _, came⟩
      by_cases same : another = message
      · rw [same]
      · rw [other another same] at came
        exact absurd (valid.content _ (imported.known another came) _ mem sameId) same
    · rw [if_neg here, imported.stored]
      constructor
      · rintro ⟨rfl, admitted, came⟩
        exact ⟨rfl, admitted, by rw [other another (fun same => here (by rw [same]))]; exact came⟩
      · rintro ⟨rfl, admitted, came⟩
        rw [other another (fun same => here (by rw [same]))] at came
        exact ⟨rfl, admitted, came⟩
  · intro receipt came another memAnother of_
    have before : Item.receipt receipt ∈ past := by simpa using came
    obtain ⟨list, arrived⟩ := isSome_iff_exists.mp (imported.arrived receipt before another memAnother of_)
    rw [arrival_append, arrived]
    rfl
  · intro another memAnother admitted recipient possible
    by_cases same : another = message
    · subst same
      have empty := imported.unknown mem fresh recipient
      have before := imported.held another mem free recipient possible
      rw [empty] at before
      rw [storeMessage_inbox, before.none_of_empty, none_or, opened_congr agents' areas']
      have copies : Known registry (past ++ [.message among another]) another recipient =
          {copy | ∃ one, opened registry another among recipient = some one ∧ copy.receipt = pendingReceipt another one} := by
        ext copy
        have none_ : Item.receipt copy.receipt ∉ past := fun came =>
          Set.notMem_empty copy (empty ▸ (.inl came : copy ∈ Known registry past another recipient))
        simp [Known, first, none_]
      rw [copies]
      rcases found : opened registry another among recipient with _ | one
      · simp [Holds]
      refine ⟨openedCopy found, rfl, ?_⟩
      have single : {copy : Copy recipient another.id | ∃ other, some one = some other ∧
          copy.receipt = pendingReceipt another other} = {openedCopy found} := by
        ext copy
        constructor
        · rintro ⟨_, ⟨rfl⟩, equal⟩
          exact Copy.ext equal
        · rintro ⟨rfl⟩
          exact ⟨one, rfl, rfl⟩
      rw [single]
      exact Sums.single _
    · have elsewhere : ∀ one ∈ next.recipients message, inboxKey one.1 message.id ≠ inboxKey recipient another.id := by
        intro one memOne equal
        rw [Registry.recipients_congr agents' areas'] at memOne
        have ids := apart message mem another memAnother free admitted one.1 recipient (.inl ⟨one, memOne, rfl⟩) possible equal
        exact same (valid.content _ memAnother _ mem ids.symm)
      have copies : Known registry (past ++ [.message among message]) another recipient =
          Known registry past another recipient := by
        unfold Known
        rw [other another same]
        simp
      rw [storeMessage_other _ _ _ _ elsewhere, copies]
      exact imported.held another memAnother admitted recipient possible
  · intro key present
    by_cases here : ∃ one ∈ next.recipients message, inboxKey one.1 message.id = key
    · obtain ⟨one, memOne, rfl⟩ := here
      rw [Registry.recipients_congr agents' areas'] at memOne
      exact ⟨message, mem, free, one.1, .inl ⟨one, memOne, rfl⟩, rfl⟩
    · rw [storeMessage_other _ _ _ _ (fun one memOne equal => here ⟨one, memOne, equal⟩)] at present
      exact imported.kept key present

section

variable {store : WireStore} (imported : Imported registry messages receipts past store) (valid : Valid messages receipts) (apart : Apart registry messages receipts)

include imported valid apart

theorem Imported.receipt {receipt : DeliveryReceipt} (due : Due messages receipts past (.receipt receipt)) :
    Imported registry messages receipts (past ++ [.receipt receipt]) (importItem store (.receipt receipt)) := by
  obtain ⟨mem, come⟩ := due
  have arrivals : ∀ message, arrival message (past ++ [.receipt receipt]) = arrival message past := by
    intro message
    rw [arrival_append, arrival_receipt, or_none]
  have arrived : ∀ one, Item.receipt one ∈ past ++ [.receipt receipt] → ∀ message ∈ messages, message.id = one.messageId →
      (arrival message (past ++ [.receipt receipt])).isSome = true := by
    intro one came message memMessage of_
    rw [arrivals]
    rcases mem_append.mp came with before | last
    · exact imported.arrived one before message memMessage of_
    · obtain ⟨rfl⟩ : one = receipt := by simpa using last
      exact come message memMessage of_
  have others : ∀ (message : WireMessage) (recipient : Iri),
      ¬(receipt.recipientId = recipient ∧ receipt.messageId = message.id) →
        Known registry (past ++ [.receipt receipt]) message recipient = Known registry past message recipient := by
    intro message recipient differs
    unfold Known
    rw [arrivals]
    ext copy
    have apartCopy : copy.receipt ≠ receipt := fun same => differs ⟨same ▸ copy.recipientId, same ▸ copy.messageId⟩
    simp [apartCopy]
  rcases importItem_receipt store receipt with ⟨missing, same⟩ | ⟨present, sameRegistry, sameMessages, inbox⟩
  · rw [same]
    refine { agents := imported.agents, areas := imported.areas, free := imported.free, known := ?_, stored := ?_,
             arrived, held := ?_, kept := imported.kept }
    · intro message came
      rw [arrivals] at came
      exact imported.known message came
    · intro id message
      rw [arrivals]
      exact imported.stored id message
    intro message memMessage free recipient possible
    rw [others message recipient]
    · exact imported.held message memMessage free recipient possible
    rintro ⟨_, of_⟩
    have stored := (imported.stored receipt.messageId message).mpr
      ⟨of_.symm, of_ ▸ free, come message memMessage of_.symm⟩
    rw [missing] at stored
    cases stored
  · obtain ⟨target, found⟩ := isSome_iff_exists.mp present
    obtain ⟨targetId, targetFree, targetCame⟩ := (imported.stored receipt.messageId target).mp found
    have memTarget := imported.known target targetCame
    have targetPossible : Possible registry receipts target receipt.recipientId :=
      .inr ⟨receipt, mem, rfl, targetId.symm⟩
    refine { agents := ?_, areas := ?_, free := ?_, known := ?_, stored := ?_, arrived, held := ?_, kept := ?_ }
    · rw [sameRegistry]
      exact imported.agents
    · rw [sameRegistry]
      exact imported.areas
    · rw [sameRegistry]
      exact imported.free
    · intro message came
      rw [arrivals] at came
      exact imported.known message came
    · intro id message
      rw [arrivals, message?, sameMessages]
      exact imported.stored id message
    · intro message memMessage free recipient possible
      rw [inbox]
      by_cases here : inboxKey receipt.recipientId receipt.messageId = inboxKey recipient message.id
      · rw [if_pos here]
        have ids : target.id = message.id := by
          apply apart target memTarget message memMessage (targetId ▸ targetFree) free _ _ targetPossible possible
          rw [targetId]
          exact here
        obtain ⟨rfl⟩ := valid.content _ memTarget _ memMessage ids
        obtain ⟨rfl⟩ : receipt.recipientId = recipient := by
          rw [targetId] at here
          exact inboxKey_recipient here
        let copy : Copy receipt.recipientId target.id := ⟨receipt, rfl, targetId.symm, valid.stamped receipt mem⟩
        have copies : Known registry (past ++ [.receipt receipt]) target receipt.recipientId =
            insert copy (Known registry past target receipt.recipientId) := by
          ext one
          have same : one = copy ↔ one.receipt = receipt := ⟨fun equal => equal ▸ rfl, fun equal => Copy.ext equal⟩
          simp only [Known, arrivals, mem_append, mem_singleton, Item.receipt.injEq, Set.mem_ofPred_eq,
            Set.mem_insert_iff, same]
          tauto
        rw [copies]
        have before := imported.held target memTarget free receipt.recipientId possible
        cases held : store.inbox[inboxKey receipt.recipientId target.id]? with
        | none =>
          rw [held] at before
          rw [show Known registry past target receipt.recipientId = ∅ from before, insert_empty_eq]
          exact ⟨copy, rfl, Sums.single copy⟩
        | some existing =>
          rw [held] at before
          obtain ⟨old, equal, sums⟩ := before
          exact ⟨old ⊔ copy, by rw [Copy.sup_receipt, equal]; rfl, sums.merged copy⟩
      · rw [if_neg here, others message recipient (fun both => here (by rw [both.1, both.2]))]
        exact imported.held message memMessage free recipient possible
    · intro key present
      rw [inbox] at present
      by_cases here : inboxKey receipt.recipientId receipt.messageId = key
      · exact ⟨target, memTarget, targetId ▸ targetFree, receipt.recipientId, targetPossible, by rw [targetId]; exact here.symm⟩
      · rw [if_neg here] at present
        exact imported.kept key present

theorem Imported.step {item : Item} (due : Due messages receipts past item) :
    Imported registry messages receipts (past ++ [item]) (importItem store item) := by
  cases item with
  | receipt receipt => exact imported.receipt valid apart due
  | message among message =>
    obtain ⟨mem, _⟩ := due
    rcases importItem_message (valid.valid message mem) with ⟨there, same⟩ | ⟨_, taken, same⟩ | ⟨absent, free, next, indexed, same⟩
    · rw [same]
      apply imported.again mem
      intro _
      obtain ⟨existing, found⟩ := isSome_iff_exists.mp there
      obtain ⟨sameId, _, came⟩ := (imported.stored message.id existing).mp found
      rw [← valid.content _ (imported.known existing came) _ mem sameId]
      exact came
    · rw [same]
      apply imported.again mem
      intro free
      rw [imported.free, free] at taken
      cases taken
    · rw [same]
      rw [imported.free] at free
      exact imported.store valid apart mem absent free indexed

end

def Orderly (messages : List WireMessage) (receipts : List DeliveryReceipt) (past : List Item) : List Item → Prop
  | [] => True
  | item :: rest => Due messages receipts past item ∧ Orderly messages receipts (past ++ [item]) rest

theorem Imported.run (valid : Valid messages receipts) (apart : Apart registry messages receipts) {items : List Item}
    {store : WireStore} (imported : Imported registry messages receipts past store)
    (orderly : Orderly messages receipts past items) :
    Imported registry messages receipts (past ++ items) (items.foldl importItem store) := by
  induction items generalizing past store with
  | nil =>
    rw [append_nil]
    exact imported
  | cons item rest ih =>
    rw [foldl_cons, append_cons]
    exact ih (imported.step valid apart orderly.1) orderly.2

theorem orderly_append {first second : List Item} (one : Orderly messages receipts past first)
    (two : Orderly messages receipts (past ++ first) second) : Orderly messages receipts past (first ++ second) := by
  induction first generalizing past with
  | nil =>
    rw [append_nil] at two
    exact two
  | cons item rest ih =>
    rw [append_cons] at two
    exact ⟨one.1, ih one.2 two⟩

theorem orderly_messages {list : List WireMessage} (past : List Item)
    (within : ∀ message ∈ list, message ∈ messages) (given : ∀ receipt ∈ among, receipt ∈ receipts) :
    Orderly messages receipts past (list.map (.message among)) := by
  induction list generalizing past with
  | nil => trivial
  | cons first rest ih =>
    exact ⟨⟨within first mem_cons_self, given⟩, ih _ fun message mem => within message (mem_cons_of_mem _ mem)⟩

theorem arrival_isSome :
    (arrival message past).isSome = true ↔ ∃ among, Item.message among message ∈ past := by
  unfold arrival
  rw [findSome?_isSome_iff]
  constructor
  · rintro ⟨item, mem, found⟩
    cases item with
    | receipt receipt => cases found
    | message among other =>
      by_cases same : other = message
      · subst same
        exact ⟨among, mem⟩
      · simp [same] at found
  · rintro ⟨among, mem⟩
    exact ⟨_, mem, by simp⟩

theorem arrival_mem
    (came : arrival message past = some among) : Item.message among message ∈ past := by
  obtain ⟨item, mem, found⟩ := exists_of_findSome?_eq_some came
  cases item with
  | receipt receipt => cases found
  | message list other =>
    by_cases same : other = message
    · subst same
      obtain ⟨rfl⟩ : list = among := by simpa using found
      exact mem
    · simp [same] at found

theorem orderly_receipts {list : List DeliveryReceipt} (within : ∀ receipt ∈ list, receipt ∈ receipts)
    (come : ∀ receipt ∈ list, ∀ message ∈ messages, message.id = receipt.messageId →
      ∃ among, Item.message among message ∈ past) :
    Orderly messages receipts past (list.map .receipt) := by
  induction list generalizing past with
  | nil => trivial
  | cons first rest ih =>
    refine ⟨⟨within first mem_cons_self, ?_⟩, ih (fun receipt mem => within receipt (mem_cons_of_mem _ mem)) ?_⟩
    · intro message mem of_
      exact arrival_isSome.mpr (come first mem_cons_self message mem of_)
    · intro receipt memReceipt message mem of_
      obtain ⟨among, came⟩ := come receipt (mem_cons_of_mem _ memReceipt) message mem of_
      exact ⟨among, mem_append_left _ came⟩

theorem Imported.unchanged {store : WireStore} (imported : Imported registry messages receipts past store)
    (valid : Valid messages receipts) (due : ∀ receipt, Item.receipt receipt ∈ past → receipt ∈ receipts) {item : Item}
    (came : item ∈ past) : importItem store item = store := by
  cases item with
  | message among message =>
    have arrived := arrival_isSome.mpr ⟨among, came⟩
    rcases importItem_message (valid.valid message (imported.known message arrived)) with
      ⟨_, same⟩ | ⟨_, _, same⟩ | ⟨absent, free, _⟩
    · exact same
    · exact same
    · rw [imported.free] at free
      rw [(imported.stored message.id message).mpr ⟨rfl, free, arrived⟩] at absent
      cases absent
  | receipt receipt =>
    have mem := due receipt came
    simp only [importItem, importReceipt]
    rcases found : store.message? receipt.messageId with _ | message
    · rfl
    obtain ⟨sameId, free, arrived⟩ := (imported.stored receipt.messageId message).mp found
    have holds := imported.held message (imported.known message arrived) (sameId ▸ free) receipt.recipientId
      (.inr ⟨receipt, mem, rfl, sameId.symm⟩)
    let copy : Copy receipt.recipientId message.id := ⟨receipt, rfl, sameId.symm, valid.stamped receipt mem⟩
    have known : copy ∈ Known registry past message receipt.recipientId := .inl came
    have key : inboxKey receipt.recipientId message.id = inboxKey receipt.recipientId receipt.messageId := by rw [sameId]
    rw [key] at holds
    cases held : store.inbox[inboxKey receipt.recipientId receipt.messageId]? with
    | none =>
      rw [held] at holds
      rw [show Known registry past message receipt.recipientId = ∅ from holds] at known
      exact absurd known (Set.notMem_empty copy)
    | some existing =>
      rw [held] at holds
      obtain ⟨old, equal, sums⟩ := holds
      have below : old ⊔ copy = old := sup_eq_left.mpr (sums.least.1 known)
      have merged : merge existing receipt = existing := by
        rw [← equal]
        exact congrArg Copy.receipt below
      simp [merged]

end Run

end FerroLoop.Wire.Inbox
