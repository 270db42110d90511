import FerroLoop.Wire.Inbox.Imported

namespace FerroLoop.Wire.Inbox

open List Batch Registry

structure Division (messages : List WireMessage) (receipts : List DeliveryReceipt) (batches : List Batch) : Prop where
  within : ∀ batch ∈ batches,
    (∀ message ∈ batch.messages, message ∈ messages) ∧ ∀ receipt ∈ batch.receipts, receipt ∈ receipts
  givesMessages : ∀ message ∈ messages, ∃ batch ∈ batches, message ∈ batch.messages
  givesReceipts : ∀ receipt ∈ receipts, ∃ batch ∈ batches, receipt ∈ batch.receipts
  ordered : ∀ before batch after, batches = before ++ batch :: after → ∀ receipt ∈ batch.receipts,
    ∀ message ∈ messages, message.id = receipt.messageId → ∃ earlier ∈ before ++ [batch], message ∈ earlier.messages

/-- However the items are divided, the stores end with the same messages and receipts, and no batch changes anything
when it comes again. -/
def Converges (registry : Registry) (messages : List WireMessage) (receipts : List DeliveryReceipt) : Prop :=
  ∀ first second, Division messages receipts first → Division messages receipts second →
    (importAll (.empty registry) first).messages = (importAll (.empty registry) second).messages ∧
    (importAll (.empty registry) first).inbox = (importAll (.empty registry) second).inbox ∧
    ∀ batch ∈ first, importBatch (importAll (.empty registry) first) batch = importAll (.empty registry) first

def FiledFor (message : WireMessage) (recipient : Iri × String) (receipt : DeliveryReceipt) : Prop :=
  receipt.recipientId = recipient.1 ∧ receipt.messageId = message.id

/-- No row of the inbox is shared, and where a receipt mentions a recipient of a message, the receipts filed for
that recipient say all that the receipt would say which the store makes. -/
structure Settled (registry : Registry) (messages : List WireMessage) (receipts : List DeliveryReceipt) : Prop where
  apart : Apart registry messages receipts
  covered : ∀ message ∈ messages, registry.free message.id = true → ∀ recipient ∈ registry.recipients message,
    receipts.any (mentions message recipient) = true →
      (∃ receipt ∈ receipts, FiledFor message recipient receipt ∧ message.createdAt ≤ receipt.updatedAt) ∧
      ∃ receipt ∈ receipts, FiledFor message recipient receipt ∧
        betterName receipt.recipientName recipient.2 = receipt.recipientName

variable {among : List DeliveryReceipt}

section Division

variable {messages : List WireMessage} {receipts : List DeliveryReceipt} {batches : List Batch}

theorem mem_items_message {message : WireMessage} :
    Item.message among message ∈ batches.flatMap items ↔
      ∃ batch ∈ batches, message ∈ batch.messages ∧ batch.receipts = among := by
  rw [mem_flatMap]
  apply exists_congr
  intro batch
  simp [items]

theorem mem_items_receipt {receipt : DeliveryReceipt} :
    Item.receipt receipt ∈ batches.flatMap items ↔ ∃ batch ∈ batches, receipt ∈ batch.receipts := by
  rw [mem_flatMap]
  apply exists_congr
  intro batch
  simp [items]

section

variable (division : Division messages receipts batches)

include division

theorem Division.orderly : Orderly messages receipts [] (batches.flatMap items) := by
  -- Induction on the batches to come; those that came are the past.
  have suffix : ∀ after before, batches = before ++ after →
      Orderly messages receipts (before.flatMap items) (after.flatMap items) := by
    intro after
    induction after with
    | nil => exact fun _ _ => trivial
    | cons batch rest ih =>
      intro before same
      obtain ⟨givenMessages, givenReceipts⟩ := division.within batch (by rw [same]; simp)
      refine orderly_append (orderly_append (orderly_messages _ givenMessages givenReceipts)
        (orderly_receipts givenReceipts ?_)) ?_
      · intro receipt memReceipt message mem of_
        obtain ⟨earlier, memEarlier, here⟩ := division.ordered before batch rest same receipt memReceipt message mem of_
        refine ⟨earlier.receipts, ?_⟩
        rcases mem_append.mp memEarlier with old | last
        · exact mem_append_left _ (mem_items_message.mpr ⟨earlier, old, here, rfl⟩)
        · obtain ⟨rfl⟩ : earlier = batch := by simpa using last
          exact mem_append_right _ (mem_map.mpr ⟨message, here, rfl⟩)
      · have next := ih (before ++ [batch]) (by rw [same, append_assoc, singleton_append])
        rw [flatMap_append, flatMap_singleton] at next
        exact next
  exact suffix batches [] rfl

theorem Division.came {message : WireMessage} :
    (arrival message (batches.flatMap items)).isSome = true ↔ message ∈ messages := by
  rw [arrival_isSome]
  constructor
  · rintro ⟨among, mem⟩
    obtain ⟨batch, memBatch, here, _⟩ := mem_items_message.mp mem
    exact (division.within batch memBatch).1 message here
  · intro mem
    obtain ⟨batch, memBatch, here⟩ := division.givesMessages message mem
    exact ⟨batch.receipts, mem_items_message.mpr ⟨batch, memBatch, here, rfl⟩⟩

theorem Division.receipt {receipt : DeliveryReceipt} :
    Item.receipt receipt ∈ batches.flatMap items ↔ receipt ∈ receipts := by
  rw [mem_items_receipt]
  constructor
  · rintro ⟨batch, memBatch, here⟩
    exact (division.within batch memBatch).2 receipt here
  · exact division.givesReceipts receipt

end

variable {registry : Registry}

theorem Division.imported (division : Division messages receipts batches) (valid : Valid messages receipts)
    (apart : Apart registry messages receipts) :
    Imported registry messages receipts (batches.flatMap items) (importAll (.empty registry) batches) := by
  rw [importAll_items]
  exact Imported.start.run valid apart division.orderly

end Division

section Order

variable {recipient : Iri} {id : MessageId}

theorem Copy.le_time {a b : Copy recipient id} (below : a ≤ b) : a.receipt.updatedAt ≤ b.receipt.updatedAt := by
  have joined : (a ⊔ b).receipt.updatedAt = b.receipt.updatedAt := by rw [sup_eq_right.mpr below]
  have time : a.receipt.updatedAt.max b.receipt.updatedAt = b.receipt.updatedAt := joined
  have millis := congrArg At.unixMillis time
  rw [At.max_unixMillis] at millis
  show a.receipt.updatedAt.unixMillis ≤ b.receipt.updatedAt.unixMillis
  omega

theorem Copy.le_name {a b : Copy recipient id} (below : a ≤ b) :
    betterName b.receipt.recipientName a.receipt.recipientName = b.receipt.recipientName := by
  have joined : (b ⊔ a).receipt.recipientName = b.receipt.recipientName := by rw [sup_eq_left.mpr below]
  exact joined

theorem pending_le_iff {message : WireMessage} {one : Iri × String} {made copy : Copy recipient id}
    (pending : made.receipt = pendingReceipt message one) :
    made ≤ copy ↔ message.createdAt ≤ copy.receipt.updatedAt ∧
      betterName copy.receipt.recipientName one.2 = copy.receipt.recipientName := by
  constructor
  · intro below
    have time := Copy.le_time below
    have name := Copy.le_name below
    rw [pending] at time name
    exact ⟨time, name⟩
  · rintro ⟨time, name⟩
    apply sup_eq_left.mp
    apply Copy.ext
    rw [Copy.sup_receipt, merge_eq copy.stamped made.stamped, pending]
    have millis : copy.receipt.updatedAt.max message.createdAt = copy.receipt.updatedAt := by
      apply At.ext
      rw [At.max_unixMillis]
      exact Nat.max_eq_left time
    have status : further copy.receipt.status .pending = copy.receipt.status := by
      cases copy.receipt.status <;> rfl
    have acked : firstAck copy.receipt.ackedAt none = copy.receipt.ackedAt := by
      cases copy.receipt.ackedAt <;> rfl
    simp only [pendingReceipt, name, millis, status, acked, Nat.max_zero]

end Order

section Settled

variable {registry : Registry} {messages : List WireMessage} {receipts : List DeliveryReceipt}

variable {message : WireMessage} {recipient : Iri} {first second : List Batch}

theorem opened_some {one : Iri × String}
    (found : opened registry message among recipient = some one) :
    one ∈ registry.recipients message ∧ one.1 = recipient ∧ among.any (mentions message one) = false := by
  have matched := find?_some found
  simp only [Bool.and_eq_true, beq_iff_eq, Bool.not_eq_true'] at matched
  exact ⟨mem_of_find?_eq_some found, matched.1, matched.2⟩

theorem opened_of_unmentioned {one : Iri × String}
    (mem : one ∈ registry.recipients message) (unmentioned : among.any (mentions message one) = false) :
    opened registry message among one.1 = some one := by
  cases found : opened registry message among one.1 with
  | none =>
    have refused := find?_eq_none.mp found one mem
    simp [unmentioned] at refused
  | some other =>
    obtain ⟨memOther, same, _⟩ := opened_some found
    rw [recipients_unique memOther mem same]

section

variable (valid : Valid messages receipts) (settled : Settled registry messages receipts) (one : Division messages receipts first) (two : Division messages receipts second) (mem : message ∈ messages) (free : registry.free message.id = true)

include valid settled one two mem free

theorem known_bounded
    {copy : Copy recipient message.id} (known : copy ∈ Known registry (first.flatMap items) message recipient) :
    (Known registry (second.flatMap items) message recipient).Nonempty ∧
      ∀ bound ∈ upperBounds (Known registry (second.flatMap items) message recipient), copy ≤ bound := by
  have present : copy ∈ Known registry (second.flatMap items) message recipient →
      (Known registry (second.flatMap items) message recipient).Nonempty ∧
        ∀ bound ∈ upperBounds (Known registry (second.flatMap items) message recipient), copy ≤ bound :=
    fun here => ⟨⟨copy, here⟩, fun _ above => above here⟩
  rcases known with came | ⟨among, made, _, found, pending⟩
  · exact present (.inl (two.receipt.mpr (one.receipt.mp came)))
  obtain ⟨memMade, rfl, _⟩ := opened_some found
  cases mentioned : receipts.any (mentions message made) with
  | false =>
    apply present
    obtain ⟨list, arrived⟩ := Option.isSome_iff_exists.mp (two.came.mpr mem)
    refine .inr ⟨list, made, arrived, opened_of_unmentioned memMade ?_, pending⟩
    obtain ⟨batch, memBatch, _, rfl⟩ := mem_items_message.mp (arrival_mem arrived)
    rw [any_eq_false] at mentioned ⊢
    exact fun receipt here => mentioned receipt ((two.within batch memBatch).2 receipt here)
  | true =>
    obtain ⟨⟨recent, memRecent, filedRecent, time⟩, ⟨named, memNamed, filedNamed, name⟩⟩ :=
      settled.covered message mem free made memMade mentioned
    have there : ∀ (receipt : DeliveryReceipt), receipt ∈ receipts → FiledFor message made receipt →
        ∃ other ∈ Known registry (second.flatMap items) message made.1, other.receipt = receipt := by
      intro receipt memReceipt filed
      exact ⟨⟨receipt, filed.1, filed.2, valid.stamped receipt memReceipt⟩, .inl (two.receipt.mpr memReceipt), rfl⟩
    obtain ⟨a, knownA, rfl⟩ := there recent memRecent filedRecent
    obtain ⟨b, knownB, rfl⟩ := there named memNamed filedNamed
    refine ⟨⟨a, knownA⟩, ?_⟩
    intro bound above
    rw [pending_le_iff pending]
    refine ⟨Nat.le_trans time (Copy.le_time (above knownA)), ?_⟩
    have better := Copy.le_name (above knownB)
    rw [← better, betterName_assoc, name]

theorem known_alike (recipient : Iri) : ((Known registry (first.flatMap items) message recipient).Nonempty ↔
      (Known registry (second.flatMap items) message recipient).Nonempty) ∧
    upperBounds (Known registry (first.flatMap items) message recipient) =
      upperBounds (Known registry (second.flatMap items) message recipient) := by
  refine ⟨⟨?_, ?_⟩, Set.Subset.antisymm ?_ ?_⟩
  · rintro ⟨copy, known⟩
    exact (known_bounded valid settled one two mem free known).1
  · rintro ⟨copy, known⟩
    exact (known_bounded valid settled two one mem free known).1
  · exact fun bound above copy known => (known_bounded valid settled two one mem free known).2 bound above
  · exact fun bound above copy known => (known_bounded valid settled one two mem free known).2 bound above

end

theorem Imported.stored_eq {left right : WireStore} (one : Division messages receipts first)
    (two : Division messages receipts second)
    (importedLeft : Imported registry messages receipts (first.flatMap items) left)
    (importedRight : Imported registry messages receipts (second.flatMap items) right) :
    left.messages = right.messages := by
  apply Std.ExtTreeMap.ext_getElem?
  intro key
  apply Option.ext
  intro message
  have leftStored := importedLeft.stored ⟨⟨key⟩⟩ message
  have rightStored := importedRight.stored ⟨⟨key⟩⟩ message
  rw [one.came] at leftStored
  rw [two.came] at rightStored
  exact leftStored.trans rightStored.symm

theorem importItems_unchanged {store : WireStore} {items : List Item}
    (unchanged : ∀ item ∈ items, importItem store item = store) : items.foldl importItem store = store := by
  induction items with
  | nil => rfl
  | cons first rest ih =>
    rw [foldl_cons, unchanged first mem_cons_self]
    exact ih fun item mem => unchanged item (mem_cons_of_mem _ mem)

theorem settled_converges (valid : Valid messages receipts) (settled : Settled registry messages receipts) :
    Converges registry messages receipts := by
  intro first second one two
  have importedLeft := one.imported valid settled.apart
  have importedRight := two.imported valid settled.apart
  refine ⟨Imported.stored_eq one two importedLeft importedRight, ?_, ?_⟩
  · apply Std.ExtTreeMap.ext_getElem?
    intro key
    by_cases here : ∃ message ∈ messages, registry.free message.id = true ∧
        ∃ recipient, Possible registry receipts message recipient ∧ key = inboxKey recipient message.id
    · obtain ⟨message, mem, free, recipient, possible, rfl⟩ := here
      obtain ⟨filled, bounds⟩ := known_alike valid settled one two mem free recipient
      exact (importedLeft.held message mem free recipient possible).unique
        (importedRight.held message mem free recipient possible) filled bounds
    · have absent : ∀ {past : List Item} {store : WireStore}, Imported registry messages receipts past store →
          store.inbox[key]? = none := by
        intro past store imported
        apply Option.not_isSome_iff_eq_none.mp
        exact fun present => here (imported.kept key present)
      rw [absent importedLeft, absent importedRight]
  · intro batch memBatch
    rw [importBatch_items]
    have unchanged : ∀ item ∈ batch.items,
        importItem (importAll (.empty registry) first) item = importAll (.empty registry) first := by
      intro item memItem
      exact importedLeft.unchanged valid (fun receipt came => one.receipt.mp came)
        (mem_flatMap.mpr ⟨batch, memBatch, memItem⟩)
    exact importItems_unchanged unchanged

theorem importItem_first (judged : validate message = .ok ())
    (free : registry.free message.id = true) (among : List DeliveryReceipt) :
    let store := importItem (.empty registry) (.message among message)
    (store.message? message.id).isSome = true ∧ ∀ recipient,
      store.inbox[inboxKey recipient message.id]? =
        (opened registry message among recipient).map (pendingReceipt message) := by
  rcases @importItem_message (.empty registry) among _ judged with
    ⟨there, _⟩ | ⟨_, taken, _⟩ | ⟨_, _, next, indexed, same⟩
  · cases there
  · rw [show (WireStore.empty registry).registry = registry from rfl, free] at taken
    cases taken
  obtain ⟨_, agents, areas, _⟩ := indexMessageId_ok indexed
  simp only [same]
  refine ⟨by rw [storeMessage_message?, if_pos rfl]; rfl, ?_⟩
  intro recipient
  rw [storeMessage_inbox, opened_congr agents areas]
  simp [WireStore.empty]

section

variable (valid : Valid messages receipts)

include valid

theorem Possible.leads (mem : message ∈ messages)
    (free : registry.free message.id = true) (possible : Possible registry receipts message recipient) :
    ∃ batch : Batch, Division messages receipts [batch, ⟨messages, receipts⟩] ∧
      ∃ held, (importBatch (.empty registry) batch).inbox[inboxKey recipient message.id]? = some held ∧
        held.messageId = message.id := by
  have division : ∀ list : List DeliveryReceipt, (∀ receipt ∈ list, receipt ∈ receipts ∧ receipt.messageId = message.id) →
      Division messages receipts [⟨[message], list⟩, ⟨messages, receipts⟩] := by
    intro list given
    refine { within := ?_, givesMessages := ?_, givesReceipts := ?_, ordered := ?_ }
    · intro batch memBatch
      rcases mem_cons.mp memBatch with rfl | last
      · exact ⟨fun other here => by rw [mem_singleton.mp here]; exact mem, fun receipt here => (given receipt here).1⟩
      · obtain ⟨rfl⟩ := mem_singleton.mp last
        exact ⟨fun _ here => here, fun _ here => here⟩
    · exact fun other here => ⟨⟨messages, receipts⟩, by simp, here⟩
    · exact fun receipt here => ⟨⟨messages, receipts⟩, by simp, here⟩
    · intro before batch after same receipt memReceipt other memOther of_
      have memBatch : batch ∈ [(⟨[message], list⟩ : Batch), ⟨messages, receipts⟩] := by
        rw [same]
        simp
      refine ⟨batch, by simp, ?_⟩
      rcases mem_cons.mp memBatch with rfl | last
      · have sameId := of_.trans (given receipt memReceipt).2
        rw [valid.content _ memOther _ mem sameId]
        exact mem_singleton.mpr rfl
      · obtain ⟨rfl⟩ := mem_singleton.mp last
        exact memOther
  rcases possible with ⟨one, memOne, rfl⟩ | ⟨receipt, memReceipt, rfl, of_⟩
  · refine ⟨⟨[message], []⟩, division [] (by simp), pendingReceipt message one, ?_, rfl⟩
    show (importItem (.empty registry) (.message [] message)).inbox[inboxKey one.1 message.id]? = _
    rw [(importItem_first (valid.valid message mem) free []).2, opened_of_unmentioned memOne rfl]
    rfl
  · refine ⟨⟨[message], [receipt]⟩, division [receipt] ?_, ?_⟩
    · intro other here
      rw [mem_singleton.mp here]
      exact ⟨memReceipt, of_⟩
    obtain ⟨there, rows⟩ := importItem_first (valid.valid message mem) free [receipt]
    rw [importBatch_items]
    show ∃ held : DeliveryReceipt, (importItem (importItem (.empty registry) (.message [receipt] message)) (.receipt receipt)).inbox[
      inboxKey receipt.recipientId message.id]? = some held ∧ held.messageId = message.id
    rcases importItem_receipt (importItem (.empty registry) (.message [receipt] message)) receipt with
      ⟨missing, _⟩ | ⟨_, _, _, inbox⟩
    · rw [of_] at missing
      rw [missing] at there
      cases there
    · rw [inbox, of_, if_pos rfl, rows]
      refine ⟨_, rfl, ?_⟩
      cases opened registry message [receipt] receipt.recipientId with
      | none => exact of_
      | some one => rfl

theorem converges_apart (converges : Converges registry messages receipts) :
    Apart registry messages receipts := by
  intro first memFirst second memSecond freeFirst freeSecond one other possibleFirst possibleSecond sameKey
  obtain ⟨batch, division, held, row, ofFirst⟩ := possibleFirst.leads valid memFirst freeFirst
  obtain ⟨batch', division', held', row', ofSecond⟩ := possibleSecond.leads valid memSecond freeSecond
  have inbox := (converges _ _ division division').2.1
  have lasts : ∀ {batch : Batch} {key : String} {held : DeliveryReceipt},
      (importBatch (.empty registry) batch).inbox[key]? = some held →
      ∃ next, (importAll (.empty registry) [batch, ⟨messages, receipts⟩]).inbox[key]? = some next ∧
        next.messageId = held.messageId := by
    intro batch key held row
    show ∃ next, (importBatch (importBatch (.empty registry) batch) ⟨messages, receipts⟩).inbox[key]? = some next ∧ _
    rw [importBatch_items (importBatch (.empty registry) batch)]
    exact importItems_row (fun next => next.messageId = held.messageId) (fun _ _ same => same) _ row rfl
  obtain ⟨next, found, same⟩ := lasts row
  obtain ⟨next', found', same'⟩ := lasts row'
  rw [sameKey, inbox, found'] at found
  cases found
  rw [← ofFirst, ← same, same', ofSecond]

theorem converges_covered (converges : Converges registry messages receipts)
    (apart : Apart registry messages receipts) (mem : message ∈ messages)
    (free : registry.free message.id = true) {recipient : Iri × String} (memRecipient : recipient ∈ registry.recipients message)
    (mentioned : receipts.any (mentions message recipient) = true) :
    (∃ receipt ∈ receipts, FiledFor message recipient receipt ∧ message.createdAt ≤ receipt.updatedAt) ∧
    ∃ receipt ∈ receipts, FiledFor message recipient receipt ∧
      betterName receipt.recipientName recipient.2 = receipt.recipientName := by
  have late : Division messages receipts [⟨messages, []⟩, ⟨[], receipts⟩] := by
    refine { within := ?_, givesMessages := ?_, givesReceipts := ?_, ordered := ?_ }
    · simp
    · exact fun other here => ⟨⟨messages, []⟩, by simp, here⟩
    · exact fun receipt here => ⟨⟨[], receipts⟩, by simp, here⟩
    intro before batch after same receipt here other memOther _
    cases before with
    | nil =>
      cases same
      cases here
    | cons first rest =>
      have head := (List.cons.inj same).1
      exact ⟨first, by simp, by rw [← head]; exact memOther⟩
  have once : Division messages receipts [⟨messages, receipts⟩] := by
    refine { within := ?_, givesMessages := ?_, givesReceipts := ?_, ordered := ?_ }
    · simp
    · exact fun other here => ⟨⟨messages, receipts⟩, by simp, here⟩
    · exact fun receipt here => ⟨⟨messages, receipts⟩, by simp, here⟩
    intro before batch after same receipt _ other memOther _
    have only : batch = ⟨messages, receipts⟩ := by
      have listed : batch ∈ [(⟨messages, receipts⟩ : Batch)] := by
        rw [same]
        simp
      simpa using listed
    exact ⟨batch, by simp, by rw [only]; exact memOther⟩
  have possible : Possible registry receipts message recipient.1 := .inl ⟨recipient, memRecipient, rfl⟩
  have holdsLate := (late.imported valid apart).held message mem free recipient.1 possible
  have holdsOnce := (once.imported valid apart).held message mem free recipient.1 possible
  rw [(converges _ _ late once).2.1] at holdsLate
  -- The messages came alone, so the store made a receipt of its own.
  have made : opened registry message [] recipient.1 = some recipient := opened_of_unmentioned memRecipient rfl
  have knownLate : openedCopy made ∈ Known registry ([⟨messages, []⟩, ⟨[], receipts⟩].flatMap items) message recipient.1 := by
    obtain ⟨list, arrived⟩ := Option.isSome_iff_exists.mp (late.came.mpr mem)
    obtain ⟨batch, memBatch, here, rfl⟩ := mem_items_message.mp (arrival_mem arrived)
    refine .inr ⟨batch.receipts, recipient, arrived, ?_, rfl⟩
    simp only [mem_cons, not_mem_nil, or_false] at memBatch
    rcases memBatch with rfl | rfl
    · exact made
    · cases here
  -- They came with the receipts, one of which mentions the recipient, so it made none.
  have knownOnce : ∀ copy ∈ Known registry ([⟨messages, receipts⟩].flatMap items) message recipient.1,
      copy.receipt ∈ receipts ∧ FiledFor message recipient copy.receipt := by
    rintro copy (came | ⟨among, one, arrived, found, _⟩)
    · exact ⟨once.receipt.mp came, copy.recipientId, copy.messageId⟩
    obtain ⟨batch, memBatch, _, rfl⟩ := mem_items_message.mp (arrival_mem arrived)
    obtain ⟨rfl⟩ := mem_singleton.mp memBatch
    obtain ⟨memOne, same, unmentioned⟩ := opened_some found
    rw [recipients_unique memOne memRecipient same, mentioned] at unmentioned
    cases unmentioned
  cases held : (importAll (.empty registry) [⟨messages, receipts⟩]).inbox[inboxKey recipient.1 message.id]? with
  | none =>
    rw [held] at holdsLate
    rw [show Known registry _ message recipient.1 = ∅ from holdsLate] at knownLate
    exact absurd knownLate (Set.notMem_empty _)
  | some receipt =>
    rw [held] at holdsLate holdsOnce
    obtain ⟨copy, same, sums⟩ := holdsLate
    obtain ⟨other, sameOther, sumsOther⟩ := holdsOnce
    obtain ⟨rfl⟩ : copy = other := Copy.ext (same.trans sameOther.symm)
    obtain ⟨time, name⟩ := (@pending_le_iff _ _ message recipient _ _ rfl).mp (sums.least.1 knownLate)
    obtain ⟨recent, knownRecent, sameTime⟩ := sumsOther.time
    obtain ⟨named, knownNamed, sameName⟩ := sumsOther.name
    refine ⟨⟨recent.receipt, (knownOnce recent knownRecent).1, (knownOnce recent knownRecent).2, ?_⟩,
      ⟨named.receipt, (knownOnce named knownNamed).1, (knownOnce named knownNamed).2, ?_⟩⟩
    · rw [sameTime]
      exact time
    · rw [sameName]
      exact name

/-- Imports converge exactly when no row is shared and no receipt of the store's own depends on the batches. -/
theorem converges_iff_settled :
    Converges registry messages receipts ↔ Settled registry messages receipts := by
  constructor
  · intro converges
    have apart := converges_apart valid converges
    exact ⟨apart, fun message mem free recipient memRecipient mentioned =>
      converges_covered valid converges apart mem free memRecipient mentioned⟩
  · exact settled_converges valid

end

end Settled

/-! ### A mail to a name nobody has registered -/

def toFerris : WireMessage where
  id := ⟨⟨"urn:uuid:m1"⟩⟩
  threadId := ⟨⟨"urn:uuid:m1"⟩⟩
  replyTo := none
  correlationId := none
  senderId := none
  senderName := "owner"
  senderHost := none
  to_ := .agentName "ferris"
  kind := .mail
  urgency := .normal
  durable := true
  subject := "hello"
  body := "hello"
  createdAt := ⟨1, by decide⟩
  deadlineAt := none

def byFerris (recipient : Iri) : DeliveryReceipt where
  messageId := toFerris.id
  recipientId := recipient
  recipientName := "ferris"
  status := .delivered
  attempts := 1
  updatedAt := ⟨2, by decide⟩
  ackedAt := none

theorem toFerris_valid (recipient : Iri) : Valid [toFerris] [byFerris recipient] where
  valid := by
    intro message mem
    rw [mem_singleton.mp mem]
    decide +kernel
  content := by
    intro first memFirst second memSecond _
    rw [mem_singleton.mp memFirst, mem_singleton.mp memSecond]
  stamped := by
    intro receipt mem
    rw [mem_singleton.mp mem]
    simp [Stamped, byFerris]

theorem converges_iff_settled_own_id :
    Valid [toFerris] [byFerris (fallbackAgentIri "ferris")] ∧
      (Converges empty [toFerris] [byFerris (fallbackAgentIri "ferris")] ↔
        Settled empty [toFerris] [byFerris (fallbackAgentIri "ferris")]) :=
  ⟨toFerris_valid _, converges_iff_settled (toFerris_valid _)⟩

/-- The mail alone and the mail with the receipt, in both orders: the first store opens a receipt for the name, the
second does not. -/
theorem toFerris_diverges :
    Valid [toFerris] [byFerris ⟨"urn:uuid:a1"⟩] ∧
      (importAll (.empty empty) [⟨[toFerris], []⟩, ⟨[toFerris], [byFerris ⟨"urn:uuid:a1"⟩]⟩]).inbox.size = 2 ∧
      (importAll (.empty empty) [⟨[toFerris], [byFerris ⟨"urn:uuid:a1"⟩]⟩, ⟨[toFerris], []⟩]).inbox.size = 1 ∧
      ¬Converges empty [toFerris] [byFerris ⟨"urn:uuid:a1"⟩] := by
  have both : (importAll (.empty empty)
      [⟨[toFerris], []⟩, ⟨[toFerris], [byFerris ⟨"urn:uuid:a1"⟩]⟩]).inbox.size = 2 := by decide +kernel
  have one : (importAll (.empty empty)
      [⟨[toFerris], [byFerris ⟨"urn:uuid:a1"⟩]⟩, ⟨[toFerris], []⟩]).inbox.size = 1 := by decide +kernel
  refine ⟨toFerris_valid _, both, one, ?_⟩
  intro converges
  have division : ∀ batches : List Batch,
      batches = [⟨[toFerris], []⟩, ⟨[toFerris], [byFerris ⟨"urn:uuid:a1"⟩]⟩] ∨
        batches = [⟨[toFerris], [byFerris ⟨"urn:uuid:a1"⟩]⟩, ⟨[toFerris], []⟩] →
      Division [toFerris] [byFerris ⟨"urn:uuid:a1"⟩] batches := by
    intro batches either
    have each : ∀ batch ∈ batches, batch.messages = [toFerris] ∧ batch.receipts ⊆ [byFerris ⟨"urn:uuid:a1"⟩] := by
      rcases either with rfl | rfl <;> simp
    refine { within := ?_, givesMessages := ?_, givesReceipts := ?_, ordered := ?_ }
    · intro batch mem
      obtain ⟨same, sub⟩ := each batch mem
      exact ⟨by rw [same]; exact fun _ here => here, fun _ here => sub here⟩
    · rcases either with rfl | rfl <;> simp
    · rcases either with rfl | rfl <;> simp
    · intro before batch after same receipt _ message mem _
      refine ⟨batch, by simp, ?_⟩
      rw [(each batch (by rw [same]; simp)).1]
      exact mem
  have same := (converges _ _ (division _ (.inl rfl)) (division _ (.inr rfl))).2.1
  rw [same, one] at both
  cases both

end FerroLoop.Wire.Inbox
