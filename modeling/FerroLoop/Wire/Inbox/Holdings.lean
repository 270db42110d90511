import FerroLoop.Wire.Inbox.Importing
import Mathlib.Data.List.Pairwise

namespace FerroLoop.Wire.Inbox

open List WireStore

open Store (BTreeMap)

section Sums

variable {recipient : Iri} {id : MessageId}

/-- The copy is the join of the copies, and its time and name are those of one of them. -/
structure Sums (copies : Set (Copy recipient id)) (copy : Copy recipient id) : Prop where
  least : IsLUB copies copy
  time : ∃ one ∈ copies, one.receipt.updatedAt = copy.receipt.updatedAt
  name : ∃ one ∈ copies, one.receipt.recipientName = copy.receipt.recipientName

/-- What the row of a recipient holds when exactly these copies have come in. -/
def Holds (held : Option DeliveryReceipt) (copies : Set (Copy recipient id)) : Prop :=
  match held with
  | none => copies = ∅
  | some receipt => ∃ copy : Copy recipient id, copy.receipt = receipt ∧ Sums copies copy

theorem At.max_choice (a b : At) : a.max b = a ∨ a.max b = b := by
  unfold At.max
  split
  · exact .inr rfl
  · exact .inl rfl

theorem betterName_choice (a b : String) : betterName a b = a ∨ betterName a b = b := by
  rw [betterName_eq]
  split
  · exact .inl rfl
  · split
    · exact .inr rfl
    · exact min_choice a b

theorem Sums.single (copy : Copy recipient id) : Sums {copy} copy where
  least := isLUB_singleton
  time := ⟨copy, rfl, rfl⟩
  name := ⟨copy, rfl, rfl⟩

theorem Sums.merged {copies : Set (Copy recipient id)} {copy : Copy recipient id} (sums : Sums copies copy)
    (incoming : Copy recipient id) : Sums (insert incoming copies) (copy ⊔ incoming) where
  least := by
    rw [sup_comm]
    exact sums.least.insert incoming
  time := by
    rcases At.max_choice copy.receipt.updatedAt incoming.receipt.updatedAt with first | second
    · obtain ⟨one, mem, same⟩ := sums.time
      exact ⟨one, Set.mem_insert_of_mem _ mem, same.trans first.symm⟩
    · exact ⟨incoming, Set.mem_insert _ _, second.symm⟩
  name := by
    rcases betterName_choice copy.receipt.recipientName incoming.receipt.recipientName with first | second
    · obtain ⟨one, mem, same⟩ := sums.name
      exact ⟨one, Set.mem_insert_of_mem _ mem, same.trans first.symm⟩
    · exact ⟨incoming, Set.mem_insert _ _, second.symm⟩

theorem Holds.unique {first second : Option DeliveryReceipt} {some_ other : Set (Copy recipient id)}
    (one : Holds first some_) (two : Holds second other) (filled : some_.Nonempty ↔ other.Nonempty)
    (bounds : upperBounds some_ = upperBounds other) : first = second := by
  cases first with
  | none =>
    rcases second with _ | receipt
    · rfl
    obtain ⟨copy, _, sums⟩ := two
    obtain ⟨member, mem, _⟩ := sums.time
    obtain ⟨lost, absent⟩ := filled.mpr ⟨member, mem⟩
    rw [show some_ = ∅ from one] at absent
    exact absurd absent (Set.notMem_empty lost)
  | some receipt =>
    obtain ⟨copy, same, sums⟩ := one
    cases second with
    | none =>
      obtain ⟨member, mem, _⟩ := sums.time
      obtain ⟨lost, absent⟩ := filled.mp ⟨member, mem⟩
      rw [show other = ∅ from two] at absent
      exact absurd absent (Set.notMem_empty lost)
    | some kept =>
      obtain ⟨counterpart, equal, sum⟩ := two
      have least : IsLUB other copy := by
        have given := sums.least
        unfold IsLUB at given ⊢
        rw [← bounds]
        exact given
      rw [← same, ← equal, least.unique sum.least]

end Sums

variable (among : List DeliveryReceipt) (store : WireStore) (registry : Registry) (message : WireMessage)
  (list : List (Iri × String))

theorem Registry.allAgents_distinct :
    registry.allAgents.Pairwise fun a b => a.id.iri ≠ b.id.iri := by
  unfold Registry.allAgents
  rw [pairwise_map]
  refine List.Pairwise.imp_of_mem ?_ (Map.toList_distinct registry.agents)
  intro a b memA memB differ same
  apply differ
  have first := registry.filed a.1 a.2 (Std.ExtTreeMap.mem_toList_iff_getElem?_eq_some.mp memA)
  have second := registry.filed b.1 b.2 (Std.ExtTreeMap.mem_toList_iff_getElem?_eq_some.mp memB)
  rw [← first, ← second, same]

theorem selected_distinct {agents : List AgentRecord} (distinct : agents.Pairwise fun a b => a.id.iri ≠ b.id.iri)
    (reached : AgentRecord → Bool) : (selected agents reached).Pairwise fun a b => a.1 ≠ b.1 := by
  refine (mergeSort_perm _ _).symm.pairwise ?_ (fun apart => Ne.symm apart)
  rw [pairwise_map]
  exact distinct.filter _

theorem Registry.recipients_distinct :
    (registry.recipients message).Pairwise fun a b => a.1 ≠ b.1 := by
  have agents := registry.allAgents_distinct
  unfold Registry.recipients resolveRecipients
  cases message.to_ with
  | agentName name | agentId id =>
    simp only
    split <;> exact pairwise_singleton _ _
  | group key =>
    simp only
    split
    · exact selected_distinct agents _
    · exact List.Pairwise.nil
  | all | area slug | role role | council | areaRole area role => exact selected_distinct agents _

theorem Registry.recipients_unique {registry : Registry} {message : WireMessage} {first second : Iri × String}
    (one : first ∈ registry.recipients message) (two : second ∈ registry.recipients message)
    (same : first.1 = second.1) : first = second := by
  have symmetric : Std.Symm fun a b : Iri × String => a.1 ≠ b.1 := ⟨fun _ _ apart => Ne.symm apart⟩
  by_contra differ
  exact (registry.recipients_distinct message).forall one two differ same

theorem Registry.recipients_congr {first second : Registry} (agents : first.agents = second.agents)
    (areas : first.areas = second.areas) (message : WireMessage) : first.recipients message = second.recipients message := by
  unfold Registry.recipients Registry.allAgents Registry.allAreas
  rw [agents, areas]

/-- The recipient for whom importing the message opens a receipt, when the batch has none of theirs. -/
def opened (registry : Registry) (message : WireMessage) (among : List DeliveryReceipt) (recipient : Iri) :
    Option (Iri × String) :=
  (registry.recipients message).find? fun one => one.1 == recipient && !among.any (mentions message one)

theorem openReceipt_frame (store : WireStore)
    (recipient : Iri × String) :
    (store.openReceipt among message recipient).registry = store.registry ∧
      (store.openReceipt among message recipient).messages = store.messages := by
  simp only [openReceipt]
  split <;> exact ⟨rfl, rfl⟩

theorem openReceipt_inbox (store : WireStore)
    (recipient : Iri × String) (key : String) :
    (store.openReceipt among message recipient).inbox[key]? =
      (store.inbox[key]?).or
        (if inboxKey recipient.1 message.id = key ∧ among.any (mentions message recipient) = false then
          some (pendingReceipt message recipient) else none) := by
  simp only [openReceipt]
  cases mentioned : among.any (mentions message recipient) with
  | true => simp
  | false =>
    by_cases here : inboxKey recipient.1 message.id = key
    · subst here
      cases held : store.inbox[inboxKey recipient.1 message.id]? with
      | none => simp [putReceipt]
      | some receipt => simp [held]
    · have other : ¬(inboxKey recipient.1 message.id = key ∧ false = false) := fun both => here both.1
      rw [if_neg other, Option.or_none]
      split
      · simp only [putReceipt, Map.getElem?_insert, if_neg here]
      · rfl

theorem openAll_frame
    (store : WireStore) :
    (list.foldl (openReceipt among message) store).registry = store.registry ∧
      (list.foldl (openReceipt among message) store).messages = store.messages := by
  induction list generalizing store with
  | nil => exact ⟨rfl, rfl⟩
  | cons first rest ih =>
    obtain ⟨registry, messages⟩ := openReceipt_frame among message store first
    rw [foldl_cons, (ih _).1, (ih _).2]
    exact ⟨registry, messages⟩

theorem openAll_inbox
    (store : WireStore) (recipient : Iri) :
    (list.foldl (openReceipt among message) store).inbox[inboxKey recipient message.id]? =
      (store.inbox[inboxKey recipient message.id]?).or
        ((list.find? fun one => one.1 == recipient && !among.any (mentions message one)).map (pendingReceipt message)) := by
  induction list generalizing store with
  | nil => simp
  | cons first rest ih =>
    rw [foldl_cons, ih, openReceipt_inbox, Option.or_assoc]
    congr 1
    by_cases same : first.1 = recipient
    · cases mentioned : among.any (mentions message first) with
      | true => simp [mentioned]
      | false => simp [same, mentioned]
    have apart : inboxKey first.1 message.id ≠ inboxKey recipient message.id := fun equal =>
      same (inboxKey_recipient equal)
    rw [if_neg (fun both => apart both.1), Option.none_or]
    simp [same]

variable {key : String}

theorem openAll_other
    (store : WireStore) (other : ∀ one ∈ list, inboxKey one.1 message.id ≠ key) :
    (list.foldl (openReceipt among message) store).inbox[key]? = store.inbox[key]? := by
  induction list generalizing store with
  | nil => rfl
  | cons first rest ih =>
    rw [foldl_cons, ih _ (fun one mem => other one (mem_cons_of_mem _ mem)), openReceipt_inbox,
      if_neg (fun both => other first mem_cons_self both.1), Option.or_none]

theorem importItem_message {store : WireStore} {among : List DeliveryReceipt} {message : WireMessage}
    (valid : validate message = .ok ()) :
    ((store.message? message.id).isSome = true ∧ importItem store (.message among message) = store) ∨
      (store.message? message.id = none ∧ store.registry.free message.id = false ∧
        importItem store (.message among message) = store) ∨
      (store.message? message.id = none ∧ store.registry.free message.id = true ∧
        ∃ registry, indexMessageId store.registry message.id.iri = .ok registry ∧
          importItem store (.message among message) = store.storeMessage among registry message) := by
  simp only [importItem, importMessage, valid]
  cases held : store.message? message.id with
  | some existing =>
    refine .inl ⟨rfl, ?_⟩
    simp only
    split <;> rfl
  | none =>
    refine .inr ?_
    cases indexed : indexMessageId store.registry message.id.iri with
    | error found => exact .inl ⟨rfl, indexMessageId_error indexed, rfl⟩
    | ok registry => exact .inr ⟨rfl, (indexMessageId_ok indexed).1, registry, rfl, rfl⟩

theorem appendWireMessage_inbox :
    (store.appendWireMessage message).inbox = store.inbox := by
  simp only [appendWireMessage]
  split <;> rfl

theorem appendWireMessage_registry :
    (store.appendWireMessage message).registry = store.registry := by
  simp only [appendWireMessage]
  split <;> rfl

theorem appendWireMessage_messages :
    (store.appendWireMessage message).messages = store.messages.insert message.id.iri.text message := by
  simp only [appendWireMessage]
  split <;> rfl

theorem storeMessage_registry : (store.storeMessage among registry message).registry = registry := by
  unfold storeMessage
  rw [(openAll_frame _ _ _ _).1, appendWireMessage_registry]

theorem storeMessage_message?
    (id : MessageId) :
    (store.storeMessage among registry message).message? id =
      if message.id = id then some message else store.message? id := by
  unfold storeMessage message?
  rw [(openAll_frame _ _ _ _).2, appendWireMessage_messages, Map.getElem?_insert]
  by_cases same : message.id = id
  · rw [if_pos same, if_pos (congrArg (fun id : MessageId => id.iri.text) same)]
  · rw [if_neg same, if_neg (fun equal => same (messageKey_injective equal))]

theorem storeMessage_inbox
    (recipient : Iri) :
    (store.storeMessage among registry message).inbox[inboxKey recipient message.id]? =
      (store.inbox[inboxKey recipient message.id]?).or
        ((opened registry message among recipient).map (pendingReceipt message)) := by
  unfold storeMessage
  rw [openAll_inbox, appendWireMessage_inbox]
  rfl

theorem storeMessage_other
    (other : ∀ one ∈ registry.recipients message, inboxKey one.1 message.id ≠ key) :
    (store.storeMessage among registry message).inbox[key]? = store.inbox[key]? := by
  unfold storeMessage
  rw [openAll_other _ _ _ _ other, appendWireMessage_inbox]

theorem importItem_receipt (receipt : DeliveryReceipt) :
    (store.message? receipt.messageId = none ∧ importItem store (.receipt receipt) = store) ∨
      ((store.message? receipt.messageId).isSome = true ∧
        (importItem store (.receipt receipt)).registry = store.registry ∧
        (importItem store (.receipt receipt)).messages = store.messages ∧
        ∀ key, (importItem store (.receipt receipt)).inbox[key]? =
          if inboxKey receipt.recipientId receipt.messageId = key then
            some ((store.inbox[key]?).elim receipt (fun held => merge held receipt))
          else store.inbox[key]?) := by
  simp only [importItem, importReceipt]
  rcases known : store.message? receipt.messageId with _ | message
  · exact .inl ⟨rfl, rfl⟩
  refine .inr ⟨rfl, ?_⟩
  cases held : store.inbox[inboxKey receipt.recipientId receipt.messageId]? with
  | none =>
    refine ⟨rfl, rfl, ?_⟩
    intro key
    by_cases here : inboxKey receipt.recipientId receipt.messageId = key
    · subst here
      simp [putReceipt, held]
    · simp [putReceipt, Map.getElem?_insert, here]
  | some existing =>
    simp only
    by_cases same : merge existing receipt = existing
    · rw [if_neg (fun differs => differs same)]
      refine ⟨rfl, rfl, ?_⟩
      intro key
      by_cases here : inboxKey receipt.recipientId receipt.messageId = key
      · subst here
        simp [held, same]
      · rw [if_neg here]
    · rw [if_pos same]
      refine ⟨rfl, rfl, ?_⟩
      intro key
      by_cases here : inboxKey receipt.recipientId receipt.messageId = key
      · subst here
        simp [putReceipt, held]
      · simp [putReceipt, Map.getElem?_insert, here]

section Row

variable (P : DeliveryReceipt → Prop) {held : DeliveryReceipt}

/-- What holds of a row and survives a merge holds of the row after any import. -/
theorem importItem_row (merged : ∀ held incoming, P held → P (merge held incoming)) {store : WireStore} (item : Item)
    (row : store.inbox[key]? = some held) (holds : P held) :
    ∃ next, (importItem store item).inbox[key]? = some next ∧ P next := by
  cases item with
  | message among message =>
    rcases judged : validate message with err | _
    · exact ⟨held, by simpa only [importItem, importMessage, judged] using row, holds⟩
    rcases @importItem_message store among _ judged with ⟨_, same⟩ | ⟨_, _, same⟩ | ⟨_, _, next, _, same⟩
    · exact ⟨held, by rw [same]; exact row, holds⟩
    · exact ⟨held, by rw [same]; exact row, holds⟩
    rw [same]
    refine ⟨held, ?_, holds⟩
    by_cases here : ∃ one ∈ next.recipients message, inboxKey one.1 message.id = key
    · obtain ⟨one, _, rfl⟩ := here
      rw [storeMessage_inbox, row, Option.some_or]
    · rw [storeMessage_other _ _ _ _ (fun one mem equal => here ⟨one, mem, equal⟩)]
      exact row
  | receipt receipt =>
    rcases importItem_receipt store receipt with ⟨_, same⟩ | ⟨_, _, _, inbox⟩
    · exact ⟨held, by rw [same]; exact row, holds⟩
    rw [inbox, row]
    split
    · exact ⟨merge held receipt, rfl, merged held receipt holds⟩
    · exact ⟨held, rfl, holds⟩

theorem importItems_row (merged : ∀ held incoming, P held → P (merge held incoming)) {store : WireStore} (items : List Item)
    (row : store.inbox[key]? = some held) (holds : P held) :
    ∃ next, (items.foldl importItem store).inbox[key]? = some next ∧ P next := by
  induction items generalizing store held with
  | nil => exact ⟨held, row, holds⟩
  | cons first rest ih =>
    obtain ⟨next, found, kept⟩ := importItem_row P merged first row holds
    exact ih found kept

end Row

end FerroLoop.Wire.Inbox
