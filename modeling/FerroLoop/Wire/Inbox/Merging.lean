import FerroLoop.Wire.Inbox.Messages
import Mathlib.Order.Bounds.Basic

namespace FerroLoop.Wire.Inbox

def Stamped (receipt : DeliveryReceipt) : Prop := receipt.ackedAt.isSome = true ↔ receipt.status = .acked

instance (receipt : DeliveryReceipt) : Decidable (Stamped receipt) :=
  inferInstanceAs (Decidable (receipt.ackedAt.isSome = true ↔ receipt.status = .acked))

theorem At.ext {a b : At} (same : a.unixMillis = b.unixMillis) : a = b := by
  cases a
  cases b
  cases same
  rfl

variable (a b : At)

theorem At.max_unixMillis : (a.max b).unixMillis = max a.unixMillis b.unixMillis := by
  unfold At.max
  split
  · rename_i le
    exact (Nat.max_eq_right le).symm
  · rename_i lt
    exact (Nat.max_eq_left (Nat.le_of_not_le lt)).symm

theorem earlier_unixMillis : (earlier a b).unixMillis = min a.unixMillis b.unixMillis := by
  unfold earlier
  split
  · rename_i le
    exact (Nat.min_eq_left le).symm
  · rename_i lt
    exact (Nat.min_eq_right (Nat.le_of_not_le lt)).symm

theorem At.max_comm : a.max b = b.max a := by
  apply At.ext
  rw [At.max_unixMillis, At.max_unixMillis, Nat.max_comm]

theorem At.max_assoc (c : At) : (a.max b).max c = a.max (b.max c) := by
  apply At.ext
  simp only [At.max_unixMillis, Nat.max_assoc]

theorem At.max_self : a.max a = a := by
  apply At.ext
  rw [At.max_unixMillis, Nat.max_self]

theorem earlier_comm : earlier a b = earlier b a := by
  apply At.ext
  rw [earlier_unixMillis, earlier_unixMillis, Nat.min_comm]

theorem earlier_assoc (c : At) : earlier (earlier a b) c = earlier a (earlier b c) := by
  apply At.ext
  simp only [earlier_unixMillis, Nat.min_assoc]

theorem earlier_self : earlier a a = a := by
  apply At.ext
  rw [earlier_unixMillis, Nat.min_self]

theorem betterName_eq (a b : String) :
    betterName a b = if nameRank b < nameRank a then a else if nameRank a < nameRank b then b else min a b := by
  unfold betterName
  cases order : compare (nameRank a) (nameRank b) with
  | gt => rw [if_pos (Nat.compare_eq_gt.mp order)]
  | lt =>
    have below := Nat.compare_eq_lt.mp order
    rw [if_neg (by omega), if_pos below]
  | eq =>
    have same := Nat.compare_eq_eq.mp order
    rw [if_neg (by omega), if_neg (by omega)]

theorem nameRank_betterName (a b : String) : nameRank (betterName a b) = max (nameRank a) (nameRank b) := by
  rw [betterName_eq]
  split
  · omega
  split
  · omega
  rcases min_choice a b with left | right
  · rw [left]
    omega
  · rw [right]
    omega

theorem betterName_comm (a b : String) : betterName a b = betterName b a := by
  rw [betterName_eq, betterName_eq]
  by_cases above : nameRank b < nameRank a
  · rw [if_pos above, if_neg (by omega), if_pos above]
  rw [if_neg above]
  by_cases below : nameRank a < nameRank b
  · rw [if_pos below, if_pos below]
  · rw [if_neg below, if_neg below, if_neg above, min_comm]

theorem betterName_self (a : String) : betterName a a = a := by
  rw [betterName_eq, if_neg (Nat.lt_irrefl _), if_neg (Nat.lt_irrefl _), min_self]

theorem betterName_assoc (a b c : String) : betterName (betterName a b) c = betterName a (betterName b c) := by
  have left := nameRank_betterName a b
  have right := nameRank_betterName b c
  rw [betterName_eq (betterName a b) c, betterName_eq a (betterName b c), left, right]
  rw [betterName_eq a b, betterName_eq b c]
  rcases Nat.lt_trichotomy (nameRank a) (nameRank b) with ab | ab | ab <;>
    rcases Nat.lt_trichotomy (nameRank b) (nameRank c) with bc | bc | bc <;>
    rcases Nat.lt_trichotomy (nameRank a) (nameRank c) with ac | ac | ac <;>
    first
    | omega
    | simp (disch := omega) only [if_pos, if_neg, min_assoc]

def further (a b : DeliveryStatus) : DeliveryStatus := if rank b ≤ rank a then a else b

theorem further_comm (a b : DeliveryStatus) : further a b = further b a := by
  cases a <;> cases b <;> rfl

theorem further_assoc (a b c : DeliveryStatus) : further (further a b) c = further a (further b c) := by
  cases a <;> cases b <;> cases c <;> rfl

theorem further_self (a : DeliveryStatus) : further a a = a := by
  cases a <;> rfl

theorem further_acked (a b : DeliveryStatus) : further a b = .acked ↔ a = .acked ∨ b = .acked := by
  cases a <;> cases b <;> decide

def firstAck : Option At → Option At → Option At
  | some a, some b => some (earlier a b)
  | some a, none => some a
  | none, other => other

theorem firstAck_comm (a b : Option At) : firstAck a b = firstAck b a := by
  cases a <;> cases b <;> simp [firstAck, earlier_comm]

theorem firstAck_assoc (a b c : Option At) : firstAck (firstAck a b) c = firstAck a (firstAck b c) := by
  cases a <;> cases b <;> cases c <;> simp [firstAck, earlier_assoc]

theorem firstAck_self (a : Option At) : firstAck a a = a := by
  cases a <;> simp [firstAck, earlier_self]

theorem firstAck_isSome (a b : Option At) : (firstAck a b).isSome = (a.isSome || b.isSome) := by
  cases a <;> cases b <;> rfl

variable {held incoming : DeliveryReceipt}

theorem merge_eq (first : Stamped held) (second : Stamped incoming) :
    merge held incoming =
      { messageId := held.messageId
        recipientId := held.recipientId
        recipientName := betterName held.recipientName incoming.recipientName
        status := further held.status incoming.status
        attempts := max held.attempts incoming.attempts
        updatedAt := held.updatedAt.max incoming.updatedAt
        ackedAt := firstAck held.ackedAt incoming.ackedAt } := by
  have stamp : (if further held.status incoming.status = .acked then
      mergedAckedAt (held.updatedAt.max incoming.updatedAt) held.ackedAt incoming.ackedAt else none) =
        firstAck held.ackedAt incoming.ackedAt := by
    unfold Stamped at first second
    by_cases acked : further held.status incoming.status = .acked
    · rw [if_pos acked]
      rw [further_acked, ← first, ← second] at acked
      cases one : held.ackedAt with
      | some a => cases incoming.ackedAt <;> rfl
      | none =>
        cases two : incoming.ackedAt with
        | some b => rfl
        | none =>
          rw [one, two] at acked
          simp at acked
    · rw [if_neg acked]
      rw [further_acked, not_or, ← first, ← second] at acked
      rw [Option.not_isSome_iff_eq_none.mp acked.1, Option.not_isSome_iff_eq_none.mp acked.2]
      rfl
  rw [← stamp]
  rfl

theorem merge_stamped (first : Stamped held) (second : Stamped incoming) :
    Stamped (merge held incoming) := by
  unfold Stamped at first second
  rw [merge_eq first second, Stamped, firstAck_isSome, further_acked, Bool.or_eq_true, first, second]

structure Copy (recipient : Iri) (message : MessageId) where
  receipt : DeliveryReceipt
  recipientId : receipt.recipientId = recipient
  messageId : receipt.messageId = message
  stamped : Stamped receipt

namespace Copy

variable {recipient : Iri} {message : MessageId}

theorem ext {a b : Copy recipient message} (same : a.receipt = b.receipt) : a = b := by
  cases a
  cases b
  cases same
  rfl

def join (a b : Copy recipient message) : Copy recipient message where
  receipt := merge a.receipt b.receipt
  recipientId := a.recipientId
  messageId := a.messageId
  stamped := merge_stamped a.stamped b.stamped

theorem join_comm (a b : Copy recipient message) : a.join b = b.join a := by
  apply ext
  simp only [join, merge_eq a.stamped b.stamped, merge_eq b.stamped a.stamped]
  rw [a.recipientId, b.recipientId, a.messageId, b.messageId, betterName_comm, further_comm, Nat.max_comm,
    At.max_comm, firstAck_comm]

theorem join_assoc (a b c : Copy recipient message) : (a.join b).join c = a.join (b.join c) := by
  apply ext
  simp only [join, merge_eq (merge_stamped a.stamped b.stamped) c.stamped,
    merge_eq a.stamped (merge_stamped b.stamped c.stamped)]
  simp only [merge_eq a.stamped b.stamped, merge_eq b.stamped c.stamped, betterName_assoc, further_assoc, Nat.max_assoc,
    At.max_assoc, firstAck_assoc]

theorem join_self (a : Copy recipient message) : a.join a = a := by
  apply ext
  simp only [join, merge_eq a.stamped a.stamped, betterName_self, further_self, Nat.max_self, At.max_self, firstAck_self]

/-- `a ≤ b`: merging `a` into `b` changes nothing. -/
instance : SemilatticeSup (Copy recipient message) :=
  @SemilatticeSup.mk' _ ⟨join⟩ join_comm join_assoc join_self

theorem sup_receipt (a b : Copy recipient message) : (a ⊔ b).receipt = merge a.receipt b.receipt := rfl

end Copy

end FerroLoop.Wire.Inbox
