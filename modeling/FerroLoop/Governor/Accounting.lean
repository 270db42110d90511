import FerroLoop.Governor.Store
import FerroLoop.Lib.Machine
import Std.Data.String.ToNat

namespace FerroLoop.Governor

open Std Word Machine Map PermitRecord Inner

inductive Call where
  | reserve (req : AdmissionRequest) (now : UInt64)
  | settle (req : SettleRequest)

inductive Answer where
  | reserved (outcome : AdmissionOutcome)
  | settled (result : Except GovernorError Unit)

def stepCall (g : Inner) : Call → Inner × Answer
  | .reserve req now => ((reserve g req now).1, .reserved (reserve g req now).2)
  | .settle req => ((settle g req).1, .settled (settle g req).2)

/-! ### What the permits of a store amount to -/

def PermitRecord.live (rec : PermitRecord) (scope : String) : Bool :=
  !rec.completed && rec.permit.scopes.contains scope

def PermitRecord.owed (rec : PermitRecord) (scope : String) : Nat :=
  if !rec.settled && !rec.permit.governanceLane && rec.permit.scopes.contains scope then
    rec.permit.reservedUnits.toNat
  else 0

def Inner.liveIn (g : Inner) (scope : String) : Nat := count (fun _ rec => rec.live scope) g.permits

def Inner.owedIn (g : Inner) (scope : String) : Nat := sum (fun _ rec => rec.owed scope) g.permits

structure Limits (g : Inner) : Prop where
  budget : ∀ scope, (g.state scope).budgetUsed.toNat + (g.state scope).budgetReserved.toNat ≤
    (g.policy.budgetFor scope).toNat
  concurrency : ∀ scope, 0 < g.policy.concurrencyFor scope → g.liveIn scope ≤ (g.policy.concurrencyFor scope).toNat
  reserved : ∀ scope, (g.state scope).budgetReserved.toNat = g.owedIn scope
  live : ∀ scope, (g.state scope).concurrencyLive.toNat = g.liveIn scope

def Exact (g : Inner) : Call → Prop
  | .reserve _ _ => True
  | .settle req => ∀ rec, g.permits[req.permitId]? = some rec → rec.settled = false → ∀ scope ∈ rec.permit.scopes,
      (rec.permit.governanceLane = false → rec.permit.reservedUnits ≤ (g.state scope).budgetReserved) ∧
      (releases req = true → 1 ≤ (g.state scope).concurrencyLive)

/-- No counter runs over: permit numbers are left, and a scope without a concurrency limit has fewer
live permits than its counter can hold. -/
def Counts (g : Inner) : Call → Prop
  | .reserve req _ => g.nextId.toNat + 1 < 2 ^ 64 ∧ ∀ scope ∈ req.scopes, g.policy.concurrencyFor scope = 0 →
      (g.state scope).concurrencyLive.toNat + 1 < 2 ^ 32
  | .settle _ => True

structure Recorded (g : Inner) (id : String) (rec : PermitRecord) : Prop where
  numbered : ∃ n : UInt64, n.toNat < g.nextId.toNat ∧ id = permitId n
  distinct : rec.permit.scopes.Nodup
  settledFirst : rec.completed = true → rec.settled = true

structure Books (g : Inner) : Prop extends Limits g where
  recorded : ∀ (id : String) (rec : PermitRecord), g.permits[id]? = some rec → Recorded g id rec

theorem permitId_injective {m n : UInt64} (same : permitId m = permitId n) : m = n := by
  unfold permitId at same
  rw [String.append_right_inj] at same
  exact UInt64.toNat_inj.mp (Nat.repr_injective same)

/-! ### `reserve` -/

variable {now : UInt64} {g : Inner} {rec : PermitRecord} {req : SettleRequest} {id : String}

theorem refusal_none {req : AdmissionRequest} (open' : refusal g req now = none) :
    (∀ scope ∈ req.scopes, concurrencyExhausted g scope = none) ∧
      (req.isGovernance = false → ∀ scope ∈ req.scopes, rateExhausted g now scope = none ∧
        budgetExhausted g req.requestedUnits scope = none) := by
  obtain ⟨-, rest⟩ := Option.or_eq_none_iff.mp open'
  obtain ⟨slots, worker⟩ := Option.or_eq_none_iff.mp rest
  refine ⟨List.findSome?_eq_none_iff.mp slots, ?_⟩
  intro lane scope member
  rw [lane, if_neg Bool.false_ne_true] at worker
  obtain ⟨rates, budgets⟩ := Option.or_eq_none_iff.mp worker
  exact ⟨List.findSome?_eq_none_iff.mp rates scope member, List.findSome?_eq_none_iff.mp budgets scope member⟩

variable {scope : String}

theorem concurrencyExhausted_none (free : concurrencyExhausted g scope = none)
    (limited : 0 < g.policy.concurrencyFor scope) :
    (g.state scope).concurrencyLive.toNat < (g.policy.concurrencyFor scope).toNat := by
  unfold concurrencyExhausted at free
  dsimp only at free
  split at free
  · cases free
  · rename_i within
    exact Nat.lt_of_not_le fun full => within ⟨limited, full⟩

theorem budgetExhausted_none {units : UInt64} (free : budgetExhausted g units scope = none)
    (bounded : g.policy.budgetFor scope < maxU64) :
    (g.state scope).budgetUsed.toNat + (g.state scope).budgetReserved.toNat + units.toNat ≤
      (g.policy.budgetFor scope).toNat := by
  unfold budgetExhausted at free
  dsimp only at free
  split at free
  · cases free
  rename_i within
  rw [UInt64.lt_iff_toNat_lt, toNat_satAdd, toNat_satAdd] at within
  rw [UInt64.lt_iff_toNat_lt] at bounded
  have top : maxU64.toNat = 2 ^ 64 - 1 := rfl
  omega

theorem granted_state (g : Inner) (req : AdmissionRequest) (now : UInt64) (scope : String) :
    (g.granted req now).state scope =
      if scope ∈ req.scopes then
        hold scope (if req.isGovernance then g.state scope
          else consume g.policy now req.requestedUnits scope (g.state scope))
      else g.state scope := by
  unfold granted
  dsimp only [state]
  rw [Scopes.state_updateAll req.scopes_nodup]
  split
  · split <;> rw [Scopes.state_updateAll req.scopes_nodup, if_pos ‹_›]
  · split <;> rw [Scopes.state_updateAll req.scopes_nodup, if_neg ‹_›]

theorem Books.fresh (books : Books g) : g.permits[permitId g.nextId]? = none := by
  rcases held : g.permits[permitId g.nextId]? with _ | rec
  · rfl
  obtain ⟨n, below, same⟩ := (books.recorded _ rec held).numbered
  rw [permitId_injective same] at below
  exact absurd below (Nat.lt_irrefl _)

theorem granted_liveIn (fresh : g.permits[permitId g.nextId]? = none) (req : AdmissionRequest)
    (now : UInt64) (scope : String) :
    (g.granted req now).liveIn scope = g.liveIn scope + if scope ∈ req.scopes then 1 else 0 := by
  have added := count_insert (fun (_ : String) (rec : PermitRecord) => rec.live scope) g.permits
    (permitId g.nextId) { permit := g.permitFor req now, completed := false, settled := false }
  rw [fresh] at added
  have counted : live { permit := g.permitFor req now, completed := false, settled := false } scope =
      decide (scope ∈ req.scopes) := by
    simp [live, permitFor]
  rw [counted] at added
  show count _ (g.permits.insert (permitId g.nextId) _) = count _ g.permits + _
  by_cases member : scope ∈ req.scopes
  · simpa [member] using added
  · simpa [member] using added

theorem granted_owedIn (fresh : g.permits[permitId g.nextId]? = none) (req : AdmissionRequest)
    (now : UInt64) (scope : String) :
    (g.granted req now).owedIn scope =
      g.owedIn scope + if req.isGovernance = false ∧ scope ∈ req.scopes then req.requestedUnits.toNat else 0 := by
  have added := sum_insert_new (fun (_ : String) (rec : PermitRecord) => rec.owed scope) fresh
    { permit := g.permitFor req now, completed := false, settled := false }
  have weight : owed { permit := g.permitFor req now, completed := false, settled := false } scope =
      if req.isGovernance = false ∧ scope ∈ req.scopes then req.requestedUnits.toNat else 0 := by
    cases lane : req.isGovernance <;> simp [owed, permitFor, lane]
  show sum _ (g.permits.insert (permitId g.nextId) _) = sum _ g.permits + _
  omega

section

variable {req : AdmissionRequest} (books : Books g) (bounded : ∀ scope, g.policy.budgetFor scope < maxU64) (open' : refusal g req now = none) (counts : Counts g (.reserve req now))

include books bounded open' counts

theorem granted_counts (scope : String) : ((g.granted req now).state scope).budgetUsed = (g.state scope).budgetUsed ∧
    ((g.granted req now).state scope).budgetReserved.toNat = (g.granted req now).owedIn scope ∧
    ((g.granted req now).state scope).concurrencyLive.toNat = (g.granted req now).liveIn scope ∧
    (g.state scope).budgetUsed.toNat + (g.granted req now).owedIn scope ≤ (g.policy.budgetFor scope).toNat ∧
    (0 < g.policy.concurrencyFor scope → (g.granted req now).liveIn scope ≤ (g.policy.concurrencyFor scope).toNat) := by
  obtain ⟨slots, worker⟩ := refusal_none open'
  have owed := books.reserved scope
  have live := books.live scope
  have spent := books.budget scope
  have shared := books.concurrency scope
  rw [granted_state, granted_liveIn books.fresh, granted_owedIn books.fresh]
  by_cases member : scope ∈ req.scopes
  · have room : (g.state scope).concurrencyLive.toNat + 1 < 2 ^ 32 := by
      by_cases unlimited : g.policy.concurrencyFor scope = 0
      · exact counts.2 scope member unlimited
      · have below := concurrencyExhausted_none (slots scope member) (UInt32.pos_iff_ne_zero.mpr unlimited)
        have word := (g.policy.concurrencyFor scope).toNat_lt
        omega
    have more : ((g.state scope).concurrencyLive + 1).toNat = (g.state scope).concurrencyLive.toNat + 1 :=
      toNat_add32_of_lt room
    simp only [if_pos member]
    cases lane : req.isGovernance with
    | true =>
      simp only [if_true, hold, more, true_and]
      refine ⟨?_, ?_, ?_, ?_⟩
      · simpa using owed
      · omega
      · simp only [Bool.true_eq_false, false_and, if_false]
        omega
      · intro limited
        have below := concurrencyExhausted_none (slots scope member) limited
        omega
    | false =>
      have within := budgetExhausted_none (worker lane scope member).2 (bounded scope)
      have word := (g.policy.budgetFor scope).toNat_lt
      simp only [Bool.false_eq_true, if_false, hold, consume, more, toNat_satAdd, member, and_self, if_true, true_and]
      refine ⟨?_, ?_, ?_, ?_⟩
      · omega
      · omega
      · omega
      · intro limited
        have below := concurrencyExhausted_none (slots scope member) limited
        omega
  · simp only [if_neg member, if_neg (fun both : req.isGovernance = false ∧ scope ∈ req.scopes => member both.2),
      true_and]
    exact ⟨owed, live, by omega, shared⟩

theorem granted_books : Books (g.granted req now) := by
  have each := granted_counts books bounded open' counts
  have next : (g.granted req now).nextId.toNat = g.nextId.toNat + 1 :=
    toNat_add_of_lt counts.1
  refine { budget := ?_, concurrency := ?_, reserved := ?_, live := ?_, recorded := ?_ }
  · intro scope
    obtain ⟨used, owed, -, within, -⟩ := each scope
    rw [used, owed]
    exact within
  · intro scope
    exact (each scope).2.2.2.2
  · intro scope
    exact (each scope).2.1
  · intro scope
    exact (each scope).2.2.1
  · intro id rec held
    have found : (g.permits.insert (permitId g.nextId)
        { permit := g.permitFor req now, completed := false, settled := false })[id]? = some rec := held
    rcases insert_cases found with ⟨same, rfl⟩ | ⟨_, found⟩
    · exact ⟨⟨g.nextId, by omega, same.symm⟩, req.scopes_nodup, fun done => absurd done Bool.false_ne_true⟩
    · obtain ⟨⟨n, below, named⟩, distinct, first⟩ := books.recorded id rec found
      exact ⟨⟨n, by omega, named⟩, distinct, first⟩

end

/-! ### `settle` -/

theorem settledBy_liveIn
    (held : g.permits[req.permitId]? = some rec) (incomplete : rec.completed = false) (scope : String) :
    (g.settledBy req rec).liveIn scope +
      (if releases req = true ∧ scope ∈ rec.permit.scopes then 1 else 0) = g.liveIn scope := by
  have changed := count_insert (fun (_ : String) (rec : PermitRecord) => rec.live scope) g.permits
    req.permitId { rec with settled := true, completed := rec.completed || releases req }
  rw [held] at changed
  show count _ (g.permits.insert req.permitId _) + _ = count _ g.permits
  by_cases member : scope ∈ rec.permit.scopes
  · cases done : releases req <;> simpa [live, incomplete, member, done] using changed
  · simpa [live, incomplete, member] using changed

theorem settledBy_owedIn
    (held : g.permits[req.permitId]? = some rec) (scope : String) :
    (g.settledBy req rec).owedIn scope + rec.owed scope = g.owedIn scope := by
  have changed := sum_insert (fun (_ : String) (rec : PermitRecord) => rec.owed scope) held
    { rec with settled := true, completed := rec.completed || releases req }
  exact changed

theorem owed_le_owedIn (held : g.permits[id]? = some rec)
    (scope : String) : rec.owed scope ≤ g.owedIn scope := by
  have without := sum_insert (fun (_ : String) (rec : PermitRecord) => rec.owed scope) held
    { rec with settled := true }
  have paid : owed { rec with settled := true } scope = 0 := rfl
  show _ ≤ sum _ g.permits
  omega

theorem Books.live_pos (books : Books g)
    (held : g.permits[id]? = some rec) (incomplete : rec.completed = false)
    (member : scope ∈ rec.permit.scopes) : 0 < (g.state scope).concurrencyLive.toNat := by
  rw [books.live]
  apply count_pos
  rw [held]
  simp [live, incomplete, member]

theorem held_of_live (live : 0 < (g.state scope).concurrencyLive.toNat) :
    (g.scopes[scope]?).isSome = true := by
  cases held : g.scopes[scope]? with
  | some st => rfl
  | none =>
    have nothing : g.state scope = {} := by rw [state, Scopes.state, held]; rfl
    rw [nothing] at live
    exact absurd live (Nat.lt_irrefl 0)

theorem Books.incomplete (books : Books g)
    (held : g.permits[id]? = some rec) (unsettled : rec.settled = false) : rec.completed = false := by
  cases done : rec.completed with
  | false => rfl
  | true =>
    rw [(books.recorded id rec held).settledFirst done] at unsettled
    cases unsettled

theorem owed_of_worker (unsettled : rec.settled = false) (worker : rec.permit.governanceLane = false)
    (member : scope ∈ rec.permit.scopes) : rec.owed scope = rec.permit.reservedUnits.toNat := by
  simp [owed, unsettled, worker, member]

variable {g : Inner}

theorem Books.exact (books : Books g) (req : SettleRequest) : Exact g (.settle req) := by
  intro rec held unsettled scope member
  constructor
  · intro worker
    rw [UInt64.le_iff_toNat_le, books.reserved, ← owed_of_worker unsettled worker member]
    exact owed_le_owedIn held scope
  · intro _
    exact books.live_pos held (books.incomplete held unsettled) member

theorem charged_le (req : SettleRequest) (reserved : UInt64) : (charged req reserved).toNat ≤ reserved.toNat := by
  unfold charged
  cases req.outcome with
  | executed =>
    dsimp only
    split
    · exact UInt64.le_iff_toNat_le.mp ‹_›
    · exact Nat.le_refl _
  | unknownAfterSend => exact Nat.le_refl _
  | neverDispatched => exact Nat.zero_le _

theorem settledBy_counts (books : Books g)
    (held : g.permits[req.permitId]? = some rec) (unsettled : rec.settled = false) (scope : String) :
    ((g.settledBy req rec).state scope).budgetReserved.toNat = (g.settledBy req rec).owedIn scope ∧
    ((g.settledBy req rec).state scope).concurrencyLive.toNat = (g.settledBy req rec).liveIn scope ∧
    ((g.settledBy req rec).state scope).budgetUsed.toNat + ((g.settledBy req rec).state scope).budgetReserved.toNat ≤
      (g.policy.budgetFor scope).toNat := by
  have incomplete := books.incomplete held unsettled
  have owed := books.reserved scope
  have live := books.live scope
  have spent := books.budget scope
  have fewer := settledBy_liveIn held incomplete scope
  have less := settledBy_owedIn held scope
  have state : (g.settledBy req rec).state scope = if scope ∈ rec.permit.scopes ∧ (g.scopes[scope]?).isSome then
      release rec.permit req (g.state scope) else g.state scope :=
    Scopes.state_changeHeld (books.recorded _ rec held).distinct _ _ _
  rw [state]
  by_cases member : scope ∈ rec.permit.scopes
  · have alive := books.live_pos held incomplete member
    rw [if_pos ⟨member, held_of_live alive⟩]
    have slots : (release rec.permit req (g.state scope)).concurrencyLive.toNat =
        (g.settledBy req rec).liveIn scope := by
      simp only [member, and_true] at fewer
      have one : (1 : UInt32).toNat = 1 := rfl
      unfold release
      dsimp only
      cases done : releases req <;> cases lane : rec.permit.governanceLane <;>
        simp only [done, if_true, if_false, Bool.false_eq_true, toNat_satSub32, one] at fewer ⊢ <;> omega
    cases lane : rec.permit.governanceLane with
    | true =>
      have free : rec.owed scope = 0 := by simp [PermitRecord.owed, lane]
      have kept : (release rec.permit req (g.state scope)).budgetReserved = (g.state scope).budgetReserved ∧
          (release rec.permit req (g.state scope)).budgetUsed = (g.state scope).budgetUsed := by
        unfold release
        simp only [lane, if_true]
        split <;> exact ⟨rfl, rfl⟩
      refine ⟨?_, slots, ?_⟩
      · rw [kept.1]
        omega
      · rw [kept.1, kept.2]
        exact spent
    | false =>
      have weight := owed_of_worker unsettled lane member
      have paid := charged_le req rec.permit.reservedUnits
      have changed : (release rec.permit req (g.state scope)).budgetReserved.toNat =
            (g.state scope).budgetReserved.toNat - rec.permit.reservedUnits.toNat ∧
          (release rec.permit req (g.state scope)).budgetUsed.toNat =
            min ((g.state scope).budgetUsed.toNat + (charged req rec.permit.reservedUnits).toNat) (2 ^ 64 - 1) := by
        unfold release
        simp only [lane, if_false, Bool.false_eq_true]
        split <;> exact ⟨toNat_satSub _ _, toNat_satAdd _ _⟩
      refine ⟨?_, slots, ?_⟩
      · rw [changed.1]
        omega
      · rw [changed.1, changed.2]
        omega
  · rw [if_neg (fun both => member both.1)]
    have free : rec.owed scope = 0 := by simp [PermitRecord.owed, member]
    rw [if_neg (fun both => member both.2)] at fewer
    exact ⟨by omega, by omega, spent⟩

theorem settledBy_books (books : Books g)
    (held : g.permits[req.permitId]? = some rec) (unsettled : rec.settled = false) : Books (g.settledBy req rec) := by
  have each := settledBy_counts books held unsettled
  refine { budget := ?_, concurrency := ?_, reserved := ?_, live := ?_, recorded := ?_ }
  · intro scope
    exact (each scope).2.2
  · intro scope limited
    have fewer := settledBy_liveIn held (books.incomplete held unsettled) scope
    have before := books.concurrency scope limited
    show _ ≤ (g.policy.concurrencyFor scope).toNat
    omega
  · intro scope
    exact (each scope).1
  · intro scope
    exact (each scope).2.1
  · intro id other found
    have found : (g.permits.insert req.permitId
        { rec with settled := true, completed := rec.completed || releases req })[id]? = some other := found
    rcases insert_cases found with ⟨rfl, rfl⟩ | ⟨_, found⟩
    · obtain ⟨numbered, distinct, -⟩ := books.recorded _ rec held
      exact ⟨numbered, distinct, fun _ => rfl⟩
    · obtain ⟨numbered, distinct, first⟩ := books.recorded id other found
      exact ⟨numbered, distinct, first⟩

theorem stepCall_policy (g : Inner) (call : Call) : (stepCall g call).1.policy = g.policy := by
  cases call with
  | reserve req now =>
    show (reserve g req now).1.policy = _
    unfold reserve
    split <;> rfl
  | settle req =>
    show (settle g req).1.policy = _
    unfold settle
    split
    · rfl
    · split <;> rfl

theorem stepCall_books (books : Books g) (bounded : ∀ scope, g.policy.budgetFor scope < maxU64)
    {call : Call} (counts : Counts g call) : Books (stepCall g call).1 := by
  cases call with
  | reserve req now =>
    show Books (reserve g req now).1
    unfold reserve
    split
    · exact books
    · exact granted_books books bounded ‹_› counts
  | settle req =>
    show Books (settle g req).1
    unfold settle
    split
    · exact books
    · split
      · exact books
      · exact settledBy_books books ‹_› (Bool.not_eq_true _ ▸ ‹_›)

theorem new_books (policy : GovernorPolicy) : Books (new policy) := by
  refine { budget := ?_, concurrency := ?_, reserved := ?_, live := ?_, recorded := ?_ }
  · intro scope
    exact Nat.zero_le _
  · intro scope _
    exact Nat.zero_le _
  · intro scope
    rfl
  · intro scope
    rfl
  · intro id rec held
    have held : (∅ : ExtTreeMap String PermitRecord compare)[id]? = some rec := held
    cases held

/-- Whatever calls arrive, as long as no counter runs over: every scope stays within its budget and
its concurrency limit, its counters are those of the permits that hold it, and no settlement takes
away more than is there. -/
theorem limits_hold (policy : GovernorPolicy) (bounded : ∀ scope, policy.budgetFor scope < maxU64)
    (calls : List Call) (counts : Throughout stepCall Counts (new policy) calls) :
    (∀ past, past <+: calls → Limits (run stepCall (new policy) past)) ∧
      Throughout stepCall Exact (new policy) calls := by
  let sound (g : Inner) : Prop := Books g ∧ ∀ scope, g.policy.budgetFor scope < maxU64
  have preserved : ∀ g call, sound g → Counts g call → sound (stepCall g call).1 := by
    intro g call ⟨books, within⟩ here
    refine ⟨stepCall_books books within here, ?_⟩
    rw [stepCall_policy]
    exact within
  have initial : sound (new policy) := ⟨new_books policy, bounded⟩
  constructor
  · rintro past ⟨rest, split⟩
    subst split
    have before := (Throughout.append.mp counts).1
    exact (@history_throughout Inner Call Answer stepCall (fun _ g => sound g) Counts (fun _ => preserved) _ initial _
      before).1.toLimits
  · refine Throughout.mono preserved ?_ initial counts
    intro g call ⟨books, _⟩ _
    cases call with
    | reserve req now => trivial
    | settle req => exact books.exact req

def sampleRequest : AdmissionRequest :=
  { principal := .warrant "w", project := "p", endpoint := "e", requestedUnits := 10 }

def sampleCalls : List Call :=
  [.reserve sampleRequest 5, .settle ⟨"permit-1", 7, .executed, true⟩, .settle ⟨"permit-1", 7, .executed, true⟩,
    .reserve sampleRequest 9]

instance (g : Inner) (call : Call) : Decidable (Counts g call) := by
  cases call <;> unfold Counts <;> infer_instance

theorem limits_hold_sample :
    (∀ past, past <+: sampleCalls → Limits (run stepCall (new {}) past)) ∧
      Throughout stepCall Exact (new {}) sampleCalls := by
  apply limits_hold
  · intro scope
    have unset : ((({} : GovernorPolicy).perScope)[scope]?) = none := ExtTreeMap.getElem?_empty
    unfold GovernorPolicy.budgetFor
    rw [unset]
    decide
  · simp only [sampleCalls, Throughout]
    decide +kernel

section Overrun

def unlimited : GovernorPolicy := { concurrencyPerScope := 0 }

def lifecycleRead : AdmissionRequest :=
  { principal := .owner, project := "p", endpoint := "e", requestedUnits := 0, callName := some "hub_lifecycle_read" }

structure Grown (n : Nat) (g : Inner) : Prop where
  policy : g.policy = unlimited
  next : g.nextId.toNat = n + 1
  numbered : ∀ (id : String) (rec : PermitRecord), g.permits[id]? = some rec →
    ∃ m : UInt64, m.toNat < g.nextId.toNat ∧ id = permitId m
  live : g.liveIn "project:p" = n

theorem unlimited_grants (same : g.policy = unlimited) (now : UInt64) : refusal g lifecycleRead now = none := by
  have free : ∀ scope, concurrencyExhausted g scope = none := by
    intro scope
    have unset : (unlimited.perScope[scope]?) = none := ExtTreeMap.getElem?_empty
    have none : g.policy.concurrencyFor scope = 0 := by
      rw [same, GovernorPolicy.concurrencyFor, unset]
      rfl
    unfold concurrencyExhausted
    rw [none]
    exact if_neg fun both => absurd both.1 (by decide)
  have slots : lifecycleRead.scopes.findSome? (concurrencyExhausted g) = none :=
    List.findSome?_eq_none_iff.mpr fun scope _ => free scope
  have lane : lifecycleRead.isGovernance = true := by decide
  unfold refusal
  rw [slots, lane]
  rfl

theorem Grown.next_one {n : Nat} (grown : Grown n g) (short : n < 2 ^ 32) :
    Grown (n + 1) (g.granted lifecycleRead 0) := by
  have next : (g.granted lifecycleRead 0).nextId.toNat = g.nextId.toNat + 1 := by
    have before := grown.next
    exact toNat_add_of_lt (by simpa using by omega)
  have fresh : g.permits[permitId g.nextId]? = none := by
    rcases held : g.permits[permitId g.nextId]? with _ | rec
    · rfl
    obtain ⟨m, below, same⟩ := grown.numbered _ rec held
    rw [permitId_injective same] at below
    exact absurd below (Nat.lt_irrefl _)
  refine ⟨grown.policy, by rw [next, grown.next], ?_, ?_⟩
  · intro id rec held
    have found : (g.permits.insert (permitId g.nextId)
        { permit := g.permitFor lifecycleRead 0, completed := false, settled := false })[id]? = some rec := held
    rw [getElem?_insert] at found
    split at found
    · exact ⟨g.nextId, by omega, (‹permitId g.nextId = id›).symm⟩
    · obtain ⟨m, below, named⟩ := grown.numbered id rec found
      exact ⟨m, by omega, named⟩
  · rw [granted_liveIn fresh, grown.live, if_pos (by decide)]

theorem unlimited_grown (n : Nat) (short : n ≤ 2 ^ 32) :
    Grown n (run stepCall (new unlimited) (List.replicate n (.reserve lifecycleRead 0))) := by
  induction n with
  | zero =>
    refine ⟨rfl, rfl, ?_, rfl⟩
    intro id rec held
    have held : (∅ : ExtTreeMap String PermitRecord compare)[id]? = some rec := held
    cases held
  | succ n ih =>
    have before := ih (by omega)
    rw [List.replicate_succ', run_append, run_cons, run_nil]
    have step : ∀ g, g.policy = unlimited → (stepCall g (.reserve lifecycleRead 0)).1 = g.granted lifecycleRead 0 := by
      intro g same
      show (reserve g lifecycleRead 0).1 = _
      rw [reserve, unlimited_grants same]
    rw [step _ before.policy]
    exact before.next_one (by omega)

/-- Without a concurrency limit, 2^32 permits held at once are counted as none. -/
theorem live_count_runs_over :
    ∃ (policy : GovernorPolicy) (calls : List Call), (∀ scope, policy.budgetFor scope < maxU64) ∧
      ¬ Limits (run stepCall (new policy) calls) := by
  refine ⟨unlimited, List.replicate (2 ^ 32) (.reserve lifecycleRead 0), ?_, ?_⟩
  · intro scope
    have unset : (unlimited.perScope[scope]?) = none := ExtTreeMap.getElem?_empty
    unfold GovernorPolicy.budgetFor
    rw [unset]
    decide
  · intro limits
    have all := (unlimited_grown (2 ^ 32) (Nat.le_refl _)).live
    have counted := limits.live "project:p"
    rw [all] at counted
    have word := UInt32.toNat_lt
      ((run stepCall (new unlimited) (List.replicate (2 ^ 32) (.reserve lifecycleRead 0))).state
        "project:p").concurrencyLive
    omega

end Overrun

end FerroLoop.Governor
