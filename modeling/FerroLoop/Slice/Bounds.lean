import FerroLoop.Lib.Checked
import FerroLoop.Lib.Decimals
import FerroLoop.Lib.Text
import Mathlib.Tactic.FieldSimp
import Mathlib.Tactic.Linarith
import Mathlib.Tactic.Ring

/-!
Proof records for whole slices and their evaluation before a dispatch (`crates/core/src/slice_proof.rs`). The versions
and version ranges of the `semver` crate are parameters.
-/

namespace FerroLoop.Slice

open Checked Text Decimals Option

structure Usd where
  text : String
  deriving DecidableEq

def u64Bound : Nat := 2 ^ 64
def u128Bound : Nat := 2 ^ 128

def checkedAdd (bound a b : Nat) : Option Nat := if a + b < bound then some (a + b) else none

def checkedMul (bound a b : Nat) : Option Nat := if a * b < bound then some (a * b) else none

namespace Usd

def whole (usd : Usd) : List Char := usd.text.toList.takeWhile (· != '.')

def fraction (usd : Usd) : List Char := (usd.text.toList.dropWhile (· != '.')).drop 1

/-- The lengths are of bytes in the source; a text where they differ from these is refused for its digits. -/
def picos (usd : Usd) : Option Nat :=
  if usd.whole = [] ∨ 18 < usd.whole.length ∨ 12 < usd.fraction.length ∨ ¬ usd.whole.all Char.isDigit ∨
      ¬ usd.fraction.all Char.isDigit ∨ ('.' ∈ usd.text.toList ∧ usd.fraction = []) then none
  else do
    let w ← checkedMul u128Bound (value usd.whole) 1000000000000
    let f ← checkedMul u128Bound (value usd.fraction) (10 ^ (12 - usd.fraction.length))
    checkedAdd u128Bound w f

def fromMicros (v : Nat) : Usd := ⟨String.ofList (Nat.toDigits 10 (v / 1000000) ++ '.' :: padded 6 (v % 1000000))⟩

end Usd

inductive AccountingUnit where
  | actualUsd (billingContract : String)
  | subscriptionIncrementalUsd (billingContract : String) (zeroCostProven : Bool)
  | virtualApiEquivalent (billingContract : String)
  deriving DecidableEq

structure EpsilonStepBound where
  inputKnob : String
  maxInputTokens : UInt64
  outputKnob : String
  maxOutputTokens : UInt64
  pricePerInputToken : Usd
  pricePerOutputToken : Usd
  deriving DecidableEq

inductive SliceBoundKind where
  | vendorCap (knob : String) (capUsd : Usd) (epsilonTokens : UInt64) (epsilonUsd : Usd) (tokenBoundKnob : String)
      (maxTotalTokens : Option UInt64) (epsilonStep : Option EpsilonStepBound)
  | arithmetic (stepsKnob : String) (maxSteps : UInt64) (inputKnob : String) (maxInputTokensPerStep : UInt64) (maxOutKnob : String)
      (maxOutputTokensPerStep : UInt64) (pricePerInputToken pricePerOutputToken : Usd)
  | perRequest (maxRequests maxTokensPerRequest : UInt64) (maxUsdPerRequest : Usd)
  deriving DecidableEq

structure SliceBoundProof where
  proofRecordId : String
  adapter : String
  mode : String
  cliVersionRange : String
  binaryHash : String
  model : String
  authBillingMode : String
  configDigest : String
  kind : SliceBoundKind
  accountingUnit : AccountingUnit
  transcriptRef : String
  deriving DecidableEq

structure SliceProofInput where
  adapter : String
  mode : String
  installedCliVersion : String
  binaryHash : String
  model : String
  authBillingMode : String
  configDigest : String

structure AdmittedSliceBound where
  maxTokens : Nat
  maxCostUsd : Usd
  maxCostMicros : Nat
  proofRecordId : String
  deriving DecidableEq

inductive SliceAdmissionRefusal where
  | manualOnly
  | unproven
  deriving DecidableEq

def validText (s : String) : Bool := !(trim s).isEmpty && s.utf8ByteSize ≤ 1024 && !s.toList.any isControl

def validSha256 (s : String) : Bool :=
  (stripPrefix s "sha256:").any fun hex =>
    hex.utf8ByteSize == 64 && hex.toList.all fun c => c.isDigit || ('a' ≤ c && c ≤ 'f')

inductive VersionOp where
  | exact
  | greater
  | greaterEq
  | less
  | lessEq
  | other
  deriving DecidableEq

structure Comparator where
  op : VersionOp
  major : Nat
  minor : Option Nat
  patch : Option Nat

/-- `VersionReq::parse`, `Version::parse` and `VersionReq::matches`. -/
structure Semver (Version : Type) where
  parseRange : String → Option (List Comparator)
  parse : String → Option Version
  accepts : List Comparator → Version → Bool

section Evaluation

variable {Version : Type} (semver : Semver Version)

def validVersionRange (s : String) : Option (List Comparator) := do
  let range ← semver.parseRange s
  if range = [] ∨ range.any (fun c => c.minor.isNone || c.patch.isNone) then none
  else
    let exact_ := range.length == 1 && range.all fun c => c.op == .exact
    let lower := range.any fun c => c.op == .greater || c.op == .greaterEq
    let upper := range.any fun c => c.op == .less || c.op == .lessEq
    if exact_ || (lower && upper) then some range else none

def stepPicos (input output : UInt64) (inputPrice outputPrice : Usd) : Option Nat := do
  let i ← checkedMul u128Bound input.toNat (← inputPrice.picos)
  let o ← checkedMul u128Bound output.toNat (← outputPrice.picos)
  checkedAdd u128Bound i o

def SliceBoundKind.totals (zeroAllowed : Bool) : SliceBoundKind → Option (Nat × Nat)
  | .vendorCap knob capUsd epsilonTokens epsilonUsd tokenBoundKnob maxTotalTokens epsilonStep => do
    let t ← maxTotalTokens
    let step ← epsilonStep
    if !validText knob || !validText tokenBoundKnob || !validText step.inputKnob || !validText step.outputKnob || t == 0 ||
        epsilonTokens == 0 || step.maxInputTokens == 0 || step.maxOutputTokens == 0 then none
    else
      let epsilon ← epsilonUsd.picos
      let stepTokens ← checkedAdd u64Bound step.maxInputTokens.toNat step.maxOutputTokens.toNat
      let picos ← stepPicos step.maxInputTokens step.maxOutputTokens step.pricePerInputToken step.pricePerOutputToken
      if epsilonTokens.toNat < stepTokens || epsilon < picos || (epsilon == 0 && !zeroAllowed) then none
      else
        let tokens ← checkedAdd u64Bound t.toNat epsilonTokens.toNat
        let cost ← checkedAdd u128Bound (← capUsd.picos) epsilon
        some (tokens, cost)
  | .arithmetic stepsKnob maxSteps inputKnob input maxOutKnob output inputPrice outputPrice =>
    if !validText stepsKnob || !validText inputKnob || !validText maxOutKnob || maxSteps == 0 || input == 0 || output == 0 then none
    else do
      let tokens ← checkedMul u64Bound (← checkedAdd u64Bound input.toNat output.toNat) maxSteps.toNat
      let cost ← checkedMul u128Bound (← stepPicos input output inputPrice outputPrice) maxSteps.toNat
      some (tokens, cost)
  | .perRequest maxRequests maxTokensPerRequest maxUsdPerRequest =>
    if maxRequests == 0 || maxTokensPerRequest == 0 then none
    else do
      let tokens ← checkedMul u64Bound maxRequests.toNat maxTokensPerRequest.toNat
      let cost ← checkedMul u128Bound maxRequests.toNat (← maxUsdPerRequest.picos)
      some (tokens, cost)

def SliceBoundProof.zeroAllowed (proof : SliceBoundProof) : Option Bool :=
  match proof.accountingUnit with
  | .actualUsd contract => if validText contract then some false else none
  | .subscriptionIncrementalUsd contract true =>
    if validText contract && proof.authBillingMode == "subscription" then some true else none
  | _ => none

def SliceBoundProof.bound (proof : SliceBoundProof) : Option (Nat × Nat) :=
  if [proof.proofRecordId, proof.adapter, proof.mode, proof.binaryHash, proof.model, proof.authBillingMode, proof.configDigest,
      proof.transcriptRef].any (fun s => !validText s) then none
  else if !validSha256 proof.binaryHash || !validSha256 proof.configDigest then none
  else do
    let zeroAllowed ← proof.zeroAllowed
    let (tokens, picos) ← proof.kind.totals zeroAllowed
    if picos == 0 && !zeroAllowed then none
    else
      let micros := (← checkedAdd u128Bound picos 999999) / 1000000
      if micros < u64Bound then some (tokens, micros) else none

def SliceBoundProof.matchesInput (input : SliceProofInput) (version : Version) (p : SliceBoundProof) : Bool :=
  p.adapter == input.adapter && p.mode == input.mode && p.binaryHash == input.binaryHash && p.model == input.model &&
    p.authBillingMode == input.authBillingMode && p.configDigest == input.configDigest &&
    (validVersionRange semver p.cliVersionRange).any fun range => semver.accepts range version

def evaluateSliceBounds (proofs : List SliceBoundProof) (input : SliceProofInput) :
    Except SliceAdmissionRefusal AdmittedSliceBound :=
  if proofs = [] then .error .manualOnly
  else
    match semver.parse input.installedCliVersion with
    | none => .error .unproven
    | some version =>
      if [input.adapter, input.mode, input.binaryHash, input.model, input.authBillingMode, input.configDigest].any
          (fun v => !validText v) then .error .unproven
      else if !validSha256 input.binaryHash || !validSha256 input.configDigest then .error .unproven
      else
        match proofs.filter (·.matchesInput semver input version) with
        | [p] =>
          match p.bound with
          | some (tokens, micros) => .ok ⟨tokens, Usd.fromMicros micros, micros, p.proofRecordId⟩
          | none => .error .unproven
        | _ => .error .unproven

end Evaluation

/-! ### What an admitted bound is -/

def Usd.dollars (usd : Usd) : ℚ := value usd.whole + value usd.fraction / 10 ^ usd.fraction.length

def stepCost (input output : UInt64) (inputPrice outputPrice : Usd) : ℚ :=
  input.toNat * inputPrice.dollars + output.toNat * outputPrice.dollars

namespace SliceBoundKind

def tokens : SliceBoundKind → Nat
  | .vendorCap _ _ epsilonTokens _ _ maxTotalTokens _ => maxTotalTokens.elim 0 UInt64.toNat + epsilonTokens.toNat
  | .arithmetic _ maxSteps _ input _ output _ _ => (input.toNat + output.toNat) * maxSteps.toNat
  | .perRequest maxRequests maxTokensPerRequest _ => maxRequests.toNat * maxTokensPerRequest.toNat

def cost : SliceBoundKind → ℚ
  | .vendorCap _ capUsd _ epsilonUsd _ _ _ => capUsd.dollars + epsilonUsd.dollars
  | .arithmetic _ maxSteps _ input _ output inputPrice outputPrice =>
    stepCost input output inputPrice outputPrice * maxSteps.toNat
  | .perRequest maxRequests _ maxUsdPerRequest => maxRequests.toNat * maxUsdPerRequest.dollars

/-- What a vendor's cap leaves for the step in flight is enough for it. -/
def StepIncluded : SliceBoundKind → Prop
  | .vendorCap _ _ epsilonTokens epsilonUsd _ _ epsilonStep => ∃ step, epsilonStep = some step ∧
      step.maxInputTokens.toNat + step.maxOutputTokens.toNat ≤ epsilonTokens.toNat ∧
      stepCost step.maxInputTokens step.maxOutputTokens step.pricePerInputToken step.pricePerOutputToken ≤ epsilonUsd.dollars
  | _ => True

end SliceBoundKind

variable {n v : Nat}

theorem checkedAdd_eq {bound a b : Nat} (done : checkedAdd bound a b = some n) : n = a + b ∧ n < bound := by
  unfold checkedAdd at done
  split at done
  · cases done
    exact ⟨rfl, by assumption⟩
  · cases done

theorem checkedMul_eq {bound a b : Nat} (done : checkedMul bound a b = some n) : n = a * b ∧ n < bound := by
  unfold checkedMul at done
  split at done
  · cases done
    exact ⟨rfl, by assumption⟩
  · cases done

theorem Usd.picos_eq {usd : Usd} (done : usd.picos = some n) : (n : ℚ) = usd.dollars * 10 ^ 12 := by
  unfold Usd.picos at done
  split at done
  · cases done
  rename_i formed
  obtain ⟨w, whole, done⟩ := bind_eq_some_iff.mp done
  obtain ⟨f, fraction, done⟩ := bind_eq_some_iff.mp done
  have scale : (10 : ℚ) ^ 12 = 10 ^ (12 - usd.fraction.length) * 10 ^ usd.fraction.length := by
    rw [← pow_add]
    congr 1
    omega
  rw [(checkedAdd_eq done).1, (checkedMul_eq whole).1, (checkedMul_eq fraction).1, Usd.dollars, add_mul]
  push_cast
  congr 1
  rw [scale]
  field_simp

theorem stepPicos_eq {input output : UInt64} {inputPrice outputPrice : Usd}
    (done : stepPicos input output inputPrice outputPrice = some n) :
    (n : ℚ) = stepCost input output inputPrice outputPrice * 10 ^ 12 := by
  obtain ⟨first, price, done⟩ := bind_eq_some_iff.mp done
  obtain ⟨i, inputs, done⟩ := bind_eq_some_iff.mp done
  obtain ⟨second, price', done⟩ := bind_eq_some_iff.mp done
  obtain ⟨o, outputs, done⟩ := bind_eq_some_iff.mp done
  rw [(checkedAdd_eq done).1, (checkedMul_eq inputs).1, (checkedMul_eq outputs).1]
  push_cast
  rw [Usd.picos_eq price, Usd.picos_eq price', stepCost]
  ring

structure Totals (kind : SliceBoundKind) (n total : Nat) : Prop where
  tokens : n = kind.tokens
  fits : n < u64Bound
  picos : (total : ℚ) = kind.cost * 10 ^ 12
  step : kind.StepIncluded

variable {tokens : Nat}

theorem totals_exact {kind : SliceBoundKind} {zeroAllowed : Bool} {picos : Nat}
    (done : kind.totals zeroAllowed = some (tokens, picos)) : Totals kind tokens picos := by
  cases kind with
  | vendorCap knob capUsd epsilonTokens epsilonUsd tokenBoundKnob maxTotalTokens epsilonStep =>
    obtain ⟨t, total, done⟩ := bind_eq_some_iff.mp done
    obtain ⟨step, given, done⟩ := bind_eq_some_iff.mp done
    split at done
    · cases done
    obtain ⟨epsilon, left, done⟩ := bind_eq_some_iff.mp done
    obtain ⟨stepTokens, sum, done⟩ := bind_eq_some_iff.mp done
    obtain ⟨stepCost, spent, done⟩ := bind_eq_some_iff.mp done
    split at done
    · cases done
    rename_i enough
    obtain ⟨n, all, done⟩ := bind_eq_some_iff.mp done
    obtain ⟨cap, capped, done⟩ := bind_eq_some_iff.mp done
    obtain ⟨cost, costs, done⟩ := bind_eq_some_iff.mp done
    cases done
    simp only [Bool.or_eq_true, decide_eq_true_eq, not_or, not_lt] at enough
    refine ⟨?_, (checkedAdd_eq all).2, ?_, step, given, (checkedAdd_eq sum).1 ▸ enough.1.1, ?_⟩
    · rw [(checkedAdd_eq all).1, SliceBoundKind.tokens, total]
      rfl
    · rw [(checkedAdd_eq costs).1, SliceBoundKind.cost, add_mul]
      push_cast
      rw [Usd.picos_eq capped, Usd.picos_eq left]
    · have within : (stepCost : ℚ) ≤ epsilon := by exact_mod_cast enough.1.2
      rw [stepPicos_eq spent, Usd.picos_eq left] at within
      exact le_of_mul_le_mul_right within (by norm_num)
  | arithmetic stepsKnob maxSteps inputKnob input maxOutKnob output inputPrice outputPrice =>
    simp only [SliceBoundKind.totals] at done
    split at done
    · cases done
    obtain ⟨each, sum, done⟩ := bind_eq_some_iff.mp done
    obtain ⟨n, all, done⟩ := bind_eq_some_iff.mp done
    obtain ⟨one, spent, done⟩ := bind_eq_some_iff.mp done
    obtain ⟨cost, costs, done⟩ := bind_eq_some_iff.mp done
    cases done
    refine ⟨?_, (checkedMul_eq all).2, ?_, trivial⟩
    · rw [(checkedMul_eq all).1, (checkedAdd_eq sum).1, SliceBoundKind.tokens]
    · rw [(checkedMul_eq costs).1, SliceBoundKind.cost]
      push_cast
      rw [stepPicos_eq spent]
      ring
  | perRequest maxRequests maxTokensPerRequest maxUsdPerRequest =>
    simp only [SliceBoundKind.totals] at done
    split at done
    · cases done
    obtain ⟨n, all, done⟩ := bind_eq_some_iff.mp done
    obtain ⟨one, spent, done⟩ := bind_eq_some_iff.mp done
    obtain ⟨cost, costs, done⟩ := bind_eq_some_iff.mp done
    cases done
    refine ⟨(checkedMul_eq all).1, (checkedMul_eq all).2, ?_, trivial⟩
    rw [(checkedMul_eq costs).1, SliceBoundKind.cost]
    push_cast
    rw [Usd.picos_eq spent]
    ring

theorem fromMicros_parts (v : Nat) : (Usd.fromMicros v).whole = Nat.toDigits 10 (v / 1000000) ∧
    (Usd.fromMicros v).fraction = padded 6 (v % 1000000) := by
  have digits : ∀ c ∈ Nat.toDigits 10 (v / 1000000), (c != '.') = true := by
    intro c member
    have digit := Nat.isDigit_of_mem_toDigits (by decide) (by decide) member
    simp only [bne_iff_ne]
    rintro rfl
    cases digit
  unfold Usd.fromMicros Usd.whole Usd.fraction
  rw [String.toList_ofList, List.takeWhile_append_of_pos digits, List.dropWhile_append_of_pos digits]
  exact ⟨by simp, by simp⟩

theorem scaled_parts (small : v < u64Bound) : v / 1000000 * 1000000000000 + v % 1000000 * 1000000 = v * 1000000 ∧
    v * 1000000 < u128Bound := by
  refine ⟨by omega, ?_⟩
  unfold u64Bound at small
  unfold u128Bound
  omega

theorem picos_of_parts {usd : Usd} (small : v < u64Bound) (whole : usd.whole = Nat.toDigits 10 (v / 1000000))
    (fraction : usd.fraction = padded 6 (v % 1000000)) : usd.picos = some (v * 1000000) := by
  have six : usd.fraction.length = 6 := by
    rw [fraction]
    exact padded_length (by decide) (by omega)
  have long : usd.whole.length ≤ 18 := by
    unfold u64Bound at small
    rw [whole]
    exact toDigits_length (by decide) (by omega)
  have some_ : 0 < usd.whole.length := by
    rw [whole]
    exact Nat.length_toDigits_pos
  have digits : usd.whole.all Char.isDigit = true := by
    rw [whole]
    exact List.all_eq_true.mpr fun c member => Nat.isDigit_of_mem_toDigits (by decide) (by decide) member
  have digits' : usd.fraction.all Char.isDigit = true := by
    rw [fraction]
    exact List.all_eq_true.mpr fun c member => isDigit_of_mem_padded member
  have spelled : value usd.whole = v / 1000000 := by
    rw [whole]
    exact Nat.ofDigitChars_ten_toDigits
  have spelled' : value usd.fraction = v % 1000000 := by rw [fraction, value_padded]
  obtain ⟨sum, third⟩ := scaled_parts small
  have w : checkedMul u128Bound (v / 1000000) 1000000000000 = some (v / 1000000 * 1000000000000) :=
    if_pos (lt_of_le_of_lt (Nat.le_add_right _ _) (lt_of_eq_of_lt sum third))
  have f : checkedMul u128Bound (v % 1000000) 1000000 = some (v % 1000000 * 1000000) :=
    if_pos (lt_of_le_of_lt (Nat.le_add_left _ _) (lt_of_eq_of_lt sum third))
  have total : checkedAdd u128Bound (v / 1000000 * 1000000000000) (v % 1000000 * 1000000) = some (v * 1000000) := by
    unfold checkedAdd
    rw [sum, if_pos third]
  unfold Usd.picos
  rw [spelled, spelled', six, show 10 ^ (12 - 6) = 1000000 by norm_num, if_neg]
  · exact bind_eq_some_iff.mpr ⟨_, w, bind_eq_some_iff.mpr ⟨_, f, total⟩⟩
  rintro (none | none | none | none | none | ⟨-, none⟩)
  · rw [none] at some_
    cases some_
  · omega
  · omega
  · exact none digits
  · exact none digits'
  · rw [none] at six
    cases six

/-- The text of an amount of micro-dollars is parsed to that amount. -/
theorem fromMicros_picos (small : v < u64Bound) : (Usd.fromMicros v).picos = some (v * 1000000) :=
  picos_of_parts small (fromMicros_parts v).1 (fromMicros_parts v).2

/-- The record an admission rests on, and what its bound is worth. -/
structure Reserves (p : SliceBoundProof) (admitted : AdmittedSliceBound) : Prop where
  named : admitted.proofRecordId = p.proofRecordId
  tokens : admitted.maxTokens = p.kind.tokens
  step : p.kind.StepIncluded
  fits : admitted.maxTokens < u64Bound ∧ admitted.maxCostMicros < u64Bound
  cost : IsLeast {n : ℕ | p.kind.cost ≤ n / 1000000} admitted.maxCostMicros
  usd : admitted.maxCostUsd.picos = some (admitted.maxCostMicros * 1000000)
  dollars : admitted.maxCostUsd.dollars = admitted.maxCostMicros / 1000000
  free : p.kind.cost = 0 → p.authBillingMode = "subscription" ∧
    ∃ contract, p.accountingUnit = .subscriptionIncrementalUsd contract true

theorem ceiling_least {total : Nat} {cost : ℚ} (exact_ : (total : ℚ) = cost * 10 ^ 12) :
    IsLeast {n : ℕ | cost ≤ n / 1000000} ((total + 999999) / 1000000) := by
  have enough : ∀ n : ℕ, cost ≤ n / 1000000 ↔ total ≤ n * 1000000 := by
    intro n
    constructor
    · intro within
      have cast : ((total * 1000000 : ℕ) : ℚ) ≤ (n * 1000000 * 1000000 : ℕ) := by
        push_cast
        linarith
      have := Nat.cast_le.mp cast
      omega
    · intro within
      have cast : (total : ℚ) ≤ (n * 1000000 : ℕ) := by exact_mod_cast within
      push_cast at cast
      linarith
  refine ⟨(enough _).mpr (by omega), fun n member => ?_⟩
  have := (enough n).mp member
  omega

variable {p : SliceBoundProof}

theorem zeroAllowed_true (allowed : p.zeroAllowed = some true) :
    p.authBillingMode = "subscription" ∧ ∃ contract, p.accountingUnit = .subscriptionIncrementalUsd contract true := by
  unfold SliceBoundProof.zeroAllowed at allowed
  split at allowed
  · split at allowed <;> cases allowed
  · rename_i contract given
    split at allowed
    · rename_i both
      rw [Bool.and_eq_true, beq_iff_eq] at both
      exact ⟨both.2, contract, given⟩
    · cases allowed
  · cases allowed

theorem bound_exact {micros : Nat} (done : p.bound = some (tokens, micros)) :
    Reserves p ⟨tokens, Usd.fromMicros micros, micros, p.proofRecordId⟩ := by
  unfold SliceBoundProof.bound at done
  split at done
  · cases done
  split at done
  · cases done
  obtain ⟨zeroAllowed, unit, done⟩ := bind_eq_some_iff.mp done
  obtain ⟨⟨n, total⟩, made, done⟩ := bind_eq_some_iff.mp done
  simp only at done
  split at done
  · cases done
  rename_i paid
  obtain ⟨sum, added, done⟩ := bind_eq_some_iff.mp done
  split at done
  · rename_i small
    cases done
    have totals := totals_exact made
    have parsed := fromMicros_picos small
    rw [(checkedAdd_eq added).1] at small parsed ⊢
    refine ⟨rfl, totals.tokens, totals.step, ⟨totals.fits, small⟩, ceiling_least totals.picos, parsed, ?_, ?_⟩
    · have amount := Usd.picos_eq parsed
      push_cast at amount ⊢
      linarith
    intro zero
    have none : total = 0 := by
      have exact_ := totals.picos
      rw [zero, zero_mul] at exact_
      exact_mod_cast exact_
    cases zeroAllowed with
    | true => exact zeroAllowed_true unit
    | false => exact absurd (by rw [none]; rfl) paid
  · cases done

/-- An admitted slice has one record, and reserves what that record bounds it by. -/
theorem admitted_bound_reserves {Version : Type} (semver : Semver Version) (proofs : List SliceBoundProof)
    (input : SliceProofInput) (admitted : AdmittedSliceBound) (done : evaluateSliceBounds semver proofs input = .ok admitted) :
    ∃ version p, semver.parse input.installedCliVersion = some version ∧
      proofs.filter (·.matchesInput semver input version) = [p] ∧ Reserves p admitted := by
  unfold evaluateSliceBounds at done
  split at done
  · cases done
  split at done
  · cases done
  rename_i version parsed
  split at done
  · cases done
  split at done
  · cases done
  split at done
  · rename_i p one
    split at done
    · rename_i tokens micros bounded
      cases done
      exact ⟨version, p, parsed, one, bound_exact bounded⟩
    · cases done
  · cases done

/-- Versions of three numbers, and the one range of the sample. -/
def sampleSemver : Semver (Nat × Nat × Nat) where
  parseRange s := if s = "=1.2.3" then some [⟨.exact, 1, some 2, some 3⟩] else none
  parse s := if s = "1.2.3" then some (1, 2, 3) else none
  accepts range version := range.all fun c => version = (c.major, c.minor.getD 0, c.patch.getD 0)

def sampleHash : String := "sha256:" ++ String.ofList (List.replicate 64 'a')

def sampleProof : SliceBoundProof where
  proofRecordId := "p1"
  adapter := "codex"
  mode := "exec"
  cliVersionRange := "=1.2.3"
  binaryHash := sampleHash
  model := "m"
  authBillingMode := "api_key"
  configDigest := sampleHash
  kind := .perRequest 3 100 ⟨"0.0000005"⟩
  accountingUnit := .actualUsd "contract"
  transcriptRef := "t"

def sampleInput : SliceProofInput := ⟨"codex", "exec", "1.2.3", sampleHash, "m", "api_key", sampleHash⟩

/-- Three requests of half a micro-dollar reserve two micro-dollars. -/
theorem admitted_bound_reserves_sample : ∃ version p, sampleSemver.parse "1.2.3" = some version ∧
    [sampleProof].filter (·.matchesInput sampleSemver sampleInput version) = [p] ∧
      Reserves p ⟨300, ⟨"0.000002"⟩, 2, "p1"⟩ :=
  admitted_bound_reserves sampleSemver [sampleProof] sampleInput _ (by decide +kernel)

end FerroLoop.Slice
