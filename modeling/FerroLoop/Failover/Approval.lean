import FerroLoop.Governor.Policy
import FerroLoop.Governor.Endpoints

namespace FerroLoop.Failover

open Text Governor Checked List

inductive FailoverError where
  | noEndpoints
  | emptyEndpoint (index : Nat)
  | duplicateEndpoint (endpoint : String)
  | missingConformanceTest
  | invalidEndpoint (index : Nat) (endpoint : String)
  | finishBeforeBegin (logicalOperationId : String) (attemptIndex : UInt32)
  | duplicateBegin (logicalOperationId : String) (attemptIndex : UInt32)
  | attemptAlreadyFinished (logicalOperationId : String) (attemptIndex : UInt32)
  | journalUnavailable
  deriving DecidableEq

def afterLast (c : Char) (cs : List Char) : List Char := (cs.reverse.takeWhile (· != c)).reverse

def urlHost (rest : List Char) : List Char :=
  (afterLast '@' (rest.takeWhile fun c => !endsAuthority c)).takeWhile (· != ':')

def isAbsoluteHttpUrl (ep : String) : Bool :=
  match (stripPrefix ep "http://").or (stripPrefix ep "https://") with
  | some rest => !(urlHost rest.toList).isEmpty
  | none => false

structure EndpointSet where
  connectorId : String
  tool : String
  endpoints : List String
  sideEffectClass : SideEffectClass
  idempotencyConformanceTest : Option String
  deriving DecidableEq

def debugClass : SideEffectClass → String
  | .sideEffectful => "SideEffectful"
  | .idempotentWithKey => "IdempotentWithKey"

def EndpointSet.canonicalText (s : EndpointSet) : String :=
  "endpoint-set/v1\nconnector=" ++ s.connectorId ++ "\ntool=" ++ s.tool ++ "\nendpoints=" ++
    "\n".intercalate s.endpoints ++ "\nclass=" ++ debugClass s.sideEffectClass ++ "\nconformance=" ++
    s.idempotencyConformanceTest.getD ""

def EndpointSet.computedPolicyDigest (sha256Hex : String → String) (s : EndpointSet) : String :=
  sha256Hex s.canonicalText

def checkEndpoints (earlier : List String) : Nat → List String → Except FailoverError Unit
  | _, [] => .ok ()
  | i, ep :: rest =>
    if trim ep = "" then .error (.emptyEndpoint i)
    else if !isAbsoluteHttpUrl ep then .error (.invalidEndpoint i ep)
    else if ep ∈ earlier then .error (.duplicateEndpoint ep)
    else checkEndpoints (earlier ++ [ep]) (i + 1) rest

def checkConformance (s : EndpointSet) : Except FailoverError Unit :=
  match s.sideEffectClass, s.idempotencyConformanceTest with
  | .sideEffectful, _ => .ok ()
  | .idempotentWithKey, some name => if trim name = "" then .error .missingConformanceTest else .ok ()
  | .idempotentWithKey, none => .error .missingConformanceTest

def EndpointSet.validate (s : EndpointSet) : Except FailoverError Unit :=
  if s.endpoints = [] then .error .noEndpoints
  else
    match checkEndpoints [] 0 s.endpoints with
    | .error e => .error e
    | .ok () => checkConformance s

def policyLines (s : EndpointSet) (first : String) (others : List String) : List String :=
  ["endpoint-set/v1", "connector=" ++ s.connectorId, "tool=" ++ s.tool] ++
    ((("endpoints=" ++ first) :: others) ++
      ["class=" ++ debugClass s.sideEffectClass, "conformance=" ++ s.idempotencyConformanceTest.getD ""])

variable {others : List String} {first ep : String} {s : EndpointSet}

theorem canonicalText_lines (split : s.endpoints = first :: others) :
    s.canonicalText = "\n".intercalate (policyLines s first others) := by
  have header : "endpoint-set/v1\nconnector=" = "endpoint-set/v1" ++ "\n" ++ "connector=" := by decide
  have tools : "\ntool=" = "\n" ++ "tool=" := by decide
  have endpoints : "\nendpoints=" = "\n" ++ "endpoints=" := by decide
  have classes : "\nclass=" = "\n" ++ "class=" := by decide
  have tests : "\nconformance=" = "\n" ++ "conformance=" := by decide
  unfold EndpointSet.canonicalText policyLines
  rw [String.intercalate_append_of_ne_nil (cons_ne_nil _ _) (append_ne_nil_of_left_ne_nil (cons_ne_nil _ _) _),
    String.intercalate_append_of_ne_nil (cons_ne_nil _ _) (cons_ne_nil _ _), String.intercalate_cons_append,
    String.intercalate_cons_cons, String.intercalate_cons_cons, String.intercalate_cons_cons,
    String.intercalate_singleton, String.intercalate_singleton, split, header, tools, endpoints, classes, tests]
  simp only [String.append_assoc]

theorem policyLines_length (s : EndpointSet) (first : String) (others : List String) :
    (policyLines s first others).length = 6 + others.length := by
  unfold policyLines
  simp only [length_append, length_cons, length_nil]
  omega

theorem lines_of_text {xs ys : List String} (someX : xs ≠ []) (someY : ys ≠ []) (cleanX : ∀ l ∈ xs, '\n' ∉ l.toList)
    (cleanY : ∀ l ∈ ys, '\n' ∉ l.toList) (same : "\n".intercalate xs = "\n".intercalate ys) : xs = ys := by
  have feed : ("\n" : String).toList = ['\n'] := by decide
  have back : ∀ {zs : List String}, zs ≠ [] → (∀ l ∈ zs, '\n' ∉ l.toList) →
      ("\n".intercalate zs).toList.splitOn '\n' = zs.map String.toList := by
    intro zs present clean
    rw [String.toList_intercalate, feed]
    apply splitOn_intercalate
    · intro l member
      obtain ⟨line, here, chars⟩ := List.mem_map.mp member
      rw [← chars]
      exact clean line here
    · intro none
      exact present (map_eq_nil_iff.mp none)
  have split := congrArg (fun text : String => text.toList.splitOn '\n') same
  rw [back someX cleanX, back someY cleanY] at split
  exact (map_inj_right fun _ _ => String.toList_inj.mp).mp split

theorem append_left_cancel {start a b : String} (same : start ++ a = start ++ b) : a = b := by
  have chars := congrArg String.toList same
  rw [String.toList_append, String.toList_append] at chars
  exact String.toList_inj.mp (append_cancel_left chars)

theorem debugClass_inj {a b : SideEffectClass} (same : debugClass a = debugClass b) : a = b := by
  cases a <;> cases b
  · rfl
  · exact absurd same (by decide)
  · exact absurd same (by decide)
  · rfl

variable {t : EndpointSet}

theorem policyLines_inj {first' : String} {others' : List String}
    (splitS : s.endpoints = first :: others) (splitT : t.endpoints = first' :: others')
    (same : policyLines s first others = policyLines t first' others') :
    s.connectorId = t.connectorId ∧ s.tool = t.tool ∧ s.endpoints = t.endpoints ∧
      s.sideEffectClass = t.sideEffectClass ∧
      s.idempotencyConformanceTest.getD "" = t.idempotencyConformanceTest.getD "" := by
  obtain ⟨front, back⟩ := append_inj same rfl
  obtain ⟨list, ends⟩ := append_inj' back rfl
  simp only [List.cons.injEq, and_true, true_and] at front ends list
  refine ⟨append_left_cancel front.1, append_left_cancel front.2, ?_, debugClass_inj (append_left_cancel ends.1),
    append_left_cancel ends.2⟩
  rw [splitS, splitT, append_left_cancel list.1, list.2]

structure EndpointSet.Plain (s : EndpointSet) : Prop where
  connector : '\n' ∉ s.connectorId.toList
  tool : '\n' ∉ s.tool.toList
  endpoints : ∀ ep ∈ s.endpoints, '\n' ∉ ep.toList
  test : ∀ name, s.idempotencyConformanceTest = some name → name ≠ "" ∧ '\n' ∉ name.toList

theorem labelled_clean {label text : String} (labelClean : '\n' ∉ label.toList) (textClean : '\n' ∉ text.toList) :
    '\n' ∉ (label ++ text).toList := by
  rw [String.toList_append, mem_append, not_or]
  exact ⟨labelClean, textClean⟩

theorem EndpointSet.Plain.lines (plain : s.Plain)
    (split : s.endpoints = first :: others) : ∀ l ∈ policyLines s first others, '\n' ∉ l.toList := by
  have listed := plain.endpoints
  rw [split] at listed
  have test : '\n' ∉ (s.idempotencyConformanceTest.getD "").toList := by
    cases named : s.idempotencyConformanceTest with
    | none => decide
    | some name => exact (plain.test name named).2
  have kind : '\n' ∉ (debugClass s.sideEffectClass).toList := by
    cases s.sideEffectClass <;> decide
  intro l member
  unfold policyLines at member
  simp only [mem_append, mem_cons, not_mem_nil, or_false] at member
  rcases member with (rfl | rfl | rfl) | (rfl | other) | rfl | rfl
  · decide
  · exact labelled_clean (by decide) plain.connector
  · exact labelled_clean (by decide) plain.tool
  · exact labelled_clean (by decide) (listed first mem_cons_self)
  · exact listed l (mem_cons_of_mem _ other)
  · exact labelled_clean (by decide) kind
  · exact labelled_clean (by decide) test

theorem validate_endpoints (valid : s.validate = .ok ()) : ∃ first others, s.endpoints = first :: others := by
  unfold EndpointSet.validate at valid
  cases split : s.endpoints with
  | nil =>
    rw [if_pos split] at valid
    cases valid
  | cons first others => exact ⟨first, others, rfl⟩

theorem count_intercalate (x : Char) (ls : List (List Char)) (present : ls ≠ []) :
    ([x].intercalate ls).count x + 1 = ls.length + (ls.map (List.count x)).sum := by
  induction ls with
  | nil => exact absurd rfl present
  | cons l rest ih =>
    rcases rest with _ | ⟨next, others⟩
    · rw [intercalate_singleton, map_singleton, sum_singleton, length_singleton]
      omega
    have inner := ih (cons_ne_nil next others)
    rw [intercalate_cons_cons, count_append, count_append, count_singleton_self, map_cons,
      sum_cons, length_cons]
    omega

variable {only : String}

/-- A set that shares the text of a plain set of one endpoint has one endpoint too, and its lines are clean. -/
theorem lines_clean_of_text (plain : s.Plain)
    (single : s.endpoints = [only]) (split : t.endpoints = first :: others) (same : s.canonicalText = t.canonicalText) :
    ∀ l ∈ policyLines t first others, '\n' ∉ l.toList := by
  have feed : ("\n" : String).toList = ['\n'] := by decide
  have counted : ∀ {u : EndpointSet} {e : String} {es : List String}, u.endpoints = e :: es →
      u.canonicalText.toList.count '\n' =
        5 + es.length + ((policyLines u e es).map fun l => l.toList.count '\n').sum := by
    intro u e es parts
    have whole := count_intercalate '\n' ((policyLines u e es).map String.toList)
      (by rw [Ne, map_eq_nil_iff]; exact cons_ne_nil _ _)
    rw [length_map, policyLines_length, map_map] at whole
    rw [canonicalText_lines parts, String.toList_intercalate, feed]
    have sums : ((policyLines u e es).map (List.count '\n' ∘ String.toList)).sum =
      ((policyLines u e es).map fun l => l.toList.count '\n').sum := rfl
    omega
  have clean := plain.lines single
  have none : ((policyLines s only []).map fun l => l.toList.count '\n').sum = 0 := by
    apply List.sum_eq_zero_iff_forall_eq_nat.mpr
    intro n member
    obtain ⟨l, here, count⟩ := List.mem_map.mp member
    rw [← count]
    exact List.count_eq_zero.mpr (clean l here)
  have left := counted single
  have right := counted split
  rw [same, none] at left
  rw [left, length_nil] at right
  intro l member
  have rest : ((policyLines t first others).map fun l => l.toList.count '\n').sum = 0 := by omega
  exact List.count_eq_zero.mp (List.sum_eq_zero_iff_forall_eq_nat.mp rest _ (List.mem_map.mpr ⟨l, member, rfl⟩))

theorem http_toList : ("http://" : String).toList = ['h', 't', 't', 'p', ':', '/', '/'] := by decide

theorem https_toList : ("https://" : String).toList = ['h', 't', 't', 'p', 's', ':', '/', '/'] := by decide

theorem https_not_http (rest : String) : stripPrefix ("https://" ++ rest) "http://" = none := by
  unfold stripPrefix startsWith
  rw [String.toList_append, http_toList, https_toList]
  rfl

theorem isAbsoluteHttpUrl_iff : isAbsoluteHttpUrl ep = true ↔
    ∃ rest, (ep = "http://" ++ rest ∨ ep = "https://" ++ rest) ∧ urlHost rest.toList ≠ [] := by
  unfold isAbsoluteHttpUrl
  constructor
  · intro accepted
    cases plain : stripPrefix ep "http://" with
    | some rest =>
      rw [plain] at accepted
      exact ⟨rest, Or.inl (stripPrefix_eq_some.mp plain), by simpa using accepted⟩
    | none =>
      rw [plain, Option.none_or] at accepted
      cases secure : stripPrefix ep "https://" with
      | some rest =>
        rw [secure] at accepted
        exact ⟨rest, Or.inr (stripPrefix_eq_some.mp secure), by simpa using accepted⟩
      | none =>
        rw [secure] at accepted
        cases accepted
  · rintro ⟨rest, same | same, named⟩
    · rw [stripPrefix_eq_some.mpr same]
      simpa using named
    · rw [stripPrefix_eq_some.mpr same, same, https_not_http]
      simpa using named

variable {front : List Char}

theorem afterLast_append {c : Char} {back : List Char} (absent : c ∉ back) :
    afterLast c (front ++ back) = afterLast c front ++ back := by
  unfold afterLast
  rw [reverse_append, takeWhile_append_of_pos, reverse_append, reverse_reverse]
  intro d member
  rw [bne_iff_ne]
  intro same
  rw [same] at member
  exact absent (mem_reverse.mp member)

theorem takeWhile_append_ne_nil {p : Char → Bool} (some : front.takeWhile p ≠ []) (back : List Char) :
    (front ++ back).takeWhile p ≠ [] := by
  rcases front with _ | ⟨c, rest⟩
  · exact absurd rfl some
  rw [takeWhile_cons] at some
  rw [cons_append, takeWhile_cons]
  split at some
  · rw [if_pos ‹_›]
    exact cons_ne_nil _ _
  · exact absurd rfl some

theorem urlHost_append {rest more : List Char} (named : urlHost rest ≠ [])
    (absent : '@' ∉ more.takeWhile fun c => !endsAuthority c) : urlHost (rest ++ more) ≠ [] := by
  unfold urlHost at named ⊢
  rw [takeWhile_append]
  split
  · rename_i whole
    have all : rest.takeWhile (fun c => !endsAuthority c) = rest :=
      ( takeWhile_prefix _).eq_of_length whole
    rw [all] at named
    rw [afterLast_append absent]
    exact takeWhile_append_ne_nil named _
  · exact named

theorem joined_absolute {second : String} (one : isAbsoluteHttpUrl first = true)
    (two : isAbsoluteHttpUrl second = true) : isAbsoluteHttpUrl ("\n".intercalate (first :: second :: others)) = true := by
  obtain ⟨rest, scheme, named⟩ := isAbsoluteHttpUrl_iff.mp one
  obtain ⟨rest', scheme', -⟩ := isAbsoluteHttpUrl_iff.mp two
  have feed : ("\n" : String).toList = ['\n'] := by decide
  have next : ∃ more, "\n".intercalate (second :: others) = second ++ more := by
    cases others with
    | nil => exact ⟨"", by rw [String.intercalate_singleton, String.append_empty]⟩
    | cons third remaining => exact ⟨_, by rw [String.intercalate_cons_cons, String.append_assoc]⟩
  obtain ⟨more, joined⟩ := next
  have absent : '@' ∉ ("\n" ++ (second ++ more)).toList.takeWhile fun c => !endsAuthority c := by
    rw [String.toList_append, String.toList_append, feed]
    rcases scheme' with same | same
    · rw [same, String.toList_append, http_toList]
      simp [endsAuthority]
    · rw [same, String.toList_append, https_toList]
      simp [endsAuthority]
  apply isAbsoluteHttpUrl_iff.mpr
  refine ⟨rest ++ ("\n" ++ (second ++ more)), ?_, ?_⟩
  · rw [String.intercalate_cons_cons, joined]
    rcases scheme with same | same
    · left
      rw [same]
      simp only [String.append_assoc]
    · right
      rw [same]
      simp only [String.append_assoc]
  · rw [String.toList_append]
    exact urlHost_append named absent

theorem absolute_not_blank (absolute : isAbsoluteHttpUrl ep = true) : trim ep ≠ "" := by
  intro blank
  obtain ⟨rest, scheme, -⟩ := isAbsoluteHttpUrl_iff.mp absolute
  have letter : 'h' ∈ ep.toList := by
    rcases scheme with same | same
    · rw [same, String.toList_append, http_toList]
      exact mem_cons_self
    · rw [same, String.toList_append, https_toList]
      exact mem_cons_self
  have white := isWhitespace_of_trim blank letter
  revert white
  decide

theorem checkEndpoints_absolute {earlier eps : List String} {i : Nat} (passed : checkEndpoints earlier i eps = .ok ()) :
    ∀ ep ∈ eps, isAbsoluteHttpUrl ep = true := by
  induction eps generalizing earlier i with
  | nil =>
    intro ep member
    cases member
  | cons first rest ih =>
    unfold checkEndpoints at passed
    split at passed
    · cases passed
    split at passed
    · cases passed
    rename_i accepted
    split at passed
    · cases passed
    intro ep member
    rcases mem_cons.mp member with same | later
    · rw [same]
      simpa using accepted
    · exact ih passed ep later

theorem checkEndpoints_single (absolute : isAbsoluteHttpUrl ep = true) : checkEndpoints [] 0 [ep] = .ok () := by
  unfold checkEndpoints
  rw [if_neg (absolute_not_blank absolute), absolute]
  rfl

theorem validate_iff : s.validate = .ok () ↔
    s.endpoints ≠ [] ∧ checkEndpoints [] 0 s.endpoints = .ok () ∧ checkConformance s = .ok () := by
  unfold EndpointSet.validate
  by_cases empty : s.endpoints = []
  · rw [if_pos empty]
    constructor
    · intro valid
      cases valid
    · rintro ⟨present, -⟩
      exact absurd empty present
  · rw [if_neg empty]
    cases checkEndpoints [] 0 s.endpoints with
    | error e =>
      constructor
      · intro valid
        cases valid
      · rintro ⟨-, passed, -⟩
        cases passed
    | ok u => exact ⟨fun valid => ⟨empty, rfl, valid⟩, fun parts => parts.2.2⟩

def EndpointSet.joined (s : EndpointSet) : EndpointSet := { s with endpoints := ["\n".intercalate s.endpoints] }

theorem EndpointSet.joined_text (s : EndpointSet) : s.joined.canonicalText = s.canonicalText := by
  unfold EndpointSet.canonicalText EndpointSet.joined
  rw [String.intercalate_singleton]

theorem EndpointSet.joined_valid (valid : s.validate = .ok ()) : s.joined.validate = .ok () := by
  obtain ⟨present, passed, conforms⟩ := validate_iff.mp valid
  have absolute := checkEndpoints_absolute passed
  refine validate_iff.mpr ⟨cons_ne_nil _ _, checkEndpoints_single ?_, conforms⟩
  rcases split : s.endpoints with _ | ⟨first, rest⟩
  · exact absurd split present
  rw [split] at absolute
  cases rest with
  | nil =>
    exact absolute first mem_cons_self
  | cons second others =>
    exact joined_absolute (absolute first mem_cons_self) (absolute second (mem_cons_of_mem _ mem_cons_self))

section Digest

variable {sha256Hex : String → String}

variable {t : EndpointSet} {s : EndpointSet}

theorem EndpointSet.ext_fields (connector : s.connectorId = t.connectorId) (tool : s.tool = t.tool)
    (endpoints : s.endpoints = t.endpoints) (kind : s.sideEffectClass = t.sideEffectClass)
    (test : s.idempotencyConformanceTest = t.idempotencyConformanceTest) : s = t := by
  cases s
  cases t
  subst connector tool endpoints kind test
  rfl

theorem test_of_getD (plain : s.Plain) (plain' : t.Plain)
    (same : s.idempotencyConformanceTest.getD "" = t.idempotencyConformanceTest.getD "") :
    s.idempotencyConformanceTest = t.idempotencyConformanceTest := by
  cases left : s.idempotencyConformanceTest with
  | none =>
    cases right : t.idempotencyConformanceTest with
    | none => rfl
    | some name =>
      rw [left, right] at same
      exact absurd same.symm (plain'.test name right).1
  | some name =>
    cases right : t.idempotencyConformanceTest with
    | none =>
      rw [left, right] at same
      exact absurd same (plain.test name left).1
    | some other =>
      rw [left, right] at same
      exact congrArg some same

theorem plain_sets_differ (distinct : Function.Injective sha256Hex) (valid : s.validate = .ok ())
    (valid' : t.validate = .ok ()) (plain : s.Plain) (plain' : t.Plain)
    (same : s.computedPolicyDigest sha256Hex = t.computedPolicyDigest sha256Hex) : s = t := by
  obtain ⟨first, others, split⟩ := validate_endpoints valid
  obtain ⟨first', others', split'⟩ := validate_endpoints valid'
  have texts := distinct same
  rw [canonicalText_lines split, canonicalText_lines split'] at texts
  have lines := lines_of_text (cons_ne_nil _ _) (cons_ne_nil _ _) (plain.lines split) (plain'.lines split') texts
  obtain ⟨connector, tool, endpoints, kind, test⟩ := policyLines_inj split split' lines
  exact EndpointSet.ext_fields connector tool endpoints kind (test_of_getD plain plain' test)

theorem single_set_unique (distinct : Function.Injective sha256Hex) {name : String} (plain : s.Plain)
    (single : s.endpoints = [only]) (tested : s.idempotencyConformanceTest = some name) (valid : t.validate = .ok ())
    (same : s.computedPolicyDigest sha256Hex = t.computedPolicyDigest sha256Hex) : s = t := by
  obtain ⟨first, others, split⟩ := validate_endpoints valid
  have texts := distinct same
  have clean := lines_clean_of_text plain single split texts
  rw [canonicalText_lines single, canonicalText_lines split] at texts
  have lines := lines_of_text (cons_ne_nil _ _) (cons_ne_nil _ _) (plain.lines single) clean texts
  obtain ⟨connector, tool, endpoints, kind, test⟩ := policyLines_inj single split lines
  refine EndpointSet.ext_fields connector tool endpoints kind ?_
  rw [tested, Option.getD_some] at test
  cases other : t.idempotencyConformanceTest with
  | none =>
    rw [other, Option.getD_none] at test
    exact absurd test (plain.test name tested).1
  | some name' =>
    rw [other, Option.getD_some] at test
    rw [tested, test]

theorem unnamed_twin (valid : s.validate = .ok ()) (untested : s.idempotencyConformanceTest = none) :
    ({ s with idempotencyConformanceTest := some "" } : EndpointSet).validate = .ok () ∧
      ({ s with idempotencyConformanceTest := some "" } : EndpointSet).canonicalText = s.canonicalText := by
  obtain ⟨present, passed, conforms⟩ := validate_iff.mp valid
  constructor
  · refine validate_iff.mpr ⟨present, passed, ?_⟩
    unfold checkConformance at conforms ⊢
    rw [untested] at conforms
    cases kind : s.sideEffectClass with
    | sideEffectful => rfl
    | idempotentWithKey =>
      rw [kind] at conforms
      cases conforms
  · unfold EndpointSet.canonicalText
    rw [untested]
    rfl

/-- Two valid sets without line feeds have one digest only if they are one set. A valid set without line
feeds shares its digest with no other valid set of any kind just when it has one endpoint and a test. -/
theorem approval_authorizes_one (distinct : Function.Injective sha256Hex) :
    (∀ s t : EndpointSet, s.validate = .ok () → t.validate = .ok () → s.Plain → t.Plain →
      (s.computedPolicyDigest sha256Hex = t.computedPolicyDigest sha256Hex ↔ s = t)) ∧
    ∀ s : EndpointSet, s.validate = .ok () → s.Plain →
      ((∀ t : EndpointSet, t.validate = .ok () →
          s.computedPolicyDigest sha256Hex = t.computedPolicyDigest sha256Hex → s = t) ↔
        s.endpoints.length = 1 ∧ s.idempotencyConformanceTest.isSome = true) := by
  constructor
  · intro s t valid valid' plain plain'
    exact ⟨plain_sets_differ distinct valid valid' plain plain', fun same => by rw [same]⟩
  · intro s valid plain
    constructor
    · intro unique
      constructor
      · have joined := unique s.joined (EndpointSet.joined_valid valid) (congrArg sha256Hex s.joined_text.symm)
        have endpoints := congrArg EndpointSet.endpoints joined
        rw [endpoints]
        rfl
      · cases named : s.idempotencyConformanceTest with
        | some name => rfl
        | none =>
          obtain ⟨valid', text⟩ := unnamed_twin valid named
          have twin := unique _ valid' (congrArg sha256Hex text.symm)
          have tests := congrArg EndpointSet.idempotencyConformanceTest twin
          rw [named] at tests
          cases tests
    · rintro ⟨single, tested⟩ t valid' same
      obtain ⟨only, listed⟩ := length_eq_one_iff.mp single
      obtain ⟨name, named⟩ := Option.isSome_iff_exists.mp tested
      exact single_set_unique distinct plain listed named valid' same

end Digest

def mirrors : EndpointSet := ⟨"search", "find", ["https://a.example", "https://b.example"], .sideEffectful, none⟩

theorem approval_authorizes_mirrors :
    mirrors.computedPolicyDigest id ≠ ({ mirrors with endpoints := ["https://b.example", "https://a.example"] } :
      EndpointSet).computedPolicyDigest id := by
  have connector : '\n' ∉ mirrors.connectorId.toList := by decide
  have tool : '\n' ∉ mirrors.tool.toList := by decide
  have plain : ∀ eps : List String, (∀ ep ∈ eps, '\n' ∉ ep.toList) → ({ mirrors with endpoints := eps } : EndpointSet).Plain :=
    fun eps clean => ⟨connector, tool, clean, fun name named => by cases named⟩
  intro same
  have one := ((approval_authorizes_one Function.injective_id).1 mirrors
    { mirrors with endpoints := ["https://b.example", "https://a.example"] } (ok_of_toOption (by decide +kernel))
    (ok_of_toOption (by decide +kernel)) (plain mirrors.endpoints (by decide)) (plain _ (by decide))).mp same
  exact absurd one (by decide)

/-- An approval of two endpoints is an approval of one endpoint that spells out both. -/
theorem one_digest_two_lists :
    mirrors.validate = .ok () ∧ mirrors.joined.validate = .ok () ∧ mirrors.endpoints ≠ mirrors.joined.endpoints ∧
    (fun sha256Hex => mirrors.computedPolicyDigest sha256Hex) = fun sha256Hex => mirrors.joined.computedPolicyDigest sha256Hex := by
  have valid : mirrors.validate = .ok () := ok_of_toOption (by decide +kernel)
  refine ⟨valid, EndpointSet.joined_valid valid, by decide, ?_⟩
  funext sha256Hex
  exact congrArg sha256Hex mirrors.joined_text.symm

end FerroLoop.Failover
