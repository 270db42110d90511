import FerroLoop.PrPolicy.Policy
import FerroLoop.Lib.Sorted

namespace FerroLoop.PrPolicy

open Std Text List Option
open Agents (AgentRole AgentStatus)
open FerroState (AgentRecord)

def Latest (meets : PrReviewSummary → Prop) (reviews : List PrReviewSummary) (review : PrReviewSummary) : Prop :=
  review ∈ reviews ∧ meets review ∧ ∀ other ∈ reviews, meets other → other.id ≤ review.id

def DistinctIds (reviews : List PrReviewSummary) : Prop := (reviews.map PrReviewSummary.id).Nodup

variable {reviews : List PrReviewSummary} {review : PrReviewSummary}

theorem Latest.congr {meets meets' : PrReviewSummary → Prop}
    (same : ∀ r, meets r ↔ meets' r) : Latest meets reviews review ↔ Latest meets' reviews review := by
  have equal : meets = meets' := funext fun r => propext (same r)
  rw [equal]

theorem DistinctIds.eq (distinct : DistinctIds reviews) {a b : PrReviewSummary}
    (first : a ∈ reviews) (second : b ∈ reviews) (same : a.id = b.id) : a = b :=
  inj_on_of_nodup_map distinct first second same

theorem le_trans' (a b c : PrReviewSummary) (first : decide (a.id ≤ b.id) = true) (second : decide (b.id ≤ c.id) = true) :
    decide (a.id ≤ c.id) = true := by
  rw [decide_eq_true_eq] at first second ⊢
  exact UInt64.le_trans first second

theorem le_total' (a b : PrReviewSummary) : (decide (a.id ≤ b.id) || decide (b.id ≤ a.id)) = true := by
  rw [Bool.or_eq_true, decide_eq_true_eq, decide_eq_true_eq]
  exact UInt64.le_total a.id b.id

def ordered (reviews : List PrReviewSummary) : List PrReviewSummary := reviews.mergeSort fun a b => decide (a.id ≤ b.id)

theorem ordered_sorted (reviews : List PrReviewSummary) : (ordered reviews).Pairwise fun a b => a.id ≤ b.id := by
  refine (pairwise_mergeSort le_trans' le_total' reviews).imp ?_
  intro a b before
  exact of_decide_eq_true before

theorem mem_ordered : review ∈ ordered reviews ↔ review ∈ reviews :=
  mem_mergeSort

theorem ordered_nodup (distinct : DistinctIds reviews) : (ordered reviews).Nodup :=
  (mergeSort_perm reviews _).nodup_iff.mpr (List.Nodup.of_map _ distinct)

variable {other : List PrReviewSummary}

theorem ordered_perm (distinct : DistinctIds reviews) (perm : other.Perm reviews) :
    ordered other = ordered reviews := by
  refine List.Perm.eq_of_pairwise ?_ (ordered_sorted other) (ordered_sorted reviews)
    (((mergeSort_perm other _).trans perm).trans (mergeSort_perm reviews _).symm)
  intro a b first second before after
  have same : a.id = b.id := UInt64.le_antisymm before after
  exact distinct.eq (perm.subset (mem_ordered.mp first)) (mem_ordered.mp second) same

variable {key : String}

/-- A fold over the reviews, oldest first, leaves under a key what the latest review under the key is folded as. -/
theorem foldl_latest {β : Type} (distinct : DistinctIds reviews)
    (entry : PrReviewSummary → Option (String × β)) {folded : β} :
    ((ordered reviews).foldl (fun built item => Map.insertEntry built (entry item))
        (∅ : ExtTreeMap String β compare))[key]? = some folded ↔
      ∃ review, entry review = some (key, folded) ∧ Latest (fun r => ∃ value, entry r = some (key, value)) reviews review := by
  have sorted := ordered_sorted reviews
  have nodup := ordered_nodup distinct
  rw [Map.foldl_insertEntry]
  constructor
  · rintro (⟨before, review, after, split, written, later⟩ | ⟨held, _⟩)
    · refine ⟨review, written, mem_ordered.mp ?_, ⟨folded, written⟩, ?_⟩
      · rw [split]
        exact mem_append_right _ mem_cons_self
      rintro other member ⟨value, under⟩
      rw [split] at sorted
      obtain ⟨-, tail, front⟩ := pairwise_append.mp sorted
      have placed := mem_ordered.mpr member
      rw [split] at placed
      rcases mem_append.mp placed with early | rest
      · exact front other early review mem_cons_self
      · rcases mem_cons.mp rest with rfl | late
        · exact UInt64.le_refl _
        · exact absurd under (later other late value)
    · cases ExtTreeMap.getElem?_empty.symm.trans held
  · rintro ⟨review, written, member, -, latest⟩
    obtain ⟨before, after, split⟩ := append_of_mem (mem_ordered.mpr member)
    refine .inl ⟨before, review, after, split, written, ?_⟩
    intro other late value under
    rw [split] at sorted nodup
    have apart : review ∉ after := (nodup_cons.mp (nodup_append.mp nodup).2.1).1
    have here : other ∈ ordered reviews := by
      rw [split]
      exact mem_append_right _ (mem_cons_of_mem _ late)
    have below := latest other (mem_ordered.mp here) ⟨value, under⟩
    have above := rel_of_pairwise_cons (pairwise_append.mp sorted).2.1 late
    have same := distinct.eq (mem_ordered.mp here) member (UInt64.le_antisymm below above)
    exact apart (same ▸ late)

variable {marker : FlReviewMarker} {name : String}

section Fold

variable (outside : Outside) (headSha : String) (eval : PrPolicyEvaluation) (agents : List AgentRecord) (owner : String)
  (apps : ReviewerApps)

def Under (key : String) (review : PrReviewSummary) : Prop :=
  ∃ folded, foldedReview outside headSha eval agents owner apps review = some (key, folded)

def Stands (reviews : List PrReviewSummary) (review : PrReviewSummary) (folded : FoldedReviewState) : Prop :=
  ∃ key, foldedReview outside headSha eval agents owner apps review = some (key, folded) ∧
    Latest (Under outside headSha eval agents owner apps key) reviews review

variable {outside headSha eval agents owner apps}

theorem latestByReviewer_iff (distinct : DistinctIds reviews)
    {folded : FoldedReviewState} :
    (latestByReviewer outside headSha eval reviews agents owner apps)[key]? = some folded ↔
      ∃ review, foldedReview outside headSha eval agents owner apps review = some (key, folded) ∧
        Latest (Under outside headSha eval agents owner apps key) reviews review :=
  foldl_latest distinct _

theorem mem_values (distinct : DistinctIds reviews) {folded : FoldedReviewState} :
    folded ∈ (latestByReviewer outside headSha eval reviews agents owner apps).toList.map Prod.snd ↔
      ∃ review, Stands outside headSha eval agents owner apps reviews review folded := by
  rw [List.mem_map]
  constructor
  · rintro ⟨⟨key, value⟩, member, rfl⟩
    obtain ⟨review, written, latest⟩ := (latestByReviewer_iff distinct).mp (ExtTreeMap.mem_toList_iff_getElem?_eq_some.mp member)
    exact ⟨review, key, written, latest⟩
  · rintro ⟨review, key, written, latest⟩
    exact ⟨(key, folded), ExtTreeMap.mem_toList_iff_getElem?_eq_some.mpr ((latestByReviewer_iff distinct).mpr ⟨review, written, latest⟩),
      rfl⟩

variable (owner apps) in
def ByOwner (review : PrReviewSummary) : Prop := changesState review = true ∧ eqIgnoreAsciiCase review.authorLogin owner = true

variable (outside owner apps) in
def ByApp (marker : FlReviewMarker) (review : PrReviewSummary) : Prop :=
  changesState review = true ∧ eqIgnoreAsciiCase review.authorLogin owner = false ∧ apps.wrote review = true ∧
    extractReviewMarker outside review.body = some marker

variable (outside owner apps) in
def ByOutsider (marker : FlReviewMarker) (review : PrReviewSummary) : Prop :=
  changesState review = true ∧ eqIgnoreAsciiCase review.authorLogin owner = false ∧ apps.wrote review = false ∧
    stateOf review ≠ "APPROVED" ∧ extractReviewMarker outside review.body = some marker

variable (outside owner apps) in
/-- A state-changing review of a Reviewer App whose marker names the reviewer. -/
def Named (name : String) (review : PrReviewSummary) : Prop :=
  ∃ marker, ByApp outside owner apps marker review ∧ eqIgnoreAsciiCase marker.reviewer name = true

variable (outside owner apps) in
/-- A marked review of an account that is no Reviewer App's, and no approval. -/
def ByLogin (login : String) (review : PrReviewSummary) : Prop :=
  ∃ marker, ByOutsider outside owner apps marker review ∧
    toAsciiLowercase (trim review.authorLogin) = toAsciiLowercase (trim login)

theorem foldedReview_iff {folded : FoldedReviewState} :
    foldedReview outside headSha eval agents owner apps review = some (key, folded) ↔
      (ByOwner owner review ∧ key = ownerKey owner ∧ folded = ownerState headSha owner review) ∨
      (∃ marker, ByApp outside owner apps marker review ∧ key = agentKey marker.reviewer ∧
        folded = markedState headSha eval agents review marker) ∨
      ∃ marker, ByOutsider outside owner apps marker review ∧ key = loginKey review.authorLogin ∧
        folded = markedState headSha eval agents review marker := by
  constructor
  · intro written
    unfold foldedReview at written
    split at written
    · cases written
    rename_i changes
    have changes : changesState review = true := by simpa using changes
    split at written
    · rename_i own
      obtain ⟨key, folded⟩ := Prod.mk.inj (some.inj written)
      exact .inl ⟨⟨changes, own⟩, key.symm, folded.symm⟩
    rename_i other
    have other : eqIgnoreAsciiCase review.authorLogin owner = false := by simpa using other
    split at written
    · cases written
    rename_i counted
    obtain ⟨marker, found, pair⟩ := map_eq_some_iff.mp written
    obtain ⟨key, folded⟩ := Prod.mk.inj pair
    cases wrote : apps.wrote review with
    | true =>
      rw [wrote, if_pos rfl] at key
      exact .inr (.inl ⟨marker, ⟨changes, other, wrote, found⟩, key.symm, folded.symm⟩)
    | false =>
      rw [wrote, if_neg Bool.false_ne_true] at key
      have rejects : stateOf review ≠ "APPROVED" := by
        intro approves
        rw [wrote, approves] at counted
        exact counted rfl
      exact .inr (.inr ⟨marker, ⟨changes, other, wrote, rejects, found⟩, key.symm, folded.symm⟩)
  · unfold foldedReview
    rintro (⟨⟨changes, own⟩, rfl, rfl⟩ | ⟨marker, ⟨changes, other, wrote, found⟩, rfl, rfl⟩ |
      ⟨marker, ⟨changes, other, wrote, rejects, found⟩, rfl, rfl⟩)
    · rw [changes, own]
      rfl
    · rw [changes, other, wrote, Bool.not_true, Bool.and_false, found]
      rfl
    · rw [changes, other, wrote, beq_false_of_ne rejects, found]
      rfl

theorem ByApp.folded (app : ByApp outside owner apps marker review) :
    foldedReview outside headSha eval agents owner apps review =
      some (agentKey marker.reviewer, markedState headSha eval agents review marker) :=
  foldedReview_iff.mpr (.inr (.inl ⟨marker, app, rfl, rfl⟩))

theorem ownerKey_ne_agentKey (owner reviewer : String) : ownerKey owner ≠ agentKey reviewer := append_ne (by decide)

theorem ownerKey_ne_loginKey (owner login : String) : ownerKey owner ≠ loginKey login := append_ne (by decide)

theorem agentKey_ne_loginKey (reviewer login : String) : agentKey reviewer ≠ loginKey login := append_ne (by decide)

theorem agentKey_iff {a b : String} : agentKey a = agentKey b ↔ eqIgnoreAsciiCase a b = true := by
  rw [eqIgnoreAsciiCase_iff]
  exact String.append_right_inj _

theorem loginKey_iff {a b : String} : loginKey a = loginKey b ↔ toAsciiLowercase (trim a) = toAsciiLowercase (trim b) :=
  String.append_right_inj _

theorem under_ownerKey :
    Under outside headSha eval agents owner apps (ownerKey owner) review ↔ ByOwner owner review := by
  constructor
  · rintro ⟨folded, written⟩
    rcases foldedReview_iff.mp written with ⟨own, -, -⟩ | ⟨marker, -, key, -⟩ | ⟨marker, -, key, -⟩
    · exact own
    · exact absurd key (ownerKey_ne_agentKey _ _)
    · exact absurd key (ownerKey_ne_loginKey _ _)
  · intro own
    exact ⟨_, foldedReview_iff.mpr (.inl ⟨own, rfl, rfl⟩)⟩

theorem under_agentKey :
    Under outside headSha eval agents owner apps (agentKey name) review ↔ Named outside owner apps name review := by
  constructor
  · rintro ⟨folded, written⟩
    rcases foldedReview_iff.mp written with ⟨-, key, -⟩ | ⟨marker, app, key, -⟩ | ⟨marker, -, key, -⟩
    · exact absurd key.symm (ownerKey_ne_agentKey _ _)
    · exact ⟨marker, app, agentKey_iff.mp key.symm⟩
    · exact absurd key (agentKey_ne_loginKey _ _)
  · rintro ⟨marker, app, named⟩
    exact ⟨_, foldedReview_iff.mpr (.inr (.inl ⟨marker, app, (agentKey_iff.mpr named).symm, rfl⟩))⟩

theorem under_loginKey {login : String} :
    Under outside headSha eval agents owner apps (loginKey login) review ↔ ByLogin outside owner apps login review := by
  constructor
  · rintro ⟨folded, written⟩
    rcases foldedReview_iff.mp written with ⟨-, key, -⟩ | ⟨marker, -, key, -⟩ | ⟨marker, outsider, key, -⟩
    · exact absurd key.symm (ownerKey_ne_loginKey _ _)
    · exact absurd key.symm (agentKey_ne_loginKey _ _)
    · exact ⟨marker, outsider, loginKey_iff.mp key.symm⟩
  · rintro ⟨marker, outsider, same⟩
    exact ⟨_, foldedReview_iff.mpr (.inr (.inr ⟨marker, outsider, (loginKey_iff.mpr same).symm, rfl⟩))⟩

theorem latest_ownerKey :
    Latest (Under outside headSha eval agents owner apps (ownerKey owner)) reviews review ↔ Latest (ByOwner owner) reviews review :=
  Latest.congr fun _ => under_ownerKey

theorem ownerState_valid :
    (ownerState headSha owner review).validForHead = true ↔ stateOf review = "APPROVED" ∧ review.commitId = some headSha := by
  unfold ownerState
  simp only [Bool.and_eq_true, beq_iff_eq]

theorem markedState_valid :
    (markedState headSha eval agents review marker).validForHead = true ↔
      stateOf review = "APPROVED" ∧ marker.verdict = .approved ∧ marker.headSha = headSha ∧
        review.commitId.all (· == headSha) = true ∧ authorized eval agents marker = true := by
  unfold markedState
  simp only [Bool.and_eq_true, beq_iff_eq, and_assoc]

end Fold

section Answer

variable (outside : Outside) (headSha : String) (eval : PrPolicyEvaluation) (agents : List AgentRecord) (ownerLogin : String)
  (apps : ReviewerApps)

def ApprovalStands (reviews : List PrReviewSummary) : Prop :=
  ∃ review folded, Stands outside headSha eval agents (ownerOf ownerLogin) apps reviews review folded ∧
    folded.state = "APPROVED" ∧ folded.validForHead = true

def RejectionStands (reviews : List PrReviewSummary) : Prop :=
  ∃ review folded, Stands outside headSha eval agents (ownerOf ownerLogin) apps reviews review folded ∧
    folded.authorizedReviewer = true ∧ folded.state = "CHANGES_REQUESTED"

variable {outside headSha eval agents ownerLogin apps} {label : String}

theorem verify_ok (distinct : DistinctIds reviews)
    (verified : verifyMergeApprovals outside headSha eval reviews agents ownerLogin apps = .ok label) :
    ¬ RejectionStands outside headSha eval agents ownerLogin apps reviews ∧
      ∃ review folded, Stands outside headSha eval agents (ownerOf ownerLogin) apps reviews review folded ∧
        folded.state = "APPROVED" ∧ folded.validForHead = true ∧ folded.label = label := by
  unfold verifyMergeApprovals at verified
  dsimp only at verified
  split at verified
  · cases verified
  rename_i unopposed
  split at verified
  · rename_i approved found
    have same := Except.ok.inj verified
    refine ⟨?_, ?_⟩
    · rintro ⟨review, folded, stands, counts, rejects⟩
      apply unopposed
      refine any_eq_true.mpr ⟨folded, (mem_values distinct).mpr ⟨review, stands⟩, ?_⟩
      rw [counts, rejects]
      rfl
    · obtain ⟨review, stands⟩ := (mem_values distinct).mp (mem_of_find?_eq_some found)
      have matched := find?_some found
      obtain ⟨state, valid⟩ := Bool.and_eq_true_iff.mp matched
      exact ⟨review, approved, stands, beq_iff_eq.mp state, valid, same⟩
  · cases verified

theorem verify_ok_iff (distinct : DistinctIds reviews) :
    (∃ label, verifyMergeApprovals outside headSha eval reviews agents ownerLogin apps = .ok label) ↔
      ApprovalStands outside headSha eval agents ownerLogin apps reviews ∧
        ¬ RejectionStands outside headSha eval agents ownerLogin apps reviews := by
  constructor
  · rintro ⟨label, verified⟩
    obtain ⟨unopposed, review, folded, stands, state, valid, -⟩ := verify_ok distinct verified
    exact ⟨⟨review, folded, stands, state, valid⟩, unopposed⟩
  rintro ⟨⟨review, folded, stands, state, valid⟩, unopposed⟩
  unfold verifyMergeApprovals
  rw [if_neg]
  · split
    · exact ⟨_, rfl⟩
    rename_i none
    have missing := find?_eq_none.mp none folded ((mem_values distinct).mpr ⟨review, stands⟩)
    rw [state, valid] at missing
    exact absurd rfl missing
  · intro opposed
    obtain ⟨other, member, rejects⟩ := any_eq_true.mp opposed
    obtain ⟨against, holds⟩ := (mem_values distinct).mp member
    obtain ⟨counts, state⟩ := Bool.and_eq_true_iff.mp rejects
    exact unopposed ⟨against, other, holds, counts, beq_iff_eq.mp state⟩

def Accepted (eval : PrPolicyEvaluation) (agents : List AgentRecord) (agent : AgentRecord) : Prop :=
  agent ∈ agents ∧ authorizeAgentAction eval agent = .ok ()

variable (outside ownerLogin apps) in
def AgentReview (agent : AgentRecord) : PrReviewSummary → Prop := Named outside (ownerOf ownerLogin) apps agent.nameKey

variable (headSha ownerLogin) in
def OwnerApproves (reviews : List PrReviewSummary) : Prop :=
  ∃ review, Latest (ByOwner (ownerOf ownerLogin)) reviews review ∧ stateOf review = "APPROVED" ∧ review.commitId = some headSha

variable (ownerLogin) in
def OwnerRejects (reviews : List PrReviewSummary) : Prop :=
  ∃ review, Latest (ByOwner (ownerOf ownerLogin)) reviews review ∧ stateOf review = "CHANGES_REQUESTED"

variable (outside headSha ownerLogin apps) in
def AgentApproves (reviews : List PrReviewSummary) (agent : AgentRecord) : Prop :=
  ∃ review marker, Latest (AgentReview outside ownerLogin apps agent) reviews review ∧ stateOf review = "APPROVED" ∧
    extractReviewMarker outside review.body = some marker ∧ marker.verdict = .approved ∧ marker.headSha = headSha

variable (outside ownerLogin apps) in
def AgentRejects (reviews : List PrReviewSummary) (agent : AgentRecord) : Prop :=
  ∃ review, Latest (AgentReview outside ownerLogin apps agent) reviews review ∧ stateOf review = "CHANGES_REQUESTED"

theorem authorized_iff :
    authorized eval agents marker = true ↔
      ∃ agent, matchedAgent agents marker = some agent ∧ authorizeAgentAction eval agent = .ok () := by
  unfold authorized
  rw [Option.any_eq_true]
  constructor
  · rintro ⟨agent, found, accepted⟩
    refine ⟨agent, found, ?_⟩
    cases outcome : authorizeAgentAction eval agent with
    | ok done => rfl
    | error refusal =>
      rw [outcome] at accepted
      cases accepted
  · rintro ⟨agent, found, accepted⟩
    refine ⟨agent, found, ?_⟩
    rw [accepted]
    rfl

variable {agent : AgentRecord}

theorem matchedAgent_named (found : matchedAgent agents marker = some agent) :
    agent ∈ agents ∧ eqIgnoreAsciiCase marker.reviewer agent.nameKey = true := by
  have matched := find?_some found
  simp only [Bool.and_eq_true] at matched
  refine ⟨mem_of_find?_eq_some found, ?_⟩
  rw [eqIgnoreAsciiCase_iff]
  exact (eqIgnoreAsciiCase_iff.mp matched.1.2).symm

theorem latest_named (named : eqIgnoreAsciiCase name agent.nameKey = true) :
    Latest (Named outside (ownerOf ownerLogin) apps name) reviews review ↔
      Latest (AgentReview outside ownerLogin apps agent) reviews review := by
  have same := eqIgnoreAsciiCase_iff.mp named
  refine Latest.congr fun r => ?_
  unfold AgentReview Named
  simp only [eqIgnoreAsciiCase_iff, same]

variable (outside headSha eval agents ownerLogin apps) in
/-- The Owner's latest review approves the head, or the latest that names some reviewer does, under a marker that approves
the head and whose name and role pick an accepted agent. -/
def ValidApproval (reviews : List PrReviewSummary) : Prop :=
  OwnerApproves headSha ownerLogin reviews ∨
    ∃ review marker, Latest (Named outside (ownerOf ownerLogin) apps marker.reviewer) reviews review ∧
      stateOf review = "APPROVED" ∧ extractReviewMarker outside review.body = some marker ∧ marker.verdict = .approved ∧
      marker.headSha = headSha ∧ review.commitId.all (· == headSha) = true ∧ authorized eval agents marker = true

variable (outside eval agents ownerLogin apps) in
/-- The Owner's latest review requests changes, or the latest that names some reviewer or comes from some other account
does, under a marker whose name and role pick an accepted agent. -/
def CountedRejection (reviews : List PrReviewSummary) : Prop :=
  OwnerRejects ownerLogin reviews ∨
    ∃ review marker, (Latest (Named outside (ownerOf ownerLogin) apps marker.reviewer) reviews review ∨
        Latest (ByLogin outside (ownerOf ownerLogin) apps review.authorLogin) reviews review) ∧
      stateOf review = "CHANGES_REQUESTED" ∧ extractReviewMarker outside review.body = some marker ∧
      authorized eval agents marker = true

theorem approvalStands_iff :
    ApprovalStands outside headSha eval agents ownerLogin apps reviews ↔
      ValidApproval outside headSha eval agents ownerLogin apps reviews := by
  constructor
  · rintro ⟨review, folded, ⟨key, written, latest⟩, state, valid⟩
    rcases foldedReview_iff.mp written with ⟨own, rfl, rfl⟩ | ⟨marker, app, rfl, rfl⟩ | ⟨marker, outsider, rfl, rfl⟩
    · obtain ⟨approves, onHead⟩ := ownerState_valid.mp valid
      exact .inl ⟨review, latest_ownerKey.mp latest, approves, onHead⟩
    · obtain ⟨approves, verdict, onHead, commit, counts⟩ := markedState_valid.mp valid
      exact .inr ⟨review, marker, (Latest.congr fun _ => under_agentKey).mp latest, approves, app.2.2.2, verdict, onHead,
        commit, counts⟩
    · exact absurd state outsider.2.2.2.1
  · rintro (⟨review, latest, approves, onHead⟩ | ⟨review, marker, latest, approves, found, verdict, onHead, commit, counts⟩)
    · exact ⟨review, _, ⟨_, foldedReview_iff.mpr (.inl ⟨latest.2.1, rfl, rfl⟩), latest_ownerKey.mpr latest⟩, approves,
        ownerState_valid.mpr ⟨approves, onHead⟩⟩
    · obtain ⟨marked, app, -⟩ := latest.2.1
      cases some.inj (app.2.2.2.symm.trans found)
      exact ⟨review, _, ⟨_, app.folded, (Latest.congr fun _ => under_agentKey).mpr latest⟩, approves,
        markedState_valid.mpr ⟨approves, verdict, onHead, commit, counts⟩⟩

theorem rejectionStands_iff :
    RejectionStands outside headSha eval agents ownerLogin apps reviews ↔
      CountedRejection outside eval agents ownerLogin apps reviews := by
  constructor
  · rintro ⟨review, folded, ⟨key, written, latest⟩, counts, state⟩
    rcases foldedReview_iff.mp written with ⟨own, rfl, rfl⟩ | ⟨marker, app, rfl, rfl⟩ | ⟨marker, outsider, rfl, rfl⟩
    · exact .inl ⟨review, latest_ownerKey.mp latest, state⟩
    · exact .inr ⟨review, marker, .inl ((Latest.congr fun _ => under_agentKey).mp latest), state, app.2.2.2, counts⟩
    · exact .inr ⟨review, marker, .inr ((Latest.congr fun _ => under_loginKey).mp latest), state, outsider.2.2.2.2, counts⟩
  · rintro (⟨review, latest, state⟩ | ⟨review, marker, named | login, state, found, counts⟩)
    · exact ⟨review, _, ⟨_, foldedReview_iff.mpr (.inl ⟨latest.2.1, rfl, rfl⟩), latest_ownerKey.mpr latest⟩, rfl, state⟩
    · obtain ⟨marked, app, -⟩ := named.2.1
      cases some.inj (app.2.2.2.symm.trans found)
      exact ⟨review, _, ⟨_, app.folded, (Latest.congr fun _ => under_agentKey).mpr named⟩, counts, state⟩
    · obtain ⟨marked, outsider, -⟩ := login.2.1
      cases some.inj (outsider.2.2.2.2.symm.trans found)
      exact ⟨review, _, ⟨_, foldedReview_iff.mpr (.inr (.inr ⟨_, outsider, rfl, rfl⟩)),
        (Latest.congr fun _ => under_loginKey).mpr login⟩, counts, state⟩

theorem ValidApproval.genuine (approval : ValidApproval outside headSha eval agents ownerLogin apps reviews) :
    OwnerApproves headSha ownerLogin reviews ∨
      ∃ agent, Accepted eval agents agent ∧ AgentApproves outside headSha ownerLogin apps reviews agent := by
  rcases approval with owner | ⟨review, marker, latest, approves, found, verdict, onHead, -, counts⟩
  · exact .inl owner
  obtain ⟨agent, matched, accepted⟩ := authorized_iff.mp counts
  obtain ⟨member, named⟩ := matchedAgent_named matched
  exact .inr ⟨agent, ⟨member, accepted⟩, review, marker, (latest_named named).mp latest, approves, found, verdict, onHead⟩

variable (outside eval agents ownerLogin apps) in
def Overlooked (reviews : List PrReviewSummary) : Prop :=
  ∃ agent review marker, Accepted eval agents agent ∧ Latest (AgentReview outside ownerLogin apps agent) reviews review ∧
    stateOf review = "CHANGES_REQUESTED" ∧ extractReviewMarker outside review.body = some marker ∧
    authorized eval agents marker = false

theorem AgentRejects.counted (accepted : Accepted eval agents agent)
    (rejects : AgentRejects outside ownerLogin apps reviews agent) :
    Overlooked outside eval agents ownerLogin apps reviews ∨ CountedRejection outside eval agents ownerLogin apps reviews := by
  obtain ⟨review, latest, state⟩ := rejects
  obtain ⟨marker, app, named⟩ := latest.2.1
  cases counts : authorized eval agents marker with
  | false => exact .inl ⟨agent, review, marker, accepted, latest, state, app.2.2.2, counts⟩
  | true => exact .inr (.inr ⟨review, marker, .inl ((latest_named named).mpr latest), state, app.2.2.2, counts⟩)

theorem verify_perm (distinct : DistinctIds reviews) (perm : other.Perm reviews) :
    verifyMergeApprovals outside headSha eval other agents ownerLogin apps =
      verifyMergeApprovals outside headSha eval reviews agents ownerLogin apps := by
  have same : latestByReviewer outside headSha eval other agents (ownerOf ownerLogin) apps =
      latestByReviewer outside headSha eval reviews agents (ownerOf ownerLogin) apps := by
    show (ordered other).foldl _ ∅ = (ordered reviews).foldl _ ∅
    rw [ordered_perm distinct perm]
  unfold verifyMergeApprovals
  rw [same]

variable (ownerLogin apps) in
structure Stranger (reviews : List PrReviewSummary) (review : PrReviewSummary) : Prop where
  notOwner : eqIgnoreAsciiCase review.authorLogin (ownerOf ownerLogin) = false
  notApp : apps.wrote review = false
  wroteNone : ∀ listed ∈ reviews, toAsciiLowercase (trim listed.authorLogin) ≠ toAsciiLowercase (trim review.authorLogin)

theorem Stranger.outsider
    (stranger : Stranger ownerLogin apps reviews review) {folded : FoldedReviewState}
    (written : foldedReview outside headSha eval agents (ownerOf ownerLogin) apps review = some (key, folded)) :
    key = loginKey review.authorLogin ∧ folded.state ≠ "APPROVED" := by
  rcases foldedReview_iff.mp written with ⟨own, -, -⟩ | ⟨marker, app, -, -⟩ | ⟨marker, outsider, key, rfl⟩
  · exact absurd own.2 (by rw [stranger.notOwner]; exact Bool.false_ne_true)
  · exact absurd app.2.2.1 (by rw [stranger.notApp]; exact Bool.false_ne_true)
  · exact ⟨key, outsider.2.2.2.1⟩

theorem Stranger.apart {listed : PrReviewSummary}
    (stranger : Stranger ownerLogin apps reviews review) (member : listed ∈ reviews)
    (under : Under outside headSha eval agents (ownerOf ownerLogin) apps key listed) :
    ¬ Under outside headSha eval agents (ownerOf ownerLogin) apps key review := by
  rintro ⟨folded, written⟩
  obtain ⟨rfl, -⟩ := stranger.outsider written
  obtain ⟨other, listedAs⟩ := under
  rcases foldedReview_iff.mp listedAs with ⟨-, key, -⟩ | ⟨marker, -, key, -⟩ | ⟨marker, -, key, -⟩
  · exact ownerKey_ne_loginKey _ _ key.symm
  · exact agentKey_ne_loginKey _ _ key.symm
  · exact stranger.wroteNone listed member (loginKey_iff.mp key).symm

theorem Stands.added {added : List PrReviewSummary} (strangers : ∀ r ∈ added, Stranger ownerLogin apps reviews r)
    {folded : FoldedReviewState}
    (stands : Stands outside headSha eval agents (ownerOf ownerLogin) apps reviews review folded) :
    Stands outside headSha eval agents (ownerOf ownerLogin) apps (reviews ++ added) review folded := by
  obtain ⟨key, written, member, under, latest⟩ := stands
  refine ⟨key, written, mem_append_left _ member, under, ?_⟩
  intro other placed also
  rcases mem_append.mp placed with listed | new
  · exact latest other listed also
  · exact absurd also ((strangers other new).apart member under)

theorem verify_strangers {added : List PrReviewSummary} (distinct : DistinctIds (reviews ++ added))
    (strangers : ∀ r ∈ added, Stranger ownerLogin apps reviews r)
    (verified : verifyMergeApprovals outside headSha eval (reviews ++ added) agents ownerLogin apps = .ok label) :
    ∃ label', verifyMergeApprovals outside headSha eval reviews agents ownerLogin apps = .ok label' := by
  have fewer : DistinctIds reviews := by
    unfold DistinctIds at distinct ⊢
    rw [map_append] at distinct
    exact (nodup_append.mp distinct).1
  obtain ⟨⟨review, folded, ⟨key, written, member, under, latest⟩, state, valid⟩, unopposed⟩ :=
    (verify_ok_iff distinct).mp ⟨label, verified⟩
  refine (verify_ok_iff fewer).mpr ⟨?_, ?_⟩
  · rcases mem_append.mp member with listed | new
    · refine ⟨review, folded, ⟨key, written, listed, under, ?_⟩, state, valid⟩
      intro other placed
      exact latest other (mem_append_left _ placed)
    · exact absurd state ((strangers review new).outsider written).2
  · rintro ⟨against, rejected, stands, counts, rejects⟩
    exact unopposed ⟨against, rejected, stands.added strangers, counts, rejects⟩

variable (outside headSha eval agents ownerLogin apps) in
structure Genuine (reviews : List PrReviewSummary) : Prop where
  approved : ∀ label, verifyMergeApprovals outside headSha eval reviews agents ownerLogin apps = .ok label →
    OwnerApproves headSha ownerLogin reviews ∨
      ∃ agent, Accepted eval agents agent ∧ AgentApproves outside headSha ownerLogin apps reviews agent
  unopposed : ∀ label, verifyMergeApprovals outside headSha eval reviews agents ownerLogin apps = .ok label →
    ¬ OwnerRejects ownerLogin reviews ∧
      ∀ agent, Accepted eval agents agent → ¬ AgentRejects outside ownerLogin apps reviews agent
  orderFree : ∀ other : List PrReviewSummary, other.Perm reviews →
    verifyMergeApprovals outside headSha eval other agents ownerLogin apps =
      verifyMergeApprovals outside headSha eval reviews agents ownerLogin apps
  strangers : ∀ added : List PrReviewSummary, DistinctIds (reviews ++ added) → (∀ r ∈ added, Stranger ownerLogin apps reviews r) →
    ∀ label, verifyMergeApprovals outside headSha eval (reviews ++ added) agents ownerLogin apps = .ok label →
      ∃ label', verifyMergeApprovals outside headSha eval reviews agents ownerLogin apps = .ok label'

end Answer

/-- The answer on reviews with distinct ids is genuine exactly where no rejection of an accepted agent is overlooked
while an approval is valid and no other rejection counts. -/
theorem merge_approval_genuine_iff (outside : Outside) (headSha : String) (eval : PrPolicyEvaluation)
    (agents : List AgentRecord) (ownerLogin : String) (apps : ReviewerApps) (reviews : List PrReviewSummary)
    (distinct : DistinctIds reviews) :
    Genuine outside headSha eval agents ownerLogin apps reviews ↔
      (Overlooked outside eval agents ownerLogin apps reviews →
        ValidApproval outside headSha eval agents ownerLogin apps reviews →
          CountedRejection outside eval agents ownerLogin apps reviews) := by
  have answered := @verify_ok_iff _ outside headSha eval agents ownerLogin apps distinct
  rw [approvalStands_iff, rejectionStands_iff] at answered
  constructor
  · rintro genuine ⟨agent, review, marker, accepted, latest, state, -, -⟩ approval
    by_contra unopposed
    obtain ⟨label, verified⟩ := answered.mpr ⟨approval, unopposed⟩
    exact (genuine.unopposed label verified).2 agent accepted ⟨review, latest, state⟩
  · intro seen
    refine ⟨?_, ?_, fun other perm => verify_perm distinct perm,
      fun added apart strangers label verified => verify_strangers apart strangers verified⟩
    · intro label verified
      exact (answered.mp ⟨label, verified⟩).1.genuine
    · intro label verified
      obtain ⟨approval, unopposed⟩ := answered.mp ⟨label, verified⟩
      refine ⟨fun rejects => unopposed (.inl rejects), ?_⟩
      intro agent accepted rejects
      rcases rejects.counted accepted with overlooked | counted
      · exact unopposed (seen overlooked approval)
      · exact unopposed counted

def sampleAgent (name : String) (role : AgentRole) : AgentRecord where
  id := "fl:agent/" ++ name
  nameKey := name
  displayName := name
  email := name ++ "@artificialhumanity.io"
  project := "ferroloop"
  role
  extraAreas := []
  status := .active
  updatedAt := "2026-01-01T00:00:00.000Z"
  by_ := "owner"

def sampleRoster : List AgentRecord :=
  [sampleAgent "jarvis" .labManager, sampleAgent "ferris" .lead, sampleAgent "felicia" .assistant]

def sampleEvaluation : PrPolicyEvaluation where
  project := "ferroloop"
  coAuthors := ["felicia"]
  unattributedCommits := []
  unknownCoAuthors := []
  protectedFiles := []
  requiredTier := .lead "ferroloop"
  targetReviewer := "ferris"
  escalationReasons := []

def sampleMarker (reviewer : String) (role : AgentRole) (verdict : ReviewVerdict) : FlReviewMarker :=
  ⟨reviewer, role, "ferroloop", "h1", verdict, "2026-01-01T00:00:00.000Z"⟩

def markerJson (reviewer role verdict : String) : String :=
  "\x7b\"reviewer\":\"" ++ reviewer ++ "\",\"role\":\"" ++ role ++ "\",\"project\":\"ferroloop\",\"head_sha\":\"h1\",\"verdict\":\"" ++
    verdict ++ "\",\"at\":\"2026-01-01T00:00:00.000Z\"\x7d"

def sampleOutside : Outside where
  toLowercase := toAsciiLowercase
  glob := fun _ _ => none
  markerFromStr := fun text =>
    if text = markerJson "jarvis" "lab_manager" "approved" then some (sampleMarker "jarvis" .labManager .approved)
    else if text = markerJson "ferris" "assistant" "changes_requested" then some (sampleMarker "ferris" .assistant .changesRequested)
    else if text = markerJson "ferris" "lead" "approved" then some (sampleMarker "ferris" .lead .approved)
    else none

def appReview (id : UInt64) (state json : String) : PrReviewSummary where
  id
  authorLogin := "ferroloop[bot]"
  authorId := some 341521384
  state
  body := "<!-- fl-review: " ++ json ++ " -->"
  commitId := some "h1"

def sampleApps : ReviewerApps := ⟨[341521384], []⟩

def jarvisApproval : PrReviewSummary := appReview 2 "APPROVED" (markerJson "jarvis" "lab_manager" "approved")

def ferrisRejection : PrReviewSummary := appReview 1 "CHANGES_REQUESTED" (markerJson "ferris" "assistant" "changes_requested")

theorem jarvis_marked : extractReviewMarker sampleOutside jarvisApproval.body = some (sampleMarker "jarvis" .labManager .approved) := by
  refine (extractReviewMarker_body _ (by decide +kernel)).trans ?_
  dsimp only [sampleOutside]
  rw [if_pos rfl]

theorem ferris_marked :
    extractReviewMarker sampleOutside ferrisRejection.body = some (sampleMarker "ferris" .assistant .changesRequested) := by
  refine (extractReviewMarker_body _ (by decide +kernel)).trans ?_
  have other : markerJson "ferris" "assistant" "changes_requested" ≠ markerJson "jarvis" "lab_manager" "approved" := by
    decide +kernel
  dsimp only [sampleOutside]
  rw [if_neg other, if_pos rfl]

theorem jarvis_genuine :
    DistinctIds [jarvisApproval] ∧ Genuine sampleOutside "h1" sampleEvaluation sampleRoster "" sampleApps [jarvisApproval] := by
  have distinct : DistinctIds [jarvisApproval] := nodup_singleton _
  refine ⟨distinct, (merge_approval_genuine_iff _ _ _ _ _ _ _ distinct).mpr ?_⟩
  rintro ⟨agent, review, marker, -, ⟨member, -, -⟩, state, -, -⟩
  cases mem_singleton.mp member
  exact absurd state (by decide +kernel)

theorem ferris_byApp : ByApp sampleOutside (ownerOf "") sampleApps (sampleMarker "ferris" .assistant .changesRequested) ferrisRejection :=
  ⟨by decide +kernel, by decide +kernel, by decide +kernel, ferris_marked⟩

theorem jarvis_byApp : ByApp sampleOutside (ownerOf "") sampleApps (sampleMarker "jarvis" .labManager .approved) jarvisApproval :=
  ⟨by decide +kernel, by decide +kernel, by decide +kernel, jarvis_marked⟩

/-- A lead requested changes when it was an assistant; the lab manager's approval is accepted over its rejection. -/
theorem ferris_overlooked :
    DistinctIds [ferrisRejection, jarvisApproval] ∧ Accepted sampleEvaluation sampleRoster (sampleAgent "ferris" .lead) ∧
      AgentRejects sampleOutside "" sampleApps [ferrisRejection, jarvisApproval] (sampleAgent "ferris" .lead) ∧
      (∃ label, verifyMergeApprovals sampleOutside "h1" sampleEvaluation [ferrisRejection, jarvisApproval] sampleRoster "" sampleApps =
        .ok label) ∧
      ¬ Genuine sampleOutside "h1" sampleEvaluation sampleRoster "" sampleApps [ferrisRejection, jarvisApproval] := by
  have distinct : DistinctIds [ferrisRejection, jarvisApproval] := by
    unfold DistinctIds
    decide +kernel
  have accepted : Accepted sampleEvaluation sampleRoster (sampleAgent "ferris" .lead) := ⟨by decide +kernel, by decide +kernel⟩
  have rejects : AgentRejects sampleOutside "" sampleApps [ferrisRejection, jarvisApproval] (sampleAgent "ferris" .lead) := by
    refine ⟨ferrisRejection, ⟨mem_cons_self, ⟨_, ferris_byApp, by decide +kernel⟩, ?_⟩, by decide +kernel⟩
    rintro other member ⟨marker, app, named⟩
    rcases mem_cons.mp member with rfl | later
    · exact UInt64.le_refl _
    · cases mem_singleton.mp later
      cases some.inj (jarvis_marked.symm.trans app.2.2.2)
      exact absurd named (by decide +kernel)
  have approval : ApprovalStands sampleOutside "h1" sampleEvaluation sampleRoster "" sampleApps [ferrisRejection, jarvisApproval] := by
    refine ⟨jarvisApproval, _, ⟨_, jarvis_byApp.folded, ?_⟩, ?_, ?_⟩
    · refine ⟨mem_cons_of_mem _ mem_cons_self, ⟨_, jarvis_byApp.folded⟩, ?_⟩
      intro other member under
      rcases mem_cons.mp member with rfl | later
      · decide +kernel
      · cases mem_singleton.mp later
        exact UInt64.le_refl _
    · show stateOf jarvisApproval = "APPROVED"
      decide +kernel
    · exact markedState_valid.mpr (by decide +kernel)
  have unopposed : ¬ RejectionStands sampleOutside "h1" sampleEvaluation sampleRoster "" sampleApps [ferrisRejection, jarvisApproval] := by
    rintro ⟨review, folded, ⟨key, written, member, -, -⟩, counts, state⟩
    rcases mem_cons.mp member with rfl | later
    · obtain ⟨-, same⟩ := Prod.mk.inj (some.inj (written.symm.trans ferris_byApp.folded))
      rw [same] at counts
      exact absurd counts (by decide +kernel)
    cases mem_singleton.mp later
    obtain ⟨-, same⟩ := Prod.mk.inj (some.inj (written.symm.trans jarvis_byApp.folded))
    rw [same] at state
    exact absurd state (by decide +kernel)
  obtain ⟨label, verified⟩ := (verify_ok_iff distinct).mpr ⟨approval, unopposed⟩
  exact ⟨distinct, accepted, rejects, ⟨label, verified⟩, fun genuine => (genuine.unopposed _ verified).2 _ accepted rejects⟩

end FerroLoop.PrPolicy
