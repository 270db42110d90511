import FerroLoop.FerroState.Registry
import FerroLoop.Workflow.Independence

/-!
The pull-request policy (`crates/core/src/pr_policy.rs`): who co-authored a pull request, which tier has to approve it,
which agent may, and whether its reviews hold an approval of the head. The glob matcher, the Unicode lower case and the
JSON reader of a review marker are parameters.
-/

namespace FerroLoop.PrPolicy

open Std Text List
open Agents (AgentRole AgentStatus)
open FerroState (AgentRecord)
open Workflow (At defaultOwnerLogin)

inductive RequiredTier where
  | lead (project : String)
  | labManager
  | owner
  deriving DecidableEq

structure CommitTrailerAuthor where
  displayName : String
  nameKey : String
  email : String
  deriving DecidableEq

structure PrCommitSummary where
  sha : String
  authorLogin : Option String
  message : String
  parentCount : Nat := 1

def PrCommitSummary.isMerge (commit : PrCommitSummary) : Bool := 1 < commit.parentCount

structure PrReviewSummary where
  id : UInt64
  authorLogin : String
  authorId : Option UInt64
  state : String
  body : String
  commitId : Option String
  deriving DecidableEq

structure ReviewerApps where
  ids : List UInt64
  logins : List String

structure PrPolicyEvaluation where
  project : String
  coAuthors : List String
  unattributedCommits : List String
  unknownCoAuthors : List String
  protectedFiles : List String
  requiredTier : RequiredTier
  targetReviewer : String
  escalationReasons : List String
  deriving DecidableEq

inductive ReviewVerdict where
  | approved
  | changesRequested
  | commented
  deriving DecidableEq

structure FlReviewMarker where
  reviewer : String
  role : AgentRole
  project : String
  headSha : String
  verdict : ReviewVerdict
  at_ : At
  deriving DecidableEq

inductive PolicyRefusal where
  | unknownOrInactiveAgent (agent : String)
  | selfReviewForbidden (agent : String)
  | protectedPathRequiresOwner (agent : String) (files : List String)
  | unattributedCommitsRequireOwner (commits : List String)
  | unknownCoAuthorsRequireOwner (coAuthors : List String)
  | insufficientRole (agent : String) (role : AgentRole) (required : RequiredTier)
  | missingValidApproval (headSha : String)
  deriving DecidableEq

def parseTrailer (line : String) : Option CommitTrailerAuthor := do
  let (start, rest) ← splitOnce ":" (trim line)
  guard (eqIgnoreAsciiCase (trim start) "co-authored-by" = true)
  let (rawName, emailPart) ← rsplitOnce '<' (trim rest)
  let rawEmail ← stripSuffix emailPart ">"
  let displayName := trim rawName
  let email := toAsciiLowercase (trim rawEmail)
  guard (displayName ≠ "" ∧ email ≠ "" ∧ '@' ∈ email.toList)
  let nameKey := if displayName.toList.any isWhitespace then
      (splitOnce "@" email).elim (toAsciiLowercase displayName) fun parts => toAsciiLowercase parts.1
    else toAsciiLowercase displayName
  pure { displayName, nameKey, email }

def parseCoAuthors (message : String) : List CommitTrailerAuthor := (lines message).filterMap parseTrailer

def defaultProtectedPatterns : List String := [".github/**", ".fl/manifest.json", ".agents/**"]

/-- What the policy takes from elsewhere: `str::to_lowercase`, `globset` (with `literal_separator` or without) and
`serde_json`. -/
structure Outside where
  toLowercase : String → String
  glob : Bool → String → Option (String → Bool)
  markerFromStr : String → Option FlReviewMarker

variable (outside : Outside)

def normalizeSegment (parts : List String) (seg : String) : List String :=
  if seg = "" ∨ seg = "." then parts
  else if seg = ".." then parts.dropLast
  else parts ++ [outside.toLowercase seg]

def normalizePolicyPath (raw : String) : String :=
  let slashed := (trim raw).toList.map fun c => if c = '\\' then '/' else c
  "/".intercalate (((slashed.splitOn '/').map String.ofList).foldl (normalizeSegment outside) [])

def endsWith (s finish : String) : Bool := finish.toList.isSuffixOf s.toList

def literalMatch (path pattern : String) : Bool :=
  match stripSuffix pattern "/**" with
  | some dir => path == dir || startsWith path (dir ++ "/")
  | none =>
    match stripPrefix pattern "**/" with
    | some name => path == name || endsWith path ("/" ++ name)
    | none => if '/' ∉ pattern.toList then path == pattern || endsWith path ("/" ++ pattern) else path == pattern

def hasGlob (s : String) : Bool := s.toList.any fun c => c == '*' || c == '?' || c == '[' || c == '{'

def matchesPattern (normalizedPath rawPattern : String) : Bool :=
  let pattern := normalizePolicyPath outside rawPattern
  let path := normalizePolicyPath outside normalizedPath
  if pattern = "" then false
  else if !hasGlob pattern then literalMatch path pattern
  else if (stripSuffix pattern "/**").any (!hasGlob ·) then literalMatch path pattern
  else literalMatch path pattern || (outside.glob true pattern).any fun isMatch =>
    isMatch path || (!pattern.toList.contains '/' && (outside.glob false ("**/" ++ pattern)).any (· path))

def isProtectedPath (path : String) (extraPatterns : List String) : Bool :=
  let normalized := normalizePolicyPath outside path
  normalized != "" && (defaultProtectedPatterns.any (matchesPattern outside normalized) ||
    extraPatterns.any (matchesPattern outside normalized))

def identifies (author : CommitTrailerAuthor) (agent : AgentRecord) : Bool :=
  eqIgnoreAsciiCase agent.nameKey author.nameKey || eqIgnoreAsciiCase agent.email author.email

section

variable (agents : List AgentRecord)

def findActiveAgent (author : CommitTrailerAuthor) : Option AgentRecord :=
  agents.find? fun agent => agent.status == .active && identifies author agent

def pushUnique {α : Type} [DecidableEq α] (items : List α) (item : α) : List α :=
  if item ∈ items then items else items ++ [item]

def ownerOf (ownerLogin : String) : String := if trim ownerLogin = "" then defaultOwnerLogin else trim ownerLogin

structure Tally where
  coAuthors : List String := []
  coAuthorRoles : List AgentRole := []
  unattributedCommits : List String := []
  unknownCoAuthors : List String := []
  ownerAuthoredCommits : Bool := false

def noteTrailer (owner : String) (isOwnerCommit exempt : Bool) (noted : Tally × Bool)
    (trailer : CommitTrailerAuthor) : Tally × Bool :=
  if eqIgnoreAsciiCase trailer.nameKey owner then
    if isOwnerCommit && !exempt then ({ noted.1 with ownerAuthoredCommits := true }, true) else noted
  else
    match findActiveAgent agents trailer with
    | some agent =>
      ({ noted.1 with
          coAuthors := pushUnique noted.1.coAuthors agent.nameKey
          coAuthorRoles := pushUnique noted.1.coAuthorRoles agent.role }, true)
    | none => ({ noted.1 with unknownCoAuthors := pushUnique noted.1.unknownCoAuthors trailer.nameKey }, noted.2)

def noteCommit (owner : String) (skipMergeCommits : Bool) (tally : Tally) (commit : PrCommitSummary) : Tally :=
  let exempt := skipMergeCommits && commit.isMerge
  let trailers := parseCoAuthors commit.message
  let isOwnerCommit := commit.authorLogin.any fun login => eqIgnoreAsciiCase login owner
  if trailers.isEmpty then
    if exempt then tally
    else if isOwnerCommit then { tally with ownerAuthoredCommits := true }
    else { tally with unattributedCommits := pushUnique tally.unattributedCommits commit.sha }
  else
    let noted := trailers.foldl (noteTrailer agents owner isOwnerCommit exempt) (tally, false)
    if !noted.2 && !isOwnerCommit && !exempt then
      { noted.1 with unattributedCommits := pushUnique noted.1.unattributedCommits commit.sha }
    else noted.1

def tallyOf (commits : List PrCommitSummary) (agents : List AgentRecord) (owner : String) : Tally :=
  commits.foldl (noteCommit agents owner (commits.any (!·.isMerge))) {}

def protectedFilesOf (changedFiles extraProtectedPatterns : List String) : List String :=
  changedFiles.foldl (fun found file => if isProtectedPath outside file extraProtectedPatterns then pushUnique found file else found) []

def escalations (commits : List PrCommitSummary) (tally : Tally) (protectedFiles : List String) : List String :=
  (if protectedFiles ≠ [] then ["touches protected path(s): " ++ ", ".intercalate protectedFiles] else []) ++
    (if commits = [] then ["pull request has no commits"] else []) ++
    (if tally.unattributedCommits ≠ [] then
      ["contains unattributed commit(s) without Co-authored-by trailer: " ++ ", ".intercalate tally.unattributedCommits] else []) ++
    (if tally.unknownCoAuthors ≠ [] then
      ["contains unregistered or inactive co-author(s): " ++ ", ".intercalate tally.unknownCoAuthors] else []) ++
    (if tally.ownerAuthoredCommits ∧ tally.coAuthors = [] then ["authored directly by repository Owner"] else []) ++
    (if .labManager ∈ tally.coAuthorRoles then ["co-authored by lab_manager"]
      else if .lead ∈ tally.coAuthorRoles then ["co-authored by project lead"] else [])

def activeLabManager (coAuthors : List String) : Option AgentRecord :=
  agents.find? fun a => a.status == .active && a.role == .labManager && !coAuthors.contains a.nameKey

def activeProjectLead (projectSlug : String) (coAuthors : List String) : Option AgentRecord :=
  agents.find? fun a => a.status == .active && a.role == .lead && a.coversArea projectSlug && !coAuthors.contains a.nameKey

/-- The tier that has to approve, the reviewer it asks first, and the reason where it escalates. -/
def tierOf (projectSlug owner : String) (commits : List PrCommitSummary) (agents : List AgentRecord) (tally : Tally)
    (protectedFiles : List String) : RequiredTier × String × List String :=
  if protectedFiles ≠ [] ∨ commits = [] ∨ tally.unattributedCommits ≠ [] ∨ tally.unknownCoAuthors ≠ [] ∨
      tally.coAuthors = [] ∨ .labManager ∈ tally.coAuthorRoles then (.owner, owner, [])
  else if .lead ∈ tally.coAuthorRoles then
    match activeLabManager agents tally.coAuthors with
    | some lm => (.labManager, lm.nameKey, [])
    | none => (.owner, owner, ["no active non-co-author lab_manager available; escalating to owner"])
  else
    match activeProjectLead agents projectSlug tally.coAuthors with
    | some lead => (.lead projectSlug, lead.nameKey, [])
    | none =>
      match activeLabManager agents tally.coAuthors with
      | some lm =>
        (.labManager, lm.nameKey, ["no active non-co-author lead for `" ++ projectSlug ++ "`; escalating to lab_manager"])
      | none =>
        (.owner, owner, ["no active lead or lab_manager available for `" ++ projectSlug ++ "`; escalating to owner"])

def evaluatePrPolicy (project : String) (commits : List PrCommitSummary) (changedFiles extraProtectedPatterns : List String)
    (agents : List AgentRecord) (ownerLogin : String) : PrPolicyEvaluation :=
  let owner := ownerOf ownerLogin
  let projectSlug := toAsciiLowercase (trim project)
  let tally := tallyOf commits agents owner
  let protectedFiles := protectedFilesOf outside changedFiles extraProtectedPatterns
  let tier := tierOf projectSlug owner commits agents tally protectedFiles
  { project := projectSlug
    coAuthors := tally.coAuthors
    unattributedCommits := tally.unattributedCommits
    unknownCoAuthors := tally.unknownCoAuthors
    protectedFiles
    requiredTier := tier.1
    targetReviewer := tier.2.1
    escalationReasons := escalations commits tally protectedFiles ++ tier.2.2 }

def meetsTier (tier : RequiredTier) (caller : AgentRecord) : Bool :=
  match tier with
  | .lead project => (caller.role == .lead && caller.coversArea project) || caller.role == .labManager
  | .labManager => caller.role == .labManager
  | .owner => false

def authorizeAgentAction (eval : PrPolicyEvaluation) (caller : AgentRecord) : Except PolicyRefusal Unit :=
  if caller.status ≠ .active then .error (.unknownOrInactiveAgent caller.nameKey)
  else if eval.coAuthors.any (eqIgnoreAsciiCase · caller.nameKey) then .error (.selfReviewForbidden caller.nameKey)
  else if eval.protectedFiles ≠ [] then .error (.protectedPathRequiresOwner caller.nameKey eval.protectedFiles)
  else if eval.unattributedCommits ≠ [] then .error (.unattributedCommitsRequireOwner eval.unattributedCommits)
  else if eval.unknownCoAuthors ≠ [] then .error (.unknownCoAuthorsRequireOwner eval.unknownCoAuthors)
  else if meetsTier eval.requiredTier caller then .ok ()
  else .error (.insufficientRole caller.nameKey caller.role eval.requiredTier)

def ReviewerApps.wrote (apps : ReviewerApps) (review : PrReviewSummary) : Bool :=
  review.authorId.any (apps.ids.contains ·) ||
    (trim review.authorLogin != "" && apps.logins.any fun l => eqIgnoreAsciiCase (trim l) (trim review.authorLogin))

def reviewMarkerStart : String := "<!-- fl-review:"

def reviewMarkerEnd : String := "-->"

def afterLast (sep : List Char) : List Char → Option (List Char)
  | [] => none
  | c :: rest =>
    (afterLast sep rest).or (if sep.isPrefixOf (c :: rest) then some ((c :: rest).drop sep.length) else none)

def extractReviewMarker (body : String) : Option FlReviewMarker := do
  let after ← afterLast reviewMarkerStart.toList body.toList
  let (json, _) ← splitOnce reviewMarkerEnd (String.ofList after)
  outside.markerFromStr (trim json)

structure FoldedReviewState where
  label : String
  state : String
  validForHead : Bool
  authorizedReviewer : Bool

def stateOf (review : PrReviewSummary) : String := toAsciiUppercase (trim review.state)

def changesState (review : PrReviewSummary) : Bool :=
  stateOf review == "APPROVED" || stateOf review == "CHANGES_REQUESTED" || stateOf review == "DISMISSED"

def matchedAgent (marker : FlReviewMarker) : Option AgentRecord :=
  agents.find? fun a => a.status == .active && eqIgnoreAsciiCase a.nameKey marker.reviewer && a.role == marker.role

end

def authorized (eval : PrPolicyEvaluation) (agents : List AgentRecord) (marker : FlReviewMarker) : Bool :=
  (matchedAgent agents marker).any fun agent => (authorizeAgentAction eval agent).isOk

def ownerKey (owner : String) : String := "owner:" ++ toAsciiLowercase owner

def agentKey (reviewer : String) : String := "agent:" ++ toAsciiLowercase reviewer

def loginKey (login : String) : String := "login:" ++ toAsciiLowercase (trim login)

def ownerState (headSha owner : String) (review : PrReviewSummary) : FoldedReviewState where
  label := owner
  state := stateOf review
  validForHead := stateOf review == "APPROVED" && review.commitId == some headSha
  authorizedReviewer := true

section

variable (headSha : String) (eval : PrPolicyEvaluation)

def markedState (agents : List AgentRecord) (review : PrReviewSummary)
    (marker : FlReviewMarker) : FoldedReviewState where
  label := marker.reviewer
  state := stateOf review
  validForHead := stateOf review == "APPROVED" && marker.verdict == .approved && marker.headSha == headSha &&
    review.commitId.all (· == headSha) && authorized eval agents marker
  authorizedReviewer := authorized eval agents marker

def foldedReview (agents : List AgentRecord) (owner : String)
    (apps : ReviewerApps) (review : PrReviewSummary) : Option (String × FoldedReviewState) :=
  if !changesState review then none
  else if eqIgnoreAsciiCase review.authorLogin owner then some (ownerKey owner, ownerState headSha owner review)
  else if stateOf review == "APPROVED" && !apps.wrote review then none
  else
    (extractReviewMarker outside review.body).map fun marker =>
      (if apps.wrote review then agentKey marker.reviewer else loginKey review.authorLogin,
        markedState headSha eval agents review marker)

def latestByReviewer (reviews : List PrReviewSummary)
    (agents : List AgentRecord) (owner : String) (apps : ReviewerApps) : ExtTreeMap String FoldedReviewState compare :=
  let ordered := reviews.mergeSort fun a b => decide (a.id ≤ b.id)
  ordered.foldl (fun latest review => Map.insertEntry latest (foldedReview outside headSha eval agents owner apps review)) ∅

def verifyMergeApprovals (reviews : List PrReviewSummary)
    (agents : List AgentRecord) (ownerLogin : String) (apps : ReviewerApps) : Except PolicyRefusal String :=
  let values := (latestByReviewer outside headSha eval reviews agents (ownerOf ownerLogin) apps).toList.map Prod.snd
  if values.any fun r => r.authorizedReviewer && r.state == "CHANGES_REQUESTED" then
    .error (.missingValidApproval headSha)
  else
    match values.find? fun r => r.state == "APPROVED" && r.validForHead with
    | some approved => .ok approved.label
    | none => .error (.missingValidApproval headSha)

end

variable {first : Char} {sep text : List Char}

theorem afterLast_none (absent : first ∉ text) : afterLast (first :: sep) text = none := by
  induction text with
  | nil => rfl
  | cons c rest ih =>
    obtain ⟨other, further⟩ := ne_and_not_mem_of_not_mem_cons absent
    have differs : (first :: sep).isPrefixOf (c :: rest) = false := by
      rw [List.isPrefixOf, beq_false_of_ne other]
      rfl
    rw [afterLast, ih further, differs]
    rfl

theorem afterLast_append (once : first ∉ sep) (absent : first ∉ text) :
    afterLast (first :: sep) (first :: sep ++ text) = some text := by
  have none : afterLast (first :: sep) (sep ++ text) = none := by
    apply afterLast_none
    rw [mem_append]
    exact fun either => either.elim once absent
  have starts : (first :: sep).isPrefixOf (first :: (sep ++ text)) = true := by
    rw [ isPrefixOf_iff_prefix]
    exact ⟨text, rfl⟩
  rw [cons_append, afterLast, none, starts, if_pos rfl]
  show some ((first :: sep ++ text).drop (first :: sep).length) = some text
  rw [drop_left]

/-- A marker is read back from a body that holds nothing else, where its text has no blank and no angle bracket. -/
theorem extractReviewMarker_body {json : String}
    (allPlain : json.toList.all (fun c => decide (isWhitespace c = false ∧ c ≠ '<' ∧ c ≠ '>')) = true) :
    extractReviewMarker outside ("<!-- fl-review: " ++ json ++ " -->") = outside.markerFromStr json := by
  have plain : ∀ c ∈ json.toList, isWhitespace c = false ∧ c ≠ '<' ∧ c ≠ '>' :=
    fun c member => of_decide_eq_true (all_eq_true.mp allPlain c member)
  have started : ("<!-- fl-review: " ++ json ++ " -->").toList =
      '<' :: "!-- fl-review:".toList ++ (" " ++ json ++ " ").toList ++ "-->".toList := by
    simp only [String.toList_append, append_assoc, cons_append]
    rfl
  have after : afterLast reviewMarkerStart.toList ("<!-- fl-review: " ++ json ++ " -->").toList =
      some ((" " ++ json ++ " ").toList ++ ['-', '-', '>']) := by
    rw [started, append_assoc]
    apply afterLast_append (by decide)
    simp only [String.toList_append, mem_append, not_or]
    exact ⟨⟨⟨by decide, fun member => (plain _ member).2.1 rfl⟩, by decide⟩, by decide⟩
  have before : splitOnce reviewMarkerEnd (String.ofList ((" " ++ json ++ " ").toList ++ ['-', '-', '>'])) =
      some (" " ++ json ++ " ", "") := by
    unfold splitOnce
    rw [String.toList_ofList]
    have split : splitAtFirst reviewMarkerEnd.toList ((" " ++ json ++ " ").toList ++ ['-', '-', '>']) =
        some ((" " ++ json ++ " ").toList, []) := by
      apply @splitAtFirst_append '>' ['-', '-']
      · simp only [String.toList_append, mem_append, not_or]
        exact ⟨⟨by decide, fun member => (plain _ member).2.2 rfl⟩, by decide⟩
      · decide
    rw [split, Option.map_some, String.ofList_toList]
  unfold extractReviewMarker
  rw [after, Option.bind_eq_bind, Option.bind_some, before, Option.bind_eq_bind, Option.bind_some]
  show outside.markerFromStr (trim (" " ++ json ++ " ")) = outside.markerFromStr json
  rw [trim_spaced fun c member => (plain c member).1]

end FerroLoop.PrPolicy
