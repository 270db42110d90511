import FerroLoop.PrPolicy.Approvals

namespace FerroLoop.PrPolicy

open Std Text List
open Agents (AgentRole AgentStatus)
open FerroState (AgentRecord)

/-! ### What the walk over the commits collects -/

variable {α : Type}

/-- Of what each turn of a loop can only add, the loop has what it began with and what some turn added. -/
theorem foldl_adds {σ : Type} {f : σ → α → σ} {holds : σ → Prop} {adds : α → Prop}
    (each : ∀ s a, holds (f s a) ↔ holds s ∨ adds a) (items : List α) (s : σ) :
    holds (items.foldl f s) ↔ holds s ∨ ∃ a ∈ items, adds a := by
  induction items generalizing s with
  | nil => simp
  | cons a rest ih =>
    rw [foldl_cons, ih, each, or_assoc]
    simp only [mem_cons, exists_eq_or_imp]

theorem mem_pushUnique [DecidableEq α] {items : List α} {item x : α} :
    x ∈ pushUnique items item ↔ x ∈ items ∨ x = item := by
  unfold pushUnique
  split
  · rename_i member
    exact ⟨.inl, fun either => either.elim id fun same => same ▸ member⟩
  · rw [mem_append, mem_singleton]

theorem pushUnique_ne_nil [DecidableEq α] {items : List α} {item : α} : pushUnique items item ≠ [] :=
  ne_nil_of_mem (mem_pushUnique.mpr (.inr rfl))

section Walk

variable (agents : List AgentRecord) (owner : String)

def TakenFor (trailer : CommitTrailerAuthor) (agent : AgentRecord) : Prop :=
  eqIgnoreAsciiCase trailer.nameKey owner = false ∧ findActiveAgent agents trailer = some agent

def TakenForNone (trailer : CommitTrailerAuthor) : Prop :=
  eqIgnoreAsciiCase trailer.nameKey owner = false ∧ findActiveAgent agents trailer = none

def isOwnerCommit (commit : PrCommitSummary) : Bool := commit.authorLogin.any fun login => eqIgnoreAsciiCase login owner

variable {agents owner} {ownerCommit exempt : Bool}

variable (noted : Tally × Bool) (trailer : CommitTrailerAuthor) (tally : Tally) (commit : PrCommitSummary)
  (name : String)

theorem noteTrailer_coAuthors :
    name ∈ (noteTrailer agents owner ownerCommit exempt noted trailer).1.coAuthors ↔
      name ∈ noted.1.coAuthors ∨ ∃ agent, TakenFor agents owner trailer agent ∧ name = agent.nameKey := by
  unfold noteTrailer TakenFor
  cases own : eqIgnoreAsciiCase trailer.nameKey owner with
  | true => cases ownerCommit <;> cases exempt <;> simp
  | false => cases found : findActiveAgent agents trailer <;> simp [mem_pushUnique]

theorem noteTrailer_roles (role : AgentRole) :
    role ∈ (noteTrailer agents owner ownerCommit exempt noted trailer).1.coAuthorRoles ↔
      role ∈ noted.1.coAuthorRoles ∨ ∃ agent, TakenFor agents owner trailer agent ∧ role = agent.role := by
  unfold noteTrailer TakenFor
  cases own : eqIgnoreAsciiCase trailer.nameKey owner with
  | true => cases ownerCommit <;> cases exempt <;> simp
  | false => cases found : findActiveAgent agents trailer <;> simp [mem_pushUnique]

theorem noteTrailer_unknown :
    name ∈ (noteTrailer agents owner ownerCommit exempt noted trailer).1.unknownCoAuthors ↔
      name ∈ noted.1.unknownCoAuthors ∨ (TakenForNone agents owner trailer ∧ name = trailer.nameKey) := by
  unfold noteTrailer TakenForNone
  cases own : eqIgnoreAsciiCase trailer.nameKey owner with
  | true => cases ownerCommit <;> cases exempt <;> simp
  | false => cases found : findActiveAgent agents trailer <;> simp [mem_pushUnique]

theorem noteTrailer_unattributed :
    (noteTrailer agents owner ownerCommit exempt noted trailer).1.unattributedCommits = noted.1.unattributedCommits := by
  unfold noteTrailer
  cases eqIgnoreAsciiCase trailer.nameKey owner with
  | true => cases ownerCommit <;> cases exempt <;> rfl
  | false => cases findActiveAgent agents trailer <;> rfl

theorem foldl_unattributed (items : List CommitTrailerAuthor) (noted : Tally × Bool) :
    (items.foldl (noteTrailer agents owner ownerCommit exempt) noted).1.unattributedCommits = noted.1.unattributedCommits := by
  induction items generalizing noted with
  | nil => rfl
  | cons trailer rest ih => exact (ih _).trans (noteTrailer_unattributed noted trailer)

theorem noteTrailer_attributed :
    (noteTrailer agents owner false exempt noted trailer).2 = true ↔
      noted.2 = true ∨ ∃ agent, TakenFor agents owner trailer agent := by
  unfold noteTrailer TakenFor
  cases own : eqIgnoreAsciiCase trailer.nameKey owner with
  | true => cases exempt <;> simp
  | false => cases found : findActiveAgent agents trailer <;> simp

def trailers (commit : PrCommitSummary) : List CommitTrailerAuthor := parseCoAuthors commit.message

variable (agents owner) in
/-- The commit has nobody to answer for it: it is not exempt, the Owner's login did not author it, and none of its
trailers is taken for an agent. -/
def Unattributed (skipMergeCommits : Bool) (commit : PrCommitSummary) : Prop :=
  (skipMergeCommits && commit.isMerge) = false ∧ isOwnerCommit owner commit = false ∧
    ∀ trailer ∈ trailers commit, ∀ agent, ¬ TakenFor agents owner trailer agent

variable {skip : Bool}

section

variable {holds : Tally → Prop} {adds : CommitTrailerAuthor → Prop}
  (each : ∀ noted trailer ownerCommit exempt, holds (noteTrailer agents owner ownerCommit exempt noted trailer).1 ↔
    holds noted.1 ∨ adds trailer)
  (frame : ∀ (tally : Tally) unattributed own, holds { tally with unattributedCommits := unattributed, ownerAuthoredCommits := own } ↔
    holds tally)

include each frame

theorem noteCommit_trailers (tally : Tally) (commit : PrCommitSummary) :
    holds (noteCommit agents owner skip tally commit) ↔ holds tally ∨ ∃ trailer ∈ trailers commit, adds trailer := by
  have folded : ∀ ownerCommit exempt,
      holds ((trailers commit).foldl (noteTrailer agents owner ownerCommit exempt) (tally, false)).1 ↔
        holds tally ∨ ∃ trailer ∈ trailers commit, adds trailer :=
    fun ownerCommit exempt => @foldl_adds _ _ _ (fun noted : Tally × Bool => holds noted.1) adds
      (fun noted trailer => each noted trailer ownerCommit exempt) (trailers commit) (tally, false)
  unfold noteCommit
  dsimp only
  split
  · rename_i empty
    have none : trailers commit = [] := isEmpty_iff.mp empty
    rw [none]
    simp only [not_mem_nil, false_and, exists_false, or_false]
    split
    · exact Iff.rfl
    · split
      · exact frame tally tally.unattributedCommits true
      · exact frame tally _ tally.ownerAuthoredCommits
  · split
    · exact (frame _ _ _).trans (folded _ _)
    · exact folded _ _

theorem tallyOf_trailers {commits : List PrCommitSummary} (early : ¬ holds {}) : holds (tallyOf commits agents owner) ↔ ∃ commit ∈ commits, ∃ trailer ∈ trailers commit, adds trailer :=
  (@foldl_adds _ _ _ holds _ (noteCommit_trailers each frame) commits {}).trans (or_iff_right early)

end

theorem noteCommit_unattributed :
    (noteCommit agents owner skip tally commit).unattributedCommits ≠ [] ↔
      tally.unattributedCommits ≠ [] ∨ Unattributed agents owner skip commit := by
  have flagged : ∀ exempt, ((trailers commit).foldl (noteTrailer agents owner false exempt) (tally, false)).2 = true ↔
      ∃ trailer ∈ trailers commit, ∃ agent, TakenFor agents owner trailer agent := by
    intro exempt
    refine (@foldl_adds _ _ _ (fun noted : Tally × Bool => noted.2 = true) _
      (fun noted trailer => noteTrailer_attributed noted trailer) (trailers commit) (tally, false)).trans ?_
    simp only [Bool.false_eq_true, false_or]
  unfold Unattributed
  have shape : ∀ exempt own, exempt = (skip && commit.isMerge) → own = isOwnerCommit owner commit →
      noteCommit agents owner skip tally commit =
        if (trailers commit).isEmpty then
          if exempt then tally
          else if own then { tally with ownerAuthoredCommits := true }
          else { tally with unattributedCommits := pushUnique tally.unattributedCommits commit.sha }
        else
          let noted := (trailers commit).foldl (noteTrailer agents owner own exempt) (tally, false)
          if !noted.2 && !own && !exempt then
            { noted.1 with unattributedCommits := pushUnique noted.1.unattributedCommits commit.sha }
          else noted.1 := by
    rintro exempt own rfl rfl
    rfl
  generalize skipped : (skip && commit.isMerge) = exempt at shape ⊢
  generalize owned : isOwnerCommit owner commit = own at shape ⊢
  rw [shape exempt own rfl rfl]
  cases exempt with
  | true =>
    -- An exempt commit is never listed.
    simp only [Bool.not_true, Bool.and_false, Bool.true_eq_false, false_and, or_false, if_true]
    split
    · exact Iff.rfl
    · show (List.foldl _ (tally, false) (trailers commit)).1.unattributedCommits ≠ [] ↔ _
      rw [foldl_unattributed]
  | false =>
    cases own with
    | true =>
      simp only [Bool.not_true, Bool.and_false, Bool.false_and, Bool.true_eq_false, false_and, and_false, or_false, if_true]
      split
      · exact Iff.rfl
      · show (List.foldl _ (tally, false) (trailers commit)).1.unattributedCommits ≠ [] ↔ _
        rw [foldl_unattributed]
    | false =>
      simp only [true_and]
      split
      · rename_i empty
        rw [isEmpty_iff.mp empty]
        refine ⟨fun _ => .inr fun trailer member => absurd member not_mem_nil, fun _ => pushUnique_ne_nil⟩
      split
      · rename_i unflagged
        refine ⟨fun _ => .inr ?_, fun _ => pushUnique_ne_nil⟩
        intro trailer member agent taken
        rw [(flagged false).mpr ⟨trailer, member, agent, taken⟩] at unflagged
        cases unflagged
      · rename_i attributed
        rw [foldl_unattributed]
        refine ⟨.inl, fun either => either.elim id fun none => ?_⟩
        have raised : ((trailers commit).foldl (noteTrailer agents owner false false) (tally, false)).2 = true := by
          simpa using attributed
        obtain ⟨trailer, member, agent, taken⟩ := (flagged false).mp raised
        exact absurd taken (none trailer member agent)

variable (agents owner) in
def CoAuthor (commits : List PrCommitSummary) (agent : AgentRecord) : Prop :=
  ∃ commit ∈ commits, ∃ trailer ∈ trailers commit, TakenFor agents owner trailer agent

variable {commits : List PrCommitSummary}

theorem coAuthor_iff {of : AgentRecord → α} {x : α} :
    (∃ commit ∈ commits, ∃ trailer ∈ trailers commit, ∃ agent, TakenFor agents owner trailer agent ∧ x = of agent) ↔
      ∃ agent, CoAuthor agents owner commits agent ∧ x = of agent := by
  constructor
  · rintro ⟨commit, member, trailer, listed, agent, taken, same⟩
    exact ⟨agent, ⟨commit, member, trailer, listed, taken⟩, same⟩
  · rintro ⟨agent, ⟨commit, member, trailer, listed, taken⟩, same⟩
    exact ⟨commit, member, trailer, listed, agent, taken, same⟩

theorem mem_coAuthors {name : String} :
    name ∈ (tallyOf commits agents owner).coAuthors ↔ ∃ agent, CoAuthor agents owner commits agent ∧ name = agent.nameKey :=
  (@tallyOf_trailers agents owner (name ∈ ·.coAuthors) _ (fun noted trailer _ _ => noteTrailer_coAuthors noted trailer name)
    (fun _ _ _ => Iff.rfl) commits not_mem_nil).trans coAuthor_iff

theorem mem_roles {role : AgentRole} :
    role ∈ (tallyOf commits agents owner).coAuthorRoles ↔ ∃ agent, CoAuthor agents owner commits agent ∧ role = agent.role :=
  (@tallyOf_trailers agents owner (role ∈ ·.coAuthorRoles) _ (fun noted trailer _ _ => noteTrailer_roles noted trailer role)
    (fun _ _ _ => Iff.rfl) commits not_mem_nil).trans coAuthor_iff

theorem unknown_iff :
    (tallyOf commits agents owner).unknownCoAuthors ≠ [] ↔
      ∃ commit ∈ commits, ∃ trailer ∈ trailers commit, TakenForNone agents owner trailer := by
  have listed : ∀ name, name ∈ (tallyOf commits agents owner).unknownCoAuthors ↔
      ∃ commit ∈ commits, ∃ trailer ∈ trailers commit, TakenForNone agents owner trailer ∧ name = trailer.nameKey :=
    fun name => @tallyOf_trailers agents owner (name ∈ ·.unknownCoAuthors) _
      (fun noted trailer _ _ => noteTrailer_unknown noted trailer name) (fun _ _ _ => Iff.rfl) commits not_mem_nil
  constructor
  · intro filled
    obtain ⟨name, member⟩ := exists_mem_of_ne_nil _ filled
    obtain ⟨commit, here, trailer, among, none, -⟩ := (listed name).mp member
    exact ⟨commit, here, trailer, among, none⟩
  · rintro ⟨commit, here, trailer, among, none⟩
    exact ne_nil_of_mem ((listed trailer.nameKey).mpr ⟨commit, here, trailer, among, none, rfl⟩)

theorem unattributed_iff :
    (tallyOf commits agents owner).unattributedCommits ≠ [] ↔
      ∃ commit ∈ commits, Unattributed agents owner (commits.any (!·.isMerge)) commit := by
  unfold tallyOf
  refine (@foldl_adds _ _ _ (fun tally : Tally => tally.unattributedCommits ≠ []) _
    (fun tally commit => noteCommit_unattributed tally commit) commits {}).trans ?_
  simp only [ne_eq, not_true_eq_false, false_or]

end Walk

theorem protectedFiles_iff {outside : Outside} {changedFiles patterns : List String} :
    protectedFilesOf outside changedFiles patterns ≠ [] ↔ ∃ file ∈ changedFiles, isProtectedPath outside file patterns = true := by
  unfold protectedFilesOf
  refine (@foldl_adds _ _ _ (fun found : List String => found ≠ []) (fun file => isProtectedPath outside file patterns = true)
    ?_ changedFiles []).trans ?_
  · intro found file
    cases isProtectedPath outside file patterns with
    | true => simp [pushUnique_ne_nil]
    | false => simp
  · simp only [ne_eq, not_true_eq_false, false_or]

variable {eval : PrPolicyEvaluation}

theorem authorize_ok_iff {caller : AgentRecord} :
    authorizeAgentAction eval caller = .ok () ↔
      caller.status = .active ∧ (∀ name ∈ eval.coAuthors, eqIgnoreAsciiCase name caller.nameKey = false) ∧
        eval.protectedFiles = [] ∧ eval.unattributedCommits = [] ∧ eval.unknownCoAuthors = [] ∧
        meetsTier eval.requiredTier caller = true := by
  unfold authorizeAgentAction
  rw [Checked.ite_error_ok, Checked.ite_error_ok, Checked.ite_error_ok, Checked.ite_error_ok, Checked.ite_error_ok]
  simp

variable {agent : AgentRecord}

theorem meetsTier_iff {projectSlug owner : String} {commits : List PrCommitSummary} {agents : List AgentRecord} {tally : Tally}
    (member : agent ∈ agents) (active : agent.status = .active) (other : agent.nameKey ∉ tally.coAuthors)
    (attributed : tally.unattributedCommits = []) (known : tally.unknownCoAuthors = []) (none' : commits = [] → tally.coAuthors = []) :
    meetsTier (tierOf projectSlug owner commits agents tally []).1 agent = true ↔
      tally.coAuthors ≠ [] ∧ .labManager ∉ tally.coAuthorRoles ∧
        (agent.role = .labManager ∨ (agent.role = .lead ∧ agent.coversArea projectSlug = true ∧ .lead ∉ tally.coAuthorRoles)) := by
  have manages : activeLabManager agents tally.coAuthors = none → agent.role ≠ .labManager := by
    intro none role
    have unfit := find?_eq_none.mp none agent member
    simp [active, role, other] at unfit
  have leads : activeProjectLead agents projectSlug tally.coAuthors = none →
      ¬ (agent.role = .lead ∧ agent.coversArea projectSlug = true) := by
    rintro none ⟨role, covers⟩
    have unfit := find?_eq_none.mp none agent member
    simp [active, role, covers, other] at unfit
  unfold tierOf
  split
  · rename_i owned
    simp only [attributed, known, ne_eq, not_true_eq_false, false_or] at owned
    constructor
    · intro meets
      cases meets
    rintro ⟨named, below, -⟩
    rcases owned with empty | empty | above
    · exact absurd (none' empty) named
    · exact absurd empty named
    · exact absurd above below
  · rename_i free
    simp only [attributed, known, ne_eq, not_true_eq_false, false_or, not_or] at free
    obtain ⟨-, named, below⟩ := free
    split
    · rename_i led
      cases found : activeLabManager agents tally.coAuthors with
      | some manager => simp [meetsTier, named, below, led]
      | none => simp [meetsTier, led, manages found]
    rename_i unled
    cases found : activeProjectLead agents projectSlug tally.coAuthors with
    | some lead =>
      simp only [meetsTier, Bool.or_eq_true, Bool.and_eq_true, beq_iff_eq, named, below, unled, ne_eq, not_false_eq_true, true_and,
        and_true]
      exact or_comm
    | none =>
      have unfit := leads found
      cases also : activeLabManager agents tally.coAuthors with
      | some manager =>
        simp only [meetsTier, beq_iff_eq, named, below, unled, ne_eq, not_false_eq_true, true_and, and_true]
        exact ⟨.inl, fun either => either.resolve_right unfit⟩
      | none =>
        simp only [meetsTier, Bool.false_eq_true, named, below, unled, ne_eq, not_false_eq_true, true_and, and_true, false_iff]
        exact fun either => either.elim (manages also) unfit

section Claim

variable (outside : Outside) (project : String) (commits : List PrCommitSummary) (changedFiles patterns : List String)
  (agents : List AgentRecord) (ownerLogin : String)

/-- What stands against an agent's approval: a trailer taken for its name, a protected file, a commit nobody answers
for, a trailer taken for nobody, no co-author at all, a co-author that is a lab manager, or its own role. -/
structure Eligible (agent : AgentRecord) : Prop where
  other : ∀ author, CoAuthor agents (ownerOf ownerLogin) commits author → eqIgnoreAsciiCase author.nameKey agent.nameKey = false
  unprotected : ∀ file ∈ changedFiles, isProtectedPath outside file patterns = false
  attributed : ∀ commit ∈ commits, ¬ Unattributed agents (ownerOf ownerLogin) (commits.any (!·.isMerge)) commit
  known : ∀ commit ∈ commits, ∀ trailer ∈ trailers commit, ¬ TakenForNone agents (ownerOf ownerLogin) trailer
  authored : ∃ author, CoAuthor agents (ownerOf ownerLogin) commits author
  below : ∀ author, CoAuthor agents (ownerOf ownerLogin) commits author → author.role ≠ .labManager
  ranks : agent.role = .labManager ∨ (agent.role = .lead ∧ agent.coversArea (toAsciiLowercase (trim project)) = true ∧
    ∀ author, CoAuthor agents (ownerOf ownerLogin) commits author → author.role ≠ .lead)

variable {outside project commits changedFiles patterns agents ownerLogin}

theorem eqIgnoreAsciiCase_refl (s : String) : eqIgnoreAsciiCase s s = true := eqIgnoreAsciiCase_iff.mpr rfl

theorem accepted_iff (member : agent ∈ agents) (active : agent.status = .active) :
    authorizeAgentAction (evaluatePrPolicy outside project commits changedFiles patterns agents ownerLogin) agent = .ok () ↔
      Eligible outside project commits changedFiles patterns agents ownerLogin agent := by
  rw [authorize_ok_iff]
  show agent.status = .active ∧
    (∀ name ∈ (tallyOf commits agents (ownerOf ownerLogin)).coAuthors, eqIgnoreAsciiCase name agent.nameKey = false) ∧
    protectedFilesOf outside changedFiles patterns = [] ∧ (tallyOf commits agents (ownerOf ownerLogin)).unattributedCommits = [] ∧
    (tallyOf commits agents (ownerOf ownerLogin)).unknownCoAuthors = [] ∧
    meetsTier (tierOf (toAsciiLowercase (trim project)) (ownerOf ownerLogin) commits agents
      (tallyOf commits agents (ownerOf ownerLogin)) (protectedFilesOf outside changedFiles patterns)).1 agent = true ↔ _
  have files : protectedFilesOf outside changedFiles patterns = [] ↔
      ∀ file ∈ changedFiles, isProtectedPath outside file patterns = false := by
    rw [← not_iff_not, ← ne_eq, protectedFiles_iff]
    simp
  have commitsAttributed : (tallyOf commits agents (ownerOf ownerLogin)).unattributedCommits = [] ↔
      ∀ commit ∈ commits, ¬ Unattributed agents (ownerOf ownerLogin) (commits.any (!·.isMerge)) commit := by
    rw [← not_iff_not, ← ne_eq, unattributed_iff]
    simp
  have trailersKnown : (tallyOf commits agents (ownerOf ownerLogin)).unknownCoAuthors = [] ↔
      ∀ commit ∈ commits, ∀ trailer ∈ trailers commit, ¬ TakenForNone agents (ownerOf ownerLogin) trailer := by
    rw [← not_iff_not, ← ne_eq, unknown_iff]
    simp
  have named : (∀ name ∈ (tallyOf commits agents (ownerOf ownerLogin)).coAuthors, eqIgnoreAsciiCase name agent.nameKey = false) ↔
      ∀ author, CoAuthor agents (ownerOf ownerLogin) commits author → eqIgnoreAsciiCase author.nameKey agent.nameKey = false := by
    constructor
    · intro none author wrote
      exact none _ (mem_coAuthors.mpr ⟨author, wrote, rfl⟩)
    · rintro none name listed
      obtain ⟨author, wrote, rfl⟩ := mem_coAuthors.mp listed
      exact none author wrote
  have unwritten : commits = [] → (tallyOf commits agents (ownerOf ownerLogin)).coAuthors = [] := by
    rintro rfl
    rfl
  have authored : (tallyOf commits agents (ownerOf ownerLogin)).coAuthors ≠ [] ↔
      ∃ author, CoAuthor agents (ownerOf ownerLogin) commits author := by
    constructor
    · intro filled
      obtain ⟨name, listed⟩ := exists_mem_of_ne_nil _ filled
      obtain ⟨author, wrote, -⟩ := mem_coAuthors.mp listed
      exact ⟨author, wrote⟩
    · rintro ⟨author, wrote⟩
      exact ne_nil_of_mem (mem_coAuthors.mpr ⟨author, wrote, rfl⟩)
  have without : ∀ role : AgentRole, role ∉ (tallyOf commits agents (ownerOf ownerLogin)).coAuthorRoles ↔
      ∀ author, CoAuthor agents (ownerOf ownerLogin) commits author → author.role ≠ role := by
    intro role
    constructor
    · intro none author wrote same
      exact none (mem_roles.mpr ⟨author, wrote, same.symm⟩)
    · intro none listed
      obtain ⟨author, wrote, same⟩ := mem_roles.mp listed
      exact none author wrote same.symm
  have unlisted : (∀ author, CoAuthor agents (ownerOf ownerLogin) commits author → eqIgnoreAsciiCase author.nameKey agent.nameKey = false) →
      agent.nameKey ∉ (tallyOf commits agents (ownerOf ownerLogin)).coAuthors := by
    intro other listed
    have clash := named.mpr other agent.nameKey listed
    rw [eqIgnoreAsciiCase_refl] at clash
    cases clash
  constructor
  · rintro ⟨-, others, noFiles, noCommits, noTrailers, meets⟩
    have other := named.mp others
    rw [noFiles] at meets
    obtain ⟨wrote, below, ranks⟩ := (meetsTier_iff member active (unlisted other) noCommits noTrailers unwritten).mp meets
    rw [without] at below ranks
    exact ⟨other, files.mp noFiles, commitsAttributed.mp noCommits, trailersKnown.mp noTrailers, authored.mp wrote, below, ranks⟩
  · rintro ⟨other, unprotected, attributed, known, wrote, below, ranks⟩
    have noFiles := files.mpr unprotected
    have noCommits := commitsAttributed.mpr attributed
    have noTrailers := trailersKnown.mpr known
    refine ⟨active, named.mpr other, noFiles, noCommits, noTrailers, ?_⟩
    rw [noFiles, meetsTier_iff member active (unlisted other) noCommits noTrailers unwritten, without, without]
    exact ⟨authored.mpr wrote, below, ranks⟩

variable (outside agents ownerLogin) in
def RestsOn (headSha : String) (eval : PrPolicyEvaluation) (reviews : List PrReviewSummary) (apps : ReviewerApps)
    (agent : AgentRecord) : Prop :=
  (∃ label, verifyMergeApprovals outside headSha eval reviews agents ownerLogin apps = .ok label) ∧
    ∃ review ∈ reviews, ∃ marker, ByApp outside (ownerOf ownerLogin) apps marker review ∧ matchedAgent agents marker = some agent ∧
      (latestByReviewer outside headSha eval reviews agents (ownerOf ownerLogin) apps)[agentKey marker.reviewer]? =
        some (markedState headSha eval agents review marker) ∧
      (markedState headSha eval agents review marker).validForHead = true

theorem RestsOn.accepted {headSha : String} {reviews : List PrReviewSummary} {apps : ReviewerApps}
    (rests : RestsOn outside agents ownerLogin headSha eval reviews apps agent) :
    authorizeAgentAction eval agent = .ok () := by
  obtain ⟨-, review, -, marker, -, found, -, valid⟩ := rests
  obtain ⟨-, -, -, -, counts⟩ := markedState_valid.mp valid
  obtain ⟨matched, same, accepted⟩ := authorized_iff.mp counts
  rw [found] at same
  rw [Option.some.inj same]
  exact accepted

end Claim

/-- An active agent that some trailer identifies is refused, and no approval rests on a review of it, exactly where a
trailer is taken for its name or something else stands against it. -/
theorem author_refused_iff (outside : Outside) (project : String) (commits : List PrCommitSummary)
    (changedFiles patterns : List String) (agents : List AgentRecord) (ownerLogin : String) (agent : AgentRecord)
    (member : agent ∈ agents) (active : agent.status = .active)
    (_identified : ∃ commit ∈ commits, ∃ trailer ∈ parseCoAuthors commit.message, identifies trailer agent = true) :
    ((∃ refusal, authorizeAgentAction (evaluatePrPolicy outside project commits changedFiles patterns agents ownerLogin) agent =
        .error refusal) ∧
      ∀ headSha reviews apps, ¬ RestsOn outside agents ownerLogin headSha
        (evaluatePrPolicy outside project commits changedFiles patterns agents ownerLogin) reviews apps agent) ↔
      ¬ Eligible outside project commits changedFiles patterns agents ownerLogin agent := by
  rw [← accepted_iff member active]
  constructor
  · rintro ⟨⟨refusal, refused⟩, -⟩ accepted
    cases refused.symm.trans accepted
  · intro refused
    refine ⟨?_, fun headSha reviews apps rests => refused rests.accepted⟩
    cases outcome : authorizeAgentAction (evaluatePrPolicy outside project commits changedFiles patterns agents ownerLogin) agent with
    | error refusal => exact ⟨refusal, rfl⟩
    | ok done => exact absurd outcome refused

/-! ### A trailer taken for another agent -/

def sharedTrailer : CommitTrailerAuthor := ⟨"Ferris", "ferris", "felicia@artificialhumanity.io"⟩

/-- The trailer has the name of one agent and the e-mail of another. -/
def sharedCommit : PrCommitSummary :=
  ⟨"c1", some "ferroloop", "feat: page\n\nCo-authored-by: Ferris <felicia@artificialhumanity.io>", 1⟩

def sharedRoster : List AgentRecord := [sampleAgent "felicia" .assistant, sampleAgent "ferris" .lead]

theorem sharedCommit_trailers : trailers sharedCommit = [sharedTrailer] := by decide +kernel

theorem sharedTrailer_taken : TakenFor sharedRoster (ownerOf "") sharedTrailer (sampleAgent "felicia" .assistant) := by
  unfold TakenFor
  decide +kernel

theorem sharedCommit_coAuthor {author : AgentRecord} :
    CoAuthor sharedRoster (ownerOf "") [sharedCommit] author ↔ author = sampleAgent "felicia" .assistant := by
  constructor
  · rintro ⟨commit, here, trailer, listed, taken⟩
    rw [mem_singleton.mp here, sharedCommit_trailers] at listed
    rw [mem_singleton.mp listed] at taken
    exact Option.some.inj (taken.2.symm.trans sharedTrailer_taken.2)
  · rintro rfl
    refine ⟨sharedCommit, mem_singleton.mpr rfl, sharedTrailer, ?_, sharedTrailer_taken⟩
    rw [sharedCommit_trailers]
    exact mem_singleton.mpr rfl

theorem identified_in_sharedCommit (fits : identifies sharedTrailer agent = true) :
    ∃ commit ∈ [sharedCommit], ∃ trailer ∈ parseCoAuthors commit.message, identifies trailer agent = true := by
  refine ⟨sharedCommit, mem_singleton.mpr rfl, sharedTrailer, ?_, fits⟩
  show sharedTrailer ∈ trailers sharedCommit
  rw [sharedCommit_trailers]
  exact mem_singleton.mpr rfl

theorem felicia_refused :
    (∃ refusal, authorizeAgentAction (evaluatePrPolicy sampleOutside "ferroloop" [sharedCommit] [] [] sharedRoster "")
        (sampleAgent "felicia" .assistant) = .error refusal) ∧
      ∀ headSha reviews apps, ¬ RestsOn sampleOutside sharedRoster "" headSha
        (evaluatePrPolicy sampleOutside "ferroloop" [sharedCommit] [] [] sharedRoster "") reviews apps
        (sampleAgent "felicia" .assistant) := by
  refine (author_refused_iff _ _ _ _ _ _ _ _ (by decide +kernel) rfl (identified_in_sharedCommit (by decide +kernel))).mpr ?_
  intro eligible
  have apart := eligible.other _ (sharedCommit_coAuthor.mpr rfl)
  rw [eqIgnoreAsciiCase_refl] at apart
  cases apart

def ferrisApproval : PrReviewSummary := appReview 3 "APPROVED" (markerJson "ferris" "lead" "approved")

theorem ferris_byApp_approves :
    ByApp sampleOutside (ownerOf "") sampleApps (sampleMarker "ferris" .lead .approved) ferrisApproval := by
  refine ⟨by decide +kernel, by decide +kernel, by decide +kernel, ?_⟩
  refine (extractReviewMarker_body _ (by decide +kernel)).trans ?_
  have first : markerJson "ferris" "lead" "approved" ≠ markerJson "jarvis" "lab_manager" "approved" := by decide +kernel
  have second : markerJson "ferris" "lead" "approved" ≠ markerJson "ferris" "assistant" "changes_requested" := by decide +kernel
  dsimp only [sampleOutside]
  rw [if_neg first, if_neg second, if_pos rfl]

theorem ferris_eligible : Eligible sampleOutside "ferroloop" [sharedCommit] [] [] sharedRoster "" (sampleAgent "ferris" .lead) := by
  refine ⟨?_, nofun, ?_, ?_, ⟨_, sharedCommit_coAuthor.mpr rfl⟩, ?_, .inr ⟨rfl, by decide +kernel, ?_⟩⟩
  · intro author wrote
    rw [sharedCommit_coAuthor.mp wrote]
    decide +kernel
  · rintro commit here ⟨-, -, none⟩
    rw [mem_singleton.mp here, sharedCommit_trailers] at none
    exact none sharedTrailer (mem_singleton.mpr rfl) _ sharedTrailer_taken
  · rintro commit here trailer listed ⟨-, none⟩
    rw [mem_singleton.mp here, sharedCommit_trailers] at listed
    rw [mem_singleton.mp listed] at none
    cases none.symm.trans sharedTrailer_taken.2
  · intro author wrote
    rw [sharedCommit_coAuthor.mp wrote]
    decide
  · intro author wrote
    rw [sharedCommit_coAuthor.mp wrote]
    decide

/-- A trailer names an agent and is taken for another, whose e-mail it has; the agent it names approves its own pull
request. -/
theorem ferris_approves_own :
    sampleAgent "ferris" .lead ∈ sharedRoster ∧ (sampleAgent "ferris" .lead).status = .active ∧
      (∃ commit ∈ [sharedCommit], ∃ trailer ∈ parseCoAuthors commit.message,
        identifies trailer (sampleAgent "ferris" .lead) = true) ∧
      authorizeAgentAction (evaluatePrPolicy sampleOutside "ferroloop" [sharedCommit] [] [] sharedRoster "")
        (sampleAgent "ferris" .lead) = .ok () ∧
      RestsOn sampleOutside sharedRoster "" "h1" (evaluatePrPolicy sampleOutside "ferroloop" [sharedCommit] [] [] sharedRoster "")
        [ferrisApproval] sampleApps (sampleAgent "ferris" .lead) := by
  have member : sampleAgent "ferris" .lead ∈ sharedRoster := by decide +kernel
  have accepted := (accepted_iff member rfl).mpr ferris_eligible
  refine ⟨member, rfl, identified_in_sharedCommit (by decide +kernel), accepted, ?_⟩
  generalize evaluatePrPolicy sampleOutside "ferroloop" [sharedCommit] [] [] sharedRoster "" = eval at accepted ⊢
  have distinct : DistinctIds [ferrisApproval] := nodup_singleton _
  have found : matchedAgent sharedRoster (sampleMarker "ferris" .lead .approved) = some (sampleAgent "ferris" .lead) := by
    decide +kernel
  have valid : (markedState "h1" eval sharedRoster ferrisApproval (sampleMarker "ferris" .lead .approved)).validForHead = true :=
    markedState_valid.mpr ⟨by decide +kernel, rfl, rfl, by decide +kernel, authorized_iff.mpr ⟨_, found, accepted⟩⟩
  have latest : Latest (Under sampleOutside "h1" eval sharedRoster (ownerOf "") sampleApps (agentKey "ferris")) [ferrisApproval]
      ferrisApproval := by
    refine ⟨mem_singleton.mpr rfl, ⟨_, ferris_byApp_approves.folded⟩, ?_⟩
    intro other here under
    rw [mem_singleton.mp here]
    exact UInt64.le_refl _
  have approves : stateOf ferrisApproval = "APPROVED" := by decide +kernel
  refine ⟨(verify_ok_iff distinct).mpr ⟨⟨_, _, ⟨_, ferris_byApp_approves.folded, latest⟩, approves, valid⟩, ?_⟩, ferrisApproval,
    mem_singleton.mpr rfl, _, ferris_byApp_approves, found, ?_, valid⟩
  · rintro ⟨review, folded, ⟨key, written, here, -, -⟩, -, rejects⟩
    rw [mem_singleton.mp here] at written
    obtain ⟨-, same⟩ := Prod.mk.inj (Option.some.inj (written.symm.trans ferris_byApp_approves.folded))
    rw [same] at rejects
    exact absurd (approves.symm.trans rejects) (by decide)
  · exact (latestByReviewer_iff distinct).mpr ⟨_, ferris_byApp_approves.folded, latest⟩

end FerroLoop.PrPolicy
