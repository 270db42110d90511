import FerroLoop.FerroState.Workflows

namespace FerroLoop.FerroState

open Std Checked List WorkflowStore
open Workflow (WorkflowDef WorkflowRun)

def Copies (file flow : WorkflowDef) : Prop := { file with id := flow.id, project := flow.project } = flow

variable {project : Iri}

theorem Copies.of_filed {file flow : WorkflowDef} {id : Iri} (same : { file with id, project } = flow) : Copies file flow := by
  subst same
  rfl

namespace WorkflowStore

variable {s t : WorkflowStore} {flow held : WorkflowDef} {id : Iri}

theorem getWorkflowDef_iff {found : Option WorkflowDef} :
    s.getWorkflowDef id = .ok found ↔ ∃ primary, s.ids.Leads .workflow id primary ∧ s.defs[primary]? = found := by
  unfold getWorkflowDef
  constructor
  · intro done
    obtain ⟨primary, resolved, done⟩ := bind_ok done
    exact ⟨primary, Ids.resolveIfKind_iff.mp (mapError_ok resolved), Except.ok.inj done⟩
  · rintro ⟨primary, leads, same⟩
    rw [Ids.resolveIfKind_iff.mpr leads, ← same]
    rfl

theorem giveWay_leads {slug new primary : Iri} (leads : (s.giveWay project slug new).ids.Leads .workflow id primary) :
    primary = new ∨ (s.ids.Leads .workflow id primary ∧ (s.giveWay project slug new).defs[primary]? = s.defs[primary]?) := by
  unfold giveWay at leads ⊢
  split at leads
  · split at leads
    · exact .inr ⟨leads, by simp [*]⟩
    rename_i existing found apart
    rcases Ids.leads_of_alias apart leads with here | ⟨other, before⟩
    · exact .inl here
    refine .inr ⟨before, ?_⟩
    simp only [apart, if_false]
    rw [ExtTreeMap.getElem?_erase, if_neg]
    intro same
    exact other (Std.compare_eq_iff_eq.mp same).symm
  · exact .inr ⟨leads, by simp [*]⟩

section

variable (done : s.importWorkflowDef flow = .ok t)

include done

theorem importWorkflowDef_leads :
    ∃ new project, s.ids.Leads .workflow flow.id new ∧ t.defs[new]? = some { flow with id := new, project } ∧
      ∀ id primary, t.ids.Leads .workflow id primary →
        primary = new ∨ (s.ids.Leads .workflow id primary ∧ t.defs[primary]? = s.defs[primary]?) := by
  obtain ⟨_, _, done⟩ := bind_ok done
  obtain ⟨project, _, done⟩ := bind_ok done
  obtain ⟨new, resolved, done⟩ := bind_ok done
  obtain ⟨ids, indexed, done⟩ := bind_ok done
  have same := Except.ok.inj done
  subst same
  refine ⟨new, project, Ids.resolveIfKind_iff.mp (mapError_ok resolved), ExtTreeMap.getElem?_insert_self, ?_⟩
  intro id primary leads
  rcases Ids.leads_of_indexImported (mapError_ok indexed) leads with ⟨here, _⟩ | before
  · exact .inl here
  rcases giveWay_leads before with here | ⟨first, kept⟩
  · exact .inl here
  by_cases own : primary = new
  · exact .inl own
  refine .inr ⟨first, ?_⟩
  rw [← kept]
  change ((s.giveWay project flow.slug new).defs.insert new { flow with id := new, project })[primary]? = _
  rw [Map.getElem?_insert, if_neg (Ne.symm own)]

theorem importWorkflowDef_get (found : t.getWorkflowDef id = .ok (some held)) :
    Copies flow held ∨ s.getWorkflowDef id = .ok (some held) := by
  obtain ⟨new, project, _, put, others⟩ := importWorkflowDef_leads done
  obtain ⟨primary, leads, there⟩ := getWorkflowDef_iff.mp found
  rcases others id primary leads with here | ⟨before, kept⟩
  · rw [here, put] at there
    exact .inl (.of_filed (Option.some.inj there))
  · exact .inr (getWorkflowDef_iff.mpr ⟨primary, before, kept ▸ there⟩)

theorem importWorkflowDef_own (found : t.getWorkflowDef flow.id = .ok (some held)) : Copies flow held := by
  obtain ⟨new, project, resolved, put, others⟩ := importWorkflowDef_leads done
  obtain ⟨primary, leads, there⟩ := getWorkflowDef_iff.mp found
  have here : primary = new := by
    rcases others flow.id primary leads with here | ⟨before, _⟩
    · exact here
    · exact before.functional resolved
  rw [here, put] at there
  exact .of_filed (Option.some.inj there)

end

theorem importWorkflowRun_get {run : WorkflowRun} (done : s.importWorkflowRun run = .ok t)
    (found : t.getWorkflowDef id = .ok (some held)) : s.getWorkflowDef id = .ok (some held) := by
  obtain ⟨project, _, done⟩ := bind_ok done
  obtain ⟨workflowId, _, done⟩ := bind_ok done
  obtain ⟨_, _, done⟩ := bind_ok done
  obtain ⟨runId, _, done⟩ := bind_ok done
  obtain ⟨ids, indexed, done⟩ := bind_ok done
  have same := Except.ok.inj done
  subst same
  obtain ⟨primary, leads, there⟩ := getWorkflowDef_iff.mp found
  rcases Ids.leads_of_indexImported (mapError_ok indexed) leads with ⟨_, impossible⟩ | before
  · cases impossible
  · exact getWorkflowDef_iff.mpr ⟨primary, before, there⟩

end WorkflowStore

section Sync

variable {workflowIdHash : Iri → String} {s t : WorkflowStore} {flow held : WorkflowDef} {id : Iri}

theorem takeDef_get (done : takeDef s flow = .ok t) (found : t.getWorkflowDef id = .ok (some held)) :
    Copies flow held ∨ s.getWorkflowDef id = .ok (some held) := by
  obtain ⟨own, _, done⟩ := bind_ok done
  split at done
  · cases done
    exact .inr found
  · exact importWorkflowDef_get done found

theorem takeDef_own (done : takeDef s flow = .ok t) (found : t.getWorkflowDef flow.id = .ok (some held)) : Copies flow held := by
  obtain ⟨own, read, done⟩ := bind_ok done
  split at done
  · rename_i same
    cases done
    rw [same] at read
    cases read.symm.trans found
    rfl
  · exact importWorkflowDef_own done found

variable {files : List WorkflowDef}

theorem takeDefs_get (done : files.foldlM takeDef s = .ok t)
    (found : t.getWorkflowDef id = .ok (some held)) :
    (∃ file ∈ files, Copies file held) ∨ s.getWorkflowDef id = .ok (some held) := by
  induction files generalizing s with
  | nil =>
    cases done
    exact .inr found
  | cons file rest ih =>
    obtain ⟨next, one, done⟩ := bind_ok done
    rcases ih done with ⟨later, member, copy⟩ | before
    · exact .inl ⟨later, mem_cons_of_mem _ member, copy⟩
    · exact (takeDef_get one before).imp_left fun copy => ⟨file, mem_cons_self, copy⟩

theorem takeDefs_own (done : files.foldlM takeDef s = .ok t) (listed : flow ∈ files)
    (found : t.getWorkflowDef flow.id = .ok (some held)) : ∃ file ∈ files, Copies file held := by
  induction files generalizing s with
  | nil => cases listed
  | cons file rest ih =>
    obtain ⟨next, one, others⟩ := bind_ok done
    rcases mem_cons.mp listed with here | later
    · rcases takeDefs_get others found with ⟨later, member, copy⟩ | before
      · exact ⟨later, mem_cons_of_mem _ member, copy⟩
      · rw [here] at before
        exact ⟨file, mem_cons_self, takeDef_own one before⟩
    · obtain ⟨file, member, copy⟩ := ih others later
      exact ⟨file, mem_cons_of_mem _ member, copy⟩

theorem takeRuns_get {runs : List WorkflowRun} (done : runs.foldlM takeRun s = .ok t)
    (found : t.getWorkflowDef id = .ok (some held)) : s.getWorkflowDef id = .ok (some held) := by
  induction runs generalizing s with
  | nil =>
    cases done
    exact found
  | cons run rest ih =>
    obtain ⟨next, one, done⟩ := bind_ok done
    have before := ih done
    obtain ⟨own, _, one⟩ := bind_ok one
    split at one
    · exact importWorkflowRun_get one before
    · cases one
      exact before

def BranchWorkflows.Has (base : BranchWorkflows) (id : Iri) : Prop := ∃ file ∈ base.workflows.toList.map Prod.snd, file.id = id

def BranchWorkflows.Lacks (base : BranchWorkflows) (flow : WorkflowDef) : Prop :=
  ∀ file ∈ base.workflows.toList.map Prod.snd, ¬ Copies file flow

variable {after : BranchWorkflows}

theorem syncAttempt_get {base : BranchWorkflows} (done : syncAttempt workflowIdHash s base = .ok (t, after))
    (lacks : base.Lacks held) (found : t.getWorkflowDef held.id = .ok (some held)) :
    s.getWorkflowDef held.id = .ok (some held) ∧ ¬ base.Has held.id := by
  obtain ⟨_, _, done⟩ := bind_ok done
  obtain ⟨imported, defs, done⟩ := bind_ok done
  obtain ⟨last, runs, done⟩ := bind_ok done
  have same := (Prod.mk.inj (Except.ok.inj done)).1
  subst same
  have before := takeRuns_get runs found
  constructor
  · rcases takeDefs_get defs before with ⟨file, member, copy⟩ | held
    · exact absurd copy (lacks file member)
    · exact held
  · rintro ⟨file, member, named⟩
    rw [← named] at before
    obtain ⟨other, inside, copy⟩ := takeDefs_own defs member before
    exact lacks other inside copy

/-- A definition that is not on the branch is found after a sync only where it was found before and the branch has
no file for its id. -/
theorem syncWorkflows_get {bases : List BranchWorkflows}
    (done : syncWorkflows workflowIdHash s bases = .ok (t, after)) (lacks : ∀ base ∈ bases, base.Lacks held)
    (found : t.getWorkflowDef held.id = .ok (some held)) :
    s.getWorkflowDef held.id = .ok (some held) ∧ ∀ base ∈ bases, ¬ base.Has held.id := by
  induction bases generalizing s with
  | nil => cases done
  | cons base rest ih =>
    cases rest with
    | nil =>
      obtain ⟨before, none⟩ := syncAttempt_get done (lacks base mem_cons_self) found
      refine ⟨before, ?_⟩
      intro other member
      rw [mem_singleton.mp member]
      exact none
    | cons second rest =>
      obtain ⟨⟨next, rejected⟩, one, others⟩ := bind_ok done
      obtain ⟨between, none⟩ := ih others fun base member => lacks base (mem_cons_of_mem _ member)
      obtain ⟨before, here⟩ := syncAttempt_get one (lacks base mem_cons_self) between
      refine ⟨before, ?_⟩
      intro other member
      rcases mem_cons.mp member with first | later
      · rw [first]
        exact here
      · exact none other later

end Sync

structure Edited (s : WorkflowStore) (bases : List BranchWorkflows) (flow : WorkflowDef) : Prop where
  held : s.getWorkflowDef flow.id = .ok (some flow)
  copied : ∀ base ∈ bases, base.Has flow.id
  new : ∀ base ∈ bases, base.Lacks flow

/-- Every edit that the branch does not have yet is undone: after a sync that succeeds the store does not hold it. -/
theorem edit_undone (workflowIdHash : Iri → String) (s t : WorkflowStore) (bases : List BranchWorkflows) (after : BranchWorkflows)
    (flow : WorkflowDef) (edited : Edited s bases flow) (done : syncWorkflows workflowIdHash s bases = .ok (t, after)) :
    ¬ (t.getWorkflowDef flow.id = .ok (some flow) ∧ after.workflows[fileName workflowIdHash flow.id]? = some flow) := by
  rintro ⟨found, _⟩
  obtain ⟨_, none⟩ := syncWorkflows_get done edited.new found
  cases bases with
  | nil => cases done
  | cons base rest => exact none base mem_cons_self (edited.copied base mem_cons_self)

instance (file flow : WorkflowDef) : Decidable (Copies file flow) := inferInstanceAs (Decidable (_ = _))

def sampleHash (_ : Iri) : String := "ef5a70259ea8a81ff740ca7d829b6f29"

def draft : WorkflowDef :=
  Workflow.Sample.flow "write" [Workflow.Sample.stepDef "write" .ungated .all] [Workflow.Sample.edge "write" Workflow.endStep .pass]

def retitled : WorkflowDef := { draft with title := "Edited" }

def holding (flow : WorkflowDef) : WorkflowStore where
  ids := ⟨((∅ : ExtTreeMap Iri IdRow compare).insert "urn:project:1" (.kind .project)).insert flow.id (.kind .workflow), ∅⟩
  slugs := (∅ : ExtTreeMap (List String) Iri compare).insert (slugKey flow.project flow.slug) flow.id
  defs := (∅ : ExtTreeMap Iri WorkflowDef compare).insert flow.id flow
  runs := ∅

def branchWith (flow : WorkflowDef) : BranchWorkflows :=
  ⟨(∅ : ExtTreeMap String WorkflowDef compare).insert (fileName sampleHash flow.id) flow, ∅⟩

theorem retitled_undone :
    Edited (holding retitled) [branchWith draft] retitled ∧
      ∃ t after, syncWorkflows sampleHash (holding retitled) [branchWith draft] = .ok (t, after) ∧
        ¬ (t.getWorkflowDef retitled.id = .ok (some retitled) ∧
          after.workflows[fileName sampleHash retitled.id]? = some retitled) := by
  have edited : Edited (holding retitled) [branchWith draft] retitled := by
    refine ⟨ok_of_toOption (by decide +kernel), ?_, ?_⟩
    · intro base member
      rw [mem_singleton.mp member]
      exact ⟨draft, by decide +kernel, rfl⟩
    · intro base member
      rw [mem_singleton.mp member]
      change ∀ file ∈ (branchWith draft).workflows.toList.map Prod.snd, ¬ Copies file retitled
      decide +kernel
  have succeeds : (syncWorkflows sampleHash (holding retitled) [branchWith draft]).isOk = true := by decide +kernel
  cases done : syncWorkflows sampleHash (holding retitled) [branchWith draft] with
  | error e =>
    rw [done] at succeeds
    cases succeeds
  | ok result => exact ⟨edited, result.1, result.2, rfl, edit_undone sampleHash _ _ _ _ retitled edited done⟩

def titles : Except WorkflowStoreError (List (Option String)) := do
  let start : WorkflowStore := { empty with ids := ⟨(∅ : ExtTreeMap Iri IdRow compare).insert "urn:project:1" (.kind .project), ∅⟩ }
  let (s, _) ← start.upsertWorkflowDef draft
  let (s, branch) ← syncWorkflows sampleHash s [⟨∅, ∅⟩]
  let (s, written) ← s.upsertWorkflowDef retitled
  let edited ← s.getWorkflowDef written.id
  let (s, after) ← syncWorkflows sampleHash s [branch]
  let held ← s.getWorkflowDef written.id
  return [edited, held, branch.workflows[fileName sampleHash written.id]?, after.workflows[fileName sampleHash written.id]?].map
    (Option.map WorkflowDef.title)

/-- The edit was there; after the sync neither the store nor the branch has it. -/
theorem title_lost : titles.toOption = some [some "Edited", some "Sample", some "Sample", some "Sample"] := by
  decide +kernel

end FerroLoop.FerroState
