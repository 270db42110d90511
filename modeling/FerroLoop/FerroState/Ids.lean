import FerroLoop.Lib.Checked
import FerroLoop.Lib.Map

namespace FerroLoop.FerroState

open Std

abbrev Iri := String

inductive Kind where
  | project
  | gate
  | record
  | finding
  | state
  | agent
  | message
  | workflow
  | workflowRun
  deriving DecidableEq

/-- What `ids` holds for an id: its kind, or the word `alias`. -/
inductive IdRow where
  | kind (kind : Kind)
  | aliased
  deriving DecidableEq

inductive IdError where
  | notOwned (id : Iri)
  | wrongKind (id : Iri) (expected found : Kind)
  | alreadyExists (id : Iri)
  | aliasWithoutPrimary (id : Iri)
  | aliasNotHeld (id primary : Iri)
  | unknownKind (primary : Iri)
  deriving DecidableEq

structure Ids where
  rows : ExtTreeMap Iri IdRow compare
  aliases : ExtTreeMap Iri Iri compare

namespace Ids

def empty : Ids := ⟨∅, ∅⟩

section

variable (ids : Ids) (id : Iri)

def aliasPrimary : Except IdError (Iri × IdRow) :=
  match ids.aliases[id]? with
  | none => .error (.aliasWithoutPrimary id)
  | some primary =>
    match ids.rows[primary]? with
    | none => .error (.aliasNotHeld id primary)
    | some row => .ok (primary, row)

def locate : Except IdError (Iri × Kind) := do
  match ids.rows[id]? with
  | none => throw (.notOwned id)
  | some (.kind kind) => return (id, kind)
  | some .aliased =>
    match ← ids.aliasPrimary id with
    | (primary, .kind kind) => return (primary, kind)
    | (primary, .aliased) => throw (.unknownKind primary)

def resolve : Except IdError Iri :=
  match ids.locate id with
  | .ok (primary, _) => .ok primary
  | .error (.notOwned _) => .ok id
  | .error e => .error e

/-- `resolve_if_kind`. -/
def resolveIfKind (expected : Kind) : Except IdError Iri :=
  match ids.locate id with
  | .ok (primary, found) => if found = expected then .ok primary else .error (.wrongKind id expected found)
  | .error (.notOwned _) => .ok id
  | .error e => .error e

def indexNew (kind : Kind) : Except IdError Ids :=
  match ids.rows[id]? with
  | some _ => .error (.alreadyExists id)
  | none => .ok { ids with rows := ids.rows.insert id (.kind kind) }

end

def indexImported (ids : Ids) (kind : Kind) (id : Iri) : Except IdError Ids :=
  match ids.rows[id]? with
  | some .aliased => .ok ids
  | some (.kind found) => if found = kind then .ok ids else .error (.wrongKind id kind found)
  | none => ids.indexNew id kind

/-- Points `old` at `new` and retargets every alias that named `old`. -/
def aliasUnpublished (ids : Ids) (kind : Kind) (old new : Iri) : Ids :=
  if old = new then ids
  else
    { rows := (ids.rows.insert old .aliased).insert new (.kind kind)
      aliases := (ids.aliases.insert old new).map fun key target => if target = old ∧ key ≠ old then new else target }

variable {ids next : Ids} {kind : Kind} {id primary new old : Iri}

theorem locate_of_kind (held : ids.rows[id]? = some (.kind kind)) :
    ids.locate id = .ok (id, kind) := by
  simp only [locate, held]
  rfl

theorem resolve_of_kind (held : ids.rows[id]? = some (.kind kind)) :
    ids.resolve id = .ok id := by
  simp only [resolve, locate_of_kind held]

theorem locate_ok (found : ids.locate id = .ok (primary, kind)) :
    ids.rows[primary]? = some (.kind kind) := by
  unfold locate at found
  split at found
  · cases found
  · cases found
    assumption
  obtain ⟨⟨target, row⟩, read, found⟩ := Checked.bind_ok found
  unfold aliasPrimary at read
  split at read
  · cases read
  split at read
  · cases read
  rename_i there
  cases read
  cases row with
  | kind kind =>
    cases found
    exact there
  | aliased => cases found

theorem locate_notOwned {named : Iri} (missing : ids.locate id = .error (.notOwned named)) :
    ids.rows[id]? = none := by
  unfold locate at missing
  split at missing
  · assumption
  · cases missing
  unfold aliasPrimary at missing
  split at missing
  · cases missing
  split at missing
  · cases missing
  · rename_i row _
    cases row <;> cases missing

theorem resolve_not_aliased (found : ids.resolve id = .ok primary) :
    ids.rows[primary]? ≠ some .aliased := by
  unfold resolve at found
  split at found
  · rename_i located
    cases found
    rw [locate_ok located]
    exact nofun
  · rename_i missing
    cases found
    rw [locate_notOwned missing]
    exact nofun
  · cases found

theorem indexNew_ok (done : ids.indexNew id kind = .ok next) :
    ids.rows[id]? = none ∧ next.aliases = ids.aliases ∧
      ∀ other, next.rows[other]? = if id = other then some (.kind kind) else ids.rows[other]? := by
  unfold indexNew at done
  split at done
  · cases done
  · rename_i unused
    cases done
    exact ⟨unused, rfl, fun other => Map.getElem?_insert _ _ _ _⟩

theorem indexImported_ok (done : ids.indexImported kind id = .ok next) :
    next.aliases = ids.aliases ∧ (next.rows[id]? = some (.kind kind) ∨ ids.rows[id]? = some .aliased) ∧
      ∀ (other : Iri) row, ids.rows[other]? = some row → next.rows[other]? = some row := by
  unfold indexImported at done
  split at done
  · rename_i held
    cases done
    exact ⟨rfl, .inr held, fun _ _ there => there⟩
  · rename_i found held
    split at done
    · rename_i same
      cases done
      exact ⟨rfl, .inl (same ▸ held), fun _ _ there => there⟩
    · cases done
  · obtain ⟨unused, aliases, rows⟩ := indexNew_ok done
    refine ⟨aliases, .inl (by rw [rows, if_pos rfl]), ?_⟩
    intro other row there
    rw [rows, if_neg, there]
    intro same
    rw [← same, unused] at there
    cases there

theorem aliasUnpublished_rows (apart : old ≠ new) (other : Iri) :
    (ids.aliasUnpublished kind old new).rows[other]? =
      if new = other then some (.kind kind) else if old = other then some .aliased else ids.rows[other]? := by
  unfold aliasUnpublished
  rw [if_neg apart]
  simp only [Map.getElem?_insert]

def Leads (ids : Ids) (kind : Kind) (id primary : Iri) : Prop :=
  (id = primary ∧ (ids.rows[id]? = none ∨ ids.rows[id]? = some (.kind kind))) ∨
    (ids.rows[id]? = some .aliased ∧ ids.aliases[id]? = some primary ∧ ids.rows[primary]? = some (.kind kind))

theorem resolveIfKind_iff :
    ids.resolveIfKind id kind = .ok primary ↔ ids.Leads kind id primary := by
  unfold resolveIfKind locate Leads
  rcases held : ids.rows[id]? with _ | row
  · simp [throw, throwThe, MonadExceptOf.throw]
  cases row with
  | kind found =>
    by_cases same : found = kind
    · simp [same, pure, Except.pure]
    · simp [same, pure, Except.pure]
  | aliased =>
    unfold aliasPrimary
    rcases pointed : ids.aliases[id]? with _ | target
    · simp [bind, Except.bind]
    cases there : ids.rows[target]? with
    | none =>
      simp only [there, bind, Except.bind]
      simp
      rintro rfl
      simp [there]
    | some row =>
      cases row with
      | aliased =>
        simp only [there, bind, Except.bind]
        simp [throw, throwThe, MonadExceptOf.throw]
        rintro rfl
        simp [there]
      | kind found =>
        simp only [there, bind, Except.bind]
        by_cases same : found = kind
        all_goals
          simp [same, pure, Except.pure]
          rintro rfl
          simp [there, same]

theorem Leads.functional {first second : Iri} (one : ids.Leads kind id first)
    (two : ids.Leads kind id second) : first = second :=
  Except.ok.inj ((resolveIfKind_iff.mpr one).symm.trans (resolveIfKind_iff.mpr two))

theorem Leads.not_aliased (leads : ids.Leads kind id primary) :
    ids.rows[primary]? ≠ some .aliased := by
  rcases leads with ⟨rfl, none | held⟩ | ⟨_, _, held⟩
  · rw [none]
    exact nofun
  · rw [held]
    exact nofun
  · rw [held]
    exact nofun

theorem leads_of_indexImported {imported : Kind}
    (done : ids.indexImported imported new = .ok next) (leads : next.Leads kind id primary) :
    (primary = new ∧ imported = kind) ∨ ids.Leads kind id primary := by
  unfold indexImported at done
  split at done
  · cases done
    exact .inr leads
  · split at done
    · cases done
      exact .inr leads
    · cases done
  obtain ⟨_, aliases, rows⟩ := indexNew_ok done
  unfold Leads at leads
  rw [rows id, rows primary, aliases] at leads
  by_cases target : new = primary
  · subst target
    by_cases same : imported = kind
    · exact .inl ⟨rfl, same⟩
    · simp [same] at leads
      obtain ⟨rfl, impossible⟩ := leads
      simp [same] at impossible
  · rw [if_neg target] at leads
    refine .inr ?_
    rcases leads with ⟨rfl, own⟩ | ⟨aliased, pointed, held⟩
    · rw [if_neg target] at own
      exact .inl ⟨rfl, own⟩
    by_cases here : new = id
    · rw [if_pos here] at aliased
      cases aliased
    · rw [if_neg here] at aliased
      exact .inr ⟨aliased, pointed, held⟩

theorem aliasUnpublished_aliases (apart : old ≠ new) (id : Iri) :
    (ids.aliasUnpublished kind old new).aliases[id]? =
      if id = old then some new else (ids.aliases[id]?).map fun target => if target = old then new else target := by
  unfold aliasUnpublished
  rw [if_neg apart]
  simp only [ExtTreeMap.getElem?_map, Map.getElem?_insert]
  by_cases same : id = old
  · subst same
    simp
  rw [if_neg (Ne.symm same), if_neg same]
  cases ids.aliases[id]? with
  | none => rfl
  | some target => simp [same]

/-- After an id gave way to another, whatever does not lead to that one did not lead to the old one, and leads
where it did. -/
theorem leads_of_alias (apart : old ≠ new)
    (leads : (ids.aliasUnpublished kind old new).Leads kind id primary) :
    primary = new ∨ (primary ≠ old ∧ ids.Leads kind id primary) := by
  by_cases target : primary = new
  · exact .inl target
  have held := leads.not_aliased
  have notOld : primary ≠ old := by
    rintro rfl
    rw [aliasUnpublished_rows apart, if_neg (Ne.symm target), if_pos rfl] at held
    exact held rfl
  refine .inr ⟨notOld, ?_⟩
  unfold Leads at leads
  rw [aliasUnpublished_rows apart id, aliasUnpublished_rows apart primary, aliasUnpublished_aliases apart,
    if_neg (Ne.symm target), if_neg (Ne.symm notOld)] at leads
  rcases leads with ⟨rfl, own⟩ | ⟨aliased, pointed, there⟩
  · rw [if_neg (Ne.symm target), if_neg (Ne.symm notOld)] at own
    exact .inl ⟨rfl, own⟩
  by_cases here : id = old
  · rw [if_pos here] at pointed
    exact absurd (Option.some.inj pointed).symm target
  rw [if_neg here] at pointed
  by_cases itself : new = id
  · rw [if_pos itself] at aliased
    cases aliased
  rw [if_neg itself, if_neg (Ne.symm here)] at aliased
  rcases before : ids.aliases[id]? with _ | was
  · rw [before] at pointed
    cases pointed
  rw [before, Option.map_some] at pointed
  by_cases moved : was = old
  · rw [if_pos moved] at pointed
    exact absurd (Option.some.inj pointed).symm target
  · rw [if_neg moved] at pointed
    exact .inr ⟨aliased, before.trans pointed, there⟩

end Ids

end FerroLoop.FerroState
