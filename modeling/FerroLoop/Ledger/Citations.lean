import FerroLoop.Ledger.Split
import FerroLoop.Lib.Machine

namespace FerroLoop.Ledger

open List hiding getElem?_eq_some_iff
open Std Checked Remote

section AddMissing

variable {α ι : Type} [DecidableEq ι] (id : α → ι)

theorem addMissing_cons (held : List α) (first : α) (rest : List α) :
    addMissing id held (first :: rest) =
      addMissing id (if held.any (fun other => id other = id first) then held else held ++ [first]) rest := rfl

theorem addMissing_extends (held new : List α) : held <+: addMissing id held new := by
  induction new generalizing held with
  | nil => exact prefix_rfl
  | cons first rest ih =>
    rw [addMissing_cons]
    refine List.IsPrefix.trans ?_ (ih _)
    split
    · exact prefix_rfl
    · exact prefix_append _ _

variable {held new : List α}

theorem mem_addMissing {x : α} (there : x ∈ addMissing id held new) : x ∈ held ∨ x ∈ new := by
  induction new generalizing held with
  | nil => exact .inl there
  | cons first rest ih =>
    rw [addMissing_cons] at there
    rcases ih there with early | late
    · split at early
      · exact .inl early
      · rcases mem_append.mp early with before | added
        · exact .inl before
        · exact .inr (mem_cons.mpr (.inl (mem_singleton.mp added)))
    · exact .inr (mem_cons_of_mem _ late)

theorem addMissing_covers {x : α} (sent : x ∈ new) :
    ∃ y ∈ addMissing id held new, id y = id x := by
  induction new generalizing held with
  | nil => cases sent
  | cons first rest ih =>
    rw [addMissing_cons]
    rcases mem_cons.mp sent with same | later
    · subst same
      have within : ∀ (next : List α), (∃ y ∈ next, id y = id x) → ∃ y ∈ addMissing id next rest, id y = id x := by
        rintro next ⟨y, member, named⟩
        exact ⟨y, (addMissing_extends id next rest).subset member, named⟩
      apply within
      split
      · rename_i found
        obtain ⟨y, member, named⟩ := any_eq_true.mp found
        exact ⟨y, member, of_decide_eq_true named⟩
      · exact ⟨x, mem_append_right _ (mem_singleton.mpr rfl), rfl⟩
    · exact ih later

theorem addMissing_nodup (distinct : (held.map id).Nodup) :
    ((addMissing id held new).map id).Nodup := by
  induction new generalizing held with
  | nil => exact distinct
  | cons first rest ih =>
    rw [addMissing_cons]
    apply ih
    split
    · exact distinct
    rename_i absent
    rw [map_append, map_singleton, nodup_append]
    refine ⟨distinct, nodup_cons.mpr ⟨not_mem_nil, nodup_nil⟩, ?_⟩
    intro there member new single same
    obtain ⟨other, held, named⟩ := mem_map.mp member
    apply absent
    refine any_eq_true.mpr ⟨other, held, decide_eq_true ?_⟩
    rw [named, same]
    exact mem_singleton.mp single

end AddMissing

def Log.Indexed {α : Type} (entry : α → Option (Iri × Iri)) (log : Log α) : Prop :=
  ∀ id seq, log.candidates[id]? = some seq → ∃ row record, log.rows[seq - 1]? = some row ∧ entry row = some (id, record)

section Candidates

variable {α : Type} {entry : α → Option (Iri × Iri)} {log : Log α}

theorem Log.Indexed.append (indexed : log.Indexed entry) (value : α) :
    (log.append value ((entry value).map Prod.fst)).Indexed entry := by
  intro id seq named
  have older : ∀ seq, log.candidates[id]? = some seq → ∃ row record,
      (log.rows ++ [value])[seq - 1]? = some row ∧ entry row = some (id, record) := by
    intro seq named
    obtain ⟨row, record, found, tied⟩ := indexed id seq named
    exact ⟨row, record, getElem?_append_left (List.getElem?_eq_some_iff.mp found).1 ▸ found, tied⟩
  rcases tied : entry value with _ | pair
  · rw [tied] at named
    exact older seq named
  obtain ⟨own, record⟩ := pair
  rw [tied] at named
  change (log.candidates.insert own (log.rows.length + 1))[id]? = some seq at named
  rcases Map.insert_cases named with ⟨rfl, rfl⟩ | ⟨_, named⟩
  · exact ⟨value, record, getElem?_concat_length, tied⟩
  · exact older seq named

theorem Log.Indexed.drop (indexed : log.Indexed entry) (ids : List Iri) : (log.drop ids).Indexed entry := by
  have kept : ∀ (ids : List Iri) (index : ExtTreeMap Iri Nat compare) (id : Iri) (seq : Nat),
      (ids.foldl (fun index id => index.erase id) index)[id]? = some seq → index[id]? = some seq := by
    intro ids
    induction ids with
    | nil => exact fun _ _ _ named => named
    | cons first rest ih =>
      intro index id seq named
      have before := ih (index.erase first) id seq named
      rw [Map.getElem?_erase] at before
      split at before
      · cases before
      · exact before
  intro id seq named
  exact indexed id seq (kept ids log.candidates id seq named)

theorem Log.waiting_ok (indexed : log.Indexed entry) {isPublished : Iri → Bool} {after : Iri} {rows : List α}
    (listed : log.waiting isPublished after = .ok rows) {row : α} (member : row ∈ rows) :
    ∃ id record, entry row = some (id, record) ∧ after < id := by
  obtain ⟨held, chosen, read⟩ := mapM_ok listed row member
  obtain ⟨inside, meets⟩ := mem_filter.mp chosen
  obtain ⟨found, record, there, tied⟩ :=
    indexed held.1 held.2 (ExtTreeMap.mem_toList_iff_getElem?_eq_some.mp inside)
  rw [there] at read
  cases read
  exact ⟨held.1, record, tied, of_decide_eq_true (Bool.and_eq_true _ _ ▸ meets).1⟩

end Candidates

variable {aside : List (Iri × Iri)}

theorem sortOut_ok {α : Type} {owns : Iri → Except StoreError Bool} {entry : α → Option (Iri × Iri)} {pending kept : List α}
    (sorted : sortOut owns entry pending = .ok (kept, aside)) {e : α} (member : e ∈ kept) :
    e ∈ pending ∧ ∃ id record, entry e = some (id, record) ∧ owns record = .ok true := by
  induction pending generalizing kept aside with
  | nil =>
    cases sorted
    cases member
  | cons first rest ih =>
    unfold sortOut at sorted
    cases tied : entry first with
    | none =>
      rw [tied] at sorted
      obtain ⟨inside, owned⟩ := ih sorted member
      exact ⟨mem_cons_of_mem _ inside, owned⟩
    | some pair =>
      obtain ⟨id, record⟩ := pair
      rw [tied] at sorted
      obtain ⟨mine, asked, sorted⟩ := bind_ok sorted
      obtain ⟨⟨others, left⟩, later, sorted⟩ := bind_ok sorted
      cases mine with
      | false =>
        cases sorted
        obtain ⟨inside, owned⟩ := ih later member
        exact ⟨mem_cons_of_mem _ inside, owned⟩
      | true =>
        cases sorted
        rcases mem_cons.mp member with same | further
        · subst same
          exact ⟨mem_cons_self, id, record, tied, asked⟩
        · obtain ⟨inside, owned⟩ := ih later further
          exact ⟨mem_cons_of_mem _ inside, owned⟩

variable {decision : Decision} {prepared : Prepared}

section Flush

variable {repo : String} {owns : Iri → Except StoreError Bool}

def Publishable (repo : String) (owns : Iri → Except StoreError Bool) (s : LocalLedger) (entry : Option (Iri × Iri)) : Prop :=
  ∃ id record cutover, entry = some (id, record) ∧ owns record = .ok true ∧ s.cutover repo = some cutover ∧ cutover < id

structure Indexed (s : LocalLedger) : Prop where
  runs : s.gateRuns.Indexed GateRun.entry
  attempts : s.attempts.Indexed Attempt.entry

structure Prepared.Sound (repo : String) (owns : Iri → Except StoreError Bool) (s : LocalLedger) (decision : Decision)
    (prepared : Prepared) : Prop where
  decided : prepared.batch.decision = decision
  runs : ∀ run ∈ prepared.batch.runs, Publishable repo owns s run.entry
  attempts : ∀ attempt ∈ prepared.batch.attempts, Publishable repo owns s attempt.entry
  ids : prepared.ids = prepared.batch.runs.filterMap GateRun.id ++ prepared.batch.attempts.filterMap Attempt.id
  cited : ∀ cited ∈ decision.restsOn, cited ∈ prepared.ids ∨ s.isPublished repo cited = true

theorem publishable_of_sorted {α : Type} {entry : α → Option (Iri × Iri)} {log : Log α} {s : LocalLedger} {cutover : Iri}
    (indexed : log.Indexed entry) (recorded : s.cutover repo = some cutover) {pending kept : List α}
    (listed : log.waiting (s.isPublished repo) cutover = .ok pending)
    (sorted : sortOut owns entry pending = .ok (kept, aside)) : ∀ e ∈ kept, Publishable repo owns s (entry e) := by
  intro e member
  obtain ⟨inside, id, record, tied, owned⟩ := sortOut_ok sorted member
  obtain ⟨id', record', tied', after⟩ := Log.waiting_ok indexed listed inside
  rw [tied] at tied'
  cases tied'
  exact ⟨id, record, cutover, tied, owned, recorded, after⟩

theorem prepare_sound {s : LocalLedger} (indexed : Indexed s)
    (done : prepare repo owns s decision = .ok (some prepared)) : prepared.Sound repo owns s decision := by
  obtain ⟨mine, _, done⟩ := bind_ok done
  obtain ⟨_, _, done⟩ := bind_ok done
  rcases recorded : s.cutover repo with _ | cutover
  · rw [recorded] at done
    cases done
  rw [recorded] at done
  obtain ⟨pendingRuns, listedRuns, done⟩ := bind_ok done
  obtain ⟨pendingAttempts, listedAttempts, done⟩ := bind_ok done
  obtain ⟨⟨runs, asideRuns⟩, sortedRuns, done⟩ := bind_ok done
  obtain ⟨⟨attempts, asideAttempts⟩, sortedAttempts, done⟩ := bind_ok done
  simp only at done
  split at done
  · cases done
  rename_i none_left
  cases done
  refine ⟨rfl, publishable_of_sorted indexed.runs recorded listedRuns sortedRuns,
    publishable_of_sorted indexed.attempts recorded listedAttempts sortedAttempts, rfl, ?_⟩
  intro cited rests
  have settled := find?_eq_none.mp none_left cited rests
  simp only [Bool.and_eq_true, Bool.not_eq_true', decide_eq_false_iff_not, not_and, Bool.not_eq_false] at settled
  by_cases inside : cited ∈ runs.filterMap GateRun.id ++ attempts.filterMap Attempt.id
  · exact .inl inside
  · exact .inr (settled inside)

end Flush

def Remote.Holds (remote : Remote) (id : Iri) : Prop :=
  (∃ run ∈ remote.runs, run.id = some id) ∨ ∃ attempt ∈ remote.attempts, attempt.id = some id

def Remote.Same (a b : Remote) : Prop := a.runs = b.runs ∧ a.attempts = b.attempts ∧ a.decisions = b.decisions

variable {remote : Remote}

theorem Remote.land_same {batch : Batch} (unchanged : (remote.land batch).size = remote.size) :
    remote.Same (remote.land batch) := by
  have runs := addMissing_extends GateRun.id remote.runs batch.runs
  have attempts := addMissing_extends Attempt.id remote.attempts batch.attempts
  have decisions := addMissing_extends Decision.id remote.decisions [batch.decision]
  have longer := And.intro runs.length_le (And.intro attempts.length_le decisions.length_le)
  simp only [size, land] at unchanged
  refine ⟨runs.eq_of_length ?_, attempts.eq_of_length ?_, decisions.eq_of_length ?_⟩
  all_goals omega

theorem Remote.publish_cases (remote : Remote) (batch : Batch) (landing : Landing) :
    ((remote.publish batch landing).1 = remote ∧ ∃ e, (remote.publish batch landing).2 = .error e) ∨
      (remote.publish batch landing).1.Same (remote.land batch) := by
  cases landing with
  | failed => exact .inl ⟨rfl, .unreachable, rfl⟩
  | landed | answerLost =>
    right
    unfold publish
    simp only
    split
    · exact land_same ‹_›
    · exact ⟨rfl, rfl, rfl⟩

theorem Remote.Holds.land {id : Iri} (held : remote.Holds id) (batch : Batch) :
    (remote.land batch).Holds id := by
  rcases held with ⟨run, member, named⟩ | ⟨attempt, member, named⟩
  · exact .inl ⟨run, (addMissing_extends _ _ _).subset member, named⟩
  · exact .inr ⟨attempt, (addMissing_extends _ _ _).subset member, named⟩

theorem Remote.land_holds (remote : Remote) (batch : Batch) {id : Iri}
    (sent : id ∈ batch.runs.filterMap GateRun.id ++ batch.attempts.filterMap Attempt.id) : (remote.land batch).Holds id := by
  rcases mem_append.mp sent with run | attempt
  · obtain ⟨run, member, named⟩ := mem_filterMap.mp run
    obtain ⟨there, held, same⟩ := @addMissing_covers _ _ _ GateRun.id remote.runs _ _ member
    exact .inl ⟨there, held, same.trans named⟩
  · obtain ⟨attempt, member, named⟩ := mem_filterMap.mp attempt
    obtain ⟨there, held, same⟩ := @addMissing_covers _ _ _ Attempt.id remote.attempts _ _ member
    exact .inr ⟨there, held, same.trans named⟩

structure Closed (repo : String) (owns : Iri → Except StoreError Bool) (w : World) : Prop where
  cited : ∀ decision ∈ w.github.decisions, ∀ entry ∈ decision.restsOn, w.github.Holds entry
  marked : ∀ id, w.ours.isPublished repo id = true → w.github.Holds id
  runs : ∀ run ∈ w.github.runs, Publishable repo owns w.ours run.entry
  attempts : ∀ attempt ∈ w.github.attempts, Publishable repo owns w.ours attempt.entry
  runsOnce : (w.github.runs.map GateRun.id).Nodup
  attemptsOnce : (w.github.attempts.map Attempt.id).Nodup
  decisionsOnce : (w.github.decisions.map Decision.id).Nodup

section Steps

variable {repo : String} {owns : Iri → Except StoreError Bool}

variable {w : World}

/-- A local write that moves neither the marks nor this repository's cut-over keeps the ledger closed. -/
theorem Closed.local (closed : Closed repo owns w) {ours : LocalLedger}
    (marks : ours.published = w.ours.published)
    (cut : ∀ cutover, w.ours.cutover repo = some cutover → ours.cutover repo = some cutover) :
    Closed repo owns { w with ours } := by
  have still : ∀ entry, Publishable repo owns w.ours entry → Publishable repo owns ours entry := by
    rintro entry ⟨id, record, cutover, tied, owned, recorded, after⟩
    exact ⟨id, record, cutover, tied, owned, cut cutover recorded, after⟩
  refine ⟨closed.cited, ?_, fun run member => still _ (closed.runs run member),
    fun attempt member => still _ (closed.attempts attempt member), closed.runsOnce, closed.attemptsOnce, closed.decisionsOnce⟩
  intro id mark
  unfold LocalLedger.isPublished at mark
  rw [marks] at mark
  exact closed.marked id mark

theorem Closed.same {w : World} (closed : Closed repo owns w) {github : Remote} (same : github.Same w.github) :
    Closed repo owns { w with github } := by
  obtain ⟨runs, attempts, decisions⟩ := same
  have holds : ∀ id, w.github.Holds id → github.Holds id := by
    intro id held
    unfold Holds at held ⊢
    rwa [runs, attempts]
  refine ⟨?_, fun id mark => holds id (closed.marked id mark), ?_, ?_, ?_, ?_, ?_⟩
  · intro decision member entry rests
    rw [show decision ∈ github.decisions ↔ decision ∈ w.github.decisions by rw [decisions]] at member
    exact holds entry (closed.cited decision member entry rests)
  · simpa only [runs] using closed.runs
  · simpa only [attempts] using closed.attempts
  · simpa only [runs] using closed.runsOnce
  · simpa only [attempts] using closed.attemptsOnce
  · simpa only [decisions] using closed.decisionsOnce

theorem Closed.land (closed : Closed repo owns w)
    (sound : prepared.Sound repo owns w.ours decision) : Closed repo owns { w with github := w.github.land prepared.batch } := by
  refine ⟨?_, fun id mark => (closed.marked id mark).land _, ?_, ?_, addMissing_nodup _ closed.runsOnce,
    addMissing_nodup _ closed.attemptsOnce, addMissing_nodup _ closed.decisionsOnce⟩
  · intro held member entry rests
    rcases mem_addMissing _ member with before | new
    · exact (closed.cited held before entry rests).land _
    rw [mem_singleton.mp new, sound.decided] at rests
    rcases sound.cited entry rests with sent | published
    · rw [sound.ids] at sent
      exact land_holds _ _ sent
    · exact (closed.marked entry published).land _
  · intro run member
    rcases mem_addMissing _ member with before | new
    · exact closed.runs run before
    · exact sound.runs run new
  · intro attempt member
    rcases mem_addMissing _ member with before | new
    · exact closed.attempts attempt before
    · exact sound.attempts attempt new

theorem Closed.settle (closed : Closed repo owns w) {ids aside : List Iri}
    (landed : ∀ id ∈ ids, w.github.Holds id) : Closed repo owns { w with ours := w.ours.settle repo ids aside } := by
  refine ⟨closed.cited, ?_, closed.runs, closed.attempts, closed.runsOnce, closed.attemptsOnce, closed.decisionsOnce⟩
  intro id mark
  have marked := of_decide_eq_true mark
  rcases mem_append.mp marked with before | new
  · exact closed.marked id (decide_eq_true before)
  · obtain ⟨other, member, same⟩ := mem_map.mp new
    cases same
    exact landed id member

theorem flush_closed (closed : Closed repo owns w) (indexed : Indexed w.ours) (decision : Decision)
    (landing : Landing) (settles : Bool) : Closed repo owns (flush repo owns w decision landing settles).1 := by
  unfold flush
  split
  · exact closed
  · exact closed
  rename_i prepared done
  have sound := prepare_sound indexed done
  have landedClosed := closed.land sound
  rcases publish_cases w.github prepared.batch landing with ⟨kept, e, refused⟩ | same
  · split
    · rename_i github _ published
      rw [published] at kept
      cases kept
      exact closed
    · rename_i published
      rw [published] at refused
      cases refused
  · split
    · rename_i github _ published
      rw [published] at same
      exact landedClosed.same same
    rename_i github _ published
    rw [published] at same
    have afterwards := landedClosed.same same
    split
    · refine afterwards.settle ?_
      intro id member
      rw [sound.ids] at member
      have held := land_holds w.github prepared.batch member
      obtain ⟨runs, attempts, _⟩ := same
      unfold Holds at held ⊢
      rwa [runs, attempts]
    · exact afterwards

theorem flush_indexed (indexed : Indexed w.ours) (decision : Decision) (landing : Landing) (settles : Bool) :
    Indexed (flush repo owns w decision landing settles).1.ours := by
  unfold flush
  split
  · exact indexed
  · exact indexed
  split
  · exact indexed
  · split
    · exact ⟨(indexed.runs.drop _).drop _, (indexed.attempts.drop _).drop _⟩
    · exact indexed

theorem setCutover_ok {s next : LocalLedger} {other : String} {id : Iri} (done : s.setCutover other id = .ok next) :
    next.published = s.published ∧ next.gateRuns = s.gateRuns ∧ next.attempts = s.attempts ∧
      ∀ cutover, s.cutover repo = some cutover → next.cutover repo = some cutover := by
  unfold LocalLedger.setCutover at done
  split at done
  · split at done
    · cases done
      exact ⟨rfl, rfl, rfl, fun _ recorded => recorded⟩
    · cases done
  rename_i unset
  cases done
  refine ⟨rfl, rfl, rfl, ?_⟩
  intro cutover recorded
  unfold LocalLedger.cutover at recorded ⊢
  rw [Map.getElem?_insert, if_neg]
  · exact recorded
  · intro same
    rw [← same, unset] at recorded
    cases recorded

theorem step_closed (held : Closed repo owns w ∧ Indexed w.ours) (e : Event) :
    Closed repo owns (step repo owns w e).1 ∧ Indexed (step repo owns w e).1.ours := by
  obtain ⟨closed, indexed⟩ := held
  cases e with
  | appendGateRun run =>
    exact ⟨closed.local rfl fun _ recorded => recorded, indexed.runs.append run, indexed.attempts⟩
  | appendAttempt attempt =>
    refine ⟨closed.local rfl fun _ recorded => recorded, indexed.runs, ?_⟩
    have named : attempt.id = attempt.entry.map Prod.fst := by
      unfold Attempt.entry
      cases attempt.id <;> rfl
    change (w.ours.attempts.append attempt attempt.id).Indexed Attempt.entry
    rw [named]
    exact indexed.attempts.append attempt
  | setCutover other id =>
    rcases done : w.ours.setCutover other id with e | ours
    · simp only [step, done]
      exact ⟨closed, indexed⟩
    obtain ⟨marks, runs, attempts, cut⟩ := @setCutover_ok repo _ _ _ _ done
    simp only [step, done]
    exact ⟨closed.local marks cut, runs ▸ indexed.runs, attempts ▸ indexed.attempts⟩
  | flush decision landing settles =>
    exact ⟨flush_closed closed indexed decision landing settles, flush_indexed indexed decision landing settles⟩

end Steps

theorem empty_closed (repo : String) (owns : Iri → Except StoreError Bool) :
    Closed repo owns .empty ∧ Indexed World.empty.ours := by
  refine ⟨⟨nofun, ?_, nofun, nofun, nodup_nil, nodup_nil, nodup_nil⟩, ?_, ?_⟩
  · intro id mark
    exact absurd (of_decide_eq_true mark) not_mem_nil
  all_goals
    intro id seq named
    change (∅ : ExtTreeMap Iri Nat compare)[id]? = some seq at named
    cases named

/-- After every run of appended runs and attempts, cut-overs and flushes, however each publish and each local
write after it ended. -/
theorem shared_ledger_closed (repo : String) (owns : Iri → Except StoreError Bool) (events : List Event) :
    Closed repo owns (Machine.run (step repo owns) .empty events) := by
  have kept := @Machine.run_invariant _ _ _ (step repo owns) (fun w => Closed repo owns w ∧ Indexed w.ours)
    (fun _ e held => step_closed held e) _ (empty_closed repo owns) events
  exact kept.1

end FerroLoop.Ledger
