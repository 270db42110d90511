import FerroLoop.Store.Group

namespace FerroLoop.Store

open List hiding getElem?_eq_some_iff
open Checked Option

section Plan

variable {engine : Engine} {serde : SerdeJson}

variable (state : DocState) (past : List Body)

theorem serial_snoc (body : Body) :
    serial engine serde state (past ++ [body]) = serial engine serde state past ++
      [(serialEnd engine serde state past,
        outcome engine serde (serialEnd engine serde state past) body)] := by
  induction past generalizing state with
  | nil => rfl
  | cons first rest ih =>
    simp only [cons_append, serial, serialEnd]
    rw [ih]

theorem serialEnd_snoc (body : Body) :
    serialEnd engine serde state (past ++ [body]) =
      settled engine (serialEnd engine serde state past)
        (outcome engine serde (serialEnd engine serde state past) body) := by
  induction past generalizing state with
  | nil => rfl
  | cons first rest ih => exact ih _

theorem serial_length (members : List Body) :
    (serial engine serde state members).length = members.length := by
  induction members generalizing state with
  | nil => rfl
  | cons first rest ih => simp only [serial, length_cons, ih]

theorem serial_append_front (rest : List Body) :
    serial engine serde state past <+: serial engine serde state (past ++ rest) := by
  induction past generalizing state with
  | nil => exact nil_prefix
  | cons first others ih => exact prefix_cons_inj _ |>.mpr (ih _)

end Plan

theorem writtenFrames_append (front back : List (DocState × Outcome)) :
    writtenFrames (front ++ back) = writtenFrames front ++ writtenFrames back := filterMap_append

variable {front whole plan : List (DocState × Outcome)} {pos seq : Nat} {state last : DocState} {frame : List UInt8}
  {ops : List Op} {leading : Leading} {disk : PublishOracle} {turn : DocState × Outcome}

theorem writtenFrames_front (isFront : front <+: whole) :
    writtenFrames front <+: writtenFrames whole := by
  obtain ⟨rest, rfl⟩ := isFront
  rw [writtenFrames_append]
  exact prefix_append _ _

theorem getElem?_front (isFront : front <+: whole)
    (inside : pos < front.length) : whole[pos]? = front[pos]? := by
  obtain ⟨rest, rfl⟩ := isFront
  exact getElem?_append_left inside

theorem framesBefore_front (isFront : front <+: whole)
    (inside : pos ≤ front.length) : framesBefore whole pos = framesBefore front pos := by
  obtain ⟨rest, rfl⟩ := isFront
  unfold framesBefore
  rw [take_append_of_le_length inside]

theorem framesBefore_cons (turn : DocState × Outcome) (plan : List (DocState × Outcome)) (pos : Nat) :
    framesBefore (turn :: plan) (pos + 1) = turn.2.frame?.toList.length + framesBefore plan pos := by
  unfold framesBefore writtenFrames
  rw [take_succ_cons, filterMap_cons]
  cases turn.2.frame? with
  | none => exact (Nat.zero_add _).symm
  | some frame => exact Nat.add_comm _ _

theorem framesBefore_length (plan : List (DocState × Outcome)) :
    framesBefore plan plan.length = (writtenFrames plan).length := by
  unfold framesBefore
  rw [take_length]

theorem framesBefore_lt
    (wrote : plan[pos]? = some (state, .wrote seq ops frame)) :
    framesBefore plan pos < (writtenFrames plan).length := by
  have inside : pos < plan.length := (List.getElem?_eq_some_iff.mp wrote).1
  have split : plan = plan.take pos ++ ((state, .wrote seq ops frame) :: plan.drop (pos + 1)) := by
    have here : plan[pos] = (state, .wrote seq ops frame) := (List.getElem?_eq_some_iff.mp wrote).2
    rw [← here, getElem_cons_drop, take_append_drop]
  have total := congrArg (fun turns => (writtenFrames turns).length) split
  simp only [writtenFrames_append, length_append] at total
  have one : (writtenFrames ((state, .wrote seq ops frame) :: plan.drop (pos + 1))).length =
      (writtenFrames (plan.drop (pos + 1))).length + 1 := rfl
  unfold framesBefore
  omega

theorem framesBefore_mono {later : Nat} (le : pos ≤ later) :
    framesBefore plan pos ≤ framesBefore plan later := by
  have taken : plan.take pos <+: plan.take later := take_prefix_take_left le
  exact (writtenFrames_front taken).length_le

/-! ### What is published and what is answered -/

theorem framesOf_snoc (published : List Publish) (last : Publish) :
    framesOf (published ++ [last]) = framesOf published ++ last.frames := by
  rw [framesOf, flatMap_append, flatMap_singleton]
  rfl

/-- The answer a position has once the first `kept` frames are published and the members in
`waiting` read what is not. -/
def answered (plan : List (DocState × Outcome)) (kept : Nat) (waiting : List Nat) (pos : Nat) : Option Answer :=
  match plan[pos]? with
  | none => none
  | some (_, .failed err) => some (.error err)
  | some (_, .read) => if pos ∈ waiting then none else some (.ok none)
  | some (_, .wrote seq _ _) => if framesBefore plan pos < kept then some (.ok (some seq)) else none

/-- The position wrote these ops at `seq`, after the first `kept` frames. -/
def Waits (plan : List (DocState × Outcome)) (kept pos seq : Nat) (ops : List Op) : Prop :=
  (∃ state frame, plan[pos]? = some (state, .wrote seq ops frame)) ∧ kept ≤ framesBefore plan pos

structure Leads (plan : List (DocState × Outcome)) (last : DocState) (leading : Leading) : Prop where
  current : leading.running.current = last
  ok : leading.running.Ok
  fresh : leading.running.takeChange = none ↔ leading.pending.frames = []
  frames : framesOf leading.published ++ leading.pending.frames = writtenFrames plan
  committed : ∀ pos seq ops, (pos, Committed.mk seq ops) ∈ leading.pending.committed ↔
    Waits plan (framesOf leading.published).length pos seq ops
  readers : ∀ pos ∈ leading.pending.readers, ∃ state, plan[pos]? = some (state, .read)
  results : ∀ pos, leading.results pos =
    answered plan (framesOf leading.published).length leading.pending.readers pos

theorem foldl_answer {β : Type} (place : β → Nat) (given : β → Answer) (items : List β)
    (results : Nat → Option Answer) (pos : Nat) :
    (items.foldl (fun results item => answer results (place item) (given item)) results pos = results pos ∧
      ∀ item ∈ items, place item ≠ pos) ∨
    ∃ item ∈ items, place item = pos ∧
      items.foldl (fun results item => answer results (place item) (given item)) results pos = some (given item) := by
  induction items generalizing results with
  | nil => exact .inl ⟨rfl, fun item member => nomatch member⟩
  | cons item rest ih =>
    rw [foldl_cons]
    rcases ih (answer results (place item) (given item)) with ⟨kept, absent⟩ | ⟨later, member, same, found⟩
    · by_cases here : place item = pos
      · refine .inr ⟨item, mem_cons_self, here, ?_⟩
        rw [kept, answer, if_pos here.symm]
      refine .inl ⟨?_, ?_⟩
      · rw [kept, answer, if_neg fun equal => here equal.symm]
      · intro other member
        rcases mem_cons.mp member with rfl | old
        · exact here
        · exact absent other old
    · exact .inr ⟨later, mem_cons_of_mem _ member, same, found⟩

/-- Once everything gathered is published and acknowledged, every member of the plan is
answered. -/
theorem acknowledge_results
    (leads : Leads plan last leading) (pos : Nat) :
    leading.acknowledge.results pos = answered plan (writtenFrames plan).length [] pos := by
  have before := leads.results pos
  have written := foldl_answer Prod.fst (fun entry : Nat × Committed => .ok (some entry.2.seq))
    leading.pending.committed leading.results pos
  have read := foldl_answer (fun pos => pos) (fun _ => .ok none) leading.pending.readers
    (leading.pending.committed.foldl (fun results entry => answer results entry.1 (.ok (some entry.2.seq)))
      leading.results) pos
  have total : (writtenFrames plan).length = (framesOf leading.published).length + leading.pending.frames.length := by
    rw [← leads.frames, length_append]
  show leading.pending.readers.foldl (fun results pos => answer results pos (.ok none))
    (leading.pending.committed.foldl (fun results entry => answer results entry.1 (.ok (some entry.2.seq)))
      leading.results) pos = _
  rcases read with ⟨unread, notReader⟩ | ⟨reader, member, same, found⟩
  · rw [unread]
    rcases written with ⟨unwritten, notWriter⟩ | ⟨⟨writer, seq, ops⟩, member, same, found⟩
    · rw [unwritten, before]
      unfold answered
      rcases at_ : plan[pos]? with _ | turn
      · rfl
      obtain ⟨state, result⟩ := turn
      cases result with
      | failed err => rfl
      | read =>
        have absent : pos ∉ leading.pending.readers := fun held => notReader pos held rfl
        simp only [absent, ↓reduceIte, not_mem_nil]
      | wrote seq ops frame =>
        -- A frame of the plan that no pending member waits for is already published.
        have kept : framesBefore plan pos < (framesOf leading.published).length := by
          apply Nat.lt_of_not_le
          intro waits
          have held := (leads.committed pos seq ops).mpr ⟨⟨state, frame, at_⟩, waits⟩
          exact notWriter (pos, ⟨seq, ops⟩) held rfl
        simp only [kept, ↓reduceIte]
        rw [if_pos (by omega)]
    · cases same
      obtain ⟨⟨state, frame, at_⟩, -⟩ := (leads.committed writer seq ops).mp member
      rw [found]
      unfold answered
      rw [at_]
      simp only [framesBefore_lt at_, ↓reduceIte]
  · subst same
    obtain ⟨state, at_⟩ := leads.readers reader member
    rw [found]
    unfold answered
    rw [at_]
    simp only [not_mem_nil, ↓reduceIte]

variable {next : Leading}

theorem publish_leads
    (leads : Leads plan last leading) (done : leading.publish disk = .ok next) :
    Leads plan last next ∧ next.pending = Pending.empty ∧ framesOf next.published = writtenFrames plan ∧
      next.running.base = last ∧ next.running.first = none ∧ next.turns = leading.turns := by
  have results := acknowledge_results leads
  have allWritten : ∀ {published : List Publish}, framesOf published = writtenFrames plan →
      ∀ pos seq ops, (pos, Committed.mk seq ops) ∈ ([] : List (Nat × Committed)) ↔
        Waits plan (framesOf published).length pos seq ops := by
    intro published all pos seq ops
    constructor
    · intro member
      cases member
    · rintro ⟨⟨state, frame, at_⟩, waits⟩
      have inside := framesBefore_lt at_
      rw [all] at waits
      omega
  unfold Leading.publish at done
  split at done
  · rename_i nothing
    cases done
    have empty : leading.pending.frames = [] := isEmpty_iff.mp nothing
    have all : framesOf leading.published = writtenFrames plan := by
      rw [← leads.frames, empty, append_nil]
    have fresh : leading.running.takeChange = none := leads.fresh.mpr empty
    obtain ⟨applied, unchanged⟩ := Running.takeChange_none fresh
    refine ⟨⟨leads.current, leads.ok, ⟨fun _ => rfl, fun _ => fresh⟩, ?_, allWritten all, ?_, ?_⟩, rfl, all,
      unchanged.symm.trans leads.current, applied, rfl⟩
    · exact (append_nil _).trans all
    · intro pos member
      cases member
    · intro pos
      rw [results pos]
      show _ = answered plan (framesOf leading.published).length [] pos
      rw [all]
  · split at done
    · cases done
    split at done
    · cases done
    rename_i change taken
    cases done
    have all : framesOf (leading.published ++ [⟨leading.pending.frames, change.install leading.running.base⟩]) =
        writtenFrames plan := by
      rw [framesOf_snoc, leads.frames]
    have installed := (Running.install_takeChange taken).trans leads.current
    refine ⟨⟨installed, .inl rfl, ⟨fun _ => rfl, fun _ => rfl⟩, ?_, allWritten all, ?_, ?_⟩, rfl, all,
      installed, rfl, rfl⟩
    · exact (append_nil _).trans all
    · intro pos member
      cases member
    · intro pos
      show leading.acknowledge.results pos = answered plan
        (framesOf (leading.published ++ [⟨leading.pending.frames, change.install leading.running.base⟩])).length [] pos
      rw [results pos, all]

theorem getElem?_snoc_lt
    (inside : pos < plan.length) : (plan ++ [turn])[pos]? = plan[pos]? := getElem?_append_left inside

theorem getElem?_snoc_length (plan : List (DocState × Outcome)) (turn : DocState × Outcome) :
    (plan ++ [turn])[plan.length]? = some turn := by
  rw [getElem?_append_right (Nat.le_refl _), Nat.sub_self]
  rfl

theorem getElem?_snoc_gt
    (outside : plan.length < pos) : (plan ++ [turn])[pos]? = none := by
  apply getElem?_eq_none
  rw [length_append, length_singleton]
  omega

theorem answered_snoc {kept : Nat} {waiting : List Nat}
    (other : pos ≠ plan.length) : answered (plan ++ [turn]) kept waiting pos = answered plan kept waiting pos := by
  unfold answered
  rcases Nat.lt_or_gt_of_ne other with inside | outside
  · rw [getElem?_snoc_lt inside, framesBefore_front (prefix_append plan [turn]) (Nat.le_of_lt inside)]
  · rw [getElem?_snoc_gt outside, getElem?_eq_none (Nat.le_of_lt outside)]

theorem waits_snoc {kept : Nat} (other : pos ≠ plan.length) : Waits (plan ++ [turn]) kept pos seq ops ↔ Waits plan kept pos seq ops := by
  unfold Waits
  rcases Nat.lt_or_gt_of_ne other with inside | outside
  · rw [getElem?_snoc_lt inside, framesBefore_front (prefix_append plan [turn]) (Nat.le_of_lt inside)]
  rw [getElem?_snoc_gt outside, getElem?_eq_none (Nat.le_of_lt outside)]
  constructor <;>
  · rintro ⟨⟨state, frame, none⟩, -⟩
    cases none

theorem waits_quiet {kept : Nat} (quiet : ∀ seq ops frame, turn.2 ≠ .wrote seq ops frame) :
    Waits (plan ++ [turn]) kept pos seq ops ↔ Waits plan kept pos seq ops := by
  by_cases here : pos = plan.length
  · subst here
    unfold Waits
    rw [getElem?_snoc_length, getElem?_eq_none (Nat.le_refl _)]
    constructor
    · rintro ⟨⟨state, frame, wrote⟩, -⟩
      exact absurd (congrArg Prod.snd (Option.some.inj wrote)) (quiet _ _ _)
    · rintro ⟨⟨state, frame, none⟩, -⟩
      cases none
  · exact waits_snoc here

variable {engine : Engine} {serde : SerdeJson}

section

variable (leads : Leads plan last leading)

include leads

theorem Leads.committed_lt
    (held : (pos, Committed.mk seq ops) ∈ leading.pending.committed) : pos < plan.length := by
  obtain ⟨⟨state, frame, at_⟩, -⟩ := (leads.committed pos seq ops).mp held
  exact (List.getElem?_eq_some_iff.mp at_).1

theorem Leads.reader_lt
    (held : pos ∈ leading.pending.readers) : pos < plan.length := by
  obtain ⟨state, at_⟩ := leads.readers pos held
  exact (List.getElem?_eq_some_iff.mp at_).1

theorem Leads.reader_snoc
    (turn : DocState × Outcome) (held : pos ∈ leading.pending.readers) :
    ∃ state, (plan ++ [turn])[pos]? = some (state, .read) := by
  obtain ⟨state, at_⟩ := leads.readers pos held
  exact ⟨state, by rw [getElem?_snoc_lt (leads.reader_lt held), at_]⟩

theorem leads_failed
    (state : DocState) (err : StoreError) :
    Leads (plan ++ [(state, .failed err)]) last
      { leading with results := answer leading.results plan.length (.error err) } := by
  refine ⟨leads.current, leads.ok, leads.fresh, ?_, ?_, fun pos held => leads.reader_snoc _ held, ?_⟩
  · rw [writtenFrames_append]
    exact leads.frames.trans (append_nil _).symm
  · intro pos seq ops
    exact (leads.committed pos seq ops).trans (waits_quiet fun _ _ _ wrote => by cases wrote).symm
  · intro pos
    show answer leading.results plan.length (.error err) pos = _
    unfold answer
    by_cases here : pos = plan.length
    · subst here
      rw [if_pos rfl, answered, getElem?_snoc_length]
    · rw [if_neg here, leads.results pos, answered_snoc here]

theorem leads_read
    (state : DocState) :
    Leads (plan ++ [(state, .read)]) last
      { leading with pending := { leading.pending with readers := leading.pending.readers ++ [plan.length] } } := by
  refine ⟨leads.current, leads.ok, leads.fresh, ?_, ?_, ?_, ?_⟩
  · rw [writtenFrames_append]
    exact leads.frames.trans (append_nil _).symm
  · intro pos seq ops
    show (pos, Committed.mk seq ops) ∈ leading.pending.committed ↔ _
    exact (leads.committed pos seq ops).trans (waits_quiet fun _ _ _ wrote => by cases wrote).symm
  · intro pos held
    rcases mem_append.mp held with old | new
    · exact leads.reader_snoc _ old
    · rw [mem_singleton.mp new]
      exact ⟨state, getElem?_snoc_length _ _⟩
  · intro pos
    show leading.results pos = answered _ (framesOf leading.published).length (leading.pending.readers ++ [plan.length]) pos
    rw [leads.results pos]
    by_cases here : pos = plan.length
    · subst here
      unfold answered
      simp
    · rw [answered_snoc here]
      unfold answered
      have same : pos ∈ leading.pending.readers ++ [plan.length] ↔ pos ∈ leading.pending.readers := by
        rw [mem_append, mem_singleton]
        exact ⟨fun held => held.resolve_right here, .inl⟩
      simp only [same]

theorem leads_gather
    {staged : Staged} (applied : leading.running.first = none) :
    Leads (plan ++ [(state, .wrote seq staged.ops frame)]) (publishOverlay last staged.overlay seq)
      (leading.gather plan.length seq staged frame) := by
  have filled : leading.pending.frames ++ [frame] ≠ [] := by simp
  have written : writtenFrames (plan ++ [(state, .wrote seq staged.ops frame)]) = writtenFrames plan ++ [frame] := by
    rw [writtenFrames_append]
    rfl
  have published : (framesOf leading.published).length ≤ (writtenFrames plan).length := by
    rw [← leads.frames, length_append]
    omega
  have ownPlace : framesBefore (plan ++ [(state, .wrote seq staged.ops frame)]) plan.length =
      (writtenFrames plan).length := by
    rw [framesBefore_front (prefix_append _ _) (Nat.le_refl _), framesBefore_length]
  refine ⟨?_, Running.add_ok applied _ _, ⟨fun none => absurd none (Running.add_takeChange applied _ _),
    fun empty => absurd empty filled⟩, ?_, ?_, fun pos held => leads.reader_snoc _ held, ?_⟩
  · show (leading.running.add staged.overlay seq).current = _
    rw [Running.add_current applied, leads.current]
  · show framesOf leading.published ++ (leading.pending.frames ++ [frame]) = _
    rw [written, ← append_assoc, leads.frames]
  · intro pos seq' ops
    show (pos, Committed.mk seq' ops) ∈ leading.pending.committed ++ [(plan.length, ⟨seq, staged.ops⟩)] ↔
      Waits _ (framesOf leading.published).length _ _ _
    rw [mem_append, mem_singleton]
    by_cases here : pos = plan.length
    · subst here
      rw [Waits, getElem?_snoc_length, ownPlace]
      constructor
      · rintro (old | new)
        · exact absurd (leads.committed_lt old) (Nat.lt_irrefl _)
        · cases new
          exact ⟨⟨state, frame, rfl⟩, published⟩
      · rintro ⟨⟨_, _, same⟩, -⟩
        cases same
        exact .inr rfl
    · rw [waits_snoc here, ← leads.committed pos seq' ops]
      exact ⟨fun held => held.resolve_right fun same => here (congrArg Prod.fst same), .inl⟩
  · intro pos
    show leading.results pos = answered _ (framesOf leading.published).length leading.pending.readers pos
    rw [leads.results pos]
    by_cases here : pos = plan.length
    · subst here
      unfold answered
      rw [getElem?_snoc_length, getElem?_eq_none (Nat.le_refl _)]
      simp only [ownPlace]
      rw [if_neg (by omega)]
    · rw [answered_snoc here]

theorem leads_turn
    (turns : List DocState) :
    Leads plan last { leading with running := leading.running.turnState.1, turns := turns } where
  current := leading.running.turnState_current.trans leads.current
  ok := .inl leading.running.turnState_fst
  fresh := leading.running.turnState_takeChange.trans leads.fresh
  frames := leads.frames
  committed := leads.committed
  readers := leads.readers
  results := leads.results

variable {err : StoreError}

theorem publish_failed
    (failed : leading.publish disk = .error err) :
    leading.pending.frames ≠ [] ∧ disk leading.published leading.pending.frames = some err := by
  unfold Leading.publish at failed
  split at failed
  · cases failed
  rename_i filled
  have frames : leading.pending.frames ≠ [] := fun empty => filled (isEmpty_iff.mpr empty)
  refine ⟨frames, ?_⟩
  split at failed
  · rename_i given refused
    cases failed
    exact refused
  split at failed
  · rename_i nothing
    exact absurd (leads.fresh.mp nothing) frames
  · cases failed

theorem stopped_serial {final : DocState}
    {given : StoreError} {ran : Nat} (isFront : plan <+: whole)
    (turns : leading.turns = (whole.take ran).map Prod.fst) (filled : leading.pending.frames ≠ [])
    (failed : disk leading.published leading.pending.frames = some err) :
    SerialGroup disk whole final (leading.stopped given) := by
  have frames := writtenFrames_front isFront
  rw [← leads.frames] at frames
  have kept : (framesOf leading.published).length ≤ framesBefore whole plan.length := by
    rw [framesBefore_front isFront (Nat.le_refl _), framesBefore_length, ← leads.frames, length_append]
    omega
  refine ⟨⟨ran, turns, fun ended => nomatch ended⟩, (prefix_append _ _).trans frames, ?_, ?_,
    fun state ended => (nomatch ended), fun _ => ⟨_, _, filled, failed, frames⟩⟩
  · intro pos seq
    show failRest leading.results given pos = _ ↔ _ ∧ _ < (framesOf leading.published).length
    unfold failRest
    rw [leads.results pos]
    constructor
    · intro acked
      unfold answered at acked
      rcases at_ : plan[pos]? with _ | turn
      · simp [at_] at acked
      obtain ⟨state, result⟩ := turn
      have inside : pos < plan.length := (List.getElem?_eq_some_iff.mp at_).1
      rw [at_] at acked
      cases result with
      | failed err => simp at acked
      | read =>
        by_cases waits : pos ∈ leading.pending.readers
        · simp [waits] at acked
        · simp [waits] at acked
      | wrote found ops frame =>
        by_cases early : framesBefore plan pos < (framesOf leading.published).length
        · simp only [early, ↓reduceIte, getD_some, Option.some.injEq, Except.ok.injEq] at acked
          subst acked
          refine ⟨⟨state, ops, frame, ?_⟩, ?_⟩
          · rw [← at_]
            exact getElem?_front isFront inside
          · rw [framesBefore_front isFront (Nat.le_of_lt inside)]
            exact early
        · simp only [early, ↓reduceIte, getD_none, Option.some.injEq] at acked
          cases acked
    · rintro ⟨⟨state, ops, frame, at_⟩, early⟩
      -- A frame that is published is one of the members the leader got through.
      have inside : pos < plan.length := by
        apply Nat.lt_of_not_le
        intro past
        have later : framesBefore whole plan.length ≤ framesBefore whole pos := framesBefore_mono past
        omega
      have here : plan[pos]? = some (state, .wrote seq ops frame) := by
        rw [← at_]
        exact (getElem?_front isFront inside).symm
      rw [framesBefore_front isFront (Nat.le_of_lt inside)] at early
      unfold answered
      rw [here]
      simp only [early, ↓reduceIte, getD_some]
  · intro pos _ absent
    cases absent

theorem finished_serial
    (turns : leading.turns = plan.map Prod.fst) :
    SerialGroup disk plan last (leading.finish disk) := by
  have allTurns : leading.turns = (plan.take plan.length).map Prod.fst := by rw [take_length, turns]
  unfold Leading.finish
  split
  · rename_i err failed
    obtain ⟨filled, refused⟩ := publish_failed leads failed
    exact stopped_serial leads (prefix_refl _) allTurns filled refused
  rename_i next done
  obtain ⟨after, empty, all, base, -, sameTurns⟩ := publish_leads leads done
  have results : ∀ pos, next.results pos = answered plan (writtenFrames plan).length [] pos := by
    intro pos
    rw [after.results pos, empty, all]
    rfl
  refine ⟨⟨plan.length, sameTurns.trans allTurns, fun _ => rfl⟩, ?_, ?_, ?_, ?_, fun none => (nomatch none)⟩
  · show framesOf next.published <+: _
    exact all ▸ prefix_refl _
  · intro pos seq
    show next.results pos = _ ↔ _ ∧ _ < (framesOf next.published).length
    rw [results pos, all]
    unfold answered
    constructor
    · intro acked
      rcases at_ : plan[pos]? with _ | turn
      · simp [at_] at acked
      obtain ⟨state, result⟩ := turn
      rw [at_] at acked
      cases result with
      | failed err | read => simp at acked
      | wrote found ops frame =>
        simp only [framesBefore_lt at_, ↓reduceIte, Option.some.injEq, Except.ok.injEq] at acked
        subst acked
        exact ⟨⟨state, ops, frame, rfl⟩, framesBefore_lt at_⟩
    · rintro ⟨⟨state, ops, frame, at_⟩, early⟩
      rw [at_]
      simp only [early, ↓reduceIte]
  · intro pos inside
    show next.results pos ≠ _
    rw [results pos]
    unfold answered
    rw [getElem?_eq_getElem inside]
    cases at_ : plan[pos] with
    | mk state result =>
      cases result with
      | failed err => simp
      | read => simp
      | wrote seq ops frame =>
        have early := framesBefore_lt (List.getElem?_eq_some_iff.mpr ⟨inside, at_⟩)
        simp [early]
  · intro state ended
    cases ended
    exact ⟨base, all⟩

/-- One member's turn, over the state the members before it left: the leader goes on after the
plan with one more member, or a publish of what was pending before it failed. -/
theorem member_leads
    {body : Body} {failure : Option StoreError}
    (ran : leading.member engine serde disk plan.length body = (next, failure)) :
    next.turns = leading.turns ++ [last] ∧
    (failure = none →
      Leads (plan ++ [(last, outcome engine serde last body)]) (settled engine last (outcome engine serde last body)) next) ∧
    (∀ err, failure = some err →
      Leads plan last next ∧ next.pending.frames ≠ [] ∧ disk next.published next.pending.frames = some err) := by
  have seen : leading.running.turnState.2 = last := leading.running.turnState_snd.trans leads.current
  have turned := leads_turn leads (leading.turns ++ [last])
  have applied := leading.running.turnState_fst
  have same : leading.running.turnState.1.current = last := leading.running.turnState_current.trans leads.current
  unfold Leading.member at ran
  simp only [seen] at ran
  split at ran
  · rename_i err failed
    cases ran
    have alone : outcome engine serde last body = .failed err := by
      unfold outcome
      rw [failed]
    rw [alone]
    exact ⟨rfl, fun _ => leads_failed turned last err, fun err none => nomatch none⟩
  · rename_i read
    cases ran
    have alone : outcome engine serde last body = .read := by
      unfold outcome
      rw [read]
    rw [alone]
    exact ⟨rfl, fun _ => leads_read turned last, fun err none => nomatch none⟩
  · rename_i staged stagedOk
    rw [framed_current, same] at ran
    split at ran
    · rename_i err refused
      cases ran
      have alone : outcome engine serde last body = .failed err := by
        unfold outcome
        rw [stagedOk]
        simp only [refused]
      rw [alone]
      exact ⟨rfl, fun _ => leads_failed turned last err, fun err none => nomatch none⟩
    · rename_i seq frame framedOk
      obtain ⟨alone, settledEq⟩ := settled_staged stagedOk framedOk
      rw [settledEq, alone]
      split at ran
      · split at ran
        · rename_i err failed
          cases ran
          refine ⟨rfl, fun none => (nomatch none), ?_⟩
          rintro _ ⟨⟩
          exact ⟨turned, publish_failed turned failed⟩
        · rename_i published done
          cases ran
          obtain ⟨after, -, -, -, fresh, turns⟩ := publish_leads turned done
          exact ⟨turns, fun _ => leads_gather after fresh, fun err none => nomatch none⟩
      · cases ran
        exact ⟨rfl, fun _ => leads_gather turned applied, fun err none => nomatch none⟩

end

variable {base : DocState}

theorem members_serial {past rest : List Body}
    (leads : Leads (serial engine serde base past) (serialEnd engine serde base past) leading)
    (turns : leading.turns = (serial engine serde base past).map Prod.fst) :
    SerialGroup disk (serial engine serde base (past ++ rest)) (serialEnd engine serde base (past ++ rest))
      (leading.members engine serde disk past.length rest) := by
  induction rest generalizing past leading with
  | nil =>
    rw [append_nil]
    exact finished_serial leads turns
  | cons body rest ih =>
    have next : serial engine serde base (past ++ [body]) = _ := serial_snoc base past body
    have length : (serial engine serde base past).length = past.length := serial_length base past
    have onward : past ++ body :: rest = (past ++ [body]) ++ rest := by rw [append_assoc]; rfl
    unfold Leading.members
    rw [← length]
    split
    · rename_i after ran
      obtain ⟨sameTurns, going, -⟩ := member_leads leads ran
      have further : past.length + 1 = (past ++ [body]).length := by rw [length_append, length_singleton]
      rw [length, further, onward]
      apply ih
      · rw [next, serialEnd_snoc]
        exact going rfl
      · rw [next, sameTurns, turns, map_append]
        rfl
    · rename_i after err ran
      obtain ⟨sameTurns, -, stops⟩ := member_leads leads ran
      obtain ⟨still, filled, failed⟩ := stops err rfl
      have soFar : serial engine serde base (past ++ [body]) <+: serial engine serde base (past ++ body :: rest) := by
        rw [onward]
        exact serial_append_front base (past ++ [body]) rest
      have ranTurns : after.turns =
          ((serial engine serde base (past ++ body :: rest)).take
            (serial engine serde base (past ++ [body])).length).map Prod.fst := by
        rw [← prefix_iff_eq_take.mp soFar, next, sameTurns, turns, map_append]
        rfl
      exact stopped_serial still (serial_append_front base past (body :: rest)) ranTurns filled failed

/-- The sequences of the members that wrote are consecutive, and each frame holds its member's
operations under its sequence. -/
theorem serial_sequences {members : List Body}
    (wrote : (serial engine serde base members)[pos]? = some (state, .wrote seq ops frame)) :
    seq = base.lastSeq + framesBefore (serial engine serde base members) pos + 1 ∧ encodeFrame serde seq ops = .ok frame := by
  induction members generalizing base pos with
  | nil => cases wrote
  | cons body rest ih =>
    have first : ∀ {seq ops frame}, outcome engine serde base body = .wrote seq ops frame →
        seq = base.lastSeq + 1 ∧ encodeFrame serde seq ops = .ok frame ∧
          (settled engine base (outcome engine serde base body)).lastSeq = base.lastSeq + 1 := by
      intro seq ops frame alone
      unfold outcome at alone
      split at alone
      · cases alone
      · cases alone
      rename_i staged ran
      split at alone
      · cases alone
      rename_i found bytes done
      cases alone
      obtain ⟨next, encoded⟩ := framed_ok done
      have plusOne : seq = base.lastSeq + 1 := (nextSeq_ok next).1
      refine ⟨plusOne, encoded, ?_⟩
      rw [(settled_staged ran done).2, ← plusOne]
      rfl
    cases pos with
    | zero =>
      simp only [serial, getElem?_cons_zero, Option.some.injEq, Prod.mk.injEq] at wrote
      obtain ⟨plusOne, encoded, -⟩ := first wrote.2
      exact ⟨plusOne, encoded⟩
    | succ pos =>
      obtain ⟨later, encoded⟩ := ih wrote
      refine ⟨?_, encoded⟩
      rw [later, serial, framesBefore_cons]
      cases alone : outcome engine serde base body with
      | failed err | read => simp only [settled, Outcome.frame?, toList_none, length_nil, Nat.zero_add]
      | wrote seq ops frame =>
        obtain ⟨-, -, advanced⟩ := first alone
        rw [alone] at advanced
        simp only [Outcome.frame?, toList_some, length_singleton]
        omega

/-- A group does what its members do one at a time, each over the state the successful ones
before it left, with consecutive sequences; when the leader gets no state, it does nothing. -/
theorem leadGroup_serial (engine : Engine) (serde : SerdeJson) (disk : PublishOracle) (locked : Except StoreError DocState)
    (members : List Body) :
    match locked with
    | .error err => (leadGroup engine serde disk locked members).published = [] ∧
        (leadGroup engine serde disk locked members).turns = [] ∧
        ∀ pos, (leadGroup engine serde disk locked members).results pos = some (.error err)
    | .ok base =>
      SerialGroup disk (serial engine serde base members) (serialEnd engine serde base members)
        (leadGroup engine serde disk locked members) ∧
      ∀ pos state seq ops frame, (serial engine serde base members)[pos]? = some (state, .wrote seq ops frame) →
        seq = base.lastSeq + framesBefore (serial engine serde base members) pos + 1 ∧
          encodeFrame serde seq ops = .ok frame := by
  rcases locked with err | base
  · exact ⟨rfl, rfl, fun pos => rfl⟩
  refine ⟨?_, fun pos state seq ops frame wrote => serial_sequences wrote⟩
  have start : Leads (serial engine serde base []) (serialEnd engine serde base [])
      ⟨⟨base, none, none⟩, Pending.empty, fun _ => none, [], []⟩ := by
    refine ⟨rfl, .inl rfl, ⟨fun _ => rfl, fun _ => rfl⟩, rfl, ?_, ?_, fun pos => rfl⟩
    · intro pos seq ops
      constructor
      · intro held
        cases held
      · rintro ⟨⟨state, frame, at_⟩, -⟩
        cases at_
    · intro pos held
      cases held
  exact members_serial start rfl

end FerroLoop.Store
