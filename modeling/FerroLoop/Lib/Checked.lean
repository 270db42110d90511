/-!
Partial-correctness rules for `Except` computations: `Ends allowed x post` says that `x`
either returns a value with the postcondition or fails with an allowed error.
-/

namespace FerroLoop.Checked

open List

variable {ε α β : Type} {allowed : ε → Prop}

variable {f : α → Except ε β} {x : Except ε α} {a : α} {xs : List α} {post : α → Prop}

theorem bind_ok {r : β} (h : x >>= f = .ok r) :
    ∃ a, x = .ok a ∧ f a = .ok r := by
  cases x with
  | error e => cases h
  | ok a => exact ⟨a, rfl, h⟩

theorem map_ok {g : α → β} {r : β} (h : x.map g = .ok r) : ∃ a, x = .ok a ∧ g a = r := by
  cases x with
  | error e => cases h
  | ok a =>
    cases h
    exact ⟨a, rfl, rfl⟩

theorem mapError_ok {δ : Type} {lift : ε → δ} (h : x.mapError lift = .ok a) : x = .ok a := by
  cases x with
  | error e => cases h
  | ok b =>
    cases h
    rfl

/-- Settles a run that returns by evaluating it. -/
theorem ok_of_toOption (returned : x.toOption = some a) : x = .ok a := by
  cases x with
  | error e => cases returned
  | ok b =>
    cases returned
    rfl

/-- A guard: fails where the condition holds. -/
def refuseIf (c : Prop) [Decidable c] (e : ε) : Except ε Unit :=
  if c then .error e else .ok ()

theorem refuseIf_ok {c : Prop} [Decidable c] {e : ε} {u : Unit} (h : refuseIf c e = .ok u) : ¬ c := by
  unfold refuseIf at h
  split at h
  · cases h
  · assumption

/-- A run past a refusal: the refusal's condition failed. -/
theorem ite_error_ok {c : Prop} [Decidable c] {e : ε} : (if c then .error e else x) = .ok a ↔ ¬ c ∧ x = .ok a := by
  by_cases holds : c
  · simp [holds]
  · simp [holds]

/-- A loop that returns ran its body to the end on every element. -/
theorem forM_ok {f : α → Except ε Unit} (h : xs.forM f = .ok ()) : ∀ x ∈ xs, f x = .ok () := by
  induction xs with
  | nil =>
    intro x member
    cases member
  | cons first rest ih =>
    obtain ⟨_, passed, others⟩ := bind_ok (x := f first) (f := fun _ => rest.forM f) h
    intro x member
    rcases mem_cons.mp member with same | later
    · rw [same]
      exact passed
    · exact ih others x later

/-- What a mapping loop returns, it computed from some element. -/
theorem mapM_ok {ys : List β} (h : xs.mapM f = .ok ys) :
    ∀ y ∈ ys, ∃ x ∈ xs, f x = .ok y := by
  induction xs generalizing ys with
  | nil =>
    cases h
    intro y member
    cases member
  | cons first rest ih =>
    rw [mapM_cons] at h
    obtain ⟨head, here, h⟩ := bind_ok h
    obtain ⟨tail, later, h⟩ := bind_ok h
    cases h
    intro y member
    rcases mem_cons.mp member with same | others
    · exact ⟨first, mem_cons_self, same ▸ here⟩
    · obtain ⟨x, memX, found⟩ := ih later y others
      exact ⟨x, mem_cons_of_mem _ memX, found⟩

theorem filterMapM_ok {f : α → Except ε (Option β)} {ys : List β} (h : xs.filterMapM f = .ok ys) :
    ∀ y ∈ ys, ∃ x ∈ xs, f x = .ok (some y) := by
  induction xs generalizing ys with
  | nil =>
    cases h
    intro y member
    cases member
  | cons first rest ih =>
    rw [filterMapM_cons] at h
    obtain ⟨head, here, h⟩ := bind_ok h
    intro y member
    have later : ∀ {zs : List β}, rest.filterMapM f = .ok zs → y ∈ zs → ∃ x ∈ first :: rest, f x = .ok (some y) := by
      intro zs done memY
      obtain ⟨x, memX, found⟩ := ih done y memY
      exact ⟨x, mem_cons_of_mem _ memX, found⟩
    rcases head with _ | kept
    · exact later h member
    obtain ⟨tail, done, h⟩ := bind_ok h
    cases h
    rcases mem_cons.mp member with same | others
    · exact ⟨first, mem_cons_self, same ▸ here⟩
    · exact later done others

@[simp] theorem ok_bind (a : α) (f : α → Except ε β) : (.ok a >>= f) = f a := rfl

def Ends (allowed : ε → Prop) (x : Except ε α) (post : α → Prop) : Prop :=
  match x with
  | .ok a => post a
  | .error e => allowed e

@[simp] theorem ends_ok : Ends allowed (.ok a) post ↔ post a := Iff.rfl

@[simp] theorem ends_pure :
    Ends allowed (pure a : Except ε α) post ↔ post a := Iff.rfl

theorem Ends.bind {mid : α → Prop} {post : β → Prop}
    (first : Ends allowed x mid) (next : ∀ a, mid a → Ends allowed (f a) post) :
    Ends allowed (x >>= f) post := by
  cases x with
  | error e => exact first
  | ok a => exact next a first

theorem Ends.mono {weaker : α → Prop} (h : Ends allowed x post)
    (weaken : ∀ a, post a → weaker a) : Ends allowed x weaker := by
  cases x with
  | error e => exact h
  | ok a => exact weaken a h

/-- The rule of consequence, for errors and for results. -/
theorem Ends.both {looser : ε → Prop} {weaker : α → Prop} (h : Ends allowed x post)
    (loosen : ∀ e, allowed e → looser e) (weaken : ∀ a, post a → weaker a) : Ends looser x weaker := by
  cases x with
  | error e => exact loosen e h
  | ok a => exact weaken a h

theorem Ends.ite {c : Prop} [Decidable c] {y : Except ε α}
    (yes : c → Ends allowed x post) (no : ¬ c → Ends allowed y post) :
    Ends allowed (if c then x else y) post := by
  split
  · exact yes ‹c›
  · exact no ‹¬ c›

end FerroLoop.Checked
