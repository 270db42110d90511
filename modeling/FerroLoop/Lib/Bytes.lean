import Mathlib.Algebra.Ring.Nat

/-!
Byte strings: little-endian numbers, and readers that consume a byte string from the front.
`Reads p bytes a` says that the reader `p` gives `a` and consumes exactly `bytes`, whatever
follows them.
-/

namespace FerroLoop.Bytes

/-- The low `width` bytes of a number, the lowest first. -/
def toLe : Nat → Nat → List UInt8
  | 0, _ => []
  | width + 1, n => UInt8.ofNat (n % 256) :: toLe width (n / 256)

def fromLe : List UInt8 → Nat
  | [] => 0
  | b :: rest => b.toNat + 256 * fromLe rest

@[simp] theorem toLe_length (width n : Nat) : (toLe width n).length = width := by
  induction width generalizing n with
  | zero => rfl
  | succ width ih => simp [toLe, ih]

theorem fromLe_toLe {width n : Nat} (fits : n < 256 ^ width) : fromLe (toLe width n) = n := by
  induction width generalizing n with
  | zero => simp only [Nat.pow_zero] at fits; simp only [toLe, fromLe]; omega
  | succ width ih =>
    have smaller : n / 256 < 256 ^ width := by
      exact Nat.div_lt_of_lt_mul (by omega)
    have low : (UInt8.ofNat (n % 256)).toNat = n % 256 := by
      simp only [UInt8.toNat_ofNat']
      omega
    simp only [toLe, fromLe, low, ih smaller]
    omega

theorem fromLe_lt (bytes : List UInt8) : fromLe bytes < 256 ^ bytes.length := by
  induction bytes with
  | nil => exact Nat.one_pos
  | cons b rest ih =>
    have small : b.toNat < 256 := b.toNat_lt
    simp only [fromLe, List.length_cons, Nat.pow_succ]
    omega

/-- A computation over the bytes not read yet. -/
abbrev Reader (ε α : Type) := StateT (List UInt8) (Except ε) α

variable {ε α β : Type}

/-- Consumes exactly these bytes and gives this value, whatever follows them. -/
def Reads (p : Reader ε α) (bytes : List UInt8) (a : α) : Prop :=
  ∀ rest, p.run (bytes ++ rest) = .ok (a, rest)

theorem Reads.pure (a : α) : Reads (Pure.pure a : Reader ε α) [] a := fun _ => rfl

variable {a : α} {p : Reader ε α} {bytes : List UInt8}

theorem Reads.bind {f : α → Reader ε β} {first second : List UInt8} {b : β}
    (head : Reads p first a) (tail : Reads (f a) second b) : Reads (p >>= f) (first ++ second) b := by
  intro rest
  have headRun := head (second ++ rest)
  rw [← List.append_assoc] at headRun
  simp only [StateT.run_bind, headRun]
  exact tail rest

theorem Reads.map {f : α → β} (head : Reads p bytes a) :
    Reads (p >>= fun a => Pure.pure (f a)) bytes (f a) := by
  have both : Reads (p >>= fun a => Pure.pure (f a)) (bytes ++ []) (f a) := head.bind (Reads.pure (f a))
  rwa [List.append_nil] at both

/-- The bytes not read yet number at least `n`, or the reader fails. -/
def ensure (n : Nat) (failure : ε) : Reader ε Unit := fun rest =>
  if rest.length < n then .error failure else .ok ((), rest)

/-- A guard on the number of bytes left, before bytes that are long enough. -/
theorem Reads.ensure_then {n : Nat} {failure : ε}
    (long : n ≤ bytes.length) (tail : Reads p bytes a) :
    Reads (ensure n failure >>= fun _ => p) bytes a := by
  intro rest
  have enough : ¬ (bytes ++ rest).length < n := by simp only [List.length_append]; omega
  have guard : (ensure n failure).run (bytes ++ rest) = .ok ((), bytes ++ rest) := if_neg enough
  simp only [StateT.run_bind, guard]
  exact tail rest

/-- `count` values one after the other. -/
def times (count : Nat) (p : Reader ε α) : Reader ε (List α) :=
  match count with
  | 0 => Pure.pure []
  | count + 1 => do
    let a ← p
    let others ← times count p
    Pure.pure (a :: others)

/-- The whole of a byte string, read by a reader that leaves nothing. -/
theorem Reads.run_all (h : Reads p bytes a) :
    p.run bytes = .ok (a, []) := by
  have all := h []
  rwa [List.append_nil] at all

/-- Bytes behind those it was given change neither what the reader gives nor what it leaves of them. -/
def Stable (p : Reader ε α) : Prop :=
  ∀ bytes a left, p.run bytes = .ok (a, left) → ∀ more, p.run (bytes ++ more) = .ok (a, left ++ more)

namespace Stable

theorem pure (a : α) : Stable (Pure.pure a : Reader ε α) := by
  intro bytes b left ran more
  cases ran
  rfl

theorem bind {p : Reader ε α} {f : α → Reader ε β} (head : Stable p) (tail : ∀ a, Stable (f a)) : Stable (p >>= f) := by
  intro bytes b left ran more
  rw [StateT.run_bind] at ran ⊢
  rcases first : p.run bytes with err | found
  · rw [first] at ran
    cases ran
  obtain ⟨a, middle⟩ := found
  rw [first] at ran
  rw [head bytes a middle first more]
  exact tail a middle b left ran more

theorem ensure (n : Nat) (failure : ε) : Stable (Bytes.ensure n failure) := by
  intro bytes a left ran more
  have guard : (Bytes.ensure n failure).run bytes = if bytes.length < n then .error failure else .ok ((), bytes) := rfl
  rw [guard] at ran
  split at ran
  · cases ran
  · cases ran
    exact if_neg (by rw [List.length_append]; omega)

theorem times {p : Reader ε α} (one : Stable p) (count : Nat) : Stable (Bytes.times count p) := by
  induction count with
  | zero => exact pure []
  | succ count ih => exact one.bind fun a => ih.bind fun others => pure (a :: others)

end Stable

end FerroLoop.Bytes
