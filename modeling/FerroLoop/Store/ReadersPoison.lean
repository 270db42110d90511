import FerroLoop.Store.ReadersTorn

namespace FerroLoop.Store.Readers

open Bytes Checked Disk List World

variable {engine : Engine} {serde : SerdeJson} {fileId : FileId} {parity : Nat} {world : World} {handle slot : Nat}
  {base : DiskCache}

variable {ops : List IoOp} {started : Bool} {target : Option Target}

def Frozen (world : World) (handle : Nat) (entry : DiskCache) : Prop :=
  world.poisoned handle = true ∧ world.caches handle = some entry

/-- A step that spares a poisoned handle: it serves the same state, takes no lock, and only a writer
of another handle changes the file. -/
structure Spared (world next : World) (handle : Nat) (entry : DiskCache) : Prop where
  frozen : Frozen next handle entry
  writer : ∀ writer, next.writer = some writer → writer.handle = handle → world.writer = some writer
  failing : ∀ base, world.writer = some ⟨handle, .failed base⟩ → next.writer = some ⟨handle, .failed base⟩
  file : next.file ≠ world.file → ∃ writer, world.writer = some writer ∧ writer.handle ≠ handle

variable {id : Nat}

section Spared

variable {next : World} {entry : DiskCache}

theorem Spared.of_read (frozen : Frozen world handle entry) (writer : next.writer = world.writer)
    (file : next.file = world.file) (poisoned : next.poisoned = world.poisoned)
    (caches : next.caches handle = world.caches handle) : Spared world next handle entry := by
  refine ⟨⟨?_, ?_⟩, ?_, ?_, fun changed => absurd file changed⟩
  · rw [poisoned]
    exact frozen.1
  · rw [caches]
    exact frozen.2
  · intro held there _
    rw [← writer]
    exact there
  · intro base there
    rw [writer]
    exact there

variable {owner : Nat}

section

variable (frozen : Frozen world handle entry)

include frozen

end

end Spared

variable {held : DiskCache}

structure Serves (returned world : World) (handle : Nat) (entry : DiskCache) : Prop where
  frozen : Frozen world handle entry
  unlocked : ∀ writer, world.writer = some writer → writer.handle ≠ handle
  reads : ∀ id reader, returned.readers id = none → world.readers id = some reader → reader.handle = handle →
    reader.phase = .cloned (some entry) ∨ reader.phase = .done (.ok entry)

variable {returned : World} {entry : DiskCache}

section

variable (serving : Serves returned world handle entry)

include serving

end

/-! ### A poisoned handle serves what was acknowledged -/

section Returned

variable {before during : List Event}

theorem Serves.check (serving : Serves returned world handle entry) {reader : Reader}
    (fresh : returned.readers id = none) (there : world.readers id = some reader) (mine : reader.handle = handle) :
    (∀ result, reader.phase = .done result → result = .ok entry) ∧
      ∃ ended, (run engine serde fileId world [.check id]).readers id = some ended ∧ ended.phase = .done (.ok entry) := by
  rcases serving.reads id reader fresh there mine with cloned | done
  · refine ⟨?_, { reader with phase := .done (.ok entry) }, ?_, rfl⟩
    · intro result ended
      rw [cloned] at ended
      cases ended
    · have poisoned : world.poisoned reader.handle = true := by
        rw [mine]
        exact serving.frozen.1
      simp only [run, foldl_cons, foldl_nil, step, World.check, World.read, there, cloned, World.setReader, ↓reduceIte,
        poisoned, checkPhase]
  · refine ⟨?_, reader, ?_, done⟩
    · intro result ended
      rw [done] at ended
      cases ended
      rfl
    · simp only [run, foldl_cons, foldl_nil, step, World.check, World.read, there, done]

end Returned

/-! ### Two handles that fail one after the other -/

open Sample

variable {file : Image} {length : Nat}

end FerroLoop.Store.Readers
