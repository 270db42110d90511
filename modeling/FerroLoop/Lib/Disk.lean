/-!
A file on a disk that loses power. A file is a durable image and the writes made since the last
sync; after a power cut each of those writes is kept, dropped, or torn at a sector boundary.
-/

namespace FerroLoop.Disk

open List

abbrev Image := List UInt8

/-- `length` bytes from `offset` on. -/
def slice (image : Image) (offset length : Nat) : List UInt8 := (image.drop offset).take length

/-- A write: the image grows by zeros up to its end when it is shorter. -/
def overwrite (image : Image) (offset : Nat) (data : List UInt8) : Image :=
  let grown := image ++ List.replicate (offset + data.length - image.length) 0
  grown.take offset ++ data ++ grown.drop (offset + data.length)

theorem getElem?_slice (image : Image) (offset length i : Nat) :
    (slice image offset length)[i]? = if i < length then image[offset + i]? else none := by
  unfold slice
  rw [getElem?_take, getElem?_drop]

variable {image final : Image} {offset low high sector : Nat} {length : Nat}

theorem slice_length (inside : offset + length ≤ image.length) :
    (slice image offset length).length = length := by
  unfold slice
  rw [length_take, length_drop]
  omega

theorem slice_append (image : Image) (offset first second : Nat) :
    slice image offset (first + second) = slice image offset first ++ slice image (offset + first) second := by
  unfold slice
  rw [take_add, drop_drop]

/-- The two images hold the same bytes from `low` up to `high`, and both reach that far. -/
structure Kept (low high : Nat) (image next : Image) : Prop where
  inside : high ≤ image.length
  reaches : high ≤ next.length
  same : ∀ i, low ≤ i → i < high → next[i]? = image[i]?

theorem Kept.refl (inside : high ≤ image.length) : Kept low high image image :=
  ⟨inside, inside, fun _ _ _ => rfl⟩

theorem Kept.trans {first second third : Image} (front : Kept low high first second)
    (back : Kept low high second third) : Kept low high first third :=
  ⟨front.inside, back.reaches, fun i above below => (back.same i above below).trans (front.same i above below)⟩

variable {next : Image}

theorem Kept.mono {low' high' : Nat} (kept : Kept low high image next) (above : low ≤ low')
    (below : high' ≤ high) : Kept low' high' image next :=
  ⟨Nat.le_trans below kept.inside, Nat.le_trans below kept.reaches,
    fun i least most => kept.same i (Nat.le_trans above least) (Nat.lt_of_lt_of_le most below)⟩

theorem Kept.slice (kept : Kept low high image next)
    (above : low ≤ offset) (below : offset + length ≤ high) : slice next offset length = slice image offset length := by
  apply ext_getElem?
  intro i
  rw [getElem?_slice, getElem?_slice]
  split
  · exact kept.same _ (by omega) (by omega)
  · rfl

theorem overwrite_length (image : Image) (offset : Nat) (data : List UInt8) :
    (overwrite image offset data).length = max image.length (offset + data.length) := by
  simp only [overwrite, length_append, length_take, length_drop, length_replicate]
  omega

theorem getElem?_overwrite_before {i : Nat} (data : List UInt8) (before : i < offset)
    (inside : i < image.length) : (overwrite image offset data)[i]? = image[i]? := by
  have head : i < ((image ++ List.replicate (offset + data.length - image.length) 0).take offset).length := by
    rw [length_take, length_append]
    omega
  unfold overwrite
  rw [append_assoc, getElem?_append_left head, getElem?_take, if_pos before, getElem?_append_left inside]

variable {data : List UInt8}

theorem getElem?_overwrite_after {i : Nat} (after : offset + data.length ≤ i)
    (inside : i < image.length) : (overwrite image offset data)[i]? = image[i]? := by
  have nothing : offset + data.length - image.length = 0 := by omega
  have head : (image.take offset ++ data).length = offset + data.length := by
    rw [length_append, length_take]
    omega
  unfold overwrite
  simp only [nothing, replicate_zero, append_nil]
  rw [getElem?_append_right (by omega), head, getElem?_drop]
  congr 1
  omega

theorem slice_overwrite (image : Image) (offset : Nat) (data : List UInt8) :
    slice (overwrite image offset data) offset data.length = data := by
  have head : ((image ++ List.replicate (offset + data.length - image.length) 0).take offset).length = offset := by
    rw [length_take, length_append, length_replicate]
    omega
  unfold slice overwrite
  rw [append_assoc, drop_left' head, take_left' rfl]

/-- A write keeps what lies before it. -/
theorem Kept.overwrite_before (data : List UInt8) (inside : high ≤ image.length)
    (before : high ≤ offset) : Kept low high image (overwrite image offset data) :=
  ⟨inside, by rw [overwrite_length]; omega,
    fun _ _ below => getElem?_overwrite_before data (by omega) (by omega)⟩

/-- A write keeps what lies after it. -/
theorem Kept.overwrite_after (inside : high ≤ image.length)
    (after : offset + data.length ≤ low) : Kept low high image (overwrite image offset data) :=
  ⟨inside, by rw [overwrite_length]; omega,
    fun _ above below => getElem?_overwrite_after (by omega) (by omega)⟩

structure Write where
  offset : Nat
  data : List UInt8
deriving DecidableEq

def Write.apply (image : Image) (write : Write) : Image := overwrite image write.offset write.data

/-- The part of a write before an absolute offset. -/
def Write.upTo (write : Write) (bound : Nat) : Write := { write with data := write.data.take (bound - write.offset) }

inductive IoOp where
  | write (write : Write)
  | sync
deriving DecidableEq

structure Inode where
  durable : Image
  pending : List Write

/-- What the running process sees. -/
def Inode.live (inode : Inode) : Image := inode.pending.foldl Write.apply inode.durable

def Inode.step (inode : Inode) : IoOp → Inode
  | .write write => { inode with pending := inode.pending ++ [write] }
  | .sync => ⟨inode.live, []⟩

def Inode.exec (inode : Inode) (ops : List IoOp) : Inode := ops.foldl Inode.step inode

theorem Inode.exec_append (inode : Inode) (first second : List IoOp) :
    inode.exec (first ++ second) = (inode.exec first).exec second := foldl_append

theorem Inode.exec_writes (inode : Inode) (writes : List Write) :
    inode.exec (writes.map .write) = { inode with pending := inode.pending ++ writes } := by
  induction writes generalizing inode with
  | nil => exact congrArg (Inode.mk inode.durable) (append_nil _).symm
  | cons write rest ih =>
    show (inode.step (.write write)).exec (rest.map .write) = _
    rw [ih]
    show Inode.mk _ _ = Inode.mk _ _
    rw [Inode.step, append_assoc]
    rfl

/-- What a power cut can leave of an image and the writes made since its last sync: each write,
in order, is dropped, kept, or torn at a sector boundary inside it. -/
inductive Survivor (sector : Nat) : Image → List Write → Image → Prop
  | done (image : Image) : Survivor sector image [] image
  | dropped {image final : Image} {write : Write} {rest : List Write} (others : Survivor sector image rest final) :
    Survivor sector image (write :: rest) final
  | kept {image final : Image} {write : Write} {rest : List Write}
    (others : Survivor sector (write.apply image) rest final) : Survivor sector image (write :: rest) final
  | torn {image final : Image} {write : Write} {rest : List Write} (bound : Nat) (boundary : sector ∣ bound)
    (inside : write.offset < bound ∧ bound < write.offset + write.data.length)
    (others : Survivor sector ((write.upTo bound).apply image) rest final) : Survivor sector image (write :: rest) final

variable {writes : List Write}

/-- Writes that all start at or after `high` keep what lies before it, whatever becomes of them. -/
theorem Survivor.keeps_before
    (survivor : Survivor sector image writes final) (inside : high ≤ image.length)
    (after : ∀ write ∈ writes, high ≤ write.offset) : Kept low high image final := by
  induction survivor with
  | done image => exact Kept.refl inside
  | dropped _ ih => exact ih inside fun write member => after write (mem_cons_of_mem _ member)
  | @kept image final write rest _ ih =>
    have first : Kept low high image (write.apply image) :=
      Kept.overwrite_before write.data inside (after write mem_cons_self)
    exact first.trans (ih first.reaches fun write member => after write (mem_cons_of_mem _ member))
  | @torn image final write rest bound _ _ _ ih =>
    have first : Kept low high image ((write.upTo bound).apply image) :=
      Kept.overwrite_before (write.upTo bound).data inside (after write mem_cons_self)
    exact first.trans (ih first.reaches fun write member => after write (mem_cons_of_mem _ member))

variable {write : Write}

/-- One write on its way to disk: nothing of it, or its first bytes. -/
theorem Survivor.of_one
    (survivor : Survivor sector image [write] final) :
    final = image ∨ ∃ data, data.length ≤ write.data.length ∧ final = overwrite image write.offset data := by
  cases survivor with
  | dropped others =>
    cases others
    exact .inl rfl
  | kept others =>
    cases others
    exact .inr ⟨write.data, Nat.le_refl _, rfl⟩
  | torn bound _ _ others =>
    cases others
    refine .inr ⟨_, ?_, rfl⟩
    rw [Write.upTo, length_take]
    exact Nat.min_le_right _ _

/-- All of the writes, in order: one of the ways they can end. -/
theorem Survivor.all (image : Image) (writes : List Write) :
    Survivor sector image writes (writes.foldl Write.apply image) := by
  induction writes generalizing image with
  | nil => exact .done image
  | cons write rest ih => exact .kept (ih _)

/-- What a power cut can leave of a file once some of the operations have run. -/
def Cut (sector : Nat) (inode : Inode) (ops : List IoOp) (final : Image) : Prop :=
  ∃ ran, Survivor sector (inode.exec (ops.take ran)).durable (inode.exec (ops.take ran)).pending final

theorem Cut.append {inode : Inode} {first second : List IoOp}
    (cut : Cut sector inode (first ++ second) final) :
    Cut sector inode first final ∨ Cut sector (inode.exec first) second final := by
  obtain ⟨ran, survivor⟩ := cut
  rcases Nat.le_total ran first.length with early | late
  · rw [take_append_of_le_length early] at survivor
    exact .inl ⟨ran, survivor⟩
  · rw [take_append, take_of_length_le late, Inode.exec_append] at survivor
    exact .inr ⟨ran - first.length, survivor⟩

/-- Writes made durable by one sync. -/
def synced (writes : List Write) : List IoOp := writes.map .write ++ [.sync]

theorem exec_synced (file : Image) (writes : List Write) :
    Inode.exec ⟨file, []⟩ (synced writes) = ⟨writes.foldl Write.apply file, []⟩ := by
  rw [synced, Inode.exec_append, Inode.exec_writes]
  rfl

/-- A cut around one sync leaves some of the writes in front of it, and each may be torn. -/
theorem Cut.of_synced {file : Image}
    (cut : Cut sector ⟨file, []⟩ (synced writes) final) :
    ∃ count, Survivor sector file (writes.take count) final := by
  obtain ⟨ran, survivor⟩ := cut
  rcases Nat.lt_or_ge writes.length ran with all | some_
  · have whole : (synced writes).take ran = synced writes := by
      apply take_of_length_le
      rw [synced, length_append, length_map, length_singleton]
      omega
    rw [whole, exec_synced] at survivor
    cases survivor
    refine ⟨writes.length, ?_⟩
    rw [take_length]
    exact Survivor.all _ _
  · have front : (synced writes).take ran = (writes.take ran).map .write := by
      rw [synced, take_append_of_le_length (by rw [length_map]; exact some_), map_take]
    rw [front, Inode.exec_writes] at survivor
    exact ⟨ran, survivor⟩

/-- Pieces written one after the other from an offset on. -/
def consecutive : Nat → List (List UInt8) → List Write
  | _, [] => []
  | offset, piece :: rest => ⟨offset, piece⟩ :: consecutive (offset + piece.length) rest

theorem consecutive_offset {pieces : List (List UInt8)}
    (member : write ∈ consecutive offset pieces) : offset ≤ write.offset := by
  induction pieces generalizing offset with
  | nil => cases member
  | cons piece rest ih =>
    rcases mem_cons.mp member with rfl | later
    · exact Nat.le_refl _
    · have further := ih later
      omega

/-- Consecutive pieces lie in the image as one. -/
theorem slice_consecutive (image : Image) (offset : Nat) (pieces : List (List UInt8)) :
    slice ((consecutive offset pieces).foldl Write.apply image) offset pieces.flatten.length = pieces.flatten := by
  induction pieces generalizing image offset with
  | nil => simp [slice]
  | cons piece rest ih =>
    have own : slice (overwrite image offset piece) offset piece.length = piece := slice_overwrite image offset piece
    have reaches : offset + piece.length ≤ (overwrite image offset piece).length := by
      rw [overwrite_length]
      omega
    have kept : Kept 0 (offset + piece.length) (overwrite image offset piece)
        ((consecutive (offset + piece.length) rest).foldl Write.apply (overwrite image offset piece)) :=
      (Survivor.all _ _ : Survivor 1 _ _ _).keeps_before reaches fun write member => consecutive_offset member
    show slice ((consecutive (offset + piece.length) rest).foldl Write.apply (overwrite image offset piece)) offset
      (piece ++ rest.flatten).length = piece ++ rest.flatten
    rw [length_append, slice_append, ih, kept.slice (Nat.zero_le _) (Nat.le_refl _), own]

theorem foldl_consecutive_reaches (image : Image) (offset : Nat) (pieces : List (List UInt8)) (inside : offset ≤ image.length) :
    offset + pieces.flatten.length ≤ ((consecutive offset pieces).foldl Write.apply image).length := by
  induction pieces generalizing image offset with
  | nil => exact inside
  | cons piece rest ih =>
    have further := ih (overwrite image offset piece) (offset + piece.length) (by rw [overwrite_length]; omega)
    show offset + (piece ++ rest.flatten).length ≤ _
    rw [length_append, ← Nat.add_assoc]
    exact further

end FerroLoop.Disk
