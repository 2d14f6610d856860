import Dfs.Client.ChunkSlot

/-!
# The write buffer of an open file

`write_at` cuts a write at chunk borders, puts each part into its slot, marks slots left and counts the growth.
-/

namespace Dfs

variable {Id : Type}

/-- Without the session's flags. No other write is under way, so no shard is locked. -/
structure InodeWriteBuffer (Id : Type) where
  chunks : Nat → Option (ChunkShardState Id)
  activeChunks : List Nat
  lastWrittenChunk : Option Nat

def InodeWriteBuffer.new : InodeWriteBuffer Id := ⟨fun _ => none, [], none⟩

def chunkIndex (fileOffset : Nat) : Nat := fileOffset / chunkSize

def intraOffset (fileOffset : Nat) : Nat := fileOffset % chunkSize

variable (b : InodeWriteBuffer Id)

def InodeWriteBuffer.chunkEntry (idx now : Nat) : ChunkShardState Id := (b.chunks idx).getD ⟨ChunkSlot.new now, 0, false⟩

def ChunkSlot.inUse (slot : ChunkSlot Id) : Bool :=
  (decide (0 < slot.realDataEnd) || decide (0 < slot.gapFilledPrefix)) && !slot.flushing

def concurrentStreamsScanCap : Nat := 16

def InodeWriteBuffer.concurrentStreams (prev : Nat) : Bool :=
  if concurrentStreamsScanCap < b.activeChunks.length then true
  else b.activeChunks.any fun other => decide (other ≠ prev) && (b.chunks other).any (·.slot.inUse)

/-- The slot it leaves is marked as abandoned. Returns whether it was. -/
def InodeWriteBuffer.leavePrevious (idx : Nat) : InodeWriteBuffer Id × Bool :=
  let b' := { b with lastWrittenChunk := some idx }
  match b.lastWrittenChunk.filter (· ≠ idx) with
  | none => (b', false)
  | some prev =>
    if b.concurrentStreams prev then (b', false)
    else match b.chunks prev with
      | none => (b', false)
      | some cs =>
        if cs.slot.inUse then
          ({ b' with chunks := Function.update b.chunks prev (some { cs with slot := { cs.slot with abandoned := true } }) },
            true)
        else (b', false)

def InodeWriteBuffer.writePart (idx intra : Nat) (data : Bytes) (now : Nat) : InodeWriteBuffer Id × Bool × Nat :=
  let (b, left) := b.leavePrevious idx
  let (cs, broken, added) := (b.chunkEntry idx now).writeAt intra data now
  ({ b with
      chunks := Function.update b.chunks idx (some cs)
      activeChunks := if idx ∈ b.activeChunks then b.activeChunks else idx :: b.activeChunks },
    left || broken, added)

/-- With whether the pattern changed and how many bytes were added. `now` is the wall clock at each chunk's part. -/
def InodeWriteBuffer.writeAt (b : InodeWriteBuffer Id) (curOffset : Nat) (remaining : Bytes) (now : Nat → Nat) :
    InodeWriteBuffer Id × Bool × Nat :=
  if remaining = [] then (b, false, 0)
  else
    let idx := chunkIndex curOffset
    let intra := intraOffset curOffset
    let n := min remaining.length (chunkSize - intra)
    let (b, changed, added) := b.writePart idx intra (remaining.take n) (now idx)
    let (b, changed', added') := b.writeAt (curOffset + n) (remaining.drop n) now
    (b, changed || changed', added + added')
termination_by remaining.length
decreasing_by
  have hspace : intraOffset curOffset < chunkSize := Nat.mod_lt _ chunkSize_pos
  have hpos : 0 < remaining.length := List.length_pos_iff.mpr ‹_›
  rw [List.length_drop]
  omega

/-- As far as the extent that has the place goes. -/
def ChunkSlot.readAt (slot : ChunkSlot Id) (intra max : Nat) : Option Bytes :=
  (slot.extents.find? fun r => decide (r.1 ≤ intra ∧ intra < Runs.stop r)).map fun r =>
    (r.2.drop (intra - r.1)).take (min max (r.2.length - (intra - r.1)))

def InodeWriteBuffer.residentBytes : Nat := (b.activeChunks.filterMap fun idx => (b.chunks idx).map (·.slot.resident)).sum

structure BufferWrite where
  offset : Nat
  data : Bytes
  now : Nat → Nat

def BufferWrite.range (w : BufferWrite) : Nat × Bytes := (w.offset, w.data)

def InodeWriteBuffer.writeAll (b : InodeWriteBuffer Id) : List BufferWrite → InodeWriteBuffer Id × Nat
  | [] => (b, 0)
  | w :: ws =>
    let (b, _, added) := b.writeAt w.offset w.data w.now
    let (b, rest) := b.writeAll ws
    (b, added + rest)

end Dfs
