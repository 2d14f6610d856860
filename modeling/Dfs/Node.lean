import Dfs.DeltaFormat
import Dfs.Lib.PartitionPoint
import Mathlib.Tactic.Simps.Basic

/-!
# The state of a server node

The chunk files and durable tables of a node, its maps in memory, and the primitive operations on them. A table is a function to
options.
-/

namespace Dfs

open Function

/-- What the hasher of a delta has absorbed: file, offset and the bytes so far. -/
abbrev Hasher := FileId × Nat × Bytes

abbrev Hasher.update (hasher : Hasher) (bytes : Bytes) : Hasher := (hasher.1, hasher.2.1, hasher.2.2 ++ bytes)

abbrev Hasher.finalize {Id : Type} (hasher : Hasher) (H : ChunkHash Id) : Id :=
  H.computeChunkHashAt hasher.2.2 hasher.2.1 hasher.1

/-- What is kept of an unfolded accumulator. -/
structure DirtyPatchSlot (Id : Type) where
  token : Id
  deltaHasher : Hasher
  verified : Bool
  legacyDeltaFormat : Bool
  foldFailures : Nat
  materializedMaxSeq : Option Nat
  priorChunkId : Option Id
  deriving DecidableEq

/-- The chunk files, the durable tables, and the maps in memory. -/
structure Node (Id : Type) where
  files : Id → Option Bytes
  chunkTable : Id → Option (ChunkLocation Id)
  patchState : Id → Option (PatchState Id)
  patchStateSlot : Slot → Option Id
  chunkSeq : Slot → Option Nat
  tombstoned : FileId → Bool
  fileExists : FileId → Bool
  chunkMap : FileId → Option (Locations Id × Nat)
  dirtyPatchSlots : Slot → Option (DirtyPatchSlot Id)
  pendingPatchIds : Id → Option Slot
  chunkGenerations : Id → Option Nat
  foldResultChunkIds : Id → Bool
  retiredChunkAliases : Id → Option Id
  deleteTombstones : FileId → Bool
  chunkRing : Id → Option Bytes
  deltaRing : Id → Option Bytes
  materializedRing : Id → Option Bytes
  cache : Id → Option Bytes

def Node.empty {Id : Type} : Node Id where
  files _ := none
  chunkTable _ := none
  patchState _ := none
  patchStateSlot _ := none
  chunkSeq _ := none
  tombstoned _ := false
  fileExists _ := false
  chunkMap _ := none
  dirtyPatchSlots _ := none
  pendingPatchIds _ := none
  chunkGenerations _ := none
  foldResultChunkIds _ := false
  retiredChunkAliases _ := none
  deleteTombstones _ := false
  chunkRing _ := none
  deltaRing _ := none
  materializedRing _ := none
  cache _ := none

variable {Id : Type}

/-- With the write sequence it came from. -/
def holdingLocation (H : ChunkHash Id) (slot : Slot) (b : Bytes) (node : NodeId) (seq : Option Nat) : ChunkLocation Id :=
  ⟨H.computeChunkHashAt b (slot.2 * chunkSize) slot.1, [node], b.length, some (slot.2 * chunkSize), some 0, seq,
    some slot.1⟩

def Node.holding [DecidableEq Id] (H : ChunkHash Id) (slot : Slot) (b : Bytes) (node : NodeId) (seq : Option Nat) : Node Id :=
  let loc := holdingLocation H slot b node seq
  { Node.empty with
    files := fun id => if id = loc.chunkId then some b else none
    chunkTable := fun id => if id = loc.chunkId then some loc else none
    fileExists := fun f => decide (f = slot.1)
    chunkMap := fun f => if f = slot.1 then some ([loc], 0) else none }

@[simps] def Node.setChunkTable (s : Node Id) (table : Id → Option (ChunkLocation Id)) : Node Id :=
  { s with chunkTable := table }

@[simps] def Node.setChunkMap (s : Node Id) (map : FileId → Option (Locations Id × Nat)) : Node Id :=
  { s with chunkMap := map }

@[simps] def Node.setFiles (s : Node Id) (files : Id → Option Bytes) : Node Id := { s with files := files }

/-- With other patch-state rows, slot entries and identities resolved through them. -/
@[simps] def Node.setPatchTables (s : Node Id) (rows : Id → Option (PatchState Id)) (slots : Slot → Option Id)
    (pending : Id → Option Slot) : Node Id :=
  { s with patchState := rows, patchStateSlot := slots, pendingPatchIds := pending }

@[simps] def Node.setSequences (s : Node Id) (seqs : Slot → Option Nat) (generations : Id → Option Nat) : Node Id :=
  { s with chunkSeq := seqs, chunkGenerations := generations }

variable [DecidableEq Id]

/-! ## Chunk storage -/

variable (s : Node Id) (id : Id)

def Node.hasChunk : Bool := (s.files id).isSome

/-- The source also caches what it reads from disk. Here that is a change of the caches of its own. -/
def Node.readChunkArc : Option Bytes := (s.cache id).or (s.files id)

@[simps] def Node.writeChunk (data : Bytes) : Node Id := { s with files := update s.files id (some data) }

@[simps] def Node.invalidateCache : Node Id := { s with cache := update s.cache id none }

@[simps] def Node.deleteChunk : Node Id :=
  { s with files := update s.files id none, cache := update s.cache id none }

/-! ## Rings -/

def Node.rekeyRing (old new : Id) : Option Bytes → Node Id
  | none => s
  | some buf =>
    let popped := update s.chunkRing old none
    { s with chunkRing := if new = old then popped else update popped new (some buf) }

/-! ## What happens to the caches between two operations -/

/-- Entries are evicted, and the rings and the read cache load what a read returns. -/
structure CacheChange (Id : Type) where
  evictChunk : Id → Bool
  loadChunk : Id → Bool
  evictDelta : Id → Bool
  loadDelta : Id → Bool
  evictMaterialized : Id → Bool
  evictCache : Id → Bool
  loadCache : Id → Bool

def CacheChange.none : CacheChange Id :=
  ⟨fun _ => false, fun _ => false, fun _ => false, fun _ => false, fun _ => false, fun _ => false, fun _ => false⟩

def changed (load evict : Bool) (fresh old : Option Bytes) : Option Bytes :=
  if load then fresh else if evict then Option.none else old

def Node.recache (c : CacheChange Id) : Node Id :=
  { s with
    chunkRing := fun id => changed (c.loadChunk id) (c.evictChunk id) (s.readChunkArc id) (s.chunkRing id)
    deltaRing := fun id => changed (c.loadDelta id) (c.evictDelta id) (s.readChunkArc id) (s.deltaRing id)
    materializedRing := fun id => changed false (c.evictMaterialized id) Option.none (s.materializedRing id)
    cache := fun id => changed (c.loadCache id) (c.evictCache id) (s.files id) (s.cache id) }

/-! ## Metadata tables -/

@[simps] def Node.putChunkLocation (loc : ChunkLocation Id) : Node Id :=
  { s with chunkTable := update s.chunkTable loc.chunkId (some loc) }

@[simps] def Node.deleteChunkLocation : Node Id := { s with chunkTable := update s.chunkTable id none }

variable (slot : Slot)

def Node.retireRow : Id → Option (PatchState Id) :=
  match s.patchStateSlot slot with
  | some t => update s.patchState t none
  | none => s.patchState

/-- The slot's previous token is retired, its row removed and the new one written. Returns it. -/
def Node.putPatchStatePending (token base delta : Id) (size writtenAt : Nat) (seq : Option Nat) : Node Id × Option Id :=
  (s.setPatchTables (update (s.retireRow slot) token (some (.pending base delta size writtenAt seq)))
    (update s.patchStateSlot slot (some token)) s.pendingPatchIds, s.patchStateSlot slot)

lemma retireRow_apply (id : Id) : s.retireRow slot id = if s.patchStateSlot slot = some id then none else s.patchState id := by
  unfold Node.retireRow
  cases s.patchStateSlot slot with
  | none => simp
  | some t =>
    by_cases h : t = id
    · simp [h]
    · simp [h, update_of_ne (Ne.symm h)]

@[simps] def Node.updatePatchStateFolded (token real : Id) : Node Id :=
  { s with patchState := update s.patchState token (some (.folded real)) }

/-- The row goes, and the slot's entry if it still names the token. -/
@[simps] def Node.deletePatchStateAbandoned (token : Id) (slot : Slot) : Node Id :=
  { s with
    patchState := update s.patchState token none
    patchStateSlot :=
      if s.patchStateSlot slot = some token then update s.patchStateSlot slot none else s.patchStateSlot }

def Node.putChunkSeq (seq : Nat) : Node Id × Nat :=
  let current := (s.chunkSeq slot).getD 0
  (if current < seq ∧ s.tombstoned slot.1 = false then { s with chunkSeq := update s.chunkSeq slot (some seq) }
    else s, max seq current)

@[simps] def Node.bumpChunkGeneration (generation : Nat) : Node Id :=
  { s with chunkGenerations :=
      update s.chunkGenerations id (some (max generation ((s.chunkGenerations id).getD generation))) }

def Node.fileRecentlyDeleted (file : FileId) : Bool := s.deleteTombstones file || s.tombstoned file

/-! ## The chunk map -/

omit [DecidableEq Id] in
/-- `file_offset / CHUNK_SIZE`, `u64::MAX` without an offset. -/
def cidxOf (l : ChunkLocation Id) : Nat := (slotOf l).getD u64Max

/-- `chunk_map_find_by_idx`: what the halving search finds, if the location there has the index. -/
def chunkMapFindByIdx (locs : Locations Id) (idx : Nat) : Option Nat :=
  let pos := partitionPoint (fun l => cidxOf l < idx) locs
  match locs[pos]? with
  | some l => if cidxOf l = idx then some pos else none
  | none => none

/-- The place of the first location that is not before the index, if it has it. In a list in order this is what the search finds
(`chunkMapFindByIdx_eq`), and stands for it where a list's order is not in question. -/
def slotPosition (locs : Locations Id) (idx : Nat) : Option Nat :=
  let pos := (locs.takeWhile (fun l => cidxOf l < idx)).length
  match locs[pos]? with
  | some l => if cidxOf l = idx then some pos else none
  | none => none

omit [DecidableEq Id] in
lemma chunkMapFindByIdx_eq {locs : Locations Id} (h : locs.Pairwise fun a b => cidxOf a ≤ cidxOf b) (idx : Nat) :
    chunkMapFindByIdx locs idx = slotPosition locs idx := by
  have hpart : Partitioned (fun l => decide (cidxOf l < idx)) locs := h.imp fun hle hlt => by simp at hlt ⊢; omega
  unfold chunkMapFindByIdx slotPosition
  rw [partitionPoint_eq hpart]

def Node.occupant : Option (ChunkLocation Id) :=
  match s.chunkMap slot.1 with
  | some (locs, _) => (slotPosition locs slot.2).bind (fun i => locs[i]?)
  | none => none

omit [DecidableEq Id] in
lemma slotPosition_singleton (l : ChunkLocation Id) : slotPosition [l] (cidxOf l) = some 0 := by
  simp [slotPosition]

lemma occupant_holding (H : ChunkHash Id) (slot : Slot) (b : Bytes) (node : NodeId) (seq : Option Nat) :
    (Node.holding H slot b node seq).occupant slot = some (holdingLocation H slot b node seq) := by
  have hidx : cidxOf (holdingLocation H slot b node seq) = slot.2 := by
    simp only [cidxOf, slotOf, holdingLocation, Option.map_some, Option.getD_some, mul_chunkSize_div]
  have hmap : (Node.holding H slot b node seq).chunkMap slot.1 = some ([holdingLocation H slot b node seq], 0) := if_pos rfl
  have hfind := slotPosition_singleton (holdingLocation H slot b node seq)
  rw [hidx] at hfind
  rw [Node.occupant, hmap]
  dsimp only
  rw [hfind]
  rfl

/-- The update is older than what the location records. -/
def staleUpdate : Option Nat → Option Nat → Bool
  | some incoming, some existing => incoming < existing
  | some _, none => false
  | none, some _ => true
  | none, none => false

/-- By position, or without an index by the old identity. Returns the location that refused. -/
def Node.updateChunkMapAfterPatch (file : FileId) (idx : Option Nat) (old new : Id) (size writtenAt : Nat)
    (seq : Option Nat) : Node Id × Option (ChunkLocation Id) :=
  if new = old then (s, none)
  else match s.chunkMap file with
    | none => (s, none)
    | some (locs, w) =>
      let p : ChunkLocation Id → Bool := match idx with
        | some c => fun l => slotOf l == some c
        | none => fun l => l.chunkId == old
      match locs.find? p with
      | none => (s, none)
      | some loc =>
        if staleUpdate seq loc.clientWriteSeq then (s, some loc)
        else
          let moved := updateFirst p (fun l =>
            { l with chunkId := new, size := size, writtenAt := some writtenAt, clientWriteSeq := seq }) locs
          (s.setChunkMap (update s.chunkMap file (some (moved, w))), none)

lemma updateChunkMapAfterPatch_congr {s s' : Node Id} (h : s'.chunkMap = s.chunkMap) (file : FileId) (idx : Option Nat)
    (old new : Id) (size at_ : Nat) (seq : Option Nat) : s'.updateChunkMapAfterPatch file idx old new size at_ seq
      = (s'.setChunkMap (s.updateChunkMapAfterPatch file idx old new size at_ seq).1.chunkMap,
        (s.updateChunkMapAfterPatch file idx old new size at_ seq).2) := by
  have hself : s'.setChunkMap s.chunkMap = s' := by
    rw [← h]
    rfl
  unfold Node.updateChunkMapAfterPatch
  rw [h]
  split
  · rw [hself]
  split
  · rw [hself]
  dsimp only
  split
  · rw [hself]
  split
  · rw [hself]
  · rfl

end Dfs
