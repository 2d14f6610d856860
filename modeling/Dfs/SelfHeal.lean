import Dfs.PutMetadata

/-!
# The self-heal of a file's chunk map

`re_derive_chunk_map` derives a list from `CHUNK_TABLE`, `merge_self_heal` merges it slot by slot, `commit_chunk_map` installs it.
-/

namespace Dfs

open KeyedList

variable {Id : Type} [DecidableEq Id]

/-! ## The list from the rows -/

section

omit [DecidableEq Id]

def resolveChunkNodes (inline row : ChunkLocation Id) : ChunkLocation Id :=
  if 1 < row.nodes.length ∨ inline.nodes.length ≤ row.nodes.length then { inline with nodes := row.nodes } else inline

/-- A folded token has the nodes of the chunk it became. -/
def Node.resolveChunkLocationForInfo (s : Node Id) (inline : ChunkLocation Id) : ChunkLocation Id :=
  let folded := match s.patchState inline.chunkId with
    | some (.folded real) => s.chunkTable real
    | _ => none
  match folded with
  | some real => { inline with nodes := real.nodes }
  | none => match s.chunkTable inline.chunkId with
    | some row => resolveChunkNodes inline row
    | none => inline

def laterRow (isFold : Id → Bool) (durabilityFloor : Nat) (old row : ChunkLocation Id) : ChunkLocation Id :=
  if locationSupersedes row old (isFold row.chunkId) (isFold old.chunkId) none none durabilityFloor then row else old

/-- One row of the file for each index, in their order (where a row without an offset stands is open in the source). -/
def Node.chunkLocationsForInfo (s : Node Id) (durabilityFloor : Nat) (rows : Locations Id) (file : FileId) :
    Locations Id :=
  ((rows.filter fun row => decide (row.fileId = some file)).foldl
    (upsert cidxOf (laterRow s.foldResultChunkIds durabilityFloor)) []).map s.resolveChunkLocationForInfo

/-- The list is empty if the scan fails. -/
def Node.reDeriveChunkMap (s : Node Id) (durabilityFloor : Nat) (rows : Except String (Locations Id)) (file : FileId) :
    Locations Id × Nat :=
  ((match rows with
    | .ok rows => s.chunkLocationsForInfo durabilityFloor rows file
    | .error _ => []), ((s.chunkMap file).map (·.2)).getD 0)

end

/-! ## The merge -/

def tokenAssumedLiveFor : Nat := 300 * 1000

omit [DecidableEq Id] in
def isCausalRegression (current fresh : ChunkLocation Id) : Bool :=
  match fresh.clientWriteSeq, current.clientWriteSeq with
  | some fs, some cs =>
    if fs ≠ cs then decide (fs < cs)
    else match fresh.writtenAt, current.writtenAt with
      | some fw, some cw => decide (fw < cw)
      | _, _ => false
  | none, some _ => true
  | _, none => false

omit [DecidableEq Id] in
def oldEnough (nowMs : Nat) (current : ChunkLocation Id) : Bool :=
  current.writtenAt.any fun w => decide (tokenAssumedLiveFor ≤ nowMs - w)

variable (current : Locations Id) (s : Node Id)

omit [DecidableEq Id] in
def currentAt (cidx : Nat) : Option (ChunkLocation Id) := current.find? fun c => slotOf c = some cidx

/-- What is merged, and the slot if the location is refused. -/
def healLocation (nowMs : Nat) (currentIsPurged : Id → Bool) (fresh : ChunkLocation Id) :
    ChunkLocation Id × Option (Nat × Id × Id) :=
  match slotOf fresh with
  | none => (fresh, none)
  | some cidx => match currentAt current cidx with
    | none => (fresh, none)
    | some c =>
      if c.chunkId = fresh.chunkId ∨ isCausalRegression c fresh = false then (fresh, none)
      else if oldEnough nowMs c && currentIsPurged c.chunkId then (fresh, none)
      else (c, some (cidx, c.chunkId, fresh.chunkId))

def mergeSelfHeal (fresh : Locations Id) (nowMs : Nat) (currentIsPurged : Id → Bool) :
    Locations Id × List (Nat × Id × Id) :=
  (fresh.map fun f => (healLocation current nowMs currentIsPurged f).1,
    fresh.filterMap fun f => (healLocation current nowMs currentIsPurged f).2)

omit [DecidableEq Id] in
def Node.commitChunkMap (file : FileId) (locations : Locations Id) (writeSeq : Nat) : Node Id :=
  s.setChunkMap (Function.update s.chunkMap file (some (locations, writeSeq)))

/-- With the slots that were refused; nothing if there is no new list. -/
def Node.selfHeal (durabilityFloor : Nat) (rows : Except String (Locations Id)) (file : FileId)
    (current : Locations Id) (nowMs : Nat) (currentIsPurged : Id → Bool) : Option (Node Id × List (Nat × Id × Id)) :=
  let (fresh, writeSeq) := s.reDeriveChunkMap durabilityFloor rows file
  if fresh.isEmpty then none
  else
    let (merged, refused) := mergeSelfHeal current fresh nowMs currentIsPurged
    some (s.commitChunkMap file merged writeSeq, refused)

end Dfs
