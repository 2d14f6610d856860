import Dfs.PutMetadata
import Dfs.StoreRun

/-!
# Merging and batching metadata

`merge_file_metadata` with the union of the locations, and `fold_metadata_batch`, which merges a batch's records of a
file before they are put.
-/

namespace Dfs

open Function

variable {Id : Type} [DecidableEq Id]

/-! ## The union of the locations -/

structure LocationMerge (Id : Type) where
  mergedLocs : Locations Id
  idIndex : Id → Option Nat
  offsetIndex : Nat → Option Nat

/-- Of two with one identity, or one offset, the later is indexed. -/
def LocationMerge.start (existing : Locations Id) : LocationMerge Id :=
  existing.zipIdx.foldl (fun st (l, i) =>
    { st with
      idIndex := update st.idIndex l.chunkId (some i)
      offsetIndex := l.fileOffset.elim st.offsetIndex fun o => update st.offsetIndex o (some i) })
    ⟨existing, fun _ => none, fun _ => none⟩

variable (existing incoming : FileMetadata Id)

def keepExisting (existingLoc incomingLoc : ChunkLocation Id) : Bool :=
  let incomingFileSeqWins :=
    decide (0 < incoming.writeSeq) && decide (0 < existing.writeSeq) && decide (existing.writeSeq < incoming.writeSeq)
  match incomingLoc.clientWriteSeq, existingLoc.clientWriteSeq with
  | some inc, some ext => decide (inc < ext)
  | some _, none => false
  | none, some _ => !incomingFileSeqWins
  | none, none => !incomingFileSeqWins && decide (incomingLoc.writtenAt.getD 0 < existingLoc.writtenAt.getD 0)

variable (st : LocationMerge Id)

/-- Rule 1, the same identity: the nodes are united, the other fields are the incoming ones. -/
def LocationMerge.sameId (idx offset : Nat) (old loc : ChunkLocation Id) : LocationMerge Id :=
  let newEntry := { loc with
    nodes := old.nodes.foldl (fun nodes n => if nodes.contains n then nodes else nodes ++ [n]) loc.nodes }
  let offsetIndex := match old.fileOffset with
    | some o => if o = offset then st.offsetIndex else update st.offsetIndex o none
    | none => st.offsetIndex
  { st with mergedLocs := st.mergedLocs.set idx newEntry, offsetIndex := update offsetIndex offset (some idx) }

def LocationMerge.sameOffset (existing incoming : FileMetadata Id) (idx : Nat) (old loc : ChunkLocation Id) : LocationMerge Id :=
  if keepExisting existing incoming old loc then st
  else { st with
    mergedLocs := st.mergedLocs.set idx loc
    idIndex := update (update st.idIndex old.chunkId none) loc.chunkId (some idx) }

def LocationMerge.newSlot (offset : Nat) (loc : ChunkLocation Id) : LocationMerge Id where
  mergedLocs := st.mergedLocs ++ [loc]
  idIndex := update st.idIndex loc.chunkId (some st.mergedLocs.length)
  offsetIndex := update st.offsetIndex offset (some st.mergedLocs.length)

def LocationMerge.add (loc : ChunkLocation Id) : LocationMerge Id :=
  match loc.fileOffset with
  | none => st
  | some offset =>
    match (st.idIndex loc.chunkId).bind fun idx => (st.mergedLocs[idx]?).map fun old => (idx, old) with
    | some (idx, old) => st.sameId idx offset old loc
    | none =>
      match (st.offsetIndex offset).bind fun idx => (st.mergedLocs[idx]?).map fun old => (idx, old) with
      | some (idx, old) => st.sameOffset existing incoming idx old loc
      | none => st.newSlot offset loc

def unionLocations : Locations Id :=
  sortByOffset (incoming.chunkLocations.foldl (LocationMerge.add existing incoming) (.start existing.chunkLocations)).mergedLocs

def mergeWithLocations (existing : Option (FileMetadata Id)) (incoming : FileMetadata Id) : FileMetadata Id × Bool :=
  match existing with
  | none => (incoming, false)
  | some e =>
    let r := mergeFileMetadata (some e) incoming
    ({ r.1 with chunkLocations := unionLocations e incoming }, r.2)

/-! ## Batches -/

def foldMetadataStep (st : List FileId × (FileId → Option (FileMetadata Id))) (item : FileMetadata Id) :
    List FileId × (FileId → Option (FileMetadata Id)) :=
  match st.2 item.id with
  | some existing => (st.1, update st.2 item.id (some (mergeWithLocations (some existing) item).1))
  | none => (st.1 ++ [item.id], update st.2 item.id (some item))

def foldMetadataBatch (items : List (FileMetadata Id)) : List (FileMetadata Id) :=
  let r := items.foldl foldMetadataStep ([], fun _ => none)
  r.1.filterMap r.2

end Dfs
