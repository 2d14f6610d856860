import Dfs.Liveness
import Dfs.PutMetadata

/-!
# Runs of the chunk map

The calls that change the chunk map, with whatever else happens between, and what each does to `chunk_to_file`.
-/

namespace Dfs

variable {Id : Type} [DecidableEq Id]

inductive MapAction (Id : Type) where
  | update (metadata : FileMetadata Id)
  | updateLocation (walk : List FileId) (loc : ChunkLocation Id)
  | updateLocationForFile (durabilityFloor : Nat) (file : FileId) (loc : ChunkLocation Id)
  | afterPatch (file : FileId) (idx : Option Nat) (old new : Id) (size writtenAt : Nat) (seq : Option Nat)
  | remove (file : FileId)
  | elsewhere (t : Node Id)

/-- What happens elsewhere can leave anything but another chunk map. -/
def Node.mapStep (s : Node Id) : MapAction Id → Node Id
  | .update metadata => s.chunkMapUpdate metadata
  | .updateLocation walk loc => s.chunkMapUpdateLocation walk loc
  | .updateLocationForFile floor file loc => s.syncLocation floor file loc
  | .afterPatch file idx old new size writtenAt seq => (s.updateChunkMapAfterPatch file idx old new size writtenAt seq).1
  | .remove file => s.chunkMapRemove file
  | .elsewhere t => t.setChunkMap s.chunkMap

/-! ## The reverse index -/

omit [DecidableEq Id] in
/-- The identities whose slots are not mentioned and that a shrink cuts off. -/
def droppedUnmentioned (drop : ChunkLocation Id → Bool) : Locations Id → Locations Id → List Id
  | _, [] => []
  | locs, l :: mapLocs => match slotOf l with
    | none => droppedUnmentioned drop locs mapLocs
    | some cidx =>
      if mentioned locs cidx then droppedUnmentioned drop locs mapLocs
      else if drop l then l.chunkId :: droppedUnmentioned drop locs mapLocs
      else droppedUnmentioned drop (locs ++ [l]) mapLocs

def supersededChunkIds (onDisk : Id → Bool) (metadata : FileMetadata Id) : Option (Locations Id × Nat) → List Id
  | none => []
  | some (existing, mapSeq) =>
    (metadata.chunkLocations.filterMap fun l => (guardLocation onDisk existing l).2) ++
      droppedUnmentioned (shrinkDrops metadata mapSeq) (metadata.chunkLocations.map fun l =>
        (guardLocation onDisk existing l).1) existing

def indexInsertAll (index : Id → Option FileId) (file : FileId) (locs : Locations Id) : Id → Option FileId :=
  locs.foldl (fun index l => Function.update index l.chunkId (some file)) index

def indexEraseAll (index : Id → Option FileId) (ids : List Id) : Id → Option FileId :=
  ids.foldl (fun index id => Function.update index id none) index

/-- The new locations are put in, then the superseded identities taken out; a truncate takes out the list's. -/
def Node.indexAfterUpdate (s : Node Id) (index : Id → Option FileId) (metadata : FileMetadata Id) : Id → Option FileId :=
  if !metadata.chunkLocations.isEmpty then
    let onDisk : Id → Bool := s.hasChunk
    let newLocs := (mergedLocations onDisk metadata (s.chunkMap metadata.id)).filter (·.fileOffset.isSome)
    indexEraseAll (indexInsertAll index metadata.id newLocs) (supersededChunkIds onDisk metadata (s.chunkMap metadata.id))
  else if metadata.size = 0 then
    match s.chunkMap metadata.id with
    | none => index
    | some (locs, mapSeq) => if mapSeq < metadata.writeSeq then indexAfterRemove index locs else index
  else index

def Node.indexAfterUpdateLocation (s : Node Id) (index : Id → Option FileId) (walk : List FileId) (loc : ChunkLocation Id) :
    Id → Option FileId :=
  match walk.find? fun f => (s.locsOf f).any (sameChunk loc) with
  | none => index
  | some f => Function.update index loc.chunkId (some f)

/-- `update_chunk_map_after_patch` does not know the index. -/
def IndexedNode.mapStep (n : IndexedNode Id) (a : MapAction Id) : IndexedNode Id where
  node := n.node.mapStep a
  chunkToFile := match a with
    | .update metadata => n.node.indexAfterUpdate n.chunkToFile metadata
    | .updateLocation walk loc => n.node.indexAfterUpdateLocation n.chunkToFile walk loc
    | .updateLocationForFile floor file loc =>
      indexAfterSync n.node.foldResultChunkIds n.node.chunkGenerations floor n.chunkToFile file (n.node.locsOf file) loc
    | .remove file => indexAfterRemove n.chunkToFile (n.node.locsOf file)
    | .afterPatch .. | .elsewhere _ => n.chunkToFile

def IndexedNode.empty : IndexedNode Id := ⟨Node.empty, fun _ => none⟩

end Dfs
