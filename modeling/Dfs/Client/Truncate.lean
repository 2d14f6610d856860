import Dfs.AppendFile

/-!
# Truncating a file

The part of `setattr` that shrinks: the cached sizes are added up to the new size, the chunk cut is written anew, the
rest dropped.
-/

namespace Dfs

variable {Id : Type}

/-- What chunks read as, is the shortened one stored, on which nodes, and its write sequence. -/
structure TruncateEnv (Id : Type) where
  content : Id → Option Bytes
  writes : Bool
  nodes : List NodeId
  clientWriteSeq : Option Nat

def totalSize (locs : Locations Id) : Nat := (locs.map (·.size)).sum

/-- The index of the last chunk kept, and how many of its bytes if it is cut. -/
def findCut (newSize : Nat) : Locations Id → (idx cumulativeSize lastChunkIdx : Nat) → Nat × Nat
  | [], _, _, lastChunkIdx => (lastChunkIdx, 0)
  | loc :: locs, idx, cumulativeSize, lastChunkIdx =>
    if cumulativeSize + loc.size ≤ newSize then findCut newSize locs (idx + 1) (cumulativeSize + loc.size) idx
    else if cumulativeSize < newSize then (idx, newSize - cumulativeSize)
    else (lastChunkIdx, 0)

def TruncateEnv.locationsFrom (env : TruncateEnv Id) (file : FileId) : Nat → List (Id × Bytes) → Locations Id
  | _, [] => []
  | offset, (id, b) :: chunks =>
    ⟨id, env.nodes, b.length, some offset, none, env.clientWriteSeq, some file⟩ ::
      env.locationsFrom file (offset + b.length) chunks

variable [DecidableEq Id] (H : ChunkHash Id) (env : TruncateEnv Id)

/-- The locations written, and what chunks read as then. -/
def TruncateEnv.writeDataWithCache (data : Bytes) (fileOffset : Nat) (file : FileId) :
    Option (Locations Id × (Id → Option Bytes)) :=
  let chunks := chunkDataAt H file fileOffset (dataChunks chunkSize data)
  if env.writes then
    some (env.locationsFrom file fileOffset chunks,
      chunks.foldl (fun content chunk => Function.update content chunk.1 (some chunk.2)) env.content)
  else none

variable (metadata : FileMetadata Id)

/-- What is sent, and what chunks read as then; nothing on `EIO`. -/
def TruncateEnv.shrink (newSize : Nat) : Option (FileMetadata Id × (Id → Option Bytes)) :=
  let (lastChunkIdx, bytesInLastChunk) := findCut newSize metadata.chunkLocations 0 0 0
  if 0 < bytesInLastChunk then
    match metadata.chunkLocations[lastChunkIdx]? with
    | none => none
    | some loc =>
      let chunkOffset := totalSize (metadata.chunkLocations.take lastChunkIdx)
      match env.content loc.chunkId with
      | none => none
      | some lastChunkData =>
        match env.writeDataWithCache H (lastChunkData.take bytesInLastChunk) chunkOffset metadata.id with
        | none => none
        | some (newChunkLocs, content) =>
          let locs := metadata.chunkLocations.take lastChunkIdx ++ newChunkLocs
          some ({ metadata with chunkLocations := locs, size := newSize }, content)
  else some ({ metadata with chunkLocations := metadata.chunkLocations.take (lastChunkIdx + 1), size := newSize }, env.content)

def TruncateEnv.setattrSize (newSize : Nat) : Option (FileMetadata Id × (Id → Option Bytes)) :=
  if newSize = metadata.size then some (metadata, env.content)
  else if newSize = 0 then some ({ metadata with chunkLocations := [], size := 0 }, env.content)
  else if metadata.size < newSize then some ({ metadata with size := newSize }, env.content)
  else if metadata.chunkLocations.isEmpty then some ({ metadata with size := newSize }, env.content)
  else env.shrink H metadata newSize

end Dfs
