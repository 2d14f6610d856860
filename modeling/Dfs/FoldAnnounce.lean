import Dfs.Register

/-!
# The announcements of a fold

After a fold a node sends a `ReplicateChunkLocation` with location and generation, and a `ReplicatePatchFold` with the
token, in any order.
-/

namespace Dfs

variable {Id : Type}

/-- The token, the slot, the new location, and its generation. -/
structure FoldResult (Id : Type) where
  publicToken : Id
  slot : Slot
  location : ChunkLocation Id
  generation : Nat
  offset : slotOf location = some slot.2

inductive FoldResponse (Id : Type) where
  | foldReceipt (applied : Bool) (currentChunkId : Id)
  | error (message : String) (code : ErrorCode)
  deriving DecidableEq, Repr

variable [DecidableEq Id]

def Node.recordFold (s : Node Id) (token real : Id) : Node Id :=
  { s.updatePatchStateFolded token real with foldResultChunkIds := Function.update s.foldResultChunkIds real true }

/-- For an old sender the location is the chunk's row. -/
def Node.handleReplicatePatchFold (s : Node Id) (env : RegisterEnv Id) (foldWrite : Except String Unit) (token real : Id)
    (slot : Slot) (location : Option (ChunkLocation Id)) : Node Id × FoldResponse Id :=
  match foldWrite with
  | .error e => (s, .error ("Failed to record patch fold: " ++ e) .internalError)
  | .ok _ =>
    let s := s.recordFold token real
    let s : Node Id := match location.or (s.readRow env real) with
      | some loc =>
        if loc.fileOffset.isSome then (s.chunkMapUpdateLocationForFile env.durabilityFloor env.seqReadable slot.1 loc).1 else s
      | none => s
    let s : Node Id := { s with pendingPatchIds := Function.update s.pendingPatchIds token (some slot) }
    let current := (s.occupant slot).map (·.chunkId)
    (s, .foldReceipt (decide (current = some real)) (current.getD real))

def Node.locationThenFold (H : ChunkHash Id) (s : Node Id) (env : RegisterEnv Id) (foldWrite : Except String Unit)
    (r : FoldResult Id) : Node Id :=
  ((s.handleReplicateChunkLocation H env r.location (some r.slot.1) (some r.generation)).1.handleReplicatePatchFold env foldWrite
    r.publicToken r.location.chunkId r.slot (some r.location)).1

def Node.foldThenLocation (H : ChunkHash Id) (s : Node Id) (env : RegisterEnv Id) (foldWrite : Except String Unit)
    (r : FoldResult Id) : Node Id :=
  ((s.handleReplicatePatchFold env foldWrite r.publicToken r.location.chunkId r.slot
    (some r.location)).1.handleReplicateChunkLocation H env r.location (some r.slot.1) (some r.generation)).1

end Dfs
