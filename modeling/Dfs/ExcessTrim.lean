import Dfs.Types
import Mathlib.Data.List.MinMax
import Mathlib.Data.List.Sort

/-!
# Trimming an excess replica

`do_cleanup_excess_inner`: of too many confirmed holders one deletes its copy and leaves the record. What is read and answered is
`TrimEnv`.
-/

namespace Dfs

variable {Id : Type}

inductive DeleteAnswer where
  | ok
  | other
  | failed
  deriving DecidableEq, Repr

inductive TrimError where
  | metadataRead
  | locationNotFound
  deriving DecidableEq, Repr

/-- An address is left out: a registered node has one. -/
structure TrimEnv (Id : Type) where
  localId : NodeId
  replicationFactor : Nat
  location : Except Unit (Option (ChunkLocation Id))
  registered : NodeId → Bool
  /-- The available bytes of a node, if its capacity is known and less than a minute old. -/
  available : NodeId → Option Nat
  localDelete : Bool
  remoteDelete : NodeId → DeleteAnswer
  putLocation : Bool
  nowMs : Nat

/-- The node that deleted its copy, and the record written and broadcast. -/
structure TrimOutcome (Id : Type) where
  trimmed : NodeId
  record : Option (ChunkLocation Id)
  deriving DecidableEq

variable (env : TrimEnv Id)

/-- The first with the least available space; unknown counts as half of `u64::MAX`. -/
def TrimEnv.mostUtilizedNode (nodeIds : List NodeId) : Option NodeId :=
  nodeIds.argmin (fun n => (env.available n).getD (u64Max / 2))

variable (alive : List NodeId)

def lowestPair : List NodeId := (alive.insertionSort (· ≤ ·)).take 2

/-- The nodes outside of the pair, or all if there are none. -/
def trimCandidates : List NodeId :=
  let nonPairIds := alive.filter (fun n => !(lowestPair alive).contains n)
  if nonPairIds.isEmpty then alive else nonPairIds

def TrimEnv.trimId : Option NodeId := (env.mostUtilizedNode (trimCandidates alive)).or (trimCandidates alive).getLast?

def TrimEnv.deletes (n : NodeId) : Bool := if n = env.localId then env.localDelete else decide (env.remoteDelete n = .ok)

/-- Nothing if the holders are not too many or the copy is not deleted. -/
def doCleanupExcessInner (H : ChunkHash Id) (env : TrimEnv Id) (chunkId : Id) (confirmedAliveNodes : List NodeId) :
    Except TrimError (Option (TrimOutcome Id)) :=
  if H.looksLikePatchToken chunkId then .ok none
  else match env.location with
    | .error _ => .error .metadataRead
    | .ok none => .error .locationNotFound
    | .ok (some location) =>
      let alive := confirmedAliveNodes.filter env.registered
      if alive.length - env.replicationFactor = 0 then .ok none
      else match env.trimId alive with
        | none => .ok none
        | some trimId =>
          if !alive.contains trimId then .ok none
          else if env.deletes trimId then
            let updatedLocation : ChunkLocation Id :=
              { location with
                chunkId := chunkId
                nodes := location.nodes.filter (fun n => decide (n ≠ trimId))
                writtenAt := some env.nowMs }
            .ok (some ⟨trimId, if env.putLocation then some updatedLocation else none⟩)
          else .ok none

def doCleanupExcessShared [DecidableEq Id] (H : ChunkHash Id) (env : TrimEnv Id) (inFlightHealing : List Id) (chunkId : Id)
    (confirmedAliveNodes : List NodeId) : List Id × Except TrimError (Option (TrimOutcome Id)) :=
  if inFlightHealing.contains chunkId then (inFlightHealing, .ok none)
  else
    let inFlight := inFlightHealing.insert chunkId
    (inFlight.erase chunkId, doCleanupExcessInner H env chunkId confirmedAliveNodes)

end Dfs
