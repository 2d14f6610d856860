import Dfs.Types

/-!
# Healing one chunk

`do_heal_chunk_inner`: a confirmed holder pushes the chunk to target after target; the record's fate is returned. What is read and
answered is `HealEnv`.
-/

namespace Dfs

variable {Id : Type}

structure HealOutcome (Id : Type) where
  chunkId : Id
  locationPut : Option (ChunkLocation Id)
  locationDelete : Option Id
  clearPending : Bool
  broadcast : Bool
  deriving DecidableEq

def HealOutcome.clearOnly (chunkId : Id) : HealOutcome Id := ⟨chunkId, none, none, true, false⟩

inductive HealError where
  | metadataRead
  | locationNotFound
  | noAliveNodes
  | noSourceNode
  /-- No target confirmed: how many were tried, from which source, and the consecutive failures. -/
  | failedToReplicate (targets : Nat) (source : NodeId) (failures : Nat)
  deriving DecidableEq, Repr

inductive HasChunksAnswer where
  | boolVec (values : List Bool)
  | other
  | failed
  deriving DecidableEq, Repr

/-- `values.first().copied().unwrap_or(false)`, and `false` for any other answer. -/
def HasChunksAnswer.holds : HasChunksAnswer → Bool
  | .boolVec values => values.head?.getD false
  | .other | .failed => false

/-- Not in the registry, or the source's answer; an `Ok` is followed by `HasChunks`. -/
inductive PushOutcome where
  | unregistered
  | ok (verify : HasChunksAnswer)
  | notFound
  | other
  | failed
  deriving DecidableEq, Repr

def PushOutcome.confirms : PushOutcome → Bool
  | .ok verify => verify.holds
  | _ => false

def leaderChangeGraceSecs : Nat := 1200

/-- An address is left out: a registered node has one. -/
structure HealEnv (Id : Type) where
  localId : NodeId
  replicationFactor : Nat
  patchState : Except Unit (Option (PatchState Id))
  location : Except Unit (Option (ChunkLocation Id))
  fileExistsById : FileId → Except Unit Bool
  getFile : FileId → Except Unit (Option (FileMetadata Id))
  allNodesOnline : List Bool
  timeSinceBecameLeader : Option Nat
  registered : NodeId → Bool
  hasChunk : Bool
  cancelled : Bool
  /-- `get_nodes_with_capacity_awareness`, for a count. -/
  capacityAwareNodes : Nat → List NodeId
  permit : NodeId → Bool
  /-- What comes of the target at a place of the list. -/
  push : Nat → PushOutcome
  /-- The source's answer to `HasChunks` before the commit. -/
  sourceCheck : HasChunksAnswer
  pushFailures : Nat
  nowMs : Nat

/-! ## Before the chunk is looked for -/

variable (env : HealEnv Id) (chunkId : Id)

def HealEnv.clusterFullyHealthy : Bool :=
  !env.allNodesOnline.isEmpty && env.allNodesOnline.all id &&
    env.timeSinceBecameLeader.all (fun d => decide (leaderChangeGraceSecs ≤ d))

def HealEnv.superseded [DecidableEq Id] (env : HealEnv Id) (chunkId : Id) (file : FileId) : Bool :=
  env.clusterFullyHealthy &&
    match env.getFile file with
    | .ok (some m) => !m.chunkLocations.isEmpty && !m.chunkLocations.any (fun l => decide (l.chunkId = chunkId))
    | _ => false

def HealEnv.guards [DecidableEq Id] (H : ChunkHash Id) (env : HealEnv Id) (chunkId : Id) :
    Except (Except HealError (Option (HealOutcome Id))) (ChunkLocation Id) :=
  if H.looksLikePatchToken chunkId then .error (.ok (some (.clearOnly chunkId)))
  else match env.patchState with
    | .ok (some _) => .error (.ok (some (.clearOnly chunkId)))
    | _ => match env.location with
      | .error _ => .error (.error .metadataRead)
      | .ok none => .error (.error .locationNotFound)
      | .ok (some location) => match location.fileId with
        | none => .error (.ok (some (.clearOnly chunkId)))
        | some file =>
          if ((env.fileExistsById file).toOption.getD true) = false then
            .error (.ok (some ⟨chunkId, none, some chunkId, true, false⟩))
          else if env.superseded chunkId file then .error (.ok (some (.clearOnly chunkId)))
          else .ok location

/-! ## Sources and targets -/

/-- In local storage, and this node is not among those confirmed alive. -/
def HealEnv.localAddedViaFallback (alive : List NodeId) : Bool :=
  !alive.contains env.localId && env.hasChunk && env.registered env.localId

def HealEnv.alive (env : HealEnv Id) (confirmedAliveNodes : List NodeId) : List NodeId :=
  let alive := confirmedAliveNodes.filter env.registered
  if env.localAddedViaFallback alive then alive ++ [env.localId] else alive

def HealEnv.needed (alive : List NodeId) : Nat := env.replicationFactor - alive.length

def HealEnv.targets (alive : List NodeId) : List NodeId :=
  ((env.capacityAwareNodes (env.replicationFactor + env.needed alive)).filter (fun n => !alive.contains n)).take
    (env.needed alive)

def HealEnv.preferredSources (alive : List NodeId) : List NodeId :=
  let remote := alive.filter (fun n => decide (n ≠ env.localId))
  if remote.isEmpty then alive else remote

def HealEnv.sourceId (alive : List NodeId) : Option NodeId :=
  ((env.preferredSources alive).find? env.permit).or (env.preferredSources alive).head?

/-! ## The pushes -/

def HealEnv.pushes (targets : List NodeId) : List (NodeId × PushOutcome) := targets.zipIdx.map (fun t => (t.1, env.push t.2))

/-- The source no longer has the chunk, or all targets were tried. -/
inductive PushLoop where
  | sourceLost (replicated : List NodeId)
  | finished (replicated : List NodeId)
  deriving DecidableEq, Repr

def pushLoop : List (NodeId × PushOutcome) → List NodeId → PushLoop
  | [], replicated => .finished replicated
  | (target, .ok verify) :: rest, replicated =>
    if verify.holds then pushLoop rest (replicated ++ [target]) else pushLoop rest replicated
  | (_, .notFound) :: _, replicated => .sourceLost replicated
  | (_, .unregistered) :: rest, replicated => pushLoop rest replicated
  | (_, .other) :: rest, replicated => pushLoop rest replicated
  | (_, .failed) :: rest, replicated => pushLoop rest replicated

variable (location : ChunkLocation Id)

/-- The source is dropped from the holders; without others the record goes. -/
def sourceLostOutcome (baseNodes : List NodeId) (source : NodeId) : HealOutcome Id :=
  let remaining := baseNodes.filter (fun n => decide (n ≠ source))
  if remaining.isEmpty then ⟨chunkId, none, some chunkId, true, false⟩
  else ⟨chunkId, some { location with nodes := remaining }, none, false, true⟩

def HealEnv.updatedLocation (nodes : List NodeId) : ChunkLocation Id :=
  { location with chunkId := chunkId, nodes := nodes, writtenAt := some env.nowMs }

/-- Written if a target confirmed, unless a fold cancelled the heal or the source lost the chunk. -/
def HealEnv.commit (baseNodes : List NodeId) (source : NodeId) (targets replicated : List NodeId) :
    Except HealError (Option (HealOutcome Id)) :=
  if replicated.isEmpty then .error (.failedToReplicate targets.length source (min (env.pushFailures + 1) (2 ^ 32 - 1)))
  else if env.cancelled then .ok (some (.clearOnly chunkId))
  else if env.sourceCheck.holds then
    .ok (some ⟨chunkId, some (env.updatedLocation chunkId location (baseNodes ++ replicated)), none, true, true⟩)
  else .ok (some (.clearOnly chunkId))

/-- Only a copy of this node that the record misses is written down. -/
def HealEnv.reconcile (viaFallback : Bool) (baseNodes : List NodeId) : HealOutcome Id :=
  if viaFallback && !env.cancelled then ⟨chunkId, some (env.updatedLocation chunkId location baseNodes), none, true, true⟩
  else .clearOnly chunkId

def HealEnv.heal (confirmedAliveNodes : List NodeId) : Except HealError (Option (HealOutcome Id)) :=
  let alive := env.alive confirmedAliveNodes
  if alive.isEmpty then .error .noAliveNodes
  else if env.needed alive = 0 then
    .ok (some (env.reconcile chunkId location
      (env.localAddedViaFallback (confirmedAliveNodes.filter env.registered)) alive))
  else if (env.targets alive).isEmpty then .ok none
  else match env.sourceId alive with
    | none => .error .noSourceNode
    | some source => match pushLoop (env.pushes (env.targets alive)) [] with
      | .sourceLost _ => .ok (some (sourceLostOutcome chunkId location alive source))
      | .finished replicated => env.commit chunkId location alive source (env.targets alive) replicated

def doHealChunkInner [DecidableEq Id] (H : ChunkHash Id) (env : HealEnv Id) (chunkId : Id) (confirmedAliveNodes : List NodeId) :
    Except HealError (Option (HealOutcome Id)) :=
  match env.guards H chunkId with
  | .error result => result
  | .ok location => env.heal chunkId location confirmedAliveNodes

end Dfs
