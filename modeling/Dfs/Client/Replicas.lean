import Dfs.Types
import Mathlib.Data.List.Sort

/-!
# Writing and patching a chunk on its replicas

`write_chunk_to_replicas` and `multi_patch_chunk_on_replicas_inner`. Requests are their answers; only the round's
refresh changes the address map.
-/

namespace Dfs

abbrev SocketAddr := Nat

/-- The client's `addr_to_node_id`, for distinct nodes, and its inverse. -/
structure AddrMap where
  nodeId : SocketAddr → Option NodeId
  addr : NodeId → Option SocketAddr
  inverse : ∀ a n, nodeId a = some n ↔ addr n = some a

variable {Id : Type}

/-! ## A fresh write -/

/-- The chunks stored with their sizes, an error, or nothing. -/
inductive WriteAnswer (Id : Type) where
  | chunkIds (ids : List (Id × Nat))
  | ioError
  | refused
  | failed

def WriteAnswer.counts : WriteAnswer Id → Bool
  | .chunkIds _ | .refused => true
  | .ioError | .failed => false

structure ReplicaWrite (Id : Type) where
  replica1 : SocketAddr
  replica2 : SocketAddr
  fileOffset : Nat
  fileId : FileId
  allNodes : List SocketAddr
  sortByHealth : List SocketAddr → List SocketAddr
  addrToNodeId : AddrMap
  nodeIdFromAddr : SocketAddr → NodeId
  writeSeq : Option Nat
  answers : List (WriteAnswer Id)

namespace ReplicaWrite

variable (w : ReplicaWrite Id)

def candidates : List SocketAddr :=
  w.replica1 :: w.replica2 :: w.sortByHealth (w.allNodes.filter fun n => n ≠ w.replica1 ∧ n ≠ w.replica2)

def successful : List (SocketAddr × WriteAnswer Id) := ((w.candidates.zip w.answers).filter (·.2.counts)).take 2

def resolveNodeId (a : SocketAddr) : NodeId := (w.addrToNodeId.nodeId a).getD (w.nodeIdFromAddr a)

def locations (nodes : List NodeId) : Nat → List (Id × Nat) → Locations Id
  | _, [] => []
  | offset, (id, size) :: ids => ⟨id, nodes, size, some offset, none, w.writeSeq, some w.fileId⟩ ::
    locations nodes (offset + size) ids

/-- `write_chunk_to_replicas`. That the two name different chunks is only logged. -/
def run : Option (Locations Id) :=
  match w.successful with
  | [(addr1, .chunkIds ids1), (addr2, .chunkIds ids2)] =>
    if ids1.length = ids2.length then some (w.locations [w.resolveNodeId addr1, w.resolveNodeId addr2] w.fileOffset ids1)
      else none
  | _ => none

end ReplicaWrite

/-! ## Patching -/

/-- The new chunk, the slot's chunk instead of the base with its nodes, or an error that may pass or not. -/
inductive PatchAnswer (Id : Type) where
  | patched (id : Id) (size : Nat) (patchTs : Option Nat)
  | chunkStale (id : Id) (nodes : List NodeId)
  | transient
  | error

inductive CopyAnswer where
  | ok | other | err
  deriving DecidableEq

structure BaseLocation (Id : Type) where
  chunkId : Id
  nodes : List NodeId

/-- The addresses before and after a refresh, the nodes, and the answers to patches, copies and a fold. -/
structure PatchRound (Id : Type) where
  addrToNodeId : AddrMap
  refreshed : AddrMap
  clusterNodes : List SocketAddr
  distinct : clusterNodes.Nodup
  leaderAddr : Option SocketAddr
  singleChunkLocation : Option (BaseLocation Id)
  answer : SocketAddr → PatchAnswer Id
  revalidated : Option (BaseLocation Id)
  withinBudget : Bool
  sortByHealth : List SocketAddr → List SocketAddr
  sorts : ∀ l, (sortByHealth l).Perm l
  readBack : Bool
  copies : List (SocketAddr → CopyAnswer)
  foldDue : Bool
  folds : SocketAddr → Option (Id × Nat)
  now : Nat
  writeSeq : Nat

structure ReplicaPatch where
  chunkIdx : Option Nat
  fileId : FileId
  fileOffset : Option Nat
  dualRf : Bool
  replicationFactor : Nat

def maxStaleRetryAttempts : Nat := 4

/-- The map it resolves with, the chunk's nodes, and the addresses. -/
structure Targets where
  known : AddrMap
  nodes : List NodeId
  addrs : List SocketAddr

variable (call : ReplicaPatch)

namespace PatchRound

variable (r : PatchRound Id)

/-- Of the base's nodes, after a refresh of them or of the leader's, or else of all. -/
def replicaAddrs (nodes : List NodeId) : Targets :=
  let resolved := if nodes = [] then r.clusterNodes else nodes.filterMap r.addrToNodeId.addr
  if resolved ≠ [] then ⟨r.addrToNodeId, nodes, resolved⟩
  else
    let again := nodes.filterMap r.refreshed.addr
    let fresh := if call.chunkIdx.isSome then (r.singleChunkLocation.map (·.nodes)).getD [] else []
    if again ≠ [] then ⟨r.refreshed, nodes, again⟩
    else if fresh.filterMap r.refreshed.addr ≠ [] then ⟨r.refreshed, fresh, fresh.filterMap r.refreshed.addr⟩
    else ⟨r.refreshed, nodes, r.clusterNodes⟩

def leaderFirst : List SocketAddr → List SocketAddr
  | [] => []
  | a :: rest =>
    match r.leaderAddr.filter (fun la => la ≠ a ∧ la ∈ rest) with
    | some la => la :: (a :: rest.erase la).insertionSort (· ≤ ·)
    | none => a :: rest.insertionSort (· ≤ ·)

def targets (nodes : List NodeId) : Targets :=
  let t := r.replicaAddrs call nodes
  { t with addrs := if call.dualRf then (r.leaderFirst t.addrs).take 2 else r.leaderFirst t.addrs }

def patchedTo (a : SocketAddr) : Option (Id × Nat × Option Nat) :=
  match r.answer a with
  | .patched id size patchTs => some (id, size, patchTs)
  | _ => none

def authoritative (addrs : List SocketAddr) : Option (Id × Nat × Option Nat) :=
  ((r.leaderAddr.filter (· ∈ addrs)).bind r.patchedTo).or (addrs.findSome? r.patchedTo)

def holds [DecidableEq Id] (id : Id) (a : SocketAddr) : Bool :=
  match r.answer a with
  | .patched id' _ _ => decide (id' = id)
  | .chunkStale id' _ => decide (id' = id)
  | _ => false

/-- Each address is asked until enough nodes have the chunk, and again in the next pass if not reached. -/
def copyPass (required : Nat) (known : AddrMap) (answer : SocketAddr → CopyAnswer) :
    List SocketAddr → List NodeId → List NodeId × List SocketAddr
  | [], patched => (patched, [])
  | a :: rest, patched =>
    let still := fun q : List NodeId × List SocketAddr => (q.1, a :: q.2)
    if required ≤ patched.length then still (copyPass required known answer rest patched)
    else match answer a with
      | .ok => copyPass required known answer rest (patched ++ (known.nodeId a).toList)
      | .other => copyPass required known answer rest patched
      | .err => still (copyPass required known answer rest patched)

def backfill (required : Nat) (known : AddrMap) : List (SocketAddr → CopyAnswer) → List NodeId → List SocketAddr → List NodeId
  | [], patched, _ => patched
  | answer :: copies, patched, remaining =>
    if required ≤ patched.length then patched
    else
      let pass := copyPass required known answer remaining patched
      backfill required known copies pass.1 pass.2

variable [DecidableEq Id]

/-- The nodes of the targets that hold the chunk. -/
def heldBy (t : Targets) (id : Id) : List NodeId := (t.addrs.filter (r.holds id)).filterMap t.known.nodeId

/-- Who is offered a copy: the other targets, and as many nodes beyond the targets as are missing. -/
def missing (t : Targets) (id : Id) : List SocketAddr :=
  let needed := max (writeQuorum call.replicationFactor - (r.heldBy t id).length) 1
  t.addrs.filter (fun a => !(t.known.nodeId a).any (· ∈ r.heldBy t id)) ++
    (r.sortByHealth (r.clusterNodes.filter (· ∉ t.addrs))).take needed

/-- The targets that hold the chunk, and if too few those that accept a copy. -/
def patchedNodeIds (t : Targets) (id : Id) : List NodeId :=
  if r.readBack then backfill (writeQuorum call.replicationFactor) t.known r.copies (r.heldBy t id) (r.missing call t id)
  else r.heldBy t id

/-- What the targets have folded to, if all name the same chunk. -/
def folded (t : Targets) (nodes : List NodeId) : Option (Id × Nat) :=
  if call.chunkIdx.isSome && r.foldDue then
    match (t.addrs.filter (fun a => (t.known.nodeId a).any (· ∈ nodes))).map r.folds with
    | some x :: rest => if rest.all (fun y => y.any (fun y => y.1 = x.1)) then some x else none
    | _ => none
  else none

def location (t : Targets) (auth : Id × Nat × Option Nat) : ChunkLocation Id :=
  let nodes := r.patchedNodeIds call t auth.1
  let new := (r.folded call t nodes).getD (auth.1, auth.2.1)
  ⟨new.1, nodes, new.2, call.fileOffset, some (auth.2.2.getD r.now), some r.writeSeq, some call.fileId⟩

/-- One that is stale but current is looked up once more. -/
def corrected (base fresh : BaseLocation Id) (revalidateDone : Bool) : BaseLocation Id :=
  if fresh.chunkId = base.chunkId ∧ revalidateDone = false ∧ call.chunkIdx.isSome then
    (r.revalidated.filter (fun loc => loc.chunkId ≠ base.chunkId)).getD fresh
  else fresh

def staleRetry (addrs : List SocketAddr) : Option (BaseLocation Id) :=
  addrs.findSome? fun a => match r.answer a with
    | .chunkStale id nodes => some ⟨id, nodes⟩
    | _ => none

def allTransient (addrs : List SocketAddr) : Bool := addrs.all fun a => match r.answer a with
  | .transient => true
  | _ => false

end PatchRound

/-- The round in which a target patches the base, with the result that counts. -/
def ReplicaPatch.lastRound [DecidableEq Id] (base : BaseLocation Id) (staleRetryAttempts : Nat) (revalidateDone : Bool) :
    List (PatchRound Id) → Option (PatchRound Id × Targets × Id × Nat × Option Nat)
  | [] => none
  | r :: rounds =>
    let t := r.targets call base.nodes
    match r.authoritative t.addrs, r.staleRetry t.addrs with
    | some auth, _ => some (r, t, auth)
    | none, some fresh =>
      if staleRetryAttempts < maxStaleRetryAttempts then
        lastRound (r.corrected call base fresh revalidateDone) (staleRetryAttempts + 1)
          (revalidateDone || decide (fresh.chunkId = base.chunkId)) rounds
      else none
    | none, none =>
      if t.addrs ≠ [] ∧ r.allTransient t.addrs ∧ r.withinBudget then
        lastRound { base with nodes := t.nodes } staleRetryAttempts revalidateDone rounds
      else none

def ReplicaPatch.run [DecidableEq Id] (base : BaseLocation Id) (rounds : List (PatchRound Id)) : Option (ChunkLocation Id) :=
  (call.lastRound base 0 false rounds).map fun (r, t, auth) => r.location call t auth

end Dfs
