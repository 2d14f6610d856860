import Dfs.Lib.Registry
import Dfs.Lib.Transition
import Dfs.Types

/-!
# The cluster manager

The nodes known with their status, the ring's members, and the size majorities are measured against. Each function is
one step, with its time.
-/

namespace Dfs

inductive NodeStatus where
  | online | suspected | failed | leaving
  deriving DecidableEq, Repr

structure NodeInfo where
  id : NodeId
  status : NodeStatus
  lastHeartbeat : Nat
  /-- When the node entered `Leaving`, 0 if it has not. -/
  leavingAt : Nat
  deriving DecidableEq, Repr

def NodeInfo.new (id : NodeId) (now : Nat) : NodeInfo := ⟨id, .online, now, 0⟩

structure NodeHealthGossip where
  nodeId : NodeId
  status : NodeStatus
  lastSeen : Nat
  deriving DecidableEq, Repr

def ringAdd (ring : List NodeId) (id : NodeId) : List NodeId := if id ∈ ring then ring else ring ++ [id]

def ringRemove (ring : List NodeId) (id : NodeId) : List NodeId := ring.filter fun n => decide (n ≠ id)

variable {ring : List NodeId} {id k : NodeId}

@[simp] lemma mem_ringAdd : k ∈ ringAdd ring id ↔ k ∈ ring ∨ k = id := by
  unfold ringAdd
  split
  · rename_i hmem
    refine ⟨Or.inl, ?_⟩
    rintro (hk | rfl)
    · exact hk
    · exact hmem
  · rw [List.mem_append, List.mem_singleton]

lemma mem_foldl_ringAdd {ids : List NodeId} : k ∈ ids.foldl ringAdd ring ↔ k ∈ ring ∨ k ∈ ids := by
  induction ids generalizing ring with
  | nil => simp
  | cons id rest ih => rw [List.foldl_cons, ih, mem_ringAdd, List.mem_cons, or_assoc]

@[simp] lemma mem_ringRemove : k ∈ ringRemove ring id ↔ k ∈ ring ∧ k ≠ id := by
  rw [ringRemove, List.mem_filter, decide_eq_true_iff]

structure ClusterManager where
  localNodeId : NodeId
  nodes : Registry NodeInfo.id
  hashRing : List NodeId
  failureTimeout : Nat
  knownClusterSize : Nat

def leavingGraceSecs : Nat := 60

namespace ClusterManager

def new (localNodeId : NodeId) (failureTimeout now : Nat) : ClusterManager :=
  ⟨localNodeId, .singleton (NodeInfo.new localNodeId now), [localNodeId], failureTimeout, 1⟩

/-! ## The size of the cluster and its leader -/

variable (s : ClusterManager)

def noteClusterSize (n : Nat) : ClusterManager := { s with knownClusterSize := max s.knownClusterSize n }

def initKnownClusterSize (persisted : Option Nat) (membersHint : Nat) : ClusterManager :=
  let s := { s with knownClusterSize := max s.knownClusterSize (persisted.getD 0) }
  s.noteClusterSize (max membersHint s.nodes.values.length)

def forgetClusterMember : ClusterManager :=
  { s with knownClusterSize := max (max (s.knownClusterSize - 1) s.nodes.values.length) 1 }

def quorumOf (membersSeen : Nat) : Nat := max membersSeen s.knownClusterSize / 2 + 1

def onlineIds : List NodeId := (s.nodes.values.filter fun n => decide (n.status = .online)).map NodeInfo.id

def leaderWithQuorum : Option NodeId := if s.onlineIds.length < s.quorumOf s.nodes.values.length then none else s.onlineIds.min?

/-! ## Members and their status -/

def addNode (info : NodeInfo) : ClusterManager :=
  let nodes := s.nodes.insert info
  { s with nodes := nodes, hashRing := ringAdd s.hashRing info.id }.noteClusterSize nodes.values.length

def removeNode (id : NodeId) : ClusterManager :=
  if s.nodes.contains id then { s with nodes := s.nodes.remove id, hashRing := ringRemove s.hashRing id } else s

def updateHeartbeat (id : NodeId) (now : Nat) : ClusterManager :=
  { s with nodes := s.nodes.modify id (fun n => { n with lastHeartbeat := now, status := .online }) fun _ => rfl }

end ClusterManager

/-- A newer entry has its time taken over and, if online, revives a failed or suspected node. -/
def NodeInfo.heard (e : NodeHealthGossip) (n : NodeInfo) : NodeInfo :=
  if n.lastHeartbeat < e.lastSeen then
    { n with
      lastHeartbeat := e.lastSeen
      status := if e.status = .online ∧ (n.status = .failed ∨ n.status = .suspected) then .online else n.status }
  else n

lemma NodeInfo.id_heard (e : NodeHealthGossip) (n : NodeInfo) : (n.heard e).id = n.id := by
  unfold NodeInfo.heard
  split <;> rfl

inductive NodeVerdict where
  | unchanged
  | fails
  | recovers
  | purged
  deriving DecidableEq, Repr

variable (failureTimeout now : Nat) (n : NodeInfo)

def NodeInfo.isTimedOut : Bool := decide (failureTimeout < now - n.lastHeartbeat)

def NodeInfo.graceExpired : Bool := decide (0 < n.leavingAt ∧ leavingGraceSecs < now - n.leavingAt)

def NodeInfo.check : NodeInfo × NodeVerdict :=
  let isTimedOut := n.isTimedOut failureTimeout now
  match n.status with
  | .online => if isTimedOut then ({ n with status := .suspected }, .unchanged) else (n, .unchanged)
  | .suspected => if isTimedOut then ({ n with status := .failed }, .fails) else ({ n with status := .online }, .recovers)
  | .failed =>
    if !isTimedOut then ({ n with status := .online }, .recovers)
    -- `purge_threshold`
    else if failureTimeout * 24 * 3600 / failureTimeout < now - n.lastHeartbeat then (n, .purged)
    else (n, .unchanged)
  | .leaving =>
    if n.graceExpired now then ({ n with status := .failed }, .fails)
    else if !isTimedOut then ({ n with status := .online, leavingAt := 0 }, .recovers)
    else (n, .unchanged)

lemma NodeInfo.id_check : (n.check failureTimeout now).1.id = n.id := by
  unfold NodeInfo.check
  cases n.status <;> dsimp only <;> split <;> (try split) <;> rfl

namespace ClusterManager

variable (s : ClusterManager)

def mergeGossipEntry (e : NodeHealthGossip) : ClusterManager :=
  if e.nodeId = s.localNodeId then s
  else
    let resurrected := s.nodes.values.any fun n =>
      decide (n.id = e.nodeId ∧ n.lastHeartbeat < e.lastSeen ∧ e.status = .online ∧ n.status = .failed)
    { s with
      nodes := s.nodes.modify e.nodeId (NodeInfo.heard e) (NodeInfo.id_heard e)
      hashRing := if resurrected then ringAdd s.hashRing e.nodeId else s.hashRing }

def mergeClusterGossip (gossip : List NodeHealthGossip) : ClusterManager := gossip.foldl mergeGossipEntry s

def setLeaving (id : NodeId) (now : Nat) : ClusterManager :=
  { s with
    nodes := s.nodes.modify id (fun n => { n with status := .leaving, leavingAt := now, lastHeartbeat := 0 }) fun _ => rfl
    hashRing := ringRemove s.hashRing id }

variable (now : Nat)

def announceLeaving : ClusterManager :=
  { s with nodes := s.nodes.modify s.localNodeId (fun n => { n with status := .leaving, leavingAt := now }) fun _ => rfl }

def announceRecovery : ClusterManager :=
  { s with
    nodes := s.nodes.modify s.localNodeId (fun n => { n with status := .online, leavingAt := 0 }) fun _ => rfl
    hashRing := ringAdd s.hashRing s.localNodeId }

def judge (n : NodeInfo) : NodeInfo × NodeVerdict :=
  if n.id = s.localNodeId then (n, .unchanged) else n.check s.failureTimeout now

lemma id_judge (n : NodeInfo) : (s.judge now n).1.id = n.id := by
  unfold judge
  split
  · rfl
  · exact n.id_check s.failureTimeout now

def judged (v : NodeVerdict) : List NodeId := (s.nodes.values.filter fun n => decide ((s.judge now n).2 = v)).map NodeInfo.id

lemma mem_judged_iff {s : ClusterManager} (v : NodeVerdict) {n : NodeInfo} (hn : n ∈ s.nodes) :
    n.id ∈ s.judged now v ↔ (s.judge now n).2 = v := by
  unfold judged
  rw [List.mem_map]
  constructor
  · rintro ⟨m, hm, hid⟩
    obtain ⟨hmem, hv⟩ := List.mem_filter.mp hm
    rw [← Registry.eq_of_key_eq hmem hn hid]
    exact of_decide_eq_true hv
  · intro hv
    exact ⟨n, List.mem_filter.mpr ⟨hn, decide_eq_true hv⟩, rfl⟩

/-- Failed nodes leave the ring, recovered ones join it, purged ones are forgotten. -/
def checkFailedNodes : ClusterManager :=
  { s with
    nodes := (s.nodes.mapValues (fun n => (s.judge now n).1) (s.id_judge now)).filter fun n =>
      decide (n.id ∉ s.judged now .purged)
    hashRing := (s.judged now .recovers).foldl ringAdd ((s.judged now .fails).foldl ringRemove s.hashRing) }

def markNodeRecovered (id : NodeId) (now : Nat) : ClusterManager :=
  let recovered := s.nodes.values.any fun n => decide (n.id = id ∧ n.status = .failed)
  { s with
    nodes := s.nodes.modify id (fun n => if n.status = .failed then { n with status := .online, lastHeartbeat := now } else n)
      fun n => by split <;> rfl
    hashRing := if recovered then ringAdd s.hashRing id else s.hashRing }

end ClusterManager

/-! ## Runs -/

inductive ClusterCall where
  | addNode (info : NodeInfo)
  | removeNode (id : NodeId)
  | updateHeartbeat (id : NodeId) (now : Nat)
  | mergeClusterGossip (gossip : List NodeHealthGossip)
  | setLeaving (id : NodeId) (now : Nat)
  | announceLeaving (now : Nat)
  | announceRecovery
  | checkFailedNodes (now : Nat)
  | markNodeRecovered (id : NodeId) (now : Nat)
  | initKnownClusterSize (persisted : Option Nat) (membersHint : Nat)
  | noteClusterSize (n : Nat)
  | forgetClusterMember

def ClusterManager.step (s : ClusterManager) : ClusterCall → ClusterManager
  | .addNode info => s.addNode info
  | .removeNode id => s.removeNode id
  | .updateHeartbeat id now => s.updateHeartbeat id now
  | .mergeClusterGossip gossip => s.mergeClusterGossip gossip
  | .setLeaving id now => s.setLeaving id now
  | .announceLeaving now => s.announceLeaving now
  | .announceRecovery => s.announceRecovery
  | .checkFailedNodes now => s.checkFailedNodes now
  | .markNodeRecovered id now => s.markNodeRecovered id now
  | .initKnownClusterSize persisted membersHint => s.initKnownClusterSize persisted membersHint
  | .noteClusterSize n => s.noteClusterSize n
  | .forgetClusterMember => s.forgetClusterMember

inductive ClusterMessage where
  | heartbeat (nodeInfo : NodeInfo) (clusterView : List NodeHealthGossip)
  | join (nodeInfo : NodeInfo)
  | leave (nodeId : NodeId)
  | joinRequest (nodeInfo : NodeInfo)
  | nodeJoined (nodeInfo : NodeInfo)
  | leaderAnnouncement (nodeId : NodeId)
  | gracefulLeave (nodeId : NodeId)

def ClusterMessage.sender : ClusterMessage → Option NodeId
  | .heartbeat nodeInfo _ | .join nodeInfo | .joinRequest nodeInfo => some nodeInfo.id
  | .leave nodeId | .leaderAnnouncement nodeId | .gracefulLeave nodeId => some nodeId
  | .nodeJoined _ => none

def ClusterMessage.calls (s : ClusterManager) (now : Nat) : ClusterMessage → List ClusterCall
  | .heartbeat nodeInfo clusterView =>
    [.addNode nodeInfo, .updateHeartbeat nodeInfo.id now] ++
      if clusterView.isEmpty then [] else [.mergeClusterGossip clusterView]
  | .join nodeInfo | .joinRequest nodeInfo => [.addNode nodeInfo, .updateHeartbeat nodeInfo.id now]
  | .leave nodeId => [.removeNode nodeId]
  | .nodeJoined nodeInfo => if s.nodes.contains nodeInfo.id then [] else [.addNode nodeInfo]
  | .leaderAnnouncement nodeId => if nodeId < s.localNodeId then [.addNode (NodeInfo.new nodeId now)] else []
  | .gracefulLeave nodeId => [.setLeaving nodeId now]

end Dfs
