import Dfs.Liveness
import Dfs.Lib.Transition

/-!
# The orphan sweep of a leader

A page samples the chunk map, drops what is live or has a row, puts up what is seen twice; that is authorised against
every node's rows (or a cached union), checked again, deleted. Each read and deletion is a step; pages may overlap.
-/

namespace Dfs

variable {Id : Type}

def orphanAuthCacheTtl : Nat := 10000

inductive PatchRead where
  | pending
  | tokens
  deriving DecidableEq, Repr

def PatchRead.ids (rows : PatchRows Id) : PatchRead → List Id
  | .pending => allPendingPatchChunkIds rows
  | .tokens => allPatchTokenIds rows

structure PatchSource where
  node : Option NodeId
  read : PatchRead
  deriving DecidableEq, Repr

/-- The leader's two scans, and the peers' answers to `GetOrphanAuthInfo`. -/
def patchSources (peers : List NodeId) : List PatchSource :=
  (none :: peers.map some).flatMap (fun n => [⟨n, .pending⟩, ⟨n, .tokens⟩])

inductive SweepPage (Id : Type) where
  | idle
  | sampled (chunks liveFromChunkMap : List Id)
  | screened (candidates : List (Id × Nat))
  | candidates (candidates : List (Id × Nat))
  | ready (ids : List Id)
  | asking (ids pendingIds : List Id) (remaining : List PatchSource)
  | authorized (ids : List Id)
  | deleting (ids evicted : List Id)

/-- The peers are online and stable. -/
structure Sweep (Id : Type) where
  leader : Node Id
  peer : NodeId → Node Id
  now : Nat
  orphanAuthCache : Option (Nat × List Id)
  orphanCandidates : List Id
  page : Nat → SweepPage Id

def Sweep.nodeAt (s : Sweep Id) : Option NodeId → Node Id
  | none => s.leader
  | some n => s.peer n

@[simps] def Sweep.setPage (s : Sweep Id) (k : Nat) (p : SweepPage Id) : Sweep Id := { s with page := Function.update s.page k p }

/-- An event on the leader or a peer, time that passes, a step of page `k`. -/
inductive SweepAction (Id : Type) where
  | leaderEvent (e : NodeEvent Id)
  | peerEvent (node : NodeId) (e : NodeEvent Id)
  | elapse (ms : Nat)
  | sample (k : Nat) (chunks : List Id) (files : List FileId)
  | screen (k : Nat) (liveFromMetadata : Except Unit (List Id)) (age : Id → Nat)
  | exclude (k : Nat) (readable : Bool)
  | track (k : Nat) (graceSecs : Nat)
  | consultCache (k : Nat)
  | gather (k : Nat) (source : PatchSource) (rows : Except Unit (PatchRows Id))
  | store (k : Nat)
  | recheck (k : Nat) (readable : Bool)
  | delete (k : Nat) (deleted : Bool)
  | purge (k : Nat) (committed : Bool)

def Node.liveChunkIdsFromChunkMap (s : Node Id) (files : List FileId) : List Id :=
  files.flatMap (fun f => (s.locsOf f).map (·.chunkId))

variable [DecidableEq Id] (H : ChunkHash Id)

/-- No patch token, not in the metadata's live set, not in the sampled map. -/
def liveFileCandidates (chunks liveFromChunkMap liveFromMetadata : List Id) (age : Id → Nat) : List (Id × Nat) :=
  (chunks.filter (fun id =>
    !H.looksLikePatchToken id && !(liveFromMetadata.contains id || liveFromChunkMap.contains id))).map (fun id => (id, age id))

def trackCandidates (H : ChunkHash Id) (graceSecs : Nat) : List (Id × Nat) → List Id → List Id × List Id
  | [], tracked => (tracked, [])
  | (id, age) :: rest, tracked =>
    if H.looksLikePatchToken id then trackCandidates H graceSecs rest (tracked.filter (· ≠ id))
    else if age < graceSecs then trackCandidates H graceSecs rest tracked
    else if tracked.contains id then
      let r := trackCandidates H graceSecs rest (tracked.filter (· ≠ id))
      (r.1, id :: r.2)
    else trackCandidates H graceSecs rest (id :: tracked)

variable (s : Sweep Id)

/-- It has no row, or the read of `get_patch_states_present_batch` fails. -/
def Sweep.passesRows (readable : Bool) (id : Id) : Bool := !readable || (s.leader.patchState id).isNone

def Sweep.deferIds (k : Nat) (ids : List Id) : Sweep Id :=
  { s.setPage k .idle with orphanCandidates := ids ++ s.orphanCandidates }

def Sweep.authorize (k : Nat) (ids pendingIds : List Id) : Sweep Id :=
  let authorized := ids.filter (fun id => !pendingIds.contains id)
  s.setPage k (if authorized.isEmpty then .idle else .authorized authorized)

def Sweep.freshCache : Option (List Id) :=
  match s.orphanAuthCache with
  | some (cachedAt, pendingIds) => if s.now - cachedAt < orphanAuthCacheTtl then some pendingIds else none
  | none => none

def Sweep.stepPage (peers : List NodeId) (s : Sweep Id) (k : Nat) : SweepPage Id → SweepAction Id → Sweep Id
  | .idle, .sample _ chunks files => s.setPage k (.sampled chunks (s.leader.liveChunkIdsFromChunkMap files))
  | .sampled chunks fromMap, .screen _ fromMetadata age => match fromMetadata with
    | .ok fromMetadata => s.setPage k (.screened (liveFileCandidates H chunks fromMap fromMetadata age))
    | .error _ => s.setPage k .idle
  | .screened cands, .exclude _ readable => s.setPage k (.candidates (cands.filter (fun c => s.passesRows readable c.1)))
  | .candidates cands, .track _ graceSecs =>
    let r := trackCandidates H graceSecs cands s.orphanCandidates
    { s.setPage k (if r.2.isEmpty then .idle else .ready r.2) with orphanCandidates := r.1 }
  | .ready ids, .consultCache _ => match s.freshCache with
    | some pendingIds => s.authorize k ids pendingIds
    | none => s.setPage k (.asking ids [] (patchSources peers))
  | .asking ids pendingIds remaining, .gather _ source rows =>
    if remaining.contains source then
      match rows with
      | .ok rows => s.setPage k (.asking ids (pendingIds ++ source.read.ids rows) (remaining.filter (· ≠ source)))
      | .error _ => s.deferIds k ids
    else s
  | .asking ids pendingIds [], .store _ =>
    Sweep.authorize { s with orphanAuthCache := some (s.now, pendingIds) } k ids pendingIds
  | .authorized ids, .recheck _ readable =>
    let left := ids.filter (s.passesRows readable)
    s.setPage k (if left.isEmpty then .idle else .deleting left [])
  | .deleting (id :: rest) evicted, .delete _ deleted =>
    if H.looksLikePatchToken id then s.setPage k (.deleting rest evicted)
    else if deleted then { s.setPage k (.deleting rest (evicted ++ [id])) with leader := s.leader.deleteChunk id }
    else s.setPage k (.deleting rest evicted)
  | .deleting [] evicted, .purge _ committed =>
    { s.setPage k .idle with leader := if committed then evicted.foldl Node.deleteChunkLocation s.leader else s.leader }
  | _, _ => s

def SweepAction.pageIndex : SweepAction Id → Option Nat
  | .leaderEvent _ | .peerEvent .. | .elapse _ => none
  | .sample k .. | .screen k .. | .exclude k _ | .track k _ | .consultCache k | .gather k .. | .store k |
    .recheck k _ | .delete k _
  | .purge k _ => some k

def Sweep.step (peers : List NodeId) (s : Sweep Id) (a : SweepAction Id) : Sweep Id :=
  match a with
  | .leaderEvent e => { s with leader := e.run H s.leader }
  | .peerEvent n e => { s with peer := Function.update s.peer n (e.run H (s.peer n)) }
  | .elapse ms => { s with now := s.now + ms }
  | a => match a.pageIndex with
    | some k => s.stepPage H peers k (s.page k) a
    | none => s

def Sweep.deletes : SweepAction Id → Option Id
  | .delete k true => match s.page k with
    | .deleting (id :: _) _ => if H.looksLikePatchToken id then none else some id
    | _ => none
  | _ => none

end Dfs
