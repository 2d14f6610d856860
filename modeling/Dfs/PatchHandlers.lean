import Dfs.ApplyPatch

/-!
# The patch handlers

`handle_patch_chunk` and `handle_multi_patch`: the chunk a request is applied to, `apply_patch`, the retry without a
base, the answer. What lies outside the node is `HandlerEnv`.
-/

namespace Dfs

inductive HandlerFault where
  | readChunkSeq | readClaimed | readOccupant | adopt | readLocalBase | putChunkSeq
  deriving DecidableEq, Repr

/-- Both calls of `apply_patch`, the leader's answers, patch states of peers, a read under way, and failing accesses. -/
structure HandlerEnv (Id : Type) where
  first : PatchEnv Id
  second : PatchEnv Id
  gapLeader : Leader Id
  retryLeader : Leader Id
  staleLeader : Leader Id
  peerState : NodeId → Id → Option (PatchState Id)
  prefetch : Option Bytes
  fails : HandlerFault → Bool

def HandlerEnv.quiet {Id : Type} (localNodeId : NodeId) : HandlerEnv Id :=
  ⟨.quiet localNodeId, .quiet localNodeId, .self, .self, .self, fun _ _ => none, none, fun _ => false⟩

inductive PatchResponse (Id : Type) where
  | chunkStale (currentChunkId : Id) (currentNodes : List NodeId)
  | patchResult (newChunkId : Id) (size : Nat) (patchTs chunkSeq : Option Nat)
  | error (message : String) (code : ErrorCode)
  deriving DecidableEq

structure PatchChunk (Id : Type) where
  chunkId : Id
  fileId : FileId
  chunkIdx : Option Nat
  chunkFileOffset : Nat
  intraOffset : Nat
  patchData : Bytes
  newChunkSeq : Option Nat

/-- The expected identity is not read, and the hints start reads only. -/
structure MultiPatch (Id : Type) where
  chunkId : Id
  fileId : FileId
  chunkIdx : Option Nat
  chunkFileOffset : Nat
  patches : Extents
  clientWriteSeq : Option Nat
  newChunkSeq : Option Nat

variable {Id : Type} [DecidableEq Id]

/-! ## Which chunk a request is applied to -/

variable (s : Node Id)

def Node.patchTokenResolvesTo (fails : Bool) (claimed current : Id) : Bool :=
  !fails && decide (s.patchState claimed = some (.folded current))

variable (env : HandlerEnv Id)

/-- The occupant, if the request does not name it nor a token folded into it. -/
def Node.staleCandidate (file : FileId) (idx : Option Nat) (claimed : Id) : Option (ChunkLocation Id) :=
  (idx.bind (fun i => s.occupant (file, i))).filter (fun loc =>
    decide (loc.chunkId ≠ claimed) && !s.patchTokenResolvesTo (env.fails .readClaimed) claimed loc.chunkId)

variable (req : MultiPatch Id)

/-- When the chunk sequence runs ahead of the recorded one. -/
def Node.refreshAfterGap : Id :=
  match req.chunkIdx, req.newChunkSeq with
  | some idx, some newSeq =>
    match (if env.fails .readChunkSeq then none else s.chunkSeq (req.fileId, idx)) with
    | some current =>
      if current + 1 < newSeq then
        match s.refreshSlotFromLeader env.gapLeader (req.fileId, idx) req.chunkId with
        | some fresh => fresh.chunkId
        | none => req.chunkId
      else req.chunkId
    | none => req.chunkId
  | _, _ => req.chunkId

/-- The occupant when the request is stale and the occupant is on disk or has a patch state, else what is named. -/
def Node.rebaseOntoOccupant (claimed : Id) : Id :=
  match s.staleCandidate env req.fileId req.chunkIdx claimed with
  | some loc =>
    if s.hasChunk loc.chunkId || (!env.fails .readOccupant && (s.patchState loc.chunkId).isSome) then loc.chunkId
    else claimed
  | none => claimed

/-- It passes no write sequence. -/
def PatchChunk.call (req : PatchChunk Id) : PatchCall Id :=
  ⟨req.chunkId, req.fileId, req.chunkIdx, req.chunkFileOffset, [(req.intraOffset, req.patchData)], none, none, false⟩

def MultiPatch.call (chunkId : Id) (prefetched : Option Bytes) (trust : Bool) : PatchCall Id :=
  ⟨chunkId, req.fileId, req.chunkIdx, req.chunkFileOffset, req.patches, req.clientWriteSeq, prefetched, trust⟩

/-- The ring's, else that of a read under way. -/
def Node.takePrefetched (idx : Option Nat) (chunkId : Id) : Option Bytes :=
  if idx.isNone then (s.chunkRing chunkId).or env.prefetch else none

/-! ## The retry -/

def resolvePatchTokenFromPeers (token : Id) (candidates : List NodeId) : Option (PatchState Id) :=
  candidates.findSome? (fun n => if n = env.second.localNodeId then none else env.peerState n token)

def Node.localBaseIsSelfSufficient (base : Id) : Bool :=
  !env.fails .readLocalBase &&
    match s.patchState base with
    | some (.pending ..) => true
    | some (.folded real) => s.hasChunk real
    | none => (s.chunkTable base).isSome && s.hasChunk base

variable (H : ChunkHash Id) (file : FileId) (idx : Option Nat)

/-- A token's patch state is adopted from a peer, a chunk is pulled. Returns the chunk and is the local base trusted. -/
def Node.prepareRetry (env : HandlerEnv Id) (s : Node Id) (slot : Slot) (offset : Nat) (tried : Id)
    (fresh : ChunkLocation Id) : Node Id × Id × Bool :=
  let pull (s : Node Id) (id : Id) : Node Id × Option Bytes :=
    s.pullChunkFromPeers H env.second id fresh.nodes slot.1 offset
  if H.looksLikePatchToken fresh.chunkId then
    match resolvePatchTokenFromPeers env fresh.chunkId fresh.nodes with
    | some (.pending base delta size writtenAt seq) =>
      let (s, haveDelta) := if s.hasChunk delta then (s, true) else
        let (s, pulled) := pull s delta
        (s, pulled.isSome)
      (if haveDelta && !env.fails .adopt then (s.putPatchStatePending slot fresh.chunkId base delta size writtenAt seq).1
        else s, fresh.chunkId, false)
    | some (.folded real) => ((pull s real).1, real, false)
    | none =>
      let (s, pulled) := pull s fresh.chunkId
      let dead := pulled.isNone && !s.hasChunk fresh.chunkId
      if dead && s.localBaseIsSelfSufficient env tried then (s, tried, true) else (s, fresh.chunkId, false)
  else ((pull s fresh.chunkId).1, fresh.chunkId, false)

/-! ## The answers -/

/-- The new chunk's generation is stamped with the sequence, which is returned. -/
def Node.recordChunkSeq (newSeq : Option Nat) (new : Id) : Node Id × Option Nat :=
  match idx, newSeq with
  | some idx, some seq =>
    if env.fails .putChunkSeq then (s.bumpChunkGeneration new seq, newSeq)
    else
      let (s, effective) := s.putChunkSeq (file, idx) seq
      (s.bumpChunkGeneration new effective, some effective)
  | _, _ => (s, newSeq)

/-- A base that is not there is retriable while the slot has a current chunk. -/
def Node.failedResponse (tried : Id) (e : PatchError) : PatchResponse Id :=
  let current := if e.2 = .notFound then
      idx.bind (fun i => (s.occupant (file, i)).or (s.refreshSlotFromLeader env.staleLeader (file, i) tried))
    else none
  match current with
  | some loc => .chunkStale loc.chunkId loc.nodes
  | none => .error e.1 e.2

def Node.handlePatchChunk (env : HandlerEnv Id) (s : Node Id) (req : PatchChunk Id) : Node Id × PatchResponse Id :=
  match s.staleCandidate env req.fileId req.chunkIdx req.chunkId with
  | some loc => (s, .chunkStale loc.chunkId loc.nodes)
  | none =>
    match s.applyPatch H env.first req.call with
    | (s, .ok r) =>
      match r.rejected with
      | some current => (s, .chunkStale current.chunkId current.nodes)
      | none =>
        let (s, seq) := s.recordChunkSeq env req.fileId req.chunkIdx req.newChunkSeq r.newChunkId
        (s, .patchResult r.newChunkId r.size none seq)
    | (s, .error e) => (s, s.failedResponse env req.fileId req.chunkIdx req.chunkId e)

def Node.multiPatchTarget : Id := s.rebaseOntoOccupant env req (s.refreshAfterGap env req)

def Node.multiPatchCall : PatchCall Id :=
  req.call (s.multiPatchTarget env req) (s.takePrefetched env req.chunkIdx (s.multiPatchTarget env req)) false

/-- The leader's current chunk, after a base that was not there. -/
def Node.retryLocation (tried : Id) (r : Except PatchError (Patched Id)) : Option (Slot × ChunkLocation Id) :=
  match r, req.chunkIdx with
  | .error (_, .notFound), some idx =>
    (s.refreshSlotFromLeader env.retryLeader (req.fileId, idx) tried).map (fun loc => ((req.fileId, idx), loc))
  | _, _ => none

def Node.retryPatch (env : HandlerEnv Id) (s : Node Id) (req : MultiPatch Id) (tried : Id) (prefetched : Option Bytes)
    (slot : Slot) (fresh : ChunkLocation Id) : Node Id × Except PatchError (Patched Id) :=
  let (s, id, trust) := s.prepareRetry H env slot req.chunkFileOffset tried fresh
  s.applyPatch H env.second (req.call id prefetched trust)

/-- The first call, and the second if there is something to retry on. -/
def Node.multiPatchResult (env : HandlerEnv Id) (s : Node Id) (req : MultiPatch Id) : Node Id × Except PatchError (Patched Id) :=
  let call := s.multiPatchCall env req
  let (s', result) := s.applyPatch H env.first call
  match s'.retryLocation env req call.chunkId result with
  | some (slot, fresh) => s'.retryPatch H env req call.chunkId call.prefetched slot fresh
  | none => (s', result)

def Node.handleMultiPatch (env : HandlerEnv Id) (s : Node Id) (req : MultiPatch Id) : Node Id × PatchResponse Id :=
  let target := s.multiPatchTarget env req
  match s.multiPatchResult H env req with
  | (s, .ok r) =>
    match r.rejected with
    | some current => (s, .chunkStale current.chunkId current.nodes)
    | none =>
      let s := s.rekeyRing target r.newChunkId r.buf
      let (s, seq) := s.recordChunkSeq env req.fileId req.chunkIdx req.newChunkSeq r.newChunkId
      (s, .patchResult r.newChunkId r.size r.patchTs seq)
  | (s, .error e) => (s, s.failedResponse env req.fileId req.chunkIdx target e)

inductive PatchRequest (Id : Type) where
  | patchChunk (req : PatchChunk Id)
  | multiPatch (req : MultiPatch Id)

def Node.handlePatch (env : HandlerEnv Id) (s : Node Id) : PatchRequest Id → Node Id × PatchResponse Id
  | .patchChunk req => s.handlePatchChunk H env req
  | .multiPatch req => s.handleMultiPatch H env req

end Dfs
