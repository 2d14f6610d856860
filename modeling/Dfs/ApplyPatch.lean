import Dfs.Node

/-!
# `apply_patch`

A patch of a slot goes into its accumulator, or starts one over the base, and the slot moves to a fresh token; without
a slot the chunk is rewritten at once. A failing stage leaves what was done. What lies outside the node is `PatchEnv`.
-/

namespace Dfs

open LittleEndian Overlay Function

/-- The steps of a patch that can fail. A write fails before its file is in place or at the sync after. -/
inductive Fault where
  | readPatchState | readChunkLocation | readPriorDelta
  | openPriorDelta | appendDelta | syncDelta | createDir | renameDelta | syncDurable
  | writeDelta | syncWrittenDelta | commitPatchState | putChunkLocation | deleteChunkLocation
  | readBase | writeConsolidated | syncConsolidated | unlinkOld
  deriving DecidableEq, Repr

/-- This node's own chunk map when it leads, else what the leader answers, if it does. -/
inductive Leader (Id : Type) where
  | self
  | other (answer : Option (ChunkLocation Id))

structure PatchEnv (Id : Type) where
  localNodeId : NodeId
  nowMs : Nat
  nowSecs : Nat
  leader : Leader Id
  /-- the bytes a peer serves for a chunk -/
  peerChunk : NodeId → Id → Option Bytes
  fails : Fault → Bool
  /-- how many bytes reach the file when the append fails -/
  appended : Nat
  osError : String

def PatchEnv.quiet {Id : Type} (localNodeId : NodeId) : PatchEnv Id where
  localNodeId := localNodeId
  nowMs := 0
  nowSecs := 0
  leader := .self
  peerChunk _ _ := none
  fails _ := false
  appended := 0
  osError := ""

abbrev PatchError := String × ErrorCode

structure PatchCall (Id : Type) where
  chunkId : Id
  fileId : FileId
  chunkIdx : Option Nat
  chunkFileOffset : Nat
  patches : Extents
  clientWriteSeq : Option Nat
  prefetched : Option Bytes
  trustLocalBase : Bool

abbrev PatchCall.seq {Id : Type} (call : PatchCall Id) : Nat := call.clientWriteSeq.getD 0

structure Patched (Id : Type) where
  newChunkId : Id
  size : Nat
  patchTs : Option Nat
  buf : Option Bytes
  rejected : Option (ChunkLocation Id)

/-- Extend the buffer to the largest end, then copy every range. -/
def applyRanges (buf : Bytes) (patches : Extents) : Bytes :=
  patches.foldl (fun b p => copyAt b p.1 p.2) (resize buf (max (extent patches) buf.length))

lemma applyRanges_eq_overlay (buf : Bytes) (patches : Extents) :
    applyRanges buf patches = overlay buf patches := foldl_copyAt_resize buf patches

variable {Id : Type} [DecidableEq Id]

def andThen {α β : Type} (r : Node Id × Except PatchError α)
    (k : Node Id → α → Node Id × Except PatchError β) : Node Id × Except PatchError β :=
  match r with
  | (s, .ok a) => k s a
  | (s, .error e) => (s, .error e)

/-! ## Answers from other nodes -/

/-- The slot's location as the leader has it, if it names another chunk. -/
def Node.refreshSlotFromLeader (s : Node Id) (leader : Leader Id) (slot : Slot) (stale : Id) : Option (ChunkLocation Id) :=
  (match leader with
    | .self => s.occupant slot
    | .other answer => answer).filter (fun l => decide (l.chunkId ≠ stale))

variable (H : ChunkHash Id) (env : PatchEnv Id) (s : Node Id)

/-- The first candidate whose bytes pass the hash check is written to disk. -/
def Node.pullChunkFromPeers (id : Id) (candidates : List NodeId) (file : FileId) (offset : Nat) : Node Id × Option Bytes :=
  let served := candidates.findSome? (fun n =>
    if n = env.localNodeId then none
    else (env.peerChunk n id).filter (fun b => decide (H.computeChunkHashAt b offset file = id)))
  match served with
  | some b => (s.writeChunk id b, some b)
  | none => (s, none)

/-! ## Rewriting a chunk at once -/

/-- The alias and the reclamation at the end of `full_rewrite_chunk`. -/
def Node.retireChunk (old new : Id) : Node Id :=
  let aliased := { s with retiredChunkAliases := update s.retiredChunkAliases old (some new) }
  let unlinked := if env.fails .unlinkOld then aliased
    else aliased.setFiles (update aliased.files old none)
  let unregistered := if env.fails .deleteChunkLocation then unlinked else unlinked.deleteChunkLocation old
  unregistered.invalidateCache old

/-- Prefetched bytes as they are, else the file's, checked against its identity. -/
def Node.rewriteBase (file : FileId) (offset : Nat) (old : Id) (prefetched : Option Bytes) : Except PatchError Bytes :=
  match prefetched with
  | some b => .ok b
  | none =>
    match s.files old with
    | none => .error (s!"Failed to read chunk range: Failed to open chunk file: {H.toHex old}", .notFound)
    | some b =>
      if env.fails .readBase then .error (s!"Failed to read chunk: {env.osError}", .internalError)
      else if H.computeChunkHashAt b offset file ≠ old then
        .error (s!"Base chunk {H.toHex old} at offset {offset} failed content hash verification before folding — disk corruption detected",
          .checksumMismatch)
      else .ok b

/-- Write the overlay, register it without a write sequence, reclaim the old chunk. -/
def Node.fullRewriteChunk (file : FileId) (offset : Nat) (old : Id) (patches : Extents) (prefetched : Option Bytes) :
    Node Id × Except PatchError (Id × Nat × Bytes) :=
  match s.rewriteBase H env file offset old prefetched with
  | .error e => (s, .error e)
  | .ok base =>
    let buf := applyRanges base patches
    let new := H.computeChunkHashAt buf offset file
    let writes := decide (new ≠ old) || !s.hasChunk old
    let failed : PatchError := (s!"Failed to write consolidated chunk: {env.osError}", .internalError)
    if writes && env.fails .writeConsolidated then (s, .error failed)
    else if writes && env.fails .syncConsolidated then (s.writeChunk new buf, .error failed)
    else
      let written := if writes then (s.writeChunk new buf).invalidateCache new else s
      let registered := if env.fails .putChunkLocation then written
        else written.putChunkLocation
          { chunkId := new, nodes := [env.localNodeId], size := buf.length, fileOffset := some offset,
            writtenAt := some env.nowMs, clientWriteSeq := none, fileId := some file }
      (if new = old then registered else registered.retireChunk env old new, .ok (new, buf.length, buf))

/-! ## The base of a patch -/

/-- The base chunk, the accumulator over it, and the size so far. -/
structure PatchBase (Id : Type) where
  base : Id
  priorDelta : Option Id
  size : Nat

variable (slot : Slot)

/-- The base of a new accumulator: registered, current by the leader (if asked), on disk or pulled from a peer. -/
def Node.freshBase (offset : Nat) (base : Id) (viaLocalFold trust : Bool) : Node Id × Except PatchError (PatchBase Id) :=
  if env.fails .readChunkLocation then
    (s, .error (s!"Failed to look up chunk location for {H.toHex base}: {env.osError}", .internalError))
  else match s.chunkTable base with
    | none =>
      (s, .error (s!"Chunk {H.toHex base} has no registered location — likely superseded by a concurrent patch; retry with current chunk_id",
        .notFound))
    | some loc =>
      match (if viaLocalFold || trust then none else s.refreshSlotFromLeader env.leader slot base) with
      | some fresh =>
        (s, .error (s!"Chunk {H.toHex base} is superseded (leader reports {H.toHex fresh.chunkId} is current) — retry with current chunk_id",
          .notFound))
      | none =>
        if s.hasChunk base then (s, .ok ⟨base, none, loc.size⟩)
        else match s.pullChunkFromPeers H env base loc.nodes slot.1 offset with
          | (s', some _) => (s', .ok ⟨base, none, loc.size⟩)
          | (s', none) =>
            (s', .error (s!"Failed to read chunk range: Failed to open chunk file for {H.toHex base}", .notFound))

variable (call : PatchCall Id)

/-- A `Pending` token is merged into, a `Folded` one stands for its result, else it is itself the base. -/
def Node.patchBase : Node Id × Except PatchError (PatchBase Id) :=
  if env.fails .readPatchState then
    (s, .error (s!"Failed to resolve patch state: {env.osError}", .internalError))
  else match s.patchState call.chunkId with
    | some (.pending base delta size _ _) => (s, .ok ⟨base, some delta, size⟩)
    | some (.folded real) => s.freshBase H env slot call.chunkFileOffset real true call.trustLocalBase
    | none => s.freshBase H env slot call.chunkFileOffset call.chunkId false call.trustLocalBase

/-! ## The accumulator's hash and the no-op check -/

/-- The hasher so far, and is it legacy: from memory, else from the prior delta's bytes. -/
def Node.priorHasher (offset : Nat) : Option Id → Node Id × Except PatchError (Hasher × Bool)
  | none => (s, .ok ((slot.1, offset, []), false))
  | some prior =>
    match (s.dirtyPatchSlots slot).filter (·.verified) with
    | some dirty => (s, .ok (dirty.deltaHasher, dirty.legacyDeltaFormat))
    | none =>
      match (s.deltaRing prior).or (if env.fails .readPriorDelta then none else s.readChunkArc prior) with
      | none => (s, .error (s!"Failed to read prior delta chunk: {env.osError}", .internalError))
      | some bytes =>
        ({ s with deltaRing := update s.deltaRing prior (some bytes) },
          .ok ((slot.1, offset, bytes), isLegacyDeltaFormat bytes))

/-- The largest write sequence the materialized bytes are known to include. -/
@[simps] def Node.noteMaxSeq (token : Id) (hasher : Hasher) (legacy : Bool) (seq : Nat) : Node Id :=
  { s with dirtyPatchSlots := update s.dirtyPatchSlots slot (some (match s.dirtyPatchSlots slot with
      | some dirty => { dirty with materializedMaxSeq := some seq }
      | none => ⟨token, hasher, true, legacy, 0, some seq, none⟩)) }

/-- From the ring, else rebuilt from base and delta, with the largest write sequence in it. -/
def Node.materialize (token : Id) (hasher : Hasher) (legacy : Bool) (base prior : Id) : Node Id × Option (Bytes × Nat) :=
  match s.materializedRing prior with
  | some buf =>
    ({ s with materializedRing := update s.materializedRing prior none },
      ((s.dirtyPatchSlots slot).bind (·.materializedMaxSeq)).map (fun m => (buf, m)))
  | none =>
    match (s.chunkRing base).or (s.readChunkArc base), (s.deltaRing prior).or (s.readChunkArc prior) with
    | some b, some d =>
      match parseDeltaRecords d, maxSeqInDeltaRecords d with
      | .ok records, some m => (s.noteMaxSeq slot token hasher legacy m, some (applyRanges b records, m))
      | _, _ => (s, none)
    | _, _ => (s, none)

def isNoop (buf : Bytes) (patches : Extents) : Bool :=
  !(patches.any (fun p => decide (p.1 + p.2.length > buf.length))) &&
    patches.all (fun p => decide ((buf.drop p.1).take p.2.length = p.2))

/-- `none`: the patch is elided. `some carried`: it is appended, and the materialized bytes are known or not. -/
def Node.noopCheck (token : Id) (hasher : Hasher) (legacy : Bool) (base prior : Id) (patches : Extents)
    (recordSeq : Nat) : Node Id × Option (Option Bytes) :=
  match s.materialize slot token hasher legacy base prior with
  | (s', some (buf, known)) =>
    if known < recordSeq then
      if isNoop buf patches then
        (({ s' with materializedRing := update s'.materializedRing prior (some buf) }).noteMaxSeq slot token
          hasher legacy recordSeq, none)
      else (s', some (some (applyRanges buf patches)))
    else (s', some none)
  | (s', none) => (s', some none)

/-! ## Appending, committing -/

/-- The magic if it starts the accumulator, then a record for each range. -/
def newRecordBytes (fresh legacy : Bool) (seq : Nat) (patches : Extents) : Bytes :=
  (if fresh then encode 8 deltaAccumulatorV2Magic else []) ++
    patches.flatMap (fun p => if legacy then encodeDeltaRecordLegacy p.1 p.2 else encodeDeltaRecord seq p.1 p.2)

/-- Append to the prior file and rename it, or write a new one. -/
def Node.persistDelta (prior : Option Id) (delta : Id) (bytes : Bytes) : Node Id × Except PatchError Unit :=
  match prior with
  | none =>
    let failed : PatchError := (s!"Failed to write patch delta: {env.osError}", .internalError)
    if env.fails .writeDelta then (s, .error failed)
    else if env.fails .syncWrittenDelta then (s.writeChunk delta bytes, .error failed)
    else (s.writeChunk delta bytes, .ok ())
  | some prior =>
    match (if env.fails .openPriorDelta then none else s.files prior) with
    | none => (s, .error (s!"Failed to open prior delta for append: {env.osError}", .internalError))
    | some old =>
      let appended := s.writeChunk prior (old ++ bytes)
      if env.fails .appendDelta then
        (s.writeChunk prior (old ++ bytes.take env.appended),
          .error (s!"Failed to append patch delta: {env.osError}", .internalError))
      else if env.fails .syncDelta then
        (appended, .error (s!"Failed to sync appended delta: {env.osError}", .internalError))
      else if env.fails .createDir then
        (appended, .error (s!"Failed to create chunk directory: {env.osError}", .internalError))
      else if env.fails .renameDelta then
        (appended, .error (s!"Failed to rename appended delta: {env.osError}", .internalError))
      else
        let renamed := s.setFiles (update (update s.files prior none) delta (some (old ++ bytes)))
        if env.fails .syncDurable then
          (renamed, .error (s!"Failed to sync appended delta (coalesced): {env.osError}", .internalError))
        else (renamed, .ok ())

/-- The token's `Pending` row; the slot's previous token is retired. -/
def Node.commitPatchState (env : PatchEnv Id) (s : Node Id) (slot : Slot) (token base delta : Id) (size : Nat)
    (seq : Option Nat) : Node Id × Except PatchError Unit :=
  if env.fails .commitPatchState then
    (s, .error (s!"Failed to record patch state: {env.osError}", .internalError))
  else
    let (s', retired) := s.putPatchStatePending slot token base delta size env.nowSecs seq
    match retired with
    | some t =>
      (s'.setPatchTables s'.patchState s'.patchStateSlot (update s'.pendingPatchIds t none), .ok ())
    | none => (s', .ok ())

variable (b : PatchBase Id) (token : Id)

/-- A new row in place of the base's, or the previous token's row slid. -/
def Node.registerToken (size : Nat) : Node Id :=
  let put (s : Node Id) (loc : ChunkLocation Id) : Node Id :=
    if env.fails .putChunkLocation then s else s.putChunkLocation loc
  let del (s : Node Id) (id : Id) : Node Id :=
    if env.fails .deleteChunkLocation then s else s.deleteChunkLocation id
  match b.priorDelta with
  | none =>
    del (put s { chunkId := token, nodes := [env.localNodeId], size := size, fileOffset := some call.chunkFileOffset,
                 writtenAt := some env.nowMs, clientWriteSeq := call.clientWriteSeq, fileId := some call.fileId }) b.base
  | some _ =>
    let slid := match (if env.fails .readChunkLocation then none else s.chunkTable call.chunkId) with
      | some loc => put s { loc with chunkId := token, size := size, writtenAt := some env.nowMs,
                                     clientWriteSeq := call.clientWriteSeq, nodes := [env.localNodeId] }
      | none => s
    del slid call.chunkId

/-- The maps in memory after the commit. -/
@[simps] def Node.trackAccumulator (delta : Id) (hasher : Hasher) (legacy : Bool) (carried : Option Bytes)
    (recordSeq : Nat) (prior : Option Id) : Node Id :=
  let popped := match b.priorDelta with
    | some d => update s.materializedRing d none
    | none => s.materializedRing
  { s with
    pendingPatchIds := update (update s.pendingPatchIds token (some slot)) b.base (some slot)
    materializedRing := match carried with
      | some buf => update popped delta (some buf)
      | none => popped
    dirtyPatchSlots := update s.dirtyPatchSlots slot
      (some ⟨token, hasher, true, legacy, 0, carried.map (fun _ => recordSeq), prior⟩) }

/-- None of these stages fails the call. -/
def Node.publishToken (delta : Id) (size : Nat) (hasher : Hasher) (legacy : Bool) (carried : Option Bytes) :
    Node Id × Patched Id :=
  let s := s.registerToken env call b token size
  let prior := if b.priorDelta.isSome then none else (s.occupant slot).map (·.chunkId)
  let old := if b.priorDelta.isSome then call.chunkId else b.base
  let (s, rejected) := s.updateChunkMapAfterPatch slot.1 (some slot.2) old token size env.nowMs call.clientWriteSeq
  (s.trackAccumulator slot b token delta hasher legacy carried call.seq prior,
    ⟨token, size, some env.nowMs, none, rejected⟩)

variable (hasher : Hasher)

/-- The stages once the accumulator is on disk. -/
def Node.commitToken (legacy : Bool) (carried : Option Bytes) : Node Id × Except PatchError (Patched Id) :=
  let delta := hasher.finalize H
  let token := H.patchTokenIdentity delta
  let size := max (extent call.patches) b.size
  andThen (s.commitPatchState env slot token b.base delta size call.clientWriteSeq) fun s _ =>
    let (s, patched) := s.publishToken env slot call b token delta size hasher legacy carried
    (s, .ok patched)

def Node.appendPatch (legacy : Bool) (carried : Option Bytes) : Node Id × Except PatchError (Patched Id) :=
  let bytes := newRecordBytes b.priorDelta.isNone legacy call.seq call.patches
  let hasher := hasher.update bytes
  andThen (s.persistDelta env b.priorDelta (hasher.finalize H) bytes) fun s _ =>
    s.commitToken H env slot call b hasher legacy carried

def Node.patchSlot : Node Id × Except PatchError (Patched Id) :=
  andThen (s.patchBase H env slot call) fun s b =>
  andThen (s.priorHasher env slot call.chunkFileOffset b.priorDelta) fun s (hasher, legacy) =>
    match b.priorDelta with
    | none => s.appendPatch H env slot call b hasher legacy none
    | some prior =>
      match s.noopCheck slot call.chunkId hasher legacy b.base prior call.patches call.seq with
      | (s, none) => (s, .ok ⟨call.chunkId, b.size, none, none, none⟩)
      | (s, some carried) => s.appendPatch H env slot call b hasher legacy carried

def Node.applyPatch : Node Id × Except PatchError (Patched Id) :=
  if s.fileRecentlyDeleted call.fileId then
    (s, .error (s!"File {call.fileId} was deleted", .notFound))
  else match call.chunkIdx with
    | some idx => s.patchSlot H env (call.fileId, idx) call
    | none =>
      andThen (s.fullRewriteChunk H env call.fileId call.chunkFileOffset call.chunkId call.patches call.prefetched)
        fun s (new, size, buf) =>
          let (s, rejected) :=
            s.updateChunkMapAfterPatch call.fileId none call.chunkId new size env.nowMs call.clientWriteSeq
          (s, .ok ⟨new, size, if new = call.chunkId then none else some env.nowMs, some buf, rejected⟩)

end Dfs
