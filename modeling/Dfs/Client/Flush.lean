import Dfs.Client.ChunkSlot

/-!
# Flushing the write buffer of a chunk

`flush_one_chunk` claims a slot and takes a snapshot; `flush_buffer_async_one` sends it and decides what becomes of
the slot. The state is one chunk of one open file with its content on the cluster; writers go on.
-/

namespace Dfs

open Overlay Runs Function

/-! ## The state -/

structure SlotLocation (Id : Type) where
  chunkId : Id
  size : Nat
  deriving DecidableEq

structure CachedFile (Id : Type) where
  id : FileId
  location : Option (SlotLocation Id)
  deriving DecidableEq

/-- One chunk of an open file, and its content on the cluster. -/
structure Client (Id : Type) where
  shard : ChunkShardState Id
  isTruncatedSession : Bool
  expectedFileId : Option FileId
  cached : Option (CachedFile Id)
  chunkCache : Id → Option Bytes
  server : Option Bytes

structure FlushSnapshot where
  slotData : Bytes
  gapFilledPrefix : Nat
  realDataEnd : Nat
  dirtyRanges : List (Nat × Nat)
  lastModifiedSnap : Nat
  deriving DecidableEq, Repr

inductive FlushLock where
  | expectedFileId | flushedSize | truncatedSession | serverChunkId | serverChunkIdAgain | release
  deriving DecidableEq, Repr

inductive PatchFailure where
  | allReplicasFailed | other
  deriving DecidableEq, Repr

inductive FlushError where
  | patchFailed (e : PatchFailure)
  | cacheMiss
  | realDataFound
  | writeFailed
  | fifoTimeout
  deriving DecidableEq, Repr

/-- The writes that land up to the completion stand in one run: until then neither side reads what the other sets. -/
structure FlushEnv (Id : Type) where
  lockBusy : FlushLock → Bool
  now : Nat
  wallNow : Nat
  patch : Except PatchFailure (SlotLocation Id)
  singleChunkLocation : Option (Option (SlotLocation Id))
  retry : Except PatchFailure (SlotLocation Id)
  readChunkById : Id → Option Bytes
  revalidateChunkSlot : Option (Option (SlotLocation Id))
  pathKnown : Bool
  fileMetadata : Option (Option (CachedFile Id))
  write : Option (Option (SlotLocation Id))
  fetched : Option (CachedFile Id)
  replaced : Option (CachedFile Id)
  truncatedInode : Bool
  during : List SlotWrite

variable {Id : Type}

def serverChunkIdTtl : Nat := 120

def maxPatchFailures : Nat := 5

def terminalGiveUpAfter : Nat := 600

def terminalGiveUpMinFailures : Nat := 5

/-! ## Claim and snapshot -/

def ChunkSlot.snapshot (slot : ChunkSlot Id) : FlushSnapshot :=
  ⟨slot.materialize, slot.gapFilledPrefix, slot.realDataEnd, slot.dirtyRanges, slot.lastModified⟩

/-- An empty slot, or one that is being flushed, is left alone. -/
def ChunkShardState.claim (cs : ChunkShardState Id) : Option (ChunkShardState Id) :=
  if cs.slot.isEmpty || cs.slot.flushing then none
  else some { cs with flushWaiter := true, slot := { cs.slot with flushing := true } }

def Client.onSlot (c : Client Id) (f : ChunkSlot Id → ChunkSlot Id) : Client Id :=
  { c with shard := { c.shard with slot := f c.shard.slot } }

def Client.writeAll (c : Client Id) (ws : List SlotWrite) : Client Id := { c with shard := c.shard.writeAll ws }

def Client.release (c : Client Id) : Client Id := c.onSlot (fun slot => { slot with flushing := false })

def Client.dropSlot (c : Client Id) (wallNow : Nat) : Client Id := c.onSlot (fun _ => ChunkSlot.new wallNow)

def Client.notify (c : Client Id) : Client Id := { c with shard := { c.shard with flushWaiter := false } }

def ChunkSlot.recordTerminalFailure (slot : ChunkSlot Id) (now : Nat) : ChunkSlot Id :=
  let count := slot.terminalFailureCount + 1
  { slot with
    terminalFailureCount := count
    retryBackoffUntil := some (now + min (2 ^ min (count - 1) 5) 30)
    firstTerminalFailureAt := some (slot.firstTerminalFailureAt.getD now) }

def ChunkSlot.giveUpAfterTerminalFailures (slot : ChunkSlot Id) (now : Nat) : Bool :=
  decide (terminalGiveUpMinFailures ≤ slot.terminalFailureCount) &&
    slot.firstTerminalFailureAt.any (fun t => decide (terminalGiveUpAfter ≤ now - t))

/-- The slot is released, or dropped if it has failed too often for too long. -/
def ChunkSlot.failTerminally (slot : ChunkSlot Id) (env : FlushEnv Id) : ChunkSlot Id :=
  let failed := ({ slot with flushing := false } : ChunkSlot Id).recordTerminalFailure env.now
  if failed.giveUpAfterTerminalFailures env.now then ChunkSlot.new env.wallNow else failed

/-! ## The decision -/

/-- What this session flushed, else the size in cached metadata of the expected file. -/
def Client.existingChunkSize (c : Client Id) (env : FlushEnv Id) : Nat :=
  let expected := if env.lockBusy .expectedFileId then none else c.expectedFileId
  let metaIdMatches := expected.all (fun id => c.cached.any (fun m => decide (m.id = id)))
  let flushed := if env.lockBusy .flushedSize then 0 else c.shard.flushedSize
  if 0 < flushed then flushed
  else if metaIdMatches then ((c.cached.bind (·.location)).map (·.size)).getD 0
  else 0

structure FlushView extends FlushSnapshot where
  existingChunkSize : Nat
  isTruncatedSession : Bool

def Client.view (c : Client Id) (env : FlushEnv Id) (snap : FlushSnapshot) : FlushView :=
  ⟨snap, c.existingChunkSize env, !env.lockBusy .truncatedSession && c.isTruncatedSession⟩

abbrev Client.slotView (c : Client Id) (env : FlushEnv Id) : FlushView := c.view env c.shard.slot.snapshot

namespace FlushView

variable (v : FlushView)

def slotLen : Nat := v.slotData.length

def chunkExists : Bool := decide (0 < v.existingChunkSize)

def isAppendExtend : Bool :=
  v.chunkExists && decide (v.existingChunkSize < v.slotLen) && decide (v.existingChunkSize ≤ v.gapFilledPrefix)

def effectiveWriteEnd : Nat := if 0 < v.realDataEnd then v.realDataEnd else v.slotLen

def isOverwrite : Bool := v.chunkExists && decide (v.effectiveWriteEnd ≤ v.existingChunkSize) && !v.isTruncatedSession

def isMixedExtend : Bool :=
  v.chunkExists && decide (v.existingChunkSize < v.slotLen) && decide (v.gapFilledPrefix < v.existingChunkSize) &&
    !v.dirtyRanges.isEmpty && !v.isTruncatedSession

def covered : Nat := (v.dirtyRanges.map (fun r => r.2 - r.1)).sum

def hasGaps : Bool := !v.dirtyRanges.isEmpty && decide (v.covered < v.slotLen)

def isSparseWrite : Bool := v.hasGaps && decide (1 < v.dirtyRanges.length) && !v.isTruncatedSession

def isFullReplacement : Bool :=
  v.isOverwrite && decide (v.gapFilledPrefix = 0) &&
    match v.dirtyRanges with
    | [r] => decide (r.1 = 0) && decide (v.existingChunkSize ≤ r.2)
    | _ => false

def needsPatch : Bool := (v.isOverwrite && !v.isFullReplacement) || v.isAppendExtend || v.isMixedExtend || v.isSparseWrite

def slice (data : Bytes) (start stop : Nat) : Bytes := (data.take stop).drop start

def patches : Extents :=
  if v.dirtyRanges.isEmpty then [(v.gapFilledPrefix, slice v.slotData v.gapFilledPrefix v.effectiveWriteEnd)]
  else v.dirtyRanges.map (fun r => (r.1, slice v.slotData r.1 (min r.2 v.slotLen)))

end FlushView

/-! ## Patching -/

/-- The cached one, with the id confirmed last while that is young. -/
def Client.oldLocation (c : Client Id) (env : FlushEnv Id) : Option (SlotLocation Id) :=
  let confirmed := if env.lockBusy .serverChunkId then none
    else if c.shard.slot.serverChunkIdSetAt.any (fun t => decide (env.now - t < serverChunkIdTtl)) then c.shard.slot.serverChunkId
    else none
  (c.cached.bind (·.location)).map (fun loc => { loc with chunkId := confirmed.getD loc.chunkId })

def Client.refreshed (c : Client Id) (env : FlushEnv Id) (loc : SlotLocation Id) : SlotLocation Id :=
  if env.lockBusy .serverChunkIdAgain then loc else { loc with chunkId := c.shard.slot.serverChunkId.getD loc.chunkId }

def Client.setCachedLocation (c : Client Id) (loc : SlotLocation Id) : Client Id :=
  { c with cached := c.cached.map (fun m => { m with location := m.location.map (fun _ => loc) }) }

def FlushView.patchBuffer (v : FlushView) (buf : Bytes) : Bytes :=
  v.patches.foldl (fun b r => copyAt (resize b (max (r.1 + r.2.length) b.length)) r.1 r.2) buf

def FlushView.patchDirty (v : FlushView) (buf : Bytes) : Bytes :=
  v.dirtyRanges.foldl (fun b r =>
    let stop := min r.2 v.slotLen
    let b := resize b (max stop b.length)
    if r.1 < stop then copyAt b r.1 (slice v.slotData r.1 stop) else b) buf

def Client.applyPatches (c : Client Id) (v : FlushView) : Client Id :=
  { c with server := some (overlay (c.server.getD []) v.patches) }

variable [DecidableEq Id] (c : Client Id)

/-- A whole cached chunk moves to its new id, patched; `remove` drops the old one. -/
def Client.recache (patch : Bytes → Bytes) (old : SlotLocation Id) (new : Id) (remove : Bool) : Client Id :=
  match c.chunkCache old.chunkId with
  | none => c
  | some buf =>
    if buf.length = old.size then
      let kept := if remove then update c.chunkCache old.chunkId none else c.chunkCache
      { c with chunkCache := update kept new (some (patch buf)) }
    else c

variable (env : FlushEnv Id)

def Client.selectReconstructionBase (ids : List Id) : Option (Id × Bytes) :=
  (ids.findSome? (fun id => (c.chunkCache id).map (fun b => (id, b)))).or
    (ids.findSome? (fun id => (env.readChunkById id).map (fun b => (id, b))))

/-- One of two candidates, or what the slot is revalidated to; the cached metadata takes a corrected location. -/
def Client.reconstructionBase (ids : List Id) : Client Id × Option (Id × Bytes) :=
  match c.selectReconstructionBase env ids with
  | some base => (c, some base)
  | none =>
    match env.revalidateChunkSlot with
    | some (some loc) =>
      if loc.chunkId ∈ ids then (c, none)
      else (c.setCachedLocation loc, (c.setCachedLocation loc).selectReconstructionBase env [loc.chunkId])
    | _ => (c, none)

def applyReconstruction (base slotData : Bytes) (dirtyRanges : List (Nat × Nat)) : Bytes :=
  dirtyRanges.foldl (fun b r =>
    let stop := min (min r.2 slotData.length) b.length
    if r.1 < stop then copyAt b r.1 (FlushView.slice slotData r.1 stop) else b)
    (resize base (max slotData.length base.length))

variable (v : FlushView)

/-- The buffer to write, or an abort that counts as a terminal failure. -/
def Client.reconstructOrAbort (ids : List Id) : Client Id × Except FlushError Bytes :=
  match c.reconstructionBase env ids with
  | (c, some (id, base)) =>
    ({ c with chunkCache := update c.chunkCache id (some base) },
      .ok (applyReconstruction base v.slotData v.dirtyRanges))
  | (c, none) =>
    ((c.onSlot (fun slot => ({ slot with consecutivePatchFailures := 0 } : ChunkSlot Id).failTerminally env)).notify,
      .error .cacheMiss)

inductive PatchAttempt (Id : Type) where
  | done (loc : SlotLocation Id)
  /-- On to the fresh write path with this buffer. -/
  | fresh (data : Bytes)
  | failed (e : FlushError)

/-- The fresh write path if every replica or the slot failed too often, else the flush fails. -/
def Client.afterRetry (e : PatchFailure) (ids : List Id) : Client Id × PatchAttempt Id :=
  let counted := if e = .allReplicasFailed then c
    else c.onSlot (fun slot => { slot with consecutivePatchFailures := slot.consecutivePatchFailures + 1 })
  if e = .allReplicasFailed ∨ maxPatchFailures ≤ counted.shard.slot.consecutivePatchFailures then
    if v.isFullReplacement then (counted, .fresh v.slotData)
    else match counted.reconstructOrAbort env v ids with
      | (c, .ok data) => (c, .fresh data)
      | (c, .error e) => (c, .failed e)
  else (counted.release.notify, .failed (.patchFailed e))

/-- From `old`, with one retry on the location the leader gives. -/
def Client.patchFrom (old : SlotLocation Id) : Client Id × PatchAttempt Id :=
  match env.patch with
  | .ok loc =>
    (((c.applyPatches v).recache v.patchBuffer old loc.chunkId true).recache v.patchDirty old loc.chunkId false, .done loc)
  | .error e =>
    match env.singleChunkLocation with
    | some (some loc) =>
      let c := if loc.chunkId = old.chunkId then c else c.setCachedLocation loc
      match env.retry with
      | .ok new => ((c.applyPatches v).recache v.patchDirty old new.chunkId false, .done new)
      | .error e => c.afterRetry env v e [old.chunkId, loc.chunkId]
    | _ => (c.release.notify, .failed (.patchFailed e))

/-- Without a cached location the flush goes on to the fresh write path. -/
def Client.tryPatch : Client Id × PatchAttempt Id :=
  if v.needsPatch then
    match c.oldLocation env with
    | none => (c, .fresh v.slotData)
    | some loc => c.patchFrom env v (c.refreshed env loc)
  else (c, .fresh v.slotData)

/-! ## Completion -/

variable (start : Option FileId)

def Client.idOk : Bool :=
  match start, c.expectedFileId with
  | some fid, some bid => decide (fid = bid)
  | _, _ => true

def ChunkSlot.newDataArrived (slot : ChunkSlot Id) (sentLen lastModifiedSnap : Nat) : Bool :=
  decide (sentLen < slot.spanEnd) || decide (lastModifiedSnap < slot.lastModified)

def Client.fileReplaced : Bool :=
  match start, c.cached with
  | some id, some m => decide (id ≠ m.id)
  | _, _ => false

def Client.completePatch (loc : SlotLocation Id) : Client Id × Except FlushError Unit :=
  if c.fileReplaced start then ((c.dropSlot env.wallNow).notify, .ok ())
  else
    let c := c.setCachedLocation loc
    let known := max v.slotLen v.existingChunkSize
    if c.idOk start then
      let confirmed := c.onSlot (fun slot =>
        { slot with serverChunkId := some loc.chunkId, serverChunkIdSetAt := some env.now, consecutivePatchFailures := 0 })
      if confirmed.shard.slot.newDataArrived v.slotLen v.lastModifiedSnap then
        (({ confirmed with shard := { confirmed.shard with flushedSize := known } } : Client Id).release.notify, .ok ())
      else
        let size := if 0 < known then known else confirmed.shard.flushedSize
        ((({ confirmed with shard := { confirmed.shard with flushedSize := size } } : Client Id).dropSlot env.wallNow).notify,
          .ok ())
    else (c.notify, .ok ())

def Client.completeWrite (len : Nat) (loc : SlotLocation Id) : Client Id × Except FlushError Unit :=
  if c.fileReplaced start then ((c.dropSlot env.wallNow).notify, .ok ())
  else if c.cached.isSome && env.truncatedInode then (c.notify, .ok ())
  else
    let c : Client Id := { c with cached := c.cached.map (fun m => { m with location := some loc }) }
    if c.idOk start then
      if c.shard.slot.newDataArrived len v.lastModifiedSnap then
        (({ c with shard := { c.shard with flushedSize := len } } : Client Id).release.notify, .ok ())
      else ((c.dropSlot env.wallNow).notify, .ok ())
    else (c.notify, .ok ())

/-- The metadata by which the chunk has data on the cluster. -/
def FlushView.realDataFound (env : FlushEnv Id) : Option (CachedFile Id) :=
  if v.hasGaps && env.pathKnown then
    (env.fileMetadata.bind id).filter (fun m => m.location.any (fun l => decide (0 < l.size)))
  else none

/-- Fetched if there is none; another task may replace it. -/
def Client.refetch : Client Id :=
  { c with cached := if env.replaced.isSome then env.replaced else if env.pathKnown then c.cached.or env.fetched else c.cached }

def Client.freshWrite (data : Bytes) : Client Id × Except FlushError Unit :=
  match v.realDataFound env with
  | some fresh =>
    let known : Client Id := { c with cached := some fresh }
    ((if env.lockBusy .release then known else known.release).notify, .error .realDataFound)
  | none =>
    match env.write with
    | some (some loc) =>
      let slot : ChunkSlot Id := { c.shard.slot with serverChunkId := some loc.chunkId, serverChunkIdSetAt := some env.now }
      let confirmed : Client Id := { c with
        server := some data
        chunkCache := update c.chunkCache loc.chunkId (some data)
        shard := { c.shard with flushedSize := data.length, slot := slot } }
      (confirmed.refetch env).completeWrite env v start data.length loc
    | some none => (({ c with server := some data } : Client Id).release.notify, .ok ())
    | none => ((c.onSlot (fun slot => slot.failTerminally env)).notify, .error .writeFailed)

/-- Another task may have replaced the cached metadata. -/
def Client.afterTryPatch : Client Id × PatchAttempt Id → Client Id × Except FlushError Unit
  | (c, .done loc) =>
    ({ c with cached := if env.replaced.isSome then env.replaced else c.cached } : Client Id).completePatch env v start loc
  | (c, .fresh data) => c.freshWrite env v start data
  | (c, .failed e) => (c, .error e)

def Client.flushBufferAsyncOne (snap : FlushSnapshot) : Client Id × Except FlushError Unit :=
  let v := c.view env snap
  Client.afterTryPatch env v (c.cached.map (·.id)) ((c.writeAll env.during).tryPatch env v)

/-- The flush of the slot as it is now. -/
abbrev Client.flushSlot : Client Id × Except FlushError Unit := c.flushBufferAsyncOne env c.shard.slot.snapshot

/-- Where a flush is waited for, this one's wait has timed out. A gap at the front is snapshotted again. -/
def Client.flushOneChunk (inFlight : List SlotWrite) : Client Id × Except FlushError Unit :=
  if c.shard.flushWaiter then (c.release.notify, .error .fifoTimeout)
  else match c.shard.claim with
  | none => (c, .ok ())
  | some cs =>
    let claimed : Client Id := { c with shard := cs }
    let settled := if 0 < cs.slot.gapFilledPrefix then claimed.writeAll inFlight else claimed
    settled.flushSlot env

/-- Nothing buffered, metadata cached without the chunk, nothing on the cluster. -/
def Client.opened (isTruncatedSession : Bool) : Client Id where
  shard := ⟨ChunkSlot.new 0, 0, false⟩
  isTruncatedSession := isTruncatedSession
  expectedFileId := none
  cached := some ⟨1, none⟩
  chunkCache := fun _ => none
  server := none

/-- Every lock is free, lookups fail, and a fresh write is registered as `loc`. -/
def FlushEnv.onlyWrites (loc : SlotLocation Id) : FlushEnv Id where
  lockBusy _ := false
  now := 0
  wallNow := 0
  patch := .error .other
  singleChunkLocation := none
  retry := .error .other
  readChunkById _ := none
  revalidateChunkSlot := none
  pathKnown := true
  fileMetadata := none
  write := some (some loc)
  fetched := none
  replaced := none
  truncatedInode := false
  during := []

end Dfs
