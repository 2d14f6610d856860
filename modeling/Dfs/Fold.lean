import Dfs.ApplyPatch

/-!
# Folding a slot

`run_single_fold` and `fold_slot_now`: the accumulator is written into its base as a new chunk, the token redirected,
the delta dropped. A patch that no longer matters is abandoned.
-/

namespace Dfs

open Function

inductive FoldFault where
  | readPatchState | fileExists | readDelta | deletePatchState | readMissing | readPrior
  | putChunkSeq | readNewLocation | correctSeq | flipFolded | deleteDeltaLocation | deleteDelta
  deriving DecidableEq, Repr

structure FoldEnv (Id : Type) extends PatchEnv Id where
  allNodes : List NodeId
  foldFails : FoldFault → Bool

def FoldEnv.quiet {Id : Type} (localNodeId : NodeId) : FoldEnv Id := ⟨.quiet localNodeId, [], fun _ => false⟩

inductive FoldSlotOutcome (Id : Type) where
  | nothingToDo
  | adoptedElsewhere
  | failed
  | foldedHere (newChunkId : Id) (size : Nat) (buf : Bytes) (clientWriteSeq : Option Nat)
  deriving DecidableEq

def minPendingAge : Nat := 600

def foldSuccessorWriteSeq : Option Nat → Option Nat → Option Nat
  | some a, some b => some (max a b)
  | some a, none => some a
  | none, some b => some b
  | none, none => none

variable {Id : Type} [DecidableEq Id]

/-! ## Abandoning a patch -/

variable (env : FoldEnv Id) (s : Node Id) (slot : Slot)

def Node.abandonPatch (token : Id) : Node Id :=
  let clean := { s with dirtyPatchSlots := update s.dirtyPatchSlots slot none }
  if env.foldFails .deletePatchState then clean else clean.deletePatchStateAbandoned token slot

def Node.fileGone (file : FileId) (writtenAt : Nat) : Bool :=
  decide (minPendingAge ≤ env.nowSecs - writtenAt) && !env.foldFails .fileExists && !s.fileExists file

/-- By generation when both have one, else by write sequence. -/
def Node.occupantBehind (loc : ChunkLocation Id) (token : Id) (patchSeq : Option Nat) : Bool :=
  let bySeq : Bool := match loc.clientWriteSeq, patchSeq with
    | some current, some patch => decide (current < patch)
    | _, _ => false
  match s.chunkGenerations loc.chunkId, s.chunkGenerations token with
  | some current, some patch => if current ≠ patch then decide (current < patch) else bySeq
  | _, _ => bySeq

/-- Another chunk, not known to be older, occupies the slot. -/
def Node.slotSuperseded (token : Id) (patchSeq : Option Nat) : Bool :=
  match s.occupant slot with
  | none => false
  | some loc => decide (loc.chunkId ≠ token) && !s.occupantBehind loc token patchSeq

/-- A slot still on the token goes back to the chunk before, if that is registered and no patch. -/
def Node.restorePrior (token missing : Id) (dirty : Option (DirtyPatchSlot Id)) : Node Id :=
  match dirty.bind (·.priorChunkId) with
  | none => s
  | some prior =>
    if prior = missing ∨ s.pendingPatchIds prior ≠ none ∨ env.foldFails .readPrior then s
    else match s.chunkTable prior, s.chunkMap slot.1 with
      | some loc, some (locs, w) =>
        match slotPosition locs slot.2 with
        | none => s
        | some i =>
          if (locs[i]?).map (·.chunkId) = some token then
            s.setChunkMap (update s.chunkMap slot.1 (some (locs.modify i (fun l =>
              { l with chunkId := prior, size := loc.size, writtenAt := some env.nowMs,
                       clientWriteSeq := loc.clientWriteSeq, nodes := loc.nodes }), w)))
          else s
      | _, _ => s

variable (H : ChunkHash Id)

/-- The base is first pulled from any peer; what is registered nowhere costs the patch. -/
def Node.abandonPatchIfBaseGone (env : FoldEnv Id) (s : Node Id) (slot : Slot) (token missing : Id) (isBase : Bool) : Node Id :=
  let (s, pulled) := if isBase && !s.hasChunk missing then
      s.pullChunkFromPeers H env.toPatchEnv missing env.allNodes slot.1 (slot.2 * chunkSize)
    else (s, none)
  if pulled.isSome || env.foldFails .readMissing || (s.chunkTable missing).isSome then s
  else (s.abandonPatch env slot token).restorePrior env slot token missing (s.dirtyPatchSlots slot)

def Node.dropFoldResultOfDeletedFile (new : Id) : Node Id := (s.deleteChunkLocation new).deleteChunk new

/-! ## The commit of a fold -/

/-- The larger of the base's and the fold's write sequence, recorded when it advances. -/
def Node.stampGeneration (base new : Id) (foldSeq : Option Nat) : Node Id :=
  match foldSuccessorWriteSeq (s.chunkGenerations base) foldSeq with
  | none => s
  | some g =>
    let bumped := s.bumpChunkGeneration new g
    if (s.chunkGenerations new).all (fun prev => decide (prev < g)) && !env.foldFails .putChunkSeq then
      let (put, effective) := bumped.putChunkSeq slot g
      if g < effective then put.bumpChunkGeneration new effective else put
    else bumped

def Node.forgetGeneration (base new : Id) : Node Id :=
  if new = base then s else { s with chunkGenerations := update s.chunkGenerations base none }

/-- From none to the fold's. Returns the location. -/
def Node.correctWriteSeq (new : Id) (foldSeq : Option Nat) : Node Id × Option (ChunkLocation Id) :=
  match (if env.foldFails .readNewLocation then none else s.chunkTable new) with
  | none => (s, none)
  | some loc =>
    if loc.clientWriteSeq ≠ foldSeq ∧ foldSeq ≠ none then
      let corrected := { loc with clientWriteSeq := foldSeq }
      (if env.foldFails .correctSeq then s else s.putChunkLocation corrected, some corrected)
    else (s, some loc)

def Node.dropDelta (delta : Id) : Node Id :=
  let unregistered := if env.foldFails .deleteDeltaLocation then s else s.deleteChunkLocation delta
  if env.foldFails .deleteDelta then unregistered else unregistered.deleteChunk delta

/-- Once the rewritten chunk is on disk and registered. -/
def Node.commitFold (token base delta : Id) (deltaSeq : Option Nat) (new : Id) (size : Nat) (buf : Bytes) :
    Node Id × Option (Id × Nat × Bytes × Option Nat) :=
  if s.tombstoned slot.1 then (s.dropFoldResultOfDeletedFile new, none)
  else
    let foldSeq := foldSuccessorWriteSeq ((s.occupant slot).bind (·.clientWriteSeq)) deltaSeq
    let recorded := { s with foldResultChunkIds := update s.foldResultChunkIds new true }
    let stamped := (recorded.stampGeneration env slot base new foldSeq).forgetGeneration base new
    let (corrected, newLoc) := (stamped.rekeyRing base new (some buf)).correctWriteSeq env new foldSeq
    let finalSeq := newLoc.bind (·.clientWriteSeq)
    let flipped := if env.foldFails .flipFolded then corrected else corrected.updatePatchStateFolded token new
    let (moved, _) := (flipped.dropDelta env delta).updateChunkMapAfterPatch slot.1 (some slot.2) token new size env.nowMs
      finalSeq
    ({ moved with pendingPatchIds := update moved.pendingPatchIds base none }, some (new, size, buf, finalSeq))

def Node.runSingleFold (env : FoldEnv Id) (s : Node Id) (slot : Slot) (token base delta : Id) (deltaSeq : Option Nat)
    (writtenAt : Nat) : Node Id × Option (Id × Nat × Bytes × Option Nat) :=
  if s.fileGone env slot.1 writtenAt then (s.abandonPatch env slot token, none)
  else if s.slotSuperseded slot token deltaSeq then (s.abandonPatch env slot token, none)
  else match (if env.foldFails .readDelta then none else s.readChunkArc delta) with
    | none => (s.abandonPatchIfBaseGone H env slot token delta false, none)
    | some bytes =>
      match parseDeltaRecords bytes with
      | .error _ => (s, none)
      | .ok records =>
        match s.fullRewriteChunk H env.toPatchEnv slot.1 (slot.2 * chunkSize) base records (s.chunkRing base) with
        | (s, .error e) =>
          (if e.2 = .notFound then s.abandonPatchIfBaseGone H env slot token base true else s, none)
        | (s, .ok (new, size, buf)) => s.commitFold env slot token base delta deltaSeq new size buf

def Node.recordFoldFailure : Node Id :=
  let counted := (s.dirtyPatchSlots slot).map (fun d => { d with foldFailures := d.foldFailures + 1 })
  { s with dirtyPatchSlots := update s.dirtyPatchSlots slot counted }

def Node.markClean : Node Id := { s with dirtyPatchSlots := update s.dirtyPatchSlots slot none }

def Node.foldSlotNow (env : FoldEnv Id) (s : Node Id) (slot : Slot) : Node Id × FoldSlotOutcome Id :=
  match s.dirtyPatchSlots slot with
  | none => (s, .nothingToDo)
  | some dirty =>
    if env.foldFails .readPatchState then (s.recordFoldFailure slot, .failed)
    else match s.patchState dirty.token with
      | none => (s.markClean slot, .nothingToDo)
      | some (.folded _) => (s.markClean slot, .adoptedElsewhere)
      | some (.pending base delta _ writtenAt seq) =>
        match s.runSingleFold H env slot dirty.token base delta seq writtenAt with
        | (s, some (new, size, buf, finalSeq)) => (s.markClean slot, .foldedHere new size buf finalSeq)
        | (s, none) => (s.recordFoldFailure slot, .failed)

end Dfs
