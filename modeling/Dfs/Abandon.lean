import Dfs.Fold
import Dfs.Lib.Transition

/-!
# Abandoning a patch, step by step

The functions of `Dfs.Fold` that abandon a Pending patch, cut where they wait or take a lock: before each step the node may be any
other.
-/

namespace Dfs

open Transition Node

variable {Id : Type}

inductive AbandonReason (Id : Type) where
  /-- `abandon_patch_if_base_gone`, whose `which` is "base" or "delta". -/
  | baseGone (missingChunkId : Id) (isBase : Bool)
  | fileGone
  | slotSuperseded (patchClientWriteSeq : Option Nat)

structure AbandonCall (Id : Type) where
  slot : Slot
  publicToken : Id
  reason : AbandonReason Id

inductive AbandonPhase (Id : Type) where
  | started
  /-- No peer has the missing chunk, or none was asked. -/
  | notRecovered
  /-- The slot is on another chunk. -/
  | otherOccupant (current : Id) (currentWriteSeq : Option Nat)
  | patchGenRead (current : Id) (currentWriteSeq patchGen : Option Nat)
  | condemned
  | cleaned (removed : Option (DirtyPatchSlot Id))
  | rowDeleted (removed : Option (DirtyPatchSlot Id))
  /-- The chunk before the patch is not the missing one and not itself a patch. -/
  | priorFound (prior : Id)
  | priorLocated (prior : Id) (priorLoc : ChunkLocation Id)
  | finished (abandoned : Bool)

def AbandonPhase.abandoning : AbandonPhase Id → Bool
  | .condemned | .cleaned _ | .rowDeleted _ | .priorFound _ | .priorLocated .. => true
  | .finished abandoned => abandoned
  | .started | .notRecovered | .otherOccupant .. | .patchGenRead .. => false

/-- By generation if both have one and they differ, else by write sequence. -/
def occupantIsCausallyBehind (currentGen patchGen currentWriteSeq patchClientWriteSeq : Option Nat) : Bool :=
  let bySeq : Bool := match currentWriteSeq, patchClientWriteSeq with
    | some current, some patch => decide (current < patch)
    | _, _ => false
  match currentGen, patchGen with
  | some current, some patch => if current ≠ patch then decide (current < patch) else bySeq
  | _, _ => bySeq

variable [DecidableEq Id]

/-- The slot goes back to the chunk before the patch if it is still on the token. -/
def Node.restoreTo (env : FoldEnv Id) (s : Node Id) (slot : Slot) (token prior : Id) (priorLoc : ChunkLocation Id) : Node Id :=
  match s.chunkMap slot.1 with
  | none => s
  | some (locs, w) =>
    match slotPosition locs slot.2 with
    | none => s
    | some pos =>
      if (locs[pos]?).map (·.chunkId) = some token then
        s.setChunkMap (Function.update s.chunkMap slot.1 (some (locs.modify pos (fun l =>
          { l with chunkId := prior, size := priorLoc.size, writtenAt := some env.nowMs,
                   clientWriteSeq := priorLoc.clientWriteSeq, nodes := priorLoc.nodes }), w)))
      else s

variable (H : ChunkHash Id) (env : FoldEnv Id) (call : AbandonCall Id)

def AbandonCall.next (s : Node Id) (phase : AbandonPhase Id) : Node Id × AbandonPhase Id :=
  match call.reason, phase with
  | .baseGone missing isBase, .started =>
    if isBase && !s.hasChunk missing then
      let (pulled, found) :=
        s.pullChunkFromPeers H env.toPatchEnv missing env.allNodes call.slot.1 (call.slot.2 * chunkSize)
      (pulled, if found.isSome then .finished false else .notRecovered)
    else (s, .notRecovered)
  | .baseGone missing _, .notRecovered =>
    -- a failed read is inconclusive, and what is registered may come back
    (s, if env.foldFails .readMissing || (s.chunkTable missing).isSome then .finished false else .condemned)
  | .baseGone missing _, .rowDeleted removed =>
    match removed.bind (·.priorChunkId) with
    | none => (s, .finished true)
    | some prior => (s, if prior = missing ∨ s.pendingPatchIds prior ≠ none then .finished true else .priorFound prior)
  | .baseGone _ _, .priorFound prior =>
    match (if env.foldFails .readPrior then none else s.chunkTable prior) with
    | none => (s, .finished true)
    | some priorLoc => (s, .priorLocated prior priorLoc)
  | .baseGone _ _, .priorLocated prior priorLoc =>
    (s.restoreTo env call.slot call.publicToken prior priorLoc, .finished true)
  | .fileGone, .started => (s, if env.foldFails .fileExists || s.fileExists call.slot.1 then .finished false else .condemned)
  | .slotSuperseded _, .started =>
    match s.occupant call.slot with
    | none => (s, .finished false)
    | some loc =>
      (s, if loc.chunkId = call.publicToken then .finished false else .otherOccupant loc.chunkId loc.clientWriteSeq)
  | .slotSuperseded _, .otherOccupant current currentWriteSeq =>
    (s, .patchGenRead current currentWriteSeq (s.chunkGenerations call.publicToken))
  | .slotSuperseded patchSeq, .patchGenRead current currentWriteSeq patchGen =>
    (s, if occupantIsCausallyBehind (s.chunkGenerations current) patchGen currentWriteSeq patchSeq then .finished false
      else .condemned)
  | _, .condemned =>
    ({ s with dirtyPatchSlots := Function.update s.dirtyPatchSlots call.slot none }, .cleaned (s.dirtyPatchSlots call.slot))
  | _, .cleaned removed =>
    (if env.foldFails .deletePatchState then s else s.deletePatchStateAbandoned call.publicToken call.slot, .rowDeleted removed)
  | _, .rowDeleted _ => (s, .finished true)
  | _, phase => (s, phase)

/-- The other tasks may have changed the node since the last step. -/
def AbandonCall.step (st : Node Id × AbandonPhase Id) (others : Option (Node Id)) : Node Id × AbandonPhase Id :=
  call.next H env (others.getD st.1) st.2

def AbandonCall.uninterrupted (s : Node Id) : Node Id × AbandonPhase Id :=
  Transition.run (call.step H env) (s, .started) (List.replicate 7 none)

end Dfs
