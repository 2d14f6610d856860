import Dfs.Types

/-!
# The lease on a slot's fold

Each replica's part of one slot, its calls of `coordinate_and_fold_slot`, and the proposals on their way. An action
runs to the next await. No lease expires, every message arrives.
-/

namespace Dfs

open Function

variable {Id : Type}

structure FoldFingerprint (Id : Type) where
  baseChunkId : Id
  deltaChunkId : Id
  deltaSize : Nat
  deriving DecidableEq, Repr

inductive ProposeFoldOutcome where
  | granted
  | nothingPending
  | declinedAlreadyLocked
  | declinedAlreadyFolding
  | declinedCollision
  | declinedBaseMismatch
  | declinedStaleProposer
  | declinedDivergentAccumulators
  deriving DecidableEq, Repr

def ProposeFoldOutcome.accepted : ProposeFoldOutcome → Bool
  | granted | nothingPending => true
  | _ => false

structure ProposeFold (Id : Type) where
  proposer : NodeId
  proposedAtMs : Nat
  fingerprint : FoldFingerprint Id
  deriving DecidableEq, Repr

def claimBefore (a b : Nat × NodeId) : Prop := a.1 < b.1 ∨ a.1 = b.1 ∧ a.2 < b.2

instance (a b : Nat × NodeId) : Decidable (claimBefore a b) := inferInstanceAs (Decidable (_ ∨ _))

/-- The lease it granted, its own claim, does it have the slot locked or dirty, and the accumulator of a `Pending` row. -/
structure ReplicaSlot (Id : Type) where
  foldLockGrants : Option NodeId
  outboundFoldClaims : Option Nat
  chunkPatchLock : Bool
  dirtyPatchSlot : Bool
  pending : Option (FoldFingerprint Id)
  deriving DecidableEq, Repr

namespace ReplicaSlot

variable (r : ReplicaSlot Id)

def localFoldFingerprint : Option (FoldFingerprint Id) := if r.dirtyPatchSlot then r.pending else none

def proposeCheck (localId : NodeId) (q : ProposeFold Id) : ReplicaSlot Id × Option ProposeFoldOutcome :=
  if r.foldLockGrants.any (· != q.proposer) then (r, some .declinedAlreadyLocked)
  else if r.chunkPatchLock then (r, some .declinedAlreadyFolding)
  else match r.outboundFoldClaims with
    | some ms =>
      if claimBefore (ms, localId) (q.proposedAtMs, q.proposer) then (r, some .declinedCollision)
      else ({ r with outboundFoldClaims := none }, none)
    | none => (r, none)

/-- With the slot lock in hand. A call of the replica's own may start at any time. -/
def proposeAnswer [DecidableEq Id] (r : ReplicaSlot Id) (q : ProposeFold Id) : ReplicaSlot Id × ProposeFoldOutcome :=
  match r.localFoldFingerprint with
  | none => (r, .nothingPending)
  | some fp =>
    if fp.baseChunkId ≠ q.fingerprint.baseChunkId then (r, .declinedBaseMismatch)
    else if fp.deltaChunkId = q.fingerprint.deltaChunkId then ({ r with foldLockGrants := some q.proposer }, .granted)
    else if fp.deltaSize < q.fingerprint.deltaSize then ({ r with foldLockGrants := some q.proposer }, .granted)
    else if q.fingerprint.deltaSize < fp.deltaSize then (r, .declinedStaleProposer)
    else (r, .declinedDivergentAccumulators)

def handleReleaseFoldLock (holder : NodeId) : ReplicaSlot Id :=
  if r.foldLockGrants = some holder then { r with foldLockGrants := none } else r

end ReplicaSlot

/-- On its way, in a handler that waits for the lock, or answered. -/
inductive ProposalStage where
  | sent
  | passed
  | answered (outcome : ProposeFoldOutcome)
  deriving DecidableEq, Repr

def ProposalStage.accepted : ProposalStage → Bool
  | answered outcome => outcome.accepted
  | _ => false

def ProposalStage.isAnswered : ProposalStage → Bool
  | answered _ => true
  | _ => false

inductive CallPhase (Id : Type) where
  | idle
  | checked
  /-- In step 1, after the reseed of `dirty_patch_slots` from the durable row. -/
  | reseeded
  | prepared (fingerprint : FoldFingerprint Id)
  | proposed (fingerprint : FoldFingerprint Id) (proposedAtMs : Nat) (stage : NodeId → ProposalStage)
  | folding (fingerprint : FoldFingerprint Id) (proposedAtMs : Nat)
  | releasing (proposedAtMs : Nat) (left : List NodeId)

/-- The replicas, what each has of the slot, and its calls by number. -/
structure FoldCluster (Id : Type) where
  replicas : List NodeId
  slot : NodeId → ReplicaSlot Id
  call : NodeId × Nat → CallPhase Id

/-- Of a call, of a handler at a peer, or of another holder of the lock. -/
inductive FoldAction where
  | enter (c : NodeId × Nat)
  | read (c : NodeId × Nat)
  | fail (c : NodeId × Nat)
  | propose (c : NodeId × Nat) (proposedAtMs : Nat)
  | deliver (c : NodeId × Nat) (peer : NodeId)
  | answer (c : NodeId × Nat) (peer : NodeId)
  | collect (c : NodeId × Nat)
  | fold (c : NodeId × Nat)
  | release (c : NodeId × Nat) (peer : NodeId)
  | lock (n : NodeId)
  | unlock (n : NodeId)
  | settle (n : NodeId)
  deriving DecidableEq, Repr

namespace FoldCluster

variable (s : FoldCluster Id)

def peers (n : NodeId) : List NodeId := s.replicas.filter (· ≠ n)

variable (c : NodeId × Nat)

def setCall (p : CallPhase Id) : FoldCluster Id := { s with call := update s.call c p }

def setSlot (n : NodeId) (r : ReplicaSlot Id) : FoldCluster Id := { s with slot := update s.slot n r }

def enter : FoldCluster Id :=
  match s.call c with
  | .idle => if (s.slot c.1).foldLockGrants.isSome then s else s.setCall c .checked
  | _ => s

/-- Step 1. Without a fingerprint a `Pending` row seeds a second read; what that does not find is folded uncoordinated. -/
def read : FoldCluster Id :=
  if (s.slot c.1).chunkPatchLock then s
  else match s.call c, (s.slot c.1).localFoldFingerprint with
    | .checked, some fp => s.setCall c (.prepared fp)
    | .checked, none => match (s.slot c.1).pending with
      | some _ => (s.setSlot c.1 { s.slot c.1 with dirtyPatchSlot := true }).setCall c .reseeded
      | none => s.setCall c .idle
    | .reseeded, some fp => s.setCall c (.prepared fp)
    | .reseeded, none => s.setCall c .idle
    | _, _ => s

def fail : FoldCluster Id :=
  match s.call c with
  | .prepared _ => s.setCall c .idle
  | _ => s

/-- Steps 2 to 4: solo without a peer, otherwise every peer is asked. -/
def propose (proposedAtMs : Nat) : FoldCluster Id :=
  match s.call c with
  | .prepared fp =>
    if (s.peers c.1).isEmpty then s.setCall c .idle
    else (s.setSlot c.1 { s.slot c.1 with outboundFoldClaims := some proposedAtMs }).setCall c
      (.proposed fp proposedAtMs fun _ => .sent)
  | _ => s

def deliver (peer : NodeId) : FoldCluster Id :=
  match s.call c with
  | .proposed fp ms stage =>
    if stage peer = .sent ∧ peer ∈ s.peers c.1 then
      let (r, declined) := (s.slot peer).proposeCheck peer ⟨c.1, ms, fp⟩
      (s.setSlot peer r).setCall c (.proposed fp ms (update stage peer ((declined.map .answered).getD .passed)))
    else s
  | _ => s

def answer [DecidableEq Id] (s : FoldCluster Id) (c : NodeId × Nat) (peer : NodeId) : FoldCluster Id :=
  match s.call c with
  | .proposed fp ms stage =>
    if stage peer = .passed ∧ (s.slot peer).chunkPatchLock = false then
      let (r, outcome) := (s.slot peer).proposeAnswer ⟨c.1, ms, fp⟩
      (s.setSlot peer r).setCall c (.proposed fp ms (update stage peer (.answered outcome)))
    else s
  | _ => s

/-- The claim is dropped; the call folds if every peer granted. -/
def collect : FoldCluster Id :=
  match s.call c with
  | .proposed fp ms stage =>
    if (s.peers c.1).all fun n => (stage n).isAnswered then
      (s.setSlot c.1 { s.slot c.1 with outboundFoldClaims := none }).setCall c
        (if (s.peers c.1).all fun n => (stage n).accepted then .folding fp ms else .idle)
    else s
  | _ => s

/-- What it does at its replica are the actions `lock`, `settle` and `unlock`. -/
def fold : FoldCluster Id :=
  match s.call c with
  | .folding _ ms => s.setCall c (.releasing ms (s.peers c.1))
  | _ => s

def release (peer : NodeId) : FoldCluster Id :=
  match s.call c with
  | .releasing ms left =>
    if peer ∈ left then
      (s.setSlot peer ((s.slot peer).handleReleaseFoldLock c.1)).setCall c
        (if left.filter (· ≠ peer) = [] then .idle else .releasing ms (left.filter (· ≠ peer)))
    else s
  | _ => s

/-- A fold, or the announcement of one, ends the accumulator. -/
def step [DecidableEq Id] (s : FoldCluster Id) : FoldAction → FoldCluster Id
  | .enter c => s.enter c
  | .read c => s.read c
  | .fail c => s.fail c
  | .propose c ms => s.propose c ms
  | .deliver c peer => s.deliver c peer
  | .answer c peer => s.answer c peer
  | .collect c => s.collect c
  | .fold c => s.fold c
  | .release c peer => s.release c peer
  | .lock n => s.setSlot n { s.slot n with chunkPatchLock := true }
  | .unlock n => s.setSlot n { s.slot n with chunkPatchLock := false }
  | .settle n => s.setSlot n { s.slot n with pending := none, dirtyPatchSlot := false }

end FoldCluster

end Dfs
