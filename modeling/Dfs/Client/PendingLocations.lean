import Dfs.Types
import Dfs.Lib.Registry
import Dfs.Lib.Transition

/-!
# The chunk locations that wait to be sent

Locations wait in `pending_chunk_locations`, one for each slot, for the batch worker or `flush_metadata_sync`; a fresh
write sends its own. A failed batch is put back; batches may overlap.
-/

namespace Dfs

open Registry

variable {Id : Type}

abbrev ChunkLocationSlotKey := Option FileId × Option Nat

structure QueuedLocation (Id : Type) where
  location : ChunkLocation Id
  serial : Nat
  deriving DecidableEq

def QueuedLocation.slotKey (q : QueuedLocation Id) : ChunkLocationSlotKey := (q.location.fileId, q.location.fileOffset)

/-- `pending_chunk_locations`, or a batch, which has the values of such a map. -/
abbrev PendingLocations (Id : Type) := Registry (@QueuedLocation.slotKey Id)

def keepNew (existing : Option (QueuedLocation Id)) (q : QueuedLocation Id) : Bool :=
  match existing with
  | none => true
  | some existing => match existing.location.clientWriteSeq, q.location.clientWriteSeq with
    | some oldSeq, some newSeq => decide (oldSeq ≤ newSeq)
    | _, _ => true

variable (pending : PendingLocations Id) (q : QueuedLocation Id)

def upsertChunkLocation : PendingLocations Id := if keepNew (pending.get q.slotKey) q then pending.insert q else pending

/-- The worker, `flush_metadata_sync` of a file, or a fresh write. -/
inductive LocationSender where
  | worker
  | flush (file : FileId)
  | write
  deriving DecidableEq, Repr

/-- The worker takes all, `flush_metadata_sync` those of its file. -/
def LocationSender.takes : LocationSender → ChunkLocationSlotKey → Bool
  | .worker, _ => true
  | .flush file, k => decide (k.1 = some file)
  | .write, _ => false

structure SentBatch (Id : Type) where
  sender : LocationSender
  locations : PendingLocations Id

/-- What waits and what is in flight, with the number of enqueues. -/
structure LocationQueue (Id : Type) where
  pending : PendingLocations Id
  inFlight : List (SentBatch Id)
  enqueued : Nat

variable (batch : PendingLocations Id)

/-- The worker puts what came in over its batch, the other two put the batch over it. -/
def requeue : LocationSender → PendingLocations Id
  | .worker => pending.values.foldl upsertChunkLocation (batch.values.foldl upsertChunkLocation .empty)
  | .flush _ | .write => batch.values.foldl upsertChunkLocation pending

def numbered (serial : Nat) (locations : Locations Id) : PendingLocations Id :=
  locations.foldl (fun batch location => batch.insert ⟨location, serial⟩) .empty

/-- A send that ends was answered, or failed, or knew no leader. -/
inductive LocationAction (Id : Type) where
  | enqueue (location : ChunkLocation Id)
  | sendWrite (locations : Locations Id)
  | drain (sender : LocationSender)
  | finish (i : Nat) (answered : Bool)

/-- The one worker waits for its answer; an empty batch is not sent. -/
def LocationQueue.step (s : LocationQueue Id) : LocationAction Id → LocationQueue Id
  | .enqueue location =>
    { s with pending := upsertChunkLocation s.pending ⟨location, s.enqueued⟩, enqueued := s.enqueued + 1 }
  | .sendWrite locations =>
    { s with
      inFlight := s.inFlight ++ [⟨.write, numbered s.enqueued locations⟩]
      enqueued := s.enqueued + 1 }
  | .drain sender =>
    let taken := s.pending.filter fun q => sender.takes q.slotKey
    if (sender = .worker ∧ s.inFlight.any fun b => decide (b.sender = .worker)) ∨ taken.values = [] then s
    else { s with
      pending := s.pending.filter fun q => !sender.takes q.slotKey
      inFlight := s.inFlight ++ [⟨sender, taken⟩] }
  | .finish i answered => match s.inFlight[i]? with
    | none => s
    | some b =>
      { s with
        pending := if answered then s.pending else requeue s.pending b.locations b.sender
        inFlight := s.inFlight.eraseIdx i }

def LocationQueue.new : LocationQueue Id := ⟨.empty, [], 0⟩

/-! ## What a slot has -/

def upserted (existing : Option (QueuedLocation Id)) (q : QueuedLocation Id) : Option (QueuedLocation Id) :=
  if keepNew existing q then some q else existing

lemma get_upsertChunkLocation (k : ChunkLocationSlotKey) :
    (upsertChunkLocation pending q).get k = if q.slotKey = k then upserted (pending.get k) q else pending.get k := by
  unfold upsertChunkLocation upserted
  by_cases hk : q.slotKey = k
  · subst hk
    split
    · simp [get_insert]
    · simp
  rw [if_neg hk]
  split
  · rw [get_insert, if_neg hk]
  · rfl

lemma get_requeue (sender : LocationSender) (k : ChunkLocationSlotKey) : (requeue pending batch sender).get k =
      match sender with
      | .worker => (pending.get k).elim (batch.get k) (upserted (batch.get k))
      | .flush _ | .write => (batch.get k).elim (pending.get k) (upserted (pending.get k)) := by
  cases sender with
  | worker =>
    unfold requeue
    rw [get_foldl get_upsertChunkLocation, get_foldl get_upsertChunkLocation, get_empty]
    cases batch.get k <;> rfl
  | flush file => exact get_foldl get_upsertChunkLocation batch pending k
  | write => exact get_foldl get_upsertChunkLocation batch pending k

end Dfs
