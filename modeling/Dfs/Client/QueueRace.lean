import Dfs.Client.MetadataQueue

/-!
# Tasks that push while another cancels

`push_inner` looks for the deleted mark, and `cancel` sets it, before the queue's lock: each is a step before the lock
and one under it.
-/

namespace Dfs

open Function

variable {Id : Type} (q : MetadataQueue Id)

def MetadataQueue.pushLocked (m : FileMetadata Id) (tx : Option Completion) (full : Bool) (now : Nat) : MetadataQueue Id :=
  match q.find m.id with
  | some (pos, entry) =>
    let (merged, lost) := q.coalesce entry m tx full
    { q with inner := q.inner.set pos merged, closed := lost.toList ++ q.closed }
  | none =>
    { q with
      inner := q.inner ++ [⟨m, now, tx, q.coversFrom m m.writeSeq full⟩]
      index := update q.index m.id (some q.inner.length) }

variable (file : FileId)

def MetadataQueue.cancelMark : MetadataQueue Id :=
  { q with
    deletedIds := update q.deletedIds file true
    deliveredWriteSeq := update q.deliveredWriteSeq file none }

def MetadataQueue.cancelLocked : MetadataQueue Id :=
  match q.index file with
  | none => q
  | some pos =>
    let removed := (q.inner[pos]?).bind (·.doneTx)
    let rest := q.inner.eraseIdx pos
    { q.signal removed with inner := rest, index := reindex 0 rest (update q.index file none) }

lemma pushInner_eq (m : FileMetadata Id) (tx : Option Completion) (full : Bool) (now : Nat) :
    q.pushInner m tx full now = if q.deletedIds m.id then q.signal tx else q.pushLocked m tx full now := rfl

lemma cancel_eq : q.cancel file = (q.cancelMark file).cancelLocked file := rfl

structure PendingPush (Id : Type) where
  metadata : FileMetadata Id
  tx : Option Completion
  full : Bool

/-- With the pushes and cancellations that wait for the lock, and the files whose `cancel` returned. -/
structure QueueTasks (Id : Type) where
  queue : MetadataQueue Id
  pushes : List (PendingPush Id)
  cancels : List FileId
  cancelled : List FileId

def QueueTasks.new : QueueTasks Id := ⟨.new, [], [], []⟩

inductive TaskStep (Id : Type) where
  | pushCheck (m : FileMetadata Id) (tx : Option Completion) (full : Bool)
  | pushLocked (i now : Nat)
  | cancelMark (file : FileId)
  | cancelLocked (i : Nat)
  | pop
  | checkDeleted
  | attempt (confirmed : Bool)
  | popStalled (now : Nat)
  /-- The attempt of a task that took a stalled entry. If it fails the entry goes back to the front. -/
  | rescue (i : Nat) (confirmed : Bool)

def QueueTasks.step (s : QueueTasks Id) : TaskStep Id → QueueTasks Id
  | .pushCheck m tx full =>
    if s.queue.deletedIds m.id then { s with queue := s.queue.signal tx } else { s with pushes := s.pushes ++ [⟨m, tx, full⟩] }
  | .pushLocked i now =>
    match s.pushes[i]? with
    | some p => { s with queue := s.queue.pushLocked p.metadata p.tx p.full now, pushes := s.pushes.eraseIdx i }
    | none => s
  | .cancelMark file => { s with queue := s.queue.cancelMark file, cancels := s.cancels ++ [file] }
  | .cancelLocked i =>
    match s.cancels[i]? with
    | some file =>
      { s with queue := s.queue.cancelLocked file, cancels := s.cancels.eraseIdx i, cancelled := file :: s.cancelled }
    | none => s
  | .pop => { s with queue := s.queue.step .pop }
  | .checkDeleted => { s with queue := s.queue.step .checkDeleted }
  | .attempt confirmed => { s with queue := s.queue.step (.attempt confirmed) }
  | .popStalled now => { s with queue := s.queue.step (.popStalled now) }
  | .rescue i confirmed => { s with queue := s.queue.step (.rescue i confirmed) }

def TaskStep.taken (s : QueueTasks Id) : TaskStep Id → Option (MetadataEntry Id)
  | .pop => if s.queue.worker.isNone then s.queue.popFront.map Prod.fst else none
  | .popStalled now => (s.queue.popStalled now).map Prod.fst
  | _ => none

end Dfs
