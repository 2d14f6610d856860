import Dfs.Types
import Dfs.Lib.Transition

/-!
# The metadata queue of a client

The queue, the tasks with entries taken out, the channels of `push_and_wait`, and what leaders acknowledged.
-/

namespace Dfs

open Function

structure Completion where
  serial : Nat
  file : FileId
  writeSeq : Nat
  deriving DecidableEq, Repr

structure MetadataEntry (Id : Type) where
  metadata : FileMetadata Id
  enqueuedAt : Nat
  doneTx : Option Completion
  coversFromWriteSeq : Nat
  deriving DecidableEq

/-- With the channels signalled and dropped, the worker's entry, those that other tasks took, and what leaders acknowledged. -/
structure MetadataQueue (Id : Type) where
  inner : List (MetadataEntry Id)
  index : FileId → Option Nat
  deletedIds : FileId → Bool
  deliveredWriteSeq : FileId → Option Nat
  deliveredSize : FileId → Option Nat
  signalled : List Completion
  closed : List Completion
  worker : Option (MetadataEntry Id × Bool)
  rescues : List (MetadataEntry Id)
  acked : List (FileId × Nat)

variable {Id : Type}

def MetadataQueue.new : MetadataQueue Id :=
  ⟨[], fun _ => none, fun _ => false, fun _ => none, fun _ => none, [], [], none, [], []⟩

def metadataQueueMaxAge : Nat := 24

def metadataCommitWait : Nat := 60

/-! ## Pushing -/

def MetadataQueue.signal (q : MetadataQueue Id) (tx : Option Completion) : MetadataQueue Id :=
  { q with signalled := tx.toList ++ q.signalled }

def reindex : Nat → List (MetadataEntry Id) → (FileId → Option Nat) → FileId → Option Nat
  | _, [], idx => idx
  | k, e :: l, idx => reindex (k + 1) l (update idx e.metadata.id (some k))

/-- What only the other has, by offset, goes to the end. -/
def mergeLocations (base other : Locations Id) : Locations Id :=
  if other.isEmpty then base
  else base ++ other.filter (fun l => !(base.map (·.fileOffset)).contains l.fileOffset)

def MetadataQueue.coversFrom (q : MetadataQueue Id) (m : FileMetadata Id) (seq : Nat) (full : Bool) : Nat :=
  if full then 0
  else
    let derived := (m.chunkLocations.filterMap (·.clientWriteSeq)).foldl min seq
    match q.deliveredWriteSeq m.id with
    | some w => min derived (w + 1)
    | none => derived

/-- The newer record wins, with its channel if it has one; the channel that loses its place is returned. -/
def MetadataQueue.coalesce (q : MetadataQueue Id) (entry : MetadataEntry Id) (m : FileMetadata Id) (tx : Option Completion)
    (full : Bool) : MetadataEntry Id × Option Completion :=
  let covers := q.coversFrom m (min entry.coversFromWriteSeq m.writeSeq) full
  if entry.metadata.writeSeq ≤ m.writeSeq then
    let merged := mergeLocations m.chunkLocations entry.metadata.chunkLocations
    ({ entry with metadata := { m with chunkLocations := merged }, doneTx := tx.or entry.doneTx, coversFromWriteSeq := covers },
      if tx.isSome then entry.doneTx else none)
  else
    let merged := mergeLocations entry.metadata.chunkLocations m.chunkLocations
    ({ entry with
        metadata := { entry.metadata with chunkLocations := merged }, doneTx := entry.doneTx.or tx, coversFromWriteSeq :=
          covers },
      if entry.doneTx.isSome then tx else none)

def MetadataQueue.find (q : MetadataQueue Id) (file : FileId) : Option (Nat × MetadataEntry Id) :=
  (q.index file).bind (fun pos => (q.inner[pos]?).map (fun e => (pos, e)))

def MetadataQueue.pushInner (q : MetadataQueue Id) (m : FileMetadata Id) (tx : Option Completion) (full : Bool) (now : Nat) :
    MetadataQueue Id :=
  if q.deletedIds m.id then q.signal tx
  else match q.find m.id with
    | some (pos, entry) =>
      let (merged, lost) := q.coalesce entry m tx full
      { q with inner := q.inner.set pos merged, closed := lost.toList ++ q.closed }
    | none =>
      { q with
        inner := q.inner ++ [⟨m, now, tx, q.coversFrom m m.writeSeq full⟩]
        index := update q.index m.id (some q.inner.length) }

variable {q : MetadataQueue Id} {e : MetadataEntry Id}

lemma MetadataQueue.find_eq_some {file : FileId} {pos : Nat} :
    q.find file = some (pos, e) ↔ q.index file = some pos ∧ q.inner[pos]? = some e := by
  unfold MetadataQueue.find
  constructor
  · intro h
    obtain ⟨pos', hidx, h⟩ := Option.bind_eq_some_iff.mp h
    obtain ⟨e', he, heq⟩ := Option.map_eq_some_iff.mp h
    cases heq
    exact ⟨hidx, he⟩
  · rintro ⟨hidx, he⟩
    rw [hidx, Option.bind_some, he]
    rfl

lemma pushInner_cases (q : MetadataQueue Id) (m : FileMetadata Id) (tx : Option Completion) (full : Bool) (now : Nat) :
    (q.deletedIds m.id = true ∧ q.pushInner m tx full now = q.signal tx) ∨
    (q.deletedIds m.id = false ∧ ∃ pos e, q.find m.id = some (pos, e) ∧ q.pushInner m tx full now
      = { q with inner := q.inner.set pos (q.coalesce e m tx full).1, closed := (q.coalesce e m tx full).2.toList ++ q.closed }) ∨
    (q.deletedIds m.id = false ∧ q.find m.id = none ∧ q.pushInner m tx full now
      = { q with
          inner := q.inner ++ [⟨m, now, tx, q.coversFrom m m.writeSeq full⟩]
          index := update q.index m.id (some q.inner.length) }) := by
  unfold MetadataQueue.pushInner
  cases hdel : q.deletedIds m.id with
  | true => exact .inl ⟨rfl, rfl⟩
  | false =>
    cases hfind : q.find m.id with
    | none => exact .inr (.inr ⟨rfl, rfl, rfl⟩)
    | some r =>
      obtain ⟨pos, e⟩ := r
      exact .inr (.inl ⟨rfl, pos, e, rfl, rfl⟩)

def MetadataQueue.pushInnerFront (q : MetadataQueue Id) (entry : MetadataEntry Id) : MetadataQueue Id :=
  { q with
    inner := entry :: q.inner
    index := reindex 0 (entry :: q.inner) (update q.index entry.metadata.id (some 0)) }

/-! ## Taking out -/

def MetadataQueue.popFront (q : MetadataQueue Id) : Option (MetadataEntry Id × MetadataQueue Id) :=
  match q.inner with
  | [] => none
  | e :: l => some (e, { q with inner := l, index := reindex 0 l (update q.index e.metadata.id none) })

def MetadataQueue.popStalled (q : MetadataQueue Id) (now : Nat) : Option (MetadataEntry Id × MetadataQueue Id) :=
  if q.inner.head?.any (fun e => decide (metadataQueueMaxAge < now - e.enqueuedAt)) then q.popFront else none

lemma popFront_eq_some {q' : MetadataQueue Id} (h : q.popFront = some (e, q')) :
    ∃ l, q.inner = e :: l ∧ q' = { q with inner := l, index := reindex 0 l (update q.index e.metadata.id none) } := by
  unfold MetadataQueue.popFront at h
  cases hinner : q.inner with
  | nil =>
    rw [hinner] at h
    cases h
  | cons e₀ l =>
    rw [hinner] at h
    obtain ⟨rfl, rfl⟩ := Prod.mk.inj (Option.some.inj h)
    exact ⟨l, rfl, rfl⟩

lemma popStalled_popFront {now : Nat} {r : MetadataEntry Id × MetadataQueue Id} (h : q.popStalled now = some r) :
    q.popFront = some r := by
  unfold MetadataQueue.popStalled at h
  split at h
  · exact h
  · cases h

def MetadataQueue.cancel (q : MetadataQueue Id) (file : FileId) : MetadataQueue Id :=
  let q := { q with
    deletedIds := update q.deletedIds file true
    deliveredWriteSeq := update q.deliveredWriteSeq file none }
  match q.index file with
  | none => q
  | some pos =>
    let removed := (q.inner[pos]?).bind (·.doneTx)
    let rest := q.inner.eraseIdx pos
    { q.signal removed with inner := rest, index := reindex 0 rest (update q.index file none) }

def MetadataQueue.markDelivered (q : MetadataQueue Id) (file : FileId) (writeSeq size : Nat) : MetadataQueue Id :=
  let newest := max ((q.deliveredWriteSeq file).getD writeSeq) writeSeq
  { q with
    deliveredWriteSeq := update q.deliveredWriteSeq file (some newest)
    deliveredSize := if newest ≤ writeSeq then update q.deliveredSize file (some size) else q.deliveredSize }

def MetadataQueue.ack (q : MetadataQueue Id) (m : FileMetadata Id) : MetadataQueue Id :=
  { q with acked := (m.id, m.writeSeq) :: q.acked }

/-! ## The tasks -/

inductive QueueStep (Id : Type) where
  | push (m : FileMetadata Id) (full : Bool) (now : Nat)
  | pushAndWait (m : FileMetadata Id) (serial now : Nat)
  | pop
  | checkDeleted
  | attempt (confirmed : Bool)
  | popStalled (now : Nat)
  | rescue (i : Nat) (confirmed : Bool)
  | cancel (file : FileId)

def FileMetadata.completion (m : FileMetadata Id) (serial : Nat) : Completion := ⟨serial, m.id, m.writeSeq⟩

def MetadataQueue.step (q : MetadataQueue Id) : QueueStep Id → MetadataQueue Id
  | .push m full now => q.pushInner m none full now
  | .pushAndWait m serial now => q.pushInner m (some (m.completion serial)) false now
  | .pop =>
    match q.worker, q.popFront with
    | none, some (e, q) => { q with worker := some (e, false) }
    | _, _ => q
  | .checkDeleted =>
    match q.worker with
    | some (e, false) =>
      if q.deletedIds e.metadata.id then { q.signal e.doneTx with worker := none } else { q with worker := some (e, true) }
    | _ => q
  | .attempt confirmed =>
    match q.worker with
    | some (e, true) =>
      if confirmed then
        { ((q.ack e.metadata).markDelivered e.metadata.id e.metadata.writeSeq e.metadata.size).signal e.doneTx
          with worker := none }
      else q
    | _ => q
  | .popStalled now =>
    match q.popStalled now with
    | some (e, q) => { q with rescues := q.rescues ++ [e] }
    | none => q
  | .rescue i confirmed =>
    match q.rescues[i]? with
    | some e =>
      let q := { q with rescues := q.rescues.eraseIdx i }
      if confirmed then (q.ack e.metadata).signal e.doneTx else q.pushInnerFront e
    | none => q
  | .cancel file => q.cancel file

/-- True once there is an answer of any kind, false when the time is up. -/
def MetadataQueue.wait (q : MetadataQueue Id) (c : Completion) (elapsed : Nat) : Option Bool :=
  if c ∈ q.signalled ∨ c ∈ q.closed then some true
  else if metadataCommitWait ≤ elapsed then some false
  else none

/-- A leader acknowledged a record at least as new, or the file was deleted. -/
def MetadataQueue.Confirmed (q : MetadataQueue Id) (c : Completion) : Prop :=
  (∃ seq, c.writeSeq ≤ seq ∧ (c.file, seq) ∈ q.acked) ∨ q.deletedIds c.file = true

end Dfs
