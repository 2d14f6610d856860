import Dfs.Lib.KeyedList
import Dfs.Lib.Transition
import Dfs.Types

/-!
# The dissemination queue of a follower

What an offline follower missed, as rows under rising sequences with an index by file. Ack and compaction collect in
one transaction and remove in another.
-/

namespace Dfs

open KeyedList Function

variable {Id : Type}

structure MetaQueue (Id : Type) where
  rows : List (Nat × FileMetadata Id)
  idx : FileId → Option Nat

def removeRow (rows : List (Nat × FileMetadata Id)) (sequence : Nat) : List (Nat × FileMetadata Id) :=
  rows.filter fun row => row.1 ≠ sequence

def insertRow (rows : List (Nat × FileMetadata Id)) (row : Nat × FileMetadata Id) : List (Nat × FileMetadata Id) :=
  KeyedList.upsert Prod.fst (fun _ new => new) rows row

def MetaQueue.enqueueMetaForNode (q : MetaQueue Id) (sequence : Nat) (metadata : FileMetadata Id) : MetaQueue Id :=
  -- the file's earlier row goes whatever its sequence is
  let rows := (q.idx metadata.id).elim q.rows (removeRow q.rows)
  { rows := insertRow rows (sequence, metadata)
    idx := update q.idx metadata.id (some sequence) }

def MetaQueue.drainMetaQueueForNode (q : MetaQueue Id) : List (Nat × FileMetadata Id) := q.rows

/-- The keys up to the acknowledged one, with the files of their rows. -/
def MetaQueue.ackCollect (q : MetaQueue Id) (upToSequence : Nat) : List (Nat × FileId) :=
  (q.rows.takeWhile fun row => row.1 ≤ upToSequence).map fun row => (row.1, row.2.id)

def MetaQueue.ackRemove (q : MetaQueue Id) (item : Nat × FileId) : MetaQueue Id where
  rows := removeRow q.rows item.1
  idx := if q.idx item.2 = some item.1 then update q.idx item.2 none else q.idx

def MetaQueue.ackWrite (q : MetaQueue Id) (toRemove : List (Nat × FileId)) : MetaQueue Id :=
  toRemove.foldl MetaQueue.ackRemove q

/-- The highest sequence of each file and the keys to remove. -/
structure CompactScan where
  seen : FileId → Option Nat
  toRemove : List Nat

def CompactScan.visit (c : CompactScan) (row : Nat × FileMetadata Id) : CompactScan :=
  match c.seen row.2.id with
  | none => { c with seen := update c.seen row.2.id (some row.1) }
  | some kept =>
    if kept < row.1 then
      { seen := update c.seen row.2.id (some row.1), toRemove := c.toRemove ++ [kept] }
    else if row.1 < kept then { c with toRemove := c.toRemove ++ [row.1] }
    else c

def MetaQueue.compactCollect (q : MetaQueue Id) : List Nat :=
  (q.rows.foldl CompactScan.visit { seen := fun _ => none, toRemove := [] }).toRemove

/-- It leaves the index as it is. -/
def MetaQueue.compactWrite (q : MetaQueue Id) (toRemove : List Nat) : MetaQueue Id :=
  { q with rows := toRemove.foldl removeRow q.rows }

/-! ## What the operations leave -/

variable {rows : List (Nat × FileMetadata Id)} {row : Nat × FileMetadata Id} {sequence : Nat} {toRemove : List (Nat × FileId)}

lemma mem_removeRow : row ∈ removeRow rows sequence ↔ row ∈ rows ∧ row.1 ≠ sequence := by
  simp [removeRow]

lemma sorted_removeRow (h : Sorted Prod.fst rows) (sequence : Nat) : Sorted Prod.fst (removeRow rows sequence) :=
  List.Pairwise.filter _ h

lemma sorted_elim_removeRow (h : Sorted Prod.fst rows) (old : Option Nat) : Sorted Prod.fst (old.elim rows (removeRow rows)) := by
  cases old with
  | none => exact h
  | some old => exact sorted_removeRow h old

lemma sorted_insertRow (h : Sorted Prod.fst rows) (row : Nat × FileMetadata Id) : Sorted Prod.fst (insertRow rows row) := by
  unfold insertRow
  exact sorted_upsert h (fun _ _ => rfl)

variable {q : MetaQueue Id}

lemma mem_enqueue (h : Sorted Prod.fst q.rows) {metadata : FileMetadata Id} :
    row ∈ (q.enqueueMetaForNode sequence metadata).rows ↔
      row = (sequence, metadata) ∨ row ∈ q.rows ∧ q.idx metadata.id ≠ some row.1 ∧ row.1 ≠ sequence := by
  refine (mem_upsert_replace (sorted_elim_removeRow h (q.idx metadata.id))).trans (or_congr_right ?_)
  cases hidx : q.idx metadata.id with
  | none => simp
  | some old => simp [mem_removeRow, and_assoc, eq_comm]

lemma sorted_enqueue (h : Sorted Prod.fst q.rows) (sequence : Nat) (metadata : FileMetadata Id) :
    Sorted Prod.fst (q.enqueueMetaForNode sequence metadata).rows :=
  sorted_insertRow (sorted_elim_removeRow h (q.idx metadata.id)) (sequence, metadata)

open MetaQueue

lemma mem_ackCollect (h : Sorted Prod.fst q.rows) {upTo : Nat} {item : Nat × FileId} :
    item ∈ q.ackCollect upTo ↔ ∃ row ∈ q.rows, row.1 ≤ upTo ∧ (row.1, row.2.id) = item := by
  simp only [ackCollect, List.mem_map, mem_takeWhile_le h, and_assoc]

lemma mem_ackWrite : row ∈ (q.ackWrite toRemove).rows ↔ row ∈ q.rows ∧ ∀ item ∈ toRemove, row.1 ≠ item.1 := by
  induction toRemove generalizing q with
  | nil => simp [ackWrite]
  | cons item rest ih =>
    refine (ih (q := q.ackRemove item)).trans ?_
    simp [ackRemove, mem_removeRow, and_assoc]

lemma sorted_ackWrite (h : Sorted Prod.fst q.rows) (toRemove : List (Nat × FileId)) :
    Sorted Prod.fst (q.ackWrite toRemove).rows := by
  induction toRemove generalizing q with
  | nil => exact h
  | cons item rest ih => exact ih (sorted_removeRow h item.1)

lemma idx_ackWrite {file : FileId} :
    (q.ackWrite toRemove).idx file = some sequence ↔ q.idx file = some sequence ∧ (sequence, file) ∉ toRemove := by
  induction toRemove generalizing q with
  | nil => simp [ackWrite]
  | cons item rest ih =>
    obtain ⟨seq, f⟩ := item
    refine (ih (q := q.ackRemove (seq, f))).trans ?_
    rw [List.mem_cons, not_or, ← and_assoc]
    refine and_congr_left fun _ => ?_
    simp only [ackRemove, Prod.mk.injEq, not_and]
    by_cases hf : file = f
    · subst hf
      by_cases hidx : q.idx file = some seq
      · simp [hidx, eq_comm]
      simp only [hidx, if_false, not_true_eq_false, imp_false]
      refine ⟨fun h => ⟨h, fun heq => hidx (heq ▸ h)⟩, And.left⟩
    · split <;> simp [hf]

lemma compactCollect_eq_nil (h : (q.rows.map (·.2.id)).Nodup) : q.compactCollect = [] := by
  have hvisit : ∀ (rows : List (Nat × FileMetadata Id)) (c : CompactScan), (rows.map (·.2.id)).Nodup →
      (∀ row ∈ rows, c.seen row.2.id = none) → (rows.foldl CompactScan.visit c).toRemove = c.toRemove := by
    intro rows
    induction rows with
    | nil => intro c _ _; rfl
    | cons row rows ih =>
      intro c hnodup hseen
      obtain ⟨hrow, hrest⟩ := List.nodup_cons.mp hnodup
      have hc : c.visit row = { c with seen := update c.seen row.2.id (some row.1) } := by
        simp [CompactScan.visit, hseen row (by simp)]
      rw [List.foldl_cons, hc, ih _ hrest]
      intro other hother
      have hne : other.2.id ≠ row.2.id := fun heq => hrow (List.mem_map.mpr ⟨other, hother, heq⟩)
      exact (update_of_ne hne _ _).trans (hseen other (by simp [hother]))
  exact hvisit q.rows _ h (fun _ _ => rfl)

/-! ## Runs -/

/-- Between its phases: what it is to remove, and what it acknowledges. -/
structure AckTask where
  toRemove : List (Nat × FileId)
  covered : List Nat

structure Dissemination (Id : Type) where
  /-- `meta_seq` in `COUNTERS_TABLE`. -/
  metaSeq : Nat
  /-- The sequences that callers have obtained and not enqueued a record of the node under. -/
  obtained : List Nat
  queue : MetaQueue Id
  acks : List AckTask
  compactions : List (List Nat)
  /-- The items that were enqueued and that no ack has covered. Not data of the source. -/
  outstanding : List (Nat × FileMetadata Id)

inductive DisseminationStep (Id : Type) where
  | nextMetaSequence
  /-- The caller that obtained the `i`-th of the sequences enqueues its record. -/
  | enqueue (i : Nat) (metadata : FileMetadata Id)
  | drain
  | ackRead (upToSequence : Nat)
  | ackWrite (i : Nat)
  | compactRead
  | compactWrite (i : Nat)

def Dissemination.acknowledge (s : Dissemination Id) (covered : List Nat) : Dissemination Id :=
  { s with outstanding := s.outstanding.filter fun item => item.1 ∉ covered }

def Dissemination.step (s : Dissemination Id) : DisseminationStep Id → Dissemination Id
  | .nextMetaSequence => { s with metaSeq := s.metaSeq + 1, obtained := s.obtained ++ [s.metaSeq + 1] }
  | .enqueue i metadata =>
    match s.obtained[i]? with
    | none => s
    | some sequence =>
      { s with
        obtained := s.obtained.eraseIdx i
        queue := s.queue.enqueueMetaForNode sequence metadata
        outstanding := s.outstanding ++ [(sequence, metadata)] }
  | .drain => s
  | .ackRead upTo =>
    let task : AckTask :=
      { toRemove := s.queue.ackCollect upTo, covered := (s.outstanding.map Prod.fst).filter fun sequence => sequence ≤ upTo }
    -- with nothing to remove the call returns without its write phase
    if task.toRemove = [] then s.acknowledge task.covered else { s with acks := s.acks ++ [task] }
  | .ackWrite i =>
    match s.acks[i]? with
    | none => s
    | some task =>
      { s with acks := s.acks.eraseIdx i, queue := s.queue.ackWrite task.toRemove }.acknowledge task.covered
  | .compactRead =>
    if s.queue.compactCollect = [] then s else { s with compactions := s.compactions ++ [s.queue.compactCollect] }
  | .compactWrite i =>
    match s.compactions[i]? with
    | none => s
    | some toRemove => { s with compactions := s.compactions.eraseIdx i, queue := s.queue.compactWrite toRemove }

def Dissemination.start (metaSeq : Nat) : Dissemination Id where
  metaSeq := metaSeq
  obtained := []
  queue := { rows := [], idx := fun _ => none }
  acks := []
  compactions := []
  outstanding := []

end Dfs
