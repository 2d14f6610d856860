import Dfs.Register
import Dfs.Lib.Transition

/-! # Merging the node sets of a chunk -/

namespace Dfs

open Transition Node

variable {Id : Type}

structure MergeRecord (Id : Type) where
  location : ChunkLocation Id
  rf : Nat
  nowMs : Nat

/-- With the greatest stamp of the records whose nodes went into it. -/
structure MergedRow (Id : Type) where
  row : Option (ChunkLocation Id)
  newest : Nat

variable (s : MergedRow Id) (r : MergeRecord Id)

/-- The node's time, if the record has none and there is a row. -/
def MergedRow.stamp : Nat := r.location.writtenAt.getD (if s.row.isSome then r.nowMs else 0)

/-- The record's nodes are the first ones, are added to too few, or replace them. -/
def MergedRow.accepts : Bool :=
  match s.row with
  | none => true
  | some row =>
    if r.location.nodes.length < r.rf then decide (row.nodes.length < r.rf) else decide (row.writtenAt.getD 0 ≤ s.stamp r)

def MergedRow.merge : MergedRow Id where
  row := (mergeReplicatedChunkLocation r.location s.row r.rf r.nowMs).or s.row
  newest := if s.accepts r then max s.newest (s.stamp r) else s.newest

def SameNodes (a b : List NodeId) : Prop := a ⊆ b ∧ b ⊆ a

instance (a b : List NodeId) : Decidable (SameNodes a b) := inferInstanceAs (Decidable (_ ∧ _))

structure MergesWell (newest stamp rf : Nat) (location row row' : ChunkLocation Id) : Prop where
  /-- A record with too few nodes removes none. -/
  grows : location.nodes.length < rf → row.nodes ⊆ row'.nodes
  /-- The set is not replaced by an older one. -/
  fresh : rf ≤ location.nodes.length → row'.nodes = location.nodes → ¬SameNodes row.nodes row'.nodes → newest ≤ stamp
  /-- The write sequence does not decrease. -/
  seq : ∀ seq, row.clientWriteSeq = some seq → ∃ seq', row'.clientWriteSeq = some seq' ∧ seq ≤ seq'

def MergedRow.KeepsNewest : Prop :=
  ∀ row row', s.row = some row → (s.merge r).row = some row' → MergesWell s.newest (s.stamp r) r.rf r.location row row'

/-- With enough nodes and other ones it is older than the row's stamp or not older than any accepted; and unless it
has too few for a row with enough, its write sequence is not below the stored one. -/
def ComesInOrder (newest stamp rf : Nat) (location row : ChunkLocation Id) : Prop :=
  (rf ≤ location.nodes.length → ¬SameNodes row.nodes location.nodes → stamp < row.writtenAt.getD 0 ∨ newest ≤ stamp) ∧
    (rf ≤ location.nodes.length ∨ row.nodes.length < rf →
      ∀ seq ∈ row.clientWriteSeq, ∀ incoming ∈ location.clientWriteSeq, seq ≤ incoming)

instance (newest stamp rf : Nat) (location row : ChunkLocation Id) : Decidable (ComesInOrder newest stamp rf location row) :=
  inferInstanceAs (Decidable (_ ∧ _))

/-- The record comes in order, or is the first one. -/
def MergedRow.InOrder : Prop := ∀ row ∈ s.row, ComesInOrder s.newest (s.stamp r) r.rf r.location row

instance (s : MergedRow Id) (r : MergeRecord Id) : Decidable (s.InOrder r) := inferInstanceAs (Decidable (∀ row ∈ s.row, _))

/-! ## One merge -/

variable {row location : ChunkLocation Id}

open MergedRow

lemma merge_row {s : MergedRow Id} (hrow : s.row = some row) (r : MergeRecord Id) :
    (s.merge r).row = some (if r.location.nodes.length < r.rf ∧ r.rf ≤ row.nodes.length then row else
      { r.location with
        nodes :=
          if r.location.nodes.length < r.rf then unionNodes row.nodes r.location.nodes
          else if row.writtenAt.getD 0 ≤ s.stamp r then r.location.nodes else row.nodes
        fileOffset := r.location.fileOffset.or row.fileOffset
        writtenAt := row.writtenAt.or (some (s.stamp r))
        clientWriteSeq := r.location.clientWriteSeq.or row.clientWriteSeq
        fileId := r.location.fileId.or row.fileId }) := by
  simp only [merge, stamp, hrow, mergeReplicatedChunkLocation_row]
  split <;> simp

lemma fresh_iff {newest stamp : Nat} {nodes : List NodeId}
    (hnodes : nodes = if row.writtenAt.getD 0 ≤ stamp then location.nodes else row.nodes) :
    (nodes = location.nodes → ¬SameNodes row.nodes nodes → newest ≤ stamp) ↔
      (¬SameNodes row.nodes location.nodes → stamp < row.writtenAt.getD 0 ∨ newest ≤ stamp) := by
  by_cases hts : row.writtenAt.getD 0 ≤ stamp
  · rw [if_pos hts] at hnodes
    subst hnodes
    constructor
    · exact fun h hnew => .inr (h rfl hnew)
    · exact fun h _ hnew => (h hnew).resolve_left (by omega)
  rw [if_neg hts] at hnodes
  subst hnodes
  refine iff_of_true (fun _ hnew => ?_) (fun _ => .inl (by omega))
  exact absurd ⟨List.Subset.refl _, List.Subset.refl _⟩ hnew

lemma seq_or_iff (stored incoming : Option Nat) :
    (∀ seq, stored = some seq → ∃ seq', incoming.or stored = some seq' ∧ seq ≤ seq') ↔
      ∀ seq ∈ stored, ∀ seq' ∈ incoming, seq ≤ seq' := by
  cases stored with
  | none => simp
  | some seq => cases incoming <;> simp

lemma keepsNewest_iff : s.KeepsNewest r ↔ s.InOrder r := by
  cases hrow : s.row with
  | none => exact iff_of_true (fun row _ h => by rw [hrow] at h; cases h) (fun row h => by rw [hrow] at h; cases h)
  | some row =>
    have hmerge := merge_row hrow r
    have hkeeps : s.KeepsNewest r ↔ ∃ row', (s.merge r).row = some row' ∧
      MergesWell s.newest (s.stamp r) r.rf r.location row row' := by
      constructor
      · exact fun h => ⟨_, hmerge, h row _ hrow hmerge⟩
      · rintro ⟨row', hrow', hwell⟩ _ _ h h'
        cases hrow.symm.trans h
        cases hrow'.symm.trans h'
        exact hwell
    have horder : s.InOrder r ↔ ComesInOrder s.newest (s.stamp r) r.rf r.location row := by
      simp [InOrder, hrow]
    rw [hkeeps, horder, hmerge]
    simp only [Option.some.injEq, exists_eq_left']
    by_cases hfew : r.location.nodes.length < r.rf
    · by_cases henough : r.rf ≤ row.nodes.length
      · rw [if_pos ⟨hfew, henough⟩]
        refine iff_of_true ⟨fun _ => List.Subset.refl _, by omega, fun seq hseq => ⟨seq, hseq, le_refl _⟩⟩ ⟨by omega, by omega⟩
      rw [if_neg (fun h => henough h.2), if_pos hfew]
      constructor
      · exact fun h => ⟨by omega, fun _ => (seq_or_iff _ _).mp h.seq⟩
      · exact fun h => ⟨fun _ => (unionNodes_spec _ _).1.subset, by omega, (seq_or_iff _ _).mpr (h.2 (.inr (by omega)))⟩
    · rw [if_neg (fun h => hfew h.1), if_neg hfew]
      have hmany : r.rf ≤ r.location.nodes.length := by omega
      constructor
      · exact fun h => ⟨fun _ => (fresh_iff rfl).mp (h.fresh hmany), fun _ => (seq_or_iff _ _).mp h.seq⟩
      · exact fun h => ⟨by omega, fun _ => (fresh_iff rfl).mpr (h.1 hmany), (seq_or_iff _ _).mpr (h.2 (.inl hmany))⟩

/-! ## Runs of merges -/

/-- Along every run too few nodes remove none, no set is replaced by an older, no sequence decreases, exactly if
records come in order.
-/
theorem merges_keep_newest_iff (s : MergedRow Id) (records : List (MergeRecord Id)) :
    Meets MergedRow.merge MergedRow.KeepsNewest s records ↔ Meets MergedRow.merge MergedRow.InOrder s records :=
  meets_congr fun s r _ => keepsNewest_iff s r

def twoNodeRecord (other writtenAt seq : Nat) : MergeRecord Nat :=
  ⟨⟨1, [1, other], 4, some 0, some writtenAt, some seq, some 1⟩, 2, 100⟩

/-- A record from before a move puts the replica back; a late one of the same nodes lowers the write sequence. -/
theorem older_node_set_comes_back :
    ¬Meets MergedRow.merge MergedRow.KeepsNewest ⟨none, 0⟩ [twoNodeRecord 2 1 1, twoNodeRecord 3 10 1, twoNodeRecord 2 5 1] ∧
      ¬Meets MergedRow.merge MergedRow.KeepsNewest ⟨none, 0⟩ [twoNodeRecord 2 1 7, twoNodeRecord 2 1 3] := by
  constructor
  · intro h
    have hlast := (keepsNewest_iff _ _).mp h.2.2.1
    revert hlast
    decide +kernel
  · intro h
    have hlast := (keepsNewest_iff _ _).mp h.2.1
    revert hlast
    decide +kernel

/-! ## The handler -/

variable [DecidableEq Id]

end Dfs
