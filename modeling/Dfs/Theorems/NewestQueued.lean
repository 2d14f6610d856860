import Dfs.Dissemination
import Mathlib.Data.List.Perm.Basic

/-! # Does the dissemination queue keep a file's newest record? -/

namespace Dfs

open List Dissemination

variable {Id : Type}

/-- Each file's newest item that no ack has covered is queued, and the index and the rows name each other. -/
structure Dissemination.Sound (s : Dissemination Id) : Prop where
  newest : ∀ item ∈ s.outstanding, (∀ other ∈ s.outstanding, other.2.id = item.2.id → other.1 ≤ item.1) →
    item ∈ s.queue.drainMetaQueueForNode
  pointed : ∀ file sequence, s.queue.idx file = some sequence → ∃ row ∈ s.queue.rows, row.1 = sequence ∧ row.2.id = file
  indexed : ∀ row ∈ s.queue.rows, s.queue.idx row.2.id = some row.1

/-- Enqueued after the file's records with lower sequences. -/
def DisseminationStep.InOrder (s : Dissemination Id) : DisseminationStep Id → Prop
  | .enqueue i metadata => ∀ sequence ∈ s.obtained[i]?, ∀ old ∈ s.queue.idx metadata.id, old < sequence
  | _ => True

/-! ## What the transactions keep -/

def Dissemination.Used (s : Dissemination Id) (sequence : Nat) : Prop := sequence ≤ s.metaSeq ∧ sequence ∉ s.obtained

/-- It removes the rows with the sequences it covers, with an item the file's earlier ones too. -/
structure AckTask.Fits (t : AckTask) (s : Dissemination Id) : Prop where
  used : ∀ sequence ∈ t.covered, s.Used sequence
  removes : ∀ item ∈ t.toRemove, item.1 ∈ t.covered
  collected : ∀ row ∈ s.queue.rows, row.1 ∈ t.covered → (row.1, row.2.id) ∈ t.toRemove
  earlier : ∀ row ∈ s.queue.rows, row.1 ∈ t.covered → ∀ item ∈ s.outstanding, item.2.id = row.2.id → item.1 ∈ t.covered

/-- Outstanding items, one for each file, at least as new as the file's others. -/
structure Dissemination.Tracked (s : Dissemination Id) : Prop where
  sorted : KeyedList.Sorted Prod.fst s.queue.rows
  pointed : ∀ file sequence, s.queue.idx file = some sequence → ∃ row ∈ s.queue.rows, row.1 = sequence ∧ row.2.id = file
  indexed : ∀ row ∈ s.queue.rows, s.queue.idx row.2.id = some row.1
  rows_outstanding : ∀ row ∈ s.queue.rows, row ∈ s.outstanding
  latest : ∀ item ∈ s.outstanding, ∃ row ∈ s.queue.rows, row.2.id = item.2.id ∧ item.1 ≤ row.1
  unique : ∀ item ∈ s.outstanding, ∀ other ∈ s.outstanding, item.1 = other.1 → item = other
  used : ∀ item ∈ s.outstanding, s.Used item.1
  obtained_nodup : s.obtained.Nodup
  obtained_le : ∀ sequence ∈ s.obtained, sequence ≤ s.metaSeq
  acks : ∀ t ∈ s.acks, t.Fits s
  compactions : s.compactions = []

namespace Dissemination

variable {s : Dissemination Id} {row : Nat × FileMetadata Id}

lemma Tracked.row_unique (h : s.Tracked) {other : Nat × FileMetadata Id} (hrow : row ∈ s.queue.rows)
    (hother : other ∈ s.queue.rows) (hfile : row.2.id = other.2.id) : row = other := by
  have hseq : some row.1 = some other.1 := by rw [← h.indexed row hrow, ← h.indexed other hother, hfile]
  exact h.unique row (h.rows_outstanding row hrow) other (h.rows_outstanding other hother) (Option.some.inj hseq)

lemma Tracked.sound (h : s.Tracked) : s.Sound where
  newest := by
    intro item hitem hmax
    obtain ⟨row, hrow, hfile, hle⟩ := h.latest item hitem
    have hout := h.rows_outstanding row hrow
    have heq : row = item := h.unique row hout item hitem (le_antisymm (hmax row hout hfile) hle)
    exact heq ▸ hrow
  pointed := h.pointed
  indexed := h.indexed

lemma Tracked.files_nodup (h : s.Tracked) : (s.queue.rows.map (·.2.id)).Nodup := by
  refine pairwise_map.mpr (h.sorted.imp_of_mem ?_)
  intro row other hrow hother hlt hfile
  rw [h.row_unique hrow hother hfile] at hlt
  exact lt_irrefl _ hlt

lemma tracked_start (metaSeq : Nat) : (start metaSeq : Dissemination Id).Tracked := by
  constructor <;> simp [start, KeyedList.Sorted]

lemma Used.nextMetaSequence {sequence : Nat} (h : s.Used sequence) : (s.step .nextMetaSequence).Used sequence := by
  obtain ⟨hle, hnot⟩ := h
  refine ⟨Nat.le_succ_of_le hle, ?_⟩
  simp only [step, mem_append, List.mem_singleton, not_or]
  exact ⟨hnot, by omega⟩

lemma tracked_nextMetaSequence (h : s.Tracked) : (s.step .nextMetaSequence).Tracked where
  sorted := h.sorted
  pointed := h.pointed
  indexed := h.indexed
  rows_outstanding := h.rows_outstanding
  latest := h.latest
  unique := h.unique
  used := fun item hitem => (h.used item hitem).nextMetaSequence
  obtained_nodup := by
    refine nodup_append.mpr ⟨h.obtained_nodup, by simp, ?_⟩
    intro a ha b hb heq
    have := h.obtained_le a ha
    rw [List.mem_singleton] at hb
    omega
  obtained_le := by
    intro sequence hseq
    rcases mem_append.mp hseq with hseq | hseq
    · exact Nat.le_succ_of_le (h.obtained_le sequence hseq)
    · exact (List.mem_singleton.mp hseq).le
  acks := fun t ht =>
    { used := fun sequence hseq => ((h.acks t ht).used sequence hseq).nextMetaSequence
      removes := (h.acks t ht).removes
      collected := (h.acks t ht).collected
      earlier := (h.acks t ht).earlier }
  compactions := h.compactions

/-! ### An enqueue -/

def enqueued (s : Dissemination Id) (i sequence : Nat) (metadata : FileMetadata Id) : Dissemination Id :=
  { s with
    obtained := s.obtained.eraseIdx i
    queue := s.queue.enqueueMetaForNode sequence metadata
    outstanding := s.outstanding ++ [(sequence, metadata)] }

lemma step_enqueue {i sequence : Nat} (hi : s.obtained[i]? = some sequence) (metadata : FileMetadata Id) :
    s.step (.enqueue i metadata) = s.enqueued i sequence metadata := by
  simp only [step, hi, enqueued]

section Enqueue

variable {i sequence : Nat} {metadata : FileMetadata Id}

lemma not_used (hi : s.obtained[i]? = some sequence) : ¬s.Used sequence :=
  fun hused => hused.2 (mem_of_getElem? hi)

lemma Used.enqueued {used : Nat} (h : s.Used used) : (s.enqueued i sequence metadata).Used used :=
  ⟨h.1, fun hmem => h.2 (mem_of_mem_eraseIdx hmem)⟩

lemma Tracked.used_enqueued (h : s.Tracked) (hi : s.obtained[i]? = some sequence) :
    (s.enqueued i sequence metadata).Used sequence := by
  refine ⟨h.obtained_le sequence (mem_of_getElem? hi), ?_⟩
  obtain ⟨hlt, hget⟩ := List.getElem?_eq_some_iff.mp hi
  have hperm : (sequence :: s.obtained.eraseIdx i).Perm s.obtained := hget ▸ getElem_cons_eraseIdx_perm hlt
  exact (nodup_cons.mp (hperm.nodup_iff.mpr h.obtained_nodup)).1

lemma Tracked.mem_enqueued (h : s.Tracked) (hi : s.obtained[i]? = some sequence) :
    row ∈ (s.enqueued i sequence metadata).queue.rows ↔
      row = (sequence, metadata) ∨ row ∈ s.queue.rows ∧ row.2.id ≠ metadata.id := by
  refine (mem_enqueue h.sorted).trans (or_congr_right (and_congr_right fun hrow => ?_))
  constructor
  · rintro ⟨hidx, -⟩ hfile
    exact hidx (hfile ▸ h.indexed row hrow)
  · intro hfile
    constructor
    · intro hidx
      obtain ⟨other, hother, hseq, hof⟩ := h.pointed metadata.id row.1 hidx
      have heq := h.unique other (h.rows_outstanding other hother) row (h.rows_outstanding row hrow) hseq
      exact hfile (heq ▸ hof)
    · intro hseq
      exact not_used hi (hseq ▸ h.used row (h.rows_outstanding row hrow))

lemma idx_enqueued (file : FileId) : (s.enqueued i sequence metadata).queue.idx file
    = if file = metadata.id then some sequence else s.queue.idx file := Function.update_apply _ _ _ _

section

variable (h : s.Tracked) (hi : s.obtained[i]? = some sequence)

include h hi

lemma Tracked.pointed_enqueued (file : FileId) (seq : Nat) (hidx : (s.enqueued i sequence metadata).queue.idx file = some seq) :
    ∃ row ∈ (s.enqueued i sequence metadata).queue.rows, row.1 = seq ∧ row.2.id = file := by
  rw [idx_enqueued] at hidx
  by_cases hfile : file = metadata.id
  · rw [if_pos hfile] at hidx
    exact ⟨(sequence, metadata), (h.mem_enqueued hi).mpr (Or.inl rfl), Option.some.inj hidx, hfile.symm⟩
  rw [if_neg hfile] at hidx
  obtain ⟨row, hrow, hseq, hof⟩ := h.pointed file seq hidx
  exact ⟨row, (h.mem_enqueued hi).mpr (Or.inr ⟨hrow, hof ▸ hfile⟩), hseq, hof⟩

lemma Tracked.indexed_enqueued (row : Nat × FileMetadata Id) (hrow : row ∈ (s.enqueued i sequence metadata).queue.rows) :
    (s.enqueued i sequence metadata).queue.idx row.2.id = some row.1 := by
  rw [idx_enqueued]
  rcases (h.mem_enqueued hi).mp hrow with rfl | ⟨hrow, hfile⟩
  · exact if_pos rfl
  rw [if_neg hfile]
  exact h.indexed row hrow

lemma Tracked.fits_enqueued {t : AckTask} (ht : t.Fits s) : t.Fits (s.enqueued i sequence metadata) := by
  have hnew : sequence ∉ t.covered := fun hmem => not_used hi (ht.used sequence hmem)
  refine ⟨fun seq hseq => (ht.used seq hseq).enqueued, ht.removes, ?_, ?_⟩
  · intro row hrow hcov
    rcases (h.mem_enqueued hi).mp hrow with rfl | ⟨hrow, -⟩
    · exact absurd hcov hnew
    · exact ht.collected row hrow hcov
  · intro row hrow hcov item hitem hfile
    rcases (h.mem_enqueued hi).mp hrow with rfl | ⟨hrow, hother⟩
    · exact absurd hcov hnew
    rcases mem_append.mp hitem with hitem | hitem
    · exact ht.earlier row hrow hcov item hitem hfile
    rw [List.mem_singleton.mp hitem] at hfile
    exact absurd hfile.symm hother

lemma Tracked.tracked_enqueued
    (hold : ∀ old ∈ s.queue.idx metadata.id, old < sequence) : (s.enqueued i sequence metadata).Tracked where
  sorted := sorted_enqueue h.sorted sequence metadata
  pointed := h.pointed_enqueued hi
  indexed := h.indexed_enqueued hi
  rows_outstanding := by
    intro row hrow
    rcases (h.mem_enqueued hi).mp hrow with rfl | ⟨hrow, -⟩
    · exact mem_append_right _ (mem_singleton_self _)
    · exact mem_append_left _ (h.rows_outstanding row hrow)
  latest := by
    intro item hitem
    have hnew : (sequence, metadata) ∈ (s.enqueued i sequence metadata).queue.rows := (h.mem_enqueued hi).mpr (Or.inl rfl)
    rcases mem_append.mp hitem with hitem | hitem
    · obtain ⟨row, hrow, hfile, hle⟩ := h.latest item hitem
      by_cases hof : row.2.id = metadata.id
      · have hlt : row.1 < sequence := hold row.1 (hof ▸ h.indexed row hrow)
        exact ⟨(sequence, metadata), hnew, hof.symm.trans hfile, (hle.trans_lt hlt).le⟩
      · exact ⟨row, (h.mem_enqueued hi).mpr (Or.inr ⟨hrow, hof⟩), hfile, hle⟩
    rw [List.mem_singleton.mp hitem]
    exact ⟨(sequence, metadata), hnew, rfl, le_refl _⟩
  unique := by
    have hnew : ∀ item ∈ s.outstanding, item.1 ≠ sequence := fun item hitem heq => not_used hi (heq ▸ h.used item hitem)
    intro item hitem other hother hseq
    rcases mem_append.mp hitem with hitem | hitem <;> rcases mem_append.mp hother with hother | hother
    · exact h.unique item hitem other hother hseq
    · rw [List.mem_singleton.mp hother] at hseq
      exact absurd hseq (hnew item hitem)
    · rw [List.mem_singleton.mp hitem] at hseq
      exact absurd hseq.symm (hnew other hother)
    · rw [List.mem_singleton.mp hitem, List.mem_singleton.mp hother]
  used := by
    intro item hitem
    rcases mem_append.mp hitem with hitem | hitem
    · exact (h.used item hitem).enqueued
    rw [List.mem_singleton.mp hitem]
    exact h.used_enqueued hi
  obtained_nodup := h.obtained_nodup.sublist (eraseIdx_sublist _ _)
  obtained_le := fun seq hseq => h.obtained_le seq (mem_of_mem_eraseIdx hseq)
  acks := fun t ht => h.fits_enqueued hi (h.acks t ht)
  compactions := h.compactions

lemma Tracked.order_of_sound
    (hsound : (s.enqueued i sequence metadata).Sound) : ∀ old ∈ s.queue.idx metadata.id, old < sequence := by
  intro old hidx
  by_contra hlt
  obtain ⟨row, hrow, rfl, hfile⟩ := h.pointed metadata.id old hidx
  have hout : row ∈ (s.enqueued i sequence metadata).outstanding := mem_append_left _ (h.rows_outstanding row hrow)
  have hmax : ∀ other ∈ (s.enqueued i sequence metadata).outstanding, other.2.id = row.2.id → other.1 ≤ row.1 := by
    intro other hother hsame
    rcases mem_append.mp hother with hother | hother
    · obtain ⟨top, htop, htopfile, hle⟩ := h.latest other hother
      rw [h.row_unique htop hrow (htopfile.trans hsame)] at hle
      exact hle
    rw [List.mem_singleton.mp hother]
    exact not_lt.mp hlt
  rcases (h.mem_enqueued hi).mp (hsound.newest row hout hmax) with heq | ⟨-, hne⟩
  · have hused := h.used row (h.rows_outstanding row hrow)
    rw [heq] at hused
    exact not_used hi hused
  · exact hne hfile

end

end Enqueue

/-! ### Acks -/

def acked (s : Dissemination Id) (acks : List AckTask) (t : AckTask) : Dissemination Id :=
  { s with acks := acks, queue := s.queue.ackWrite t.toRemove }.acknowledge t.covered

lemma mem_outstanding_acked {acks : List AckTask} {t : AckTask} {item : Nat × FileMetadata Id} :
    item ∈ (s.acked acks t).outstanding ↔ item ∈ s.outstanding ∧ item.1 ∉ t.covered := by
  simp [acked, acknowledge]

section Ack

variable {acks : List AckTask} {t : AckTask}

lemma mem_rows_acked (ht : t.Fits s) : row ∈ (s.acked acks t).queue.rows ↔ row ∈ s.queue.rows ∧ row.1 ∉ t.covered := by
  refine mem_ackWrite.trans (and_congr_right fun hrow => ?_)
  constructor
  · intro hnot hcov
    exact hnot _ (ht.collected row hrow hcov) rfl
  · intro hnot item hitem heq
    exact hnot (heq ▸ ht.removes item hitem)

lemma fits_acked (ht : t.Fits s) {other : AckTask} (hother : other.Fits s) : other.Fits (s.acked acks t) where
  used := hother.used
  removes := hother.removes
  collected := fun row hrow => hother.collected row ((mem_rows_acked ht).mp hrow).1
  earlier := fun row hrow hcov item hitem =>
    hother.earlier row ((mem_rows_acked ht).mp hrow).1 hcov item (mem_outstanding_acked.mp hitem).1

lemma Tracked.tracked_acked (h : s.Tracked) (ht : t.Fits s) (hacks : acks ⊆ s.acks) : (s.acked acks t).Tracked where
  sorted := sorted_ackWrite h.sorted t.toRemove
  pointed := by
    intro file sequence hidx
    obtain ⟨hidx, hnot⟩ := idx_ackWrite.mp hidx
    obtain ⟨row, hrow, rfl, rfl⟩ := h.pointed file sequence hidx
    exact ⟨row, (mem_rows_acked ht).mpr ⟨hrow, fun hcov => hnot (ht.collected row hrow hcov)⟩, rfl, rfl⟩
  indexed := by
    intro row hrow
    obtain ⟨hrow, hnot⟩ := (mem_rows_acked ht).mp hrow
    exact idx_ackWrite.mpr ⟨h.indexed row hrow, fun hmem => hnot (ht.removes _ hmem)⟩
  rows_outstanding := by
    intro row hrow
    obtain ⟨hrow, hnot⟩ := (mem_rows_acked ht).mp hrow
    exact mem_outstanding_acked.mpr ⟨h.rows_outstanding row hrow, hnot⟩
  latest := by
    intro item hitem
    obtain ⟨hitem, hnot⟩ := mem_outstanding_acked.mp hitem
    obtain ⟨row, hrow, hfile, hle⟩ := h.latest item hitem
    have hkept : row.1 ∉ t.covered := fun hcov => hnot (ht.earlier row hrow hcov item hitem hfile.symm)
    exact ⟨row, (mem_rows_acked ht).mpr ⟨hrow, hkept⟩, hfile, hle⟩
  unique := fun item hitem other hother =>
    h.unique item (mem_outstanding_acked.mp hitem).1 other (mem_outstanding_acked.mp hother).1
  used := fun item hitem => h.used item (mem_outstanding_acked.mp hitem).1
  obtained_nodup := h.obtained_nodup
  obtained_le := h.obtained_le
  acks := fun other hother => fits_acked ht (h.acks other (hacks hother))
  compactions := h.compactions

end Ack

def ackTask (s : Dissemination Id) (upTo : Nat) : AckTask where
  toRemove := s.queue.ackCollect upTo
  covered := (s.outstanding.map Prod.fst).filter fun sequence => sequence ≤ upTo

lemma mem_covered {upTo sequence : Nat} :
    sequence ∈ (s.ackTask upTo).covered ↔ (∃ item ∈ s.outstanding, item.1 = sequence) ∧ sequence ≤ upTo := by
  simp [ackTask]

lemma Tracked.fits_ackTask (h : s.Tracked) (upTo : Nat) : (s.ackTask upTo).Fits s where
  used := by
    intro sequence hcov
    obtain ⟨⟨item, hitem, rfl⟩, -⟩ := mem_covered.mp hcov
    exact h.used item hitem
  removes := by
    intro item hitem
    obtain ⟨row, hrow, hle, rfl⟩ := (mem_ackCollect h.sorted).mp hitem
    exact mem_covered.mpr ⟨⟨row, h.rows_outstanding row hrow, rfl⟩, hle⟩
  collected := fun row hrow hcov => (mem_ackCollect h.sorted).mpr ⟨row, hrow, (mem_covered.mp hcov).2, rfl⟩
  earlier := by
    intro row hrow hcov item hitem hfile
    obtain ⟨top, htop, htopfile, hle⟩ := h.latest item hitem
    rw [h.row_unique htop hrow (htopfile.trans hfile)] at hle
    exact mem_covered.mpr ⟨⟨item, hitem, rfl⟩, hle.trans (mem_covered.mp hcov).2⟩

lemma tracked_ackRead (h : s.Tracked) (upTo : Nat) : (s.step (.ackRead upTo)).Tracked := by
  have ht := h.fits_ackTask upTo
  by_cases hnone : s.queue.ackCollect upTo = []
  · have hstep : s.step (.ackRead upTo) = s.acked s.acks (s.ackTask upTo) := by
      simp [step, hnone, acked, ackTask, MetaQueue.ackWrite]
    rw [hstep]
    exact h.tracked_acked ht (List.Subset.refl _)
  have hstep : s.step (.ackRead upTo) = { s with acks := s.acks ++ [s.ackTask upTo] } := by
    simp [step, hnone, ackTask]
  rw [hstep]
  refine { h with acks := ?_ }
  intro t htask
  have hfits : t.Fits s := by
    rcases mem_append.mp htask with htask | htask
    · exact h.acks t htask
    · exact List.mem_singleton.mp htask ▸ ht
  exact { hfits with }

lemma tracked_ackWrite (h : s.Tracked) (i : Nat) : (s.step (.ackWrite i)).Tracked := by
  cases hi : s.acks[i]? with
  | none => simpa only [step, hi] using h
  | some t =>
    have hstep : s.step (.ackWrite i) = s.acked (s.acks.eraseIdx i) t := by simp only [step, hi, acked]
    rw [hstep]
    exact h.tracked_acked (h.acks t (mem_of_getElem? hi)) (eraseIdx_sublist _ _).subset

/-! ### Every transaction -/

lemma Tracked.step_compactRead (h : s.Tracked) : s.step .compactRead = s :=
  if_pos (compactCollect_eq_nil h.files_nodup)

lemma Tracked.step_compactWrite (h : s.Tracked) (i : Nat) : s.step (.compactWrite i) = s := by
  simp [step, h.compactions]

lemma tracked_step (s : Dissemination Id) (a : DisseminationStep Id) (h : s.Tracked) (ha : a.InOrder s) : (s.step a).Tracked := by
  cases a with
  | nextMetaSequence => exact tracked_nextMetaSequence h
  | enqueue i metadata =>
    cases hi : s.obtained[i]? with
    | none => simpa only [step, hi] using h
    | some sequence =>
      rw [step_enqueue hi]
      exact h.tracked_enqueued hi (ha sequence hi)
  | drain => exact h
  | ackRead upTo => exact tracked_ackRead h upTo
  | ackWrite i => exact tracked_ackWrite h i
  | compactRead =>
    rw [h.step_compactRead]
    exact h
  | compactWrite i =>
    rw [h.step_compactWrite i]
    exact h

lemma sound_step_iff (s : Dissemination Id) (a : DisseminationStep Id) (h : s.Tracked) : (s.step a).Sound ↔ a.InOrder s := by
  refine ⟨fun hsound => ?_, fun ha => (tracked_step s a h ha).sound⟩
  cases a with
  | enqueue i metadata =>
    intro sequence hi
    rw [step_enqueue hi] at hsound
    exact h.order_of_sound hi hsound
  | _ => trivial

end Dissemination

/-- The newest record of a file is queued after every transaction exactly if every enqueue commits above the file's
row. -/
theorem newest_queued_iff (metaSeq : Nat) (l : List (DisseminationStep Id)) :
    Transition.Meets Dissemination.step (fun s a => (s.step a).Sound) (Dissemination.start metaSeq) l ↔
      Transition.Meets Dissemination.step (fun s a => a.InOrder s) (Dissemination.start metaSeq) l :=
  Transition.meets_iff sound_step_iff Dissemination.tracked_step (tracked_start metaSeq)

def sizedRecord (size : Nat) : FileMetadata Unit where
  id := 0
  path := []
  size := size
  fileType := .regularFile
  chunkLocations := []
  writeSeq := size

theorem older_record_replaces_newer :
    let before := Transition.run Dissemination.step (Dissemination.start 0)
      [.nextMetaSequence, .nextMetaSequence, .enqueue 1 (sizedRecord 20)]
    let after := before.step (.enqueue 0 (sizedRecord 10))
    before.queue.drainMetaQueueForNode = [(2, sizedRecord 20)] ∧
      after.queue.drainMetaQueueForNode = [(1, sizedRecord 10)] ∧
      after.outstanding = [(2, sizedRecord 20), (1, sizedRecord 10)] ∧ ¬after.Sound := by
  refine ⟨by decide, by decide, by decide, ?_⟩
  intro hsound
  have hmem := hsound.newest (2, sizedRecord 20) (by decide) (by decide)
  revert hmem
  decide

end Dfs
