import Dfs.AppendFile

/-!
# What an append leaves

The chunker's pieces, the locations registered for them, and how map and chunks read afterwards.
-/

namespace Dfs

open KeyedList Server Function
open List hiding lookup

variable {Id : Type}

/-! ## The pieces -/

section Pieces

variable {size : Nat} {data : Bytes}

lemma dataChunks_nil (hsize : 0 < size) : dataChunks size [] = [] := by
  have hzero : (size - 1) / size = 0 := Nat.div_eq_of_lt (by omega)
  simp [dataChunks, hzero]

lemma dataChunks_of_ne_nil (hsize : 0 < size) (h : data ≠ []) :
    dataChunks size data = data.take size :: dataChunks size (data.drop size) := by
  have hlen : 0 < data.length := length_pos_iff.mpr h
  have hcount : (data.length + size - 1) / size = ((data.drop size).length + size - 1) / size + 1 := by
    rw [length_drop]
    by_cases hle : size ≤ data.length
    · rw [show data.length + size - 1 = (data.length - size + size - 1) + size by omega, Nat.add_div_right _ hsize]
    rw [show data.length - size + size - 1 = size - 1 by omega, Nat.div_eq_of_lt (show size - 1 < size by omega),
      show data.length + size - 1 = (data.length - 1) + size by omega, Nat.add_div_right _ hsize,
      Nat.div_eq_of_lt (show data.length - 1 < size by omega)]
  unfold dataChunks
  rw [hcount, range_succ_eq_map, map_cons, map_map]
  refine congrArg₂ List.cons (by simp) (map_congr_left (fun k _ => ?_))
  rw [comp_apply, drop_drop, Nat.succ_mul, Nat.add_comm]

end Pieces

/-! ## The locations -/

def AppendEnv.locationsFrom (env : AppendEnv Id) (file : FileId) : Nat → List (Id × Bytes) → List (ChunkLocation Id × Bytes)
  | _, [] => []
  | offset, chunk :: rest =>
    (env.locationOf file chunk offset, chunk.2) :: env.locationsFrom file (offset + chunk.2.length) rest

variable [DecidableEq Id]

/-- Its bytes can be read, and its location competes for its slot. -/
structure ChunkAppended (env : AppendEnv Id) (srv srv' : Server Id) (file : FileId) (chunk : Id × Bytes) (offset : Nat) :
    Prop where
  tables : srv'.tables = srv.tables
  tombstoned : srv'.node.tombstoned = srv.node.tombstoned
  deleted : srv'.node.fileRecentlyDeleted file = false
  content : srv'.content = update srv.content chunk.1 (some chunk.2)
  sorted : Sorted cidxOf (srv'.node.locsOf file)
  taken : srv'.node.occupant (file, offset / chunkSize)
    = merged (arbitrateBy srv.node.foldResultChunkIds (srv.node.backfilled env.seqReadable (file, offset / chunkSize) chunk.1)
        (writeQuorum env.replicationFactor)) (srv.node.occupant (file, offset / chunkSize)) (env.locationOf file chunk offset)
  other : ∀ idx, idx ≠ offset / chunkSize → srv'.node.occupant (file, idx) = srv.node.occupant (file, idx)

variable {chunk : Id × Bytes} {chunks : List (Id × Bytes)} {o : Nat} {file : FileId} {content : Id → Option Bytes}

lemma chunkMapUpdateLocationForFile_slots {s : Node Id} (loc : ChunkLocation Id) {offset : Nat} (floor : Nat)
    (readable : Slot → Bool) (hlive : s.fileRecentlyDeleted file = false) (hsorted : Sorted cidxOf (s.locsOf file))
    (hoff : loc.fileOffset = some offset) :
    let s' := (s.chunkMapUpdateLocationForFile floor readable file loc).1
    s'.tombstoned = s.tombstoned ∧ s'.fileRecentlyDeleted file = false ∧ Sorted cidxOf (s'.locsOf file) ∧
      s'.occupant (file, offset / chunkSize)
        = merged (arbitrateBy s.foldResultChunkIds (s.backfilled readable (file, offset / chunkSize) loc.chunkId) floor)
            (s.occupant (file, offset / chunkSize)) loc ∧
      ∀ idx, idx ≠ offset / chunkSize → s'.occupant (file, idx) = s.occupant (file, idx) := by
  have hidx : slotOf loc = some (offset / chunkSize) := by rw [slotOf, hoff]; rfl
  dsimp only
  refine ⟨?_, ?_, ?_, occupant_chunkMapUpdateLocationForFile floor readable hlive hidx, ?_⟩
  · rw [chunkMapUpdateLocationForFile_eq floor readable hlive hidx]
    rfl
  · rw [chunkMapUpdateLocationForFile_eq floor readable hlive hidx]
    exact hlive
  · rw [chunkMapUpdateLocationForFile_eq floor readable hlive hidx, locsOf_syncLocation floor hidx, if_pos rfl]
    exact sorted_upsert hsorted (fun _ => cidxOf_arbitrateBy)
  · intro idx hne
    rw [chunkMapUpdateLocationForFile_eq floor readable hlive hidx]
    exact occupant_syncLocation_of_ne floor hsorted hidx (fun h => hne (congrArg Prod.snd h).symm)

section Loop

variable {H : ChunkHash Id} {env : AppendEnv Id} {srv srv' : Server Id} {job job' : AppendJob Id}

section

variable (hrf : 0 < env.replicationFactor) (hlive : srv.node.fileRecentlyDeleted job.metadata.id = false)
    (hsorted : Sorted cidxOf (srv.node.locsOf job.metadata.id))

include hrf hlive hsorted

lemma appendChunk_ok {rest : List (Id × Bytes)} (h : srv.appendChunk H env job chunk rest = (srv', .ok job')) :
    ChunkAppended env srv srv' job.metadata.id chunk job.currentOffset ∧
      job' = { job with chunks := rest, currentOffset := job.currentOffset + chunk.2.length,
                        newLocations := job.newLocations ++
                          [(env.locationOf job.metadata.id chunk job.currentOffset, chunk.2)] } := by
  unfold appendChunk at h
  dsimp only at h
  have himm : 0 < env.immediateReplicas := by
    unfold AppendEnv.immediateReplicas
    split <;> omega
  split at h
  · cases h
  split at h
  · cases h
  rename_i hquorum
  have hsome : (env.successfulNodes chunk.1).isEmpty = false := by
    cases hs : env.successfulNodes chunk.1 with
    | nil => simp [hs] at hquorum; omega
    | cons => rfl
  rw [hsome] at h
  simp only [Prod.mk.injEq, Except.ok.injEq] at h
  obtain ⟨rfl, rfl⟩ := h
  refine ⟨?_, rfl⟩
  have hput (m : Node Id) (hm : m.fileRecentlyDeleted job.metadata.id = false) (hms : Sorted cidxOf (m.locsOf job.metadata.id)) :=
    chunkMapUpdateLocationForFile_slots (env.locationOf job.metadata.id chunk job.currentOffset)
      (writeQuorum env.replicationFactor)
      env.seqReadable hm hms rfl
  cases hrow : env.rowWritable chunk.1 with
  | true =>
    obtain ⟨h1, h2, h3, h4, h5⟩ := hput (srv.node.putChunkLocation _) hlive hsorted
    exact ⟨rfl, h1, h2, rfl, h3, h4, h5⟩
  | false =>
    obtain ⟨h1, h2, h3, h4, h5⟩ := hput srv.node hlive hsorted
    exact ⟨rfl, h1, h2, rfl, h3, h4, h5⟩

def writtenContent (content : Id → Option Bytes) (chunks : List (Id × Bytes)) : Id → Option Bytes :=
  chunks.foldl (fun c chunk => update c chunk.1 (some chunk.2)) content

structure ChunksAppended (env : AppendEnv Id) (srv srv' : Server Id) (job job' : AppendJob Id) (chunks : List (Id × Bytes)) :
    Prop where
  tables : srv'.tables = srv.tables
  tombstoned : srv'.node.tombstoned = srv.node.tombstoned
  content : srv'.content = writtenContent srv.content chunks
  metadata : job'.metadata = job.metadata
  expectedOffset : job'.expectedOffset = job.expectedOffset
  writeLength : job'.writeLength = job.writeLength
  actualPartialBytes : job'.actualPartialBytes = job.actualPartialBytes
  newLocations : job'.newLocations = job.newLocations ++ env.locationsFrom job.metadata.id job.currentOffset chunks

lemma appendChunks_ok (h : appendChunks H env chunks srv job = (srv', .ok job')) :
    ChunksAppended env srv srv' job job' chunks := by
  induction chunks generalizing srv job with
  | nil =>
    simp only [appendChunks, Prod.mk.injEq, Except.ok.injEq] at h
    obtain ⟨rfl, rfl⟩ := h
    exact ⟨rfl, rfl, rfl, rfl, rfl, rfl, rfl, by simp [AppendEnv.locationsFrom]⟩
  | cons chunk rest ih =>
    unfold appendChunks at h
    split at h
    · rename_i srv1 job1 hone
      obtain ⟨hstep, hjob⟩ := appendChunk_ok hrf hlive hsorted hone
      have hmeta : job1.metadata = job.metadata := by rw [hjob]
      have hrest := ih (hmeta ▸ hstep.deleted) (hmeta ▸ hstep.sorted) h
      subst hjob
      refine ⟨hrest.tables.trans hstep.tables, hrest.tombstoned.trans hstep.tombstoned, ?_, hrest.metadata, hrest.expectedOffset,
        hrest.writeLength, hrest.actualPartialBytes, ?_⟩
      · rw [hrest.content, hstep.content]
        rfl
      · rw [hrest.newLocations, append_assoc]
        rfl
    · cases h

end

def AppendEnv.pieceLocation (H : ChunkHash Id) (env : AppendEnv Id) (file : FileId) (piece : Bytes) (hashOffset offset : Nat) :
    ChunkLocation Id :=
  env.locationOf file (H.computeChunkHashAt piece hashOffset file, piece) offset

/-- The loop over the pieces of some data, from the start of a slot on, with no chunk behind that slot: the first
piece competes for it, and each of the others takes its own. -/
theorem appendChunks_slots (hrf : 0 < env.replicationFactor) {data : Bytes} (hdata : data ≠ []) {j : Nat}
    (hlive : srv.node.fileRecentlyDeleted job.metadata.id = false) (hsorted : Sorted cidxOf (srv.node.locsOf job.metadata.id))
    (hoff : job.currentOffset = j * chunkSize) (hfree : ∀ idx, j < idx → srv.node.occupant (job.metadata.id, idx) = none)
    (h : appendChunks H env (chunkDataAt H job.metadata.id o (dataChunks chunkSize data)) srv job = (srv', .ok job')) :
    (∀ idx, idx < j → srv'.node.occupant (job.metadata.id, idx) = srv.node.occupant (job.metadata.id, idx)) ∧
      srv'.node.occupant (job.metadata.id, j)
        = merged (arbitrateBy srv.node.foldResultChunkIds (srv.node.backfilled env.seqReadable (job.metadata.id, j)
            (H.computeChunkHashAt (data.take chunkSize) o job.metadata.id)) (writeQuorum env.replicationFactor))
          (srv.node.occupant (job.metadata.id, j)) (env.pieceLocation H job.metadata.id (data.take chunkSize) o (j * chunkSize)) ∧
      ∀ k, 1 ≤ k → k * chunkSize < data.length → srv'.node.occupant (job.metadata.id, j + k)
        = some (env.pieceLocation H job.metadata.id ((data.drop (k * chunkSize)).take chunkSize) (o + k * chunkSize)
            ((j + k) * chunkSize)) := by
  induction hn : data.length using Nat.strong_induction_on generalizing data j o srv job with
  | _ n ih =>
    rw [dataChunks_of_ne_nil chunkSize_pos hdata] at h
    unfold chunkDataAt appendChunks at h
    split at h
    · rename_i srv1 job1 hone
      obtain ⟨hstep, hjob⟩ := appendChunk_ok hrf hlive hsorted hone
      have hmeta : job1.metadata = job.metadata := by rw [hjob]
      have hdiv : job.currentOffset / chunkSize = j := by rw [hoff, mul_chunkSize_div]
      have htaken := hstep.taken
      rw [hdiv, hoff] at htaken
      have hother (idx : Nat) (hne : idx ≠ j) := hstep.other idx (by rw [hdiv]; exact hne)
      subst hn
      by_cases hlast : data.length ≤ chunkSize
      · -- The last piece: the loop is over.
        rw [drop_eq_nil_of_le hlast, dataChunks_nil chunkSize_pos] at h
        simp only [chunkDataAt, appendChunks, Prod.mk.injEq] at h
        obtain ⟨rfl, -⟩ := h
        refine ⟨fun idx hidx => hother idx (by omega), htaken, fun k hk hlt => absurd hlt ?_⟩
        have := Nat.mul_le_mul_right chunkSize hk
        omega
      -- A full piece: the next one starts where the next slot does, and has it for itself.
      have hpiece : (data.take chunkSize).length = chunkSize := by rw [length_take]; omega
      have hoff1 : job1.currentOffset = (j + 1) * chunkSize := by
        rw [hjob, Nat.succ_mul, ← hoff]
        dsimp only
        rw [hpiece]
      have hfree1 (idx : Nat) (hidx : j < idx) : srv1.node.occupant (job1.metadata.id, idx) = none := by
        rw [hmeta, hother idx (by omega)]
        exact hfree idx hidx
      have hdrop : data.drop chunkSize ≠ [] := fun hnil => by
        have := drop_eq_nil_iff.mp hnil
        omega
      rw [hpiece, ← hmeta] at h
      obtain ⟨hbefore, hfirst, hpieces⟩ := ih (data.drop chunkSize).length
        (by rw [length_drop]; have := chunkSize_pos; omega) hdrop (hmeta ▸ hstep.deleted) (hmeta ▸ hstep.sorted) hoff1
        (fun idx hidx => hfree1 idx (by omega)) h rfl
      rw [hfree1 (j + 1) (Nat.lt_succ_self j)] at hfirst
      rw [hmeta] at hbefore hfirst hpieces
      refine ⟨fun idx hidx => (hbefore idx (by omega)).trans (hother idx (by omega)),
        (hbefore j (Nat.lt_succ_self j)).trans htaken, fun k hk hlt => ?_⟩
      obtain ⟨k, rfl⟩ : ∃ m, k = m + 1 := ⟨k - 1, by omega⟩
      rw [show (k + 1) * chunkSize = chunkSize + k * chunkSize by rw [Nat.succ_mul, Nat.add_comm]] at hlt ⊢
      rw [show j + (k + 1) = j + 1 + k by omega, ← drop_drop, ← Nat.add_assoc]
      cases k with
      | zero => simpa [merged] using hfirst
      | succ k => exact hpieces (k + 1) (by omega) (by rw [length_drop]; omega)
    · cases h

end Loop

/-! ## What the chunks read as -/

omit [DecidableEq Id] in
lemma mem_chunkDataAt {H : ChunkHash Id} {pieces : List Bytes} (h : chunk ∈ chunkDataAt H file o pieces) :
    ∃ o', chunk.1 = H.computeChunkHashAt chunk.2 o' file := by
  induction pieces generalizing o with
  | nil => simp [chunkDataAt] at h
  | cons b rest ih =>
    rcases mem_cons.mp h with rfl | h
    · exact ⟨o, rfl⟩
    · exact ih h

omit [DecidableEq Id] in
lemma piece_mem_chunkDataAt (H : ChunkHash Id) (file : FileId) {data : Bytes} {k : Nat} (hk : k * chunkSize < data.length) :
    (H.computeChunkHashAt ((data.drop (k * chunkSize)).take chunkSize) (o + k * chunkSize) file,
      (data.drop (k * chunkSize)).take chunkSize) ∈ chunkDataAt H file o (dataChunks chunkSize data) := by
  induction k generalizing data o with
  | zero =>
    have hne : data ≠ [] := by
      rintro rfl
      simp at hk
    rw [dataChunks_of_ne_nil chunkSize_pos hne, chunkDataAt, Nat.zero_mul, Nat.add_zero, drop_zero]
    exact mem_cons_self
  | succ k ih =>
    rw [Nat.succ_mul] at hk ⊢
    have hne : data ≠ [] := by
      rintro rfl
      simp at hk
    have hpiece : (data.take chunkSize).length = chunkSize := by rw [length_take]; omega
    rw [dataChunks_of_ne_nil chunkSize_pos hne, chunkDataAt, hpiece]
    refine mem_cons_of_mem _ ?_
    have hrest := @ih (o + chunkSize) (data.drop chunkSize) (by rw [length_drop]; omega)
    rwa [drop_drop, Nat.add_comm chunkSize, Nat.add_assoc, Nat.add_comm chunkSize] at hrest

lemma writtenContent_of_notMem {id : Id} (h : ∀ chunk ∈ chunks, chunk.1 ≠ id) :
    writtenContent content chunks id = content id := by
  unfold writtenContent
  induction chunks generalizing content with
  | nil => rfl
  | cons chunk rest ih =>
    rw [foldl_cons, ih (fun c hc => h c (mem_cons_of_mem _ hc)), update_of_ne]
    exact (h chunk mem_cons_self).symm

lemma writtenContent_of_mem (hone : ∀ x ∈ chunks, ∀ y ∈ chunks, x.1 = y.1 → x.2 = y.2) (h : chunk ∈ chunks) :
    writtenContent content chunks chunk.1 = some chunk.2 := by
  induction chunks generalizing content chunk with
  | nil => cases h
  | cons first rest ih =>
    have hrest := fun x hx y hy => hone x (mem_cons_of_mem _ hx) y (mem_cons_of_mem _ hy)
    by_cases hin : chunk ∈ rest
    · exact ih hrest hin
    obtain rfl : chunk = first := (mem_cons.mp h).resolve_right hin
    show writtenContent (update content chunk.1 (some chunk.2)) rest chunk.1 = some chunk.2
    by_cases hsame : ∃ x ∈ rest, x.1 = chunk.1
    · obtain ⟨x, hx, hxid⟩ := hsame
      rw [← hxid, ih hrest hx, hone x (mem_cons_of_mem _ hx) chunk mem_cons_self hxid]
    · rw [writtenContent_of_notMem (fun x hx hid => hsame ⟨x, hx, hid⟩), update_self]

end Dfs
