import Dfs.Lemmas.SlotPatch

/-!
# What a fold does to the slot

`full_rewrite_chunk` and the commit of `run_single_fold` without failures: the replay on disk, the token redirected,
the map moved, the delta gone.
-/

namespace Dfs

open Overlay Stamped Function Node

variable {Id : Type}

lemma staleUpdate_foldSuccessorWriteSeq (current patch : Option Nat) :
    staleUpdate (foldSuccessorWriteSeq current patch) current = false := by
  cases current <;> cases patch <;> simp [foldSuccessorWriteSeq, staleUpdate]

variable [DecidableEq Id] {H : ChunkHash Id} {env : FoldEnv Id} {s : Node Id} {slot : Slot} {token base delta new : Id}

/-! ## The rewrite -/

variable {b : Bytes} {loc : ChunkLocation Id} {offset : Nat}

lemma rewriteBase_cases (hH : H.CollisionFree) (hf : env.toPatchEnv.NoFault) (hs : Addressed H s) (hb : s.files base = some b)
    (file : FileId) (offset : Nat) : s.rewriteBase H env.toPatchEnv file offset base (s.chunkRing base) = .ok b ∨
      ∃ m, s.rewriteBase H env.toPatchEnv file offset base (s.chunkRing base) = .error (m, .checksumMismatch) := by
  obtain ⟨o, f, hid⟩ := hs base b (.inl hb)
  unfold rewriteBase
  cases hring : s.chunkRing base with
  | some c =>
    rw [hid] at hring
    rw [hs.eq_of_entry hH (.inr (.inl hring))]
    exact .inl rfl
  | none =>
    simp only [hb, hf .readBase, Bool.false_eq_true, if_false]
    split
    · exact .inr ⟨_, rfl⟩
    · exact .inl rfl

lemma fullRewriteChunk_ok (hf : env.toPatchEnv.NoFault) (hb : s.files base = some b) {file : FileId}
    {prefetched : Option Bytes} (hbase : s.rewriteBase H env.toPatchEnv file offset base prefetched = .ok b)
    (hb' : ∃ o f, base = H.computeChunkHashAt b o f) (hH : H.CollisionFree) (patches : Extents) {v : Bytes}
    (hv : overlay b patches = v) (hnew : H.computeChunkHashAt v offset file = new) :
    ∃ files table cache aliases, s.fullRewriteChunk H env.toPatchEnv file offset base patches prefetched
        = ({ s with files := files, chunkTable := table, cache := cache, retiredChunkAliases := aliases },
          .ok (new, v.length, v)) ∧
      files new = some v ∧ (∀ id d, files id = some d → s.files id = some d ∨ id = new ∧ d = v) ∧
      (∀ id d, cache id = some d → s.cache id = some d) ∧ ∃ loc, table new = some loc ∧ loc.clientWriteSeq = none := by
  have hdisk : s.hasChunk base = true := by rw [hasChunk, hb]; rfl
  unfold fullRewriteChunk
  simp only [hbase, applyRanges_eq_overlay, hv, hnew, hf .writeConsolidated, hf .syncConsolidated, hf .putChunkLocation, hdisk,
    Bool.and_false, Bool.false_eq_true, if_false, Bool.not_true, Bool.or_false, decide_eq_true_eq]
  by_cases heq : new = base
  · obtain ⟨o, f, hid⟩ := hb'
    have hvb : v = b := (hH.content (hnew.trans (heq.trans hid))).1
    simp only [heq, ne_eq, not_true_eq_false, if_false, if_true]
    refine ⟨_, _, _, _, rfl, ?_, fun _ _ => Or.inl, fun _ _ h => h, ?_⟩
    · rw [hb, hvb]
    · exact ⟨_, update_self .., rfl⟩
  simp only [ne_eq, heq, not_false_eq_true, if_true, if_false, retireChunk, hf .unlinkOld, hf .deleteChunkLocation,
    Bool.false_eq_true]
  refine ⟨_, _, _, _, rfl, ?_, ?_, ?_, ?_⟩
  · exact (update_of_ne heq ..).trans (update_self ..)
  · exact fun id d hd => entry_put (entry_of_drop hd)
  · exact fun id d hd => entry_of_drop (entry_of_drop hd)
  · exact ⟨_, (update_of_ne heq ..).trans (update_self ..), rfl⟩

/-! ## The commit -/

lemma rekeyRing_eq (s : Node Id) (base new : Id) (v : Bytes) :
    ∃ ring, s.rekeyRing base new (some v) = { s with chunkRing := ring } ∧
      ∀ id d, ring id = some d → s.chunkRing id = some d ∨ id = new ∧ d = v := by
  refine ⟨_, rfl, fun id d hd => ?_⟩
  split at hd
  · exact .inl (entry_of_drop hd)
  · exact (entry_put hd).imp_left entry_of_drop

lemma stampGeneration_eq (env : FoldEnv Id) (s : Node Id) (slot : Slot) (base new : Id) (seq : Option Nat) :
    ∃ seqs gens, (s.stampGeneration env slot base new seq).forgetGeneration base new = s.setSequences seqs gens := by
  have hstamp : ∃ seqs gens, s.stampGeneration env slot base new seq = s.setSequences seqs gens := by
    unfold stampGeneration
    split
    · exact ⟨_, _, rfl⟩
    dsimp only
    split
    · unfold putChunkSeq
      dsimp only
      split <;> split <;> exact ⟨_, _, rfl⟩
    · exact ⟨_, _, rfl⟩
  obtain ⟨seqs, gens, hstamp⟩ := hstamp
  rw [hstamp]
  unfold forgetGeneration
  split <;> exact ⟨_, _, rfl⟩

lemma correctWriteSeq_eq (hf : env.NoFault) (hloc : s.chunkTable new = some loc) (hseq : loc.clientWriteSeq = none)
    (foldSeq : Option Nat) : ∃ table loc', s.correctWriteSeq env new foldSeq = ({ s with chunkTable := table }, some loc') ∧
      loc'.clientWriteSeq = foldSeq := by
  unfold correctWriteSeq
  simp only [hf.2, hloc, Bool.false_eq_true, if_false]
  split
  · exact ⟨_, _, rfl, rfl⟩
  rename_i hsame
  refine ⟨_, _, rfl, ?_⟩
  rw [hseq] at hsame ⊢
  by_contra hne
  exact hsame ⟨hne, fun h => hne h.symm⟩

lemma commitFold_eq (slot : Slot) (hf : env.NoFault) (hlive : s.tombstoned slot.1 = false)
    (hloc : s.chunkTable new = some loc) (hseq : loc.clientWriteSeq = none) (token base delta : Id) (deltaSeq : Option Nat)
    (size : Nat) (v : Bytes) : ∃ seqs gens results ring table pending finalSeq,
      s.commitFold env slot token base delta deltaSeq new size v = ({ s with
              files := update s.files delta none
              cache := update s.cache delta none
              patchState := update s.patchState token (some (.folded new))
              chunkMap := (s.updateChunkMapAfterPatch slot.1 (some slot.2) token new size env.nowMs finalSeq).1.chunkMap
              chunkSeq := seqs, chunkGenerations := gens, foldResultChunkIds := results, chunkRing := ring
              chunkTable := table, pendingPatchIds := pending }, some (new, size, v, finalSeq)) ∧
      finalSeq = foldSuccessorWriteSeq ((s.occupant slot).bind (·.clientWriteSeq)) deltaSeq ∧
      ∀ id d, ring id = some d → s.chunkRing id = some d ∨ id = new ∧ d = v := by
  unfold commitFold
  rw [hlive, if_neg (by simp)]
  generalize hseq' : foldSuccessorWriteSeq ((s.occupant slot).bind (·.clientWriteSeq)) deltaSeq = foldSeq
  dsimp only
  obtain ⟨seqs, gens, hstamp⟩ := stampGeneration_eq env
    { s with foldResultChunkIds := update s.foldResultChunkIds new true } slot base new foldSeq
  rw [hstamp]
  generalize hst : setSequences { s with foldResultChunkIds := update s.foldResultChunkIds new true } seqs gens = st
  obtain ⟨ring, hrekey, hring⟩ := rekeyRing_eq st base new v
  rw [hrekey]
  subst hst
  obtain ⟨table, loc', hcorrect, hfinal⟩ := correctWriteSeq_eq (s := { setSequences { s with
    foldResultChunkIds := _ } seqs gens with chunkRing := ring }) hf hloc hseq foldSeq
  rw [hcorrect]
  refine ⟨seqs, gens, update s.foldResultChunkIds new true, ring, update table delta none,
    update s.pendingPatchIds base none, foldSeq, ?_, rfl, hring⟩
  simp only [hf.2, Bool.false_eq_true, if_false, dropDelta, Option.bind_some, hfinal]
  rw [updateChunkMapAfterPatch_congr (s := s)]
  · rfl
  · rfl

/-! ## The fold of an accumulator -/

/-- A fold of the occupant's accumulator fails the hash check of the base and changes nothing, or leaves the replay of the
accumulator on disk as the slot's occupant, unless that replay has the identity of the accumulator it drops. -/
theorem foldSlotNow_accumulates (hH : H.CollisionFree) (hf : env.NoFault) (hidx : slot.2 ≠ u64Max) (hg : Grounded H s slot)
    (hocc : s.occupant slot = some loc) {records : List DeltaRecord}
    (hacc : Accumulates H s slot offset loc.chunkId base b records) (hbase : s.files base = some b)
    (hne : H.computeChunkHashAt (overlay b (ranges records)) (slot.2 * chunkSize) slot.1 ≠ deltaId H slot offset records) :
    (s.foldSlotNow H env slot).1 = s.recordFoldFailure slot ∨
      Grounded H (s.foldSlotNow H env slot).1 slot ∧ (s.foldSlotNow H env slot).1.dirtyPatchSlots slot = none ∧
      ∃ loc', (s.foldSlotNow H env slot).1.occupant slot = some loc' ∧
        (s.foldSlotNow H env slot).1.files loc'.chunkId = some (overlay b (ranges records)) := by
  obtain ⟨d, hd, htok, -⟩ := hacc.dirty
  obtain ⟨size, at_, seq, hrow⟩ := hacc.row
  obtain ⟨delta₀, htoken⟩ := hg.rows _ _ hrow
  have hgone : s.fileGone env slot.1 at_ = false := by simp [fileGone, hg.present]
  have hcurrent : s.slotSuperseded slot loc.chunkId seq = false := by simp [slotSuperseded, hocc]
  unfold foldSlotNow
  rw [hd]
  dsimp only
  rw [htok, hrow, hf.2 .readPatchState, if_neg (by simp)]
  dsimp only
  unfold runSingleFold
  rw [hgone, hcurrent, hf.2 .readDelta, if_neg (by simp), if_neg (by simp), if_neg (by simp),
    hg.addressed.readChunkArc_eq hH hacc.file]
  dsimp only
  rw [parseDeltaRecords_encodeAccumulator hacc.fits]
  dsimp only
  revert hne
  generalize slot.2 * chunkSize = at₀
  intro hne
  generalize hv : overlay b (ranges records) = v at hne ⊢
  rcases rewriteBase_cases hH hf.1 hg.addressed hbase slot.1 at₀ with hok | ⟨m, herr⟩
  · obtain ⟨files, table, cache, aliases, hrewrite, hnew, hfiles, hcache, known, hknown, hseq⟩ := fullRewriteChunk_ok hf.1 hbase
      hok (hg.addressed _ _ (.inl hbase)) hH (ranges records) hv rfl
    rw [hrewrite]
    dsimp only
    obtain ⟨seqs, gens, results, ring, table', pending, finalSeq, hcommit, hfinal, hring⟩ := commitFold_eq
      (s := { s with files := files, chunkTable := table, cache := cache, retiredChunkAliases := aliases }) slot hf
      (by simpa [fileRecentlyDeleted] using (Bool.or_eq_false_iff.1 hg.live).2) hknown hseq loc.chunkId base
      (deltaId H slot offset records) seq v.length v
    rw [hcommit]
    right
    have hhash : ∀ {id : Id} {c : Bytes}, id = H.computeChunkHashAt v at₀ slot.1 ∧ c = v → ∃ o f,
      id = H.computeChunkHashAt c o f :=
      fun ⟨hid, hc⟩ => ⟨at₀, slot.1, hc ▸ hid⟩
    have hnt : H.computeChunkHashAt v at₀ slot.1 ≠ loc.chunkId := fun h => hH.separate delta₀ v at₀ slot.1 (htoken ▸ h.symm)
    have hfresh : staleUpdate finalSeq loc.clientWriteSeq = false := by
      have hbind : (occupant { s with files := files, chunkTable := table, cache := cache, retiredChunkAliases := aliases }
        slot).bind (·.clientWriteSeq) = loc.clientWriteSeq := congrArg (Option.bind · _) hocc
      rw [hfinal, hbind]
      exact staleUpdate_foldSuccessorWriteSeq ..
    obtain ⟨hmap, -⟩ := occupant_updateChunkMapAfterPatch
      (s := { s with files := files, chunkTable := table, cache := cache, retiredChunkAliases := aliases }) hocc hidx loc.chunkId
      (H.computeChunkHashAt v at₀ slot.1) v.length env.nowMs finalSeq
    rw [if_neg (by simp [hnt, hfresh])] at hmap
    refine ⟨⟨?_, ?_, ?_, hg.live, hg.present⟩, update_self .., _, hmap, ?_⟩
    · exact hg.addressed.of_entries (fun id c hc => (hfiles id c (entry_of_drop hc)).imp_right hhash)
        (fun id c hc => (hring id c hc).imp_right hhash) (fun _ _ => .inl)
        (fun id c hc => .inl (hcache id c (entry_of_drop hc)))
    · intro id st hst
      rcases entry_put hst with hst | ⟨hid, -⟩
      · exact hg.rows id st hst
      · exact ⟨delta₀, hid.trans htoken⟩
    · intro id real hst
      rcases entry_put hst with hst | ⟨-, hst⟩
      · exact hg.folded id real hst
      · exact ⟨v, at₀, slot.1, PatchState.folded.inj hst⟩
    · exact (update_of_ne hne ..).trans hnew
  · left
    unfold fullRewriteChunk
    rw [herr]
    rfl

end Dfs
