import Dfs.Lemmas.FoldEffect
import Dfs.Restart
import Mathlib.Tactic.IntervalCases

/-!
# The durable effects of a fold

A fold touches disk and tables in nine steps; a stop leaves a prefix of them (`Node.crashAt`), all together are an
uninterrupted fold (`runSingleFold_durable`).
-/

namespace Dfs

open Overlay Function Node

variable {Id : Type}

inductive FoldEffect where
  | writeChunk | registerNew | unlinkBase | unregisterBase | recordSeq | correctSeq | flipFolded | unregisterDelta | deleteDelta
  deriving DecidableEq, Repr

def foldEffects : List FoldEffect :=
  [.writeChunk, .registerNew, .unlinkBase, .unregisterBase, .recordSeq, .correctSeq, .flipFolded, .unregisterDelta, .deleteDelta]

/-- The location is registered without a write sequence; the generation is what the commit records. -/
structure FoldPlan (Id : Type) where
  slot : Slot
  token : Id
  base : Id
  delta : Id
  content : Bytes
  location : ChunkLocation Id
  foldSeq : Option Nat
  generation : Option Nat

def FoldPlan.new (p : FoldPlan Id) : Id := p.location.chunkId

def FoldPlan.corrected (p : FoldPlan Id) : ChunkLocation Id := { p.location with clientWriteSeq := p.foldSeq }

def Node.foldPlan (H : ChunkHash Id) (env : FoldEnv Id) (s : Node Id) (slot : Slot) (token base delta : Id)
    (deltaSeq : Option Nat) (content : Bytes) : FoldPlan Id :=
  let new := H.computeChunkHashAt content (slot.2 * chunkSize) slot.1
  let foldSeq := foldSuccessorWriteSeq ((s.occupant slot).bind (·.clientWriteSeq)) deltaSeq
  { slot := slot, token := token, base := base, delta := delta, content := content
    location := { chunkId := new, nodes := [env.localNodeId], size := content.length, fileOffset := some (slot.2 * chunkSize),
                  writtenAt := some env.nowMs, clientWriteSeq := none, fileId := some slot.1 }
    foldSeq := foldSeq
    generation := (foldSuccessorWriteSeq (s.chunkGenerations base) foldSeq).filter
      (fun g => (s.chunkGenerations new).all (fun prev => decide (prev < g))) }

variable [DecidableEq Id]

/-- A chunk rewritten into itself is neither written nor reclaimed. -/
def FoldEffect.apply (p : FoldPlan Id) (s : Node Id) : FoldEffect → Node Id
  | .writeChunk => if p.new ≠ p.base ∨ s.hasChunk p.base = false then s.writeChunk p.new p.content else s
  | .registerNew => s.putChunkLocation p.location
  | .unlinkBase => if p.new = p.base then s else s.setFiles (update s.files p.base none)
  | .unregisterBase => if p.new = p.base then s else s.deleteChunkLocation p.base
  | .recordSeq => match p.generation with
    | some g => (s.putChunkSeq p.slot g).1
    | none => s
  | .correctSeq => if p.foldSeq = none then s else s.putChunkLocation p.corrected
  | .flipFolded => s.updatePatchStateFolded p.token p.new
  | .unregisterDelta => s.deleteChunkLocation p.delta
  | .deleteDelta => s.deleteChunk p.delta

def Node.crashAt (s : Node Id) (p : FoldPlan Id) (done : List FoldEffect) : Node Id := done.foldl (FoldEffect.apply p) s

/-! ## All the effects are what the fold leaves behind -/

variable (p : FoldPlan Id)

lemma durable_apply (e : FoldEffect) (s : Node Id) : (e.apply p s.durable).durable = (e.apply p s).durable := by
  cases e with
  | writeChunk | unlinkBase | unregisterBase | correctSeq =>
    dsimp only [FoldEffect.apply]
    rw [apply_ite durable, apply_ite durable]
    rfl
  | recordSeq =>
    dsimp only [FoldEffect.apply, putChunkSeq]
    cases p.generation with
    | none => rfl
    | some g =>
      dsimp only
      rw [apply_ite durable, apply_ite durable]
      rfl
  | registerNew | flipFolded | unregisterDelta | deleteDelta => rfl

lemma durable_crashAt (done : List FoldEffect) :
    ∀ {s s' : Node Id}, s.durable = s'.durable → (s.crashAt p done).durable = (s'.crashAt p done).durable := by
  induction done with
  | nil =>
    intro s s' h
    exact h
  | cons e done ih =>
    intro s s' h
    refine ih ?_
    rw [← durable_apply p e s, h, durable_apply p e s']

variable {H : ChunkHash Id} {env : FoldEnv Id} {s : Node Id} {slot : Slot} {token base delta : Id}

lemma fullRewriteChunk_durable (hf : env.toPatchEnv.NoFault) {b : Bytes} {prefetched : Option Bytes}
    (hbase : s.rewriteBase H env.toPatchEnv slot.1 (slot.2 * chunkSize) base prefetched = .ok b)
    (records : Extents) (token delta : Id) (deltaSeq : Option Nat) :
    (s.fullRewriteChunk H env.toPatchEnv slot.1 (slot.2 * chunkSize) base records prefetched).1.durable
      = (s.crashAt (s.foldPlan H env slot token base delta deltaSeq (overlay b records)) (foldEffects.take 4)).durable := by
  unfold fullRewriteChunk
  simp only [hbase, applyRanges_eq_overlay, hf .writeConsolidated, hf .syncConsolidated, hf .putChunkLocation, Bool.and_false,
    Bool.false_eq_true, if_false]
  dsimp only [crashAt, foldEffects, List.take, List.foldl, FoldEffect.apply, foldPlan, FoldPlan.new]
  generalize slot.2 * chunkSize = offset
  generalize H.computeChunkHashAt (overlay b records) offset slot.1 = new
  by_cases heq : new = base
  · cases s.hasChunk base
    · simp [heq]
      rfl
    · simp [heq]
  simp only [heq, ne_eq, not_false_eq_true, decide_true, Bool.true_or, if_true, true_or, if_false, retireChunk,
    hf .unlinkOld, hf .deleteChunkLocation, Bool.false_eq_true]
  rfl

open FoldEffect

lemma recordSeq_eq (s : Node Id) : ∃ seqs, recordSeq.apply p s = s.setSequences seqs s.chunkGenerations := by
  dsimp only [FoldEffect.apply, putChunkSeq]
  cases p.generation with
  | none => exact ⟨s.chunkSeq, rfl⟩
  | some g =>
    dsimp only
    split <;> exact ⟨_, rfl⟩

lemma stampGeneration_durable (hf : env.NoFault) {p : FoldPlan Id}
    (hgen : (foldSuccessorWriteSeq (s.chunkGenerations p.base) p.foldSeq).filter
      (fun g => (s.chunkGenerations p.new).all (fun prev => decide (prev < g))) = p.generation) :
    (s.stampGeneration env p.slot p.base p.new p.foldSeq).durable = (recordSeq.apply p s).durable := by
  unfold stampGeneration FoldEffect.apply
  rw [← hgen]
  cases foldSuccessorWriteSeq (s.chunkGenerations p.base) p.foldSeq with
  | none => rfl
  | some g =>
    dsimp only [Option.filter]
    rw [hf.2 .putChunkSeq, Bool.not_false, Bool.and_true]
    split
    · calc _ = ((s.bumpChunkGeneration p.new g).putChunkSeq p.slot g).1.durable := by
            rw [apply_ite durable]
            exact ite_self _
        _ = (s.putChunkSeq p.slot g).1.durable := by
            dsimp only [putChunkSeq]
            rw [apply_ite durable, apply_ite durable]
            rfl
    · rfl

lemma correctWriteSeq_durable (hf : env.NoFault) {p : FoldPlan Id} (hloc : s.chunkTable p.new = some p.location)
    (hnone : p.location.clientWriteSeq = none) :
    (s.correctWriteSeq env p.new p.foldSeq).1.durable = (correctSeq.apply p s).durable := by
  unfold correctWriteSeq FoldEffect.apply
  rw [hf.2 .readNewLocation, if_neg (by simp), hloc]
  dsimp only
  rw [hnone, hf.2 .correctSeq]
  cases hseq : p.foldSeq with
  | none => simp
  | some seq => simp [FoldPlan.corrected, hseq]

lemma commitFold_durable (hf : env.NoFault) {p : FoldPlan Id} (hlive : s.tombstoned p.slot.1 = false)
    (hloc : s.chunkTable p.new = some p.location) (hnone : p.location.clientWriteSeq = none) {deltaSeq : Option Nat}
    (hseq : foldSuccessorWriteSeq ((s.occupant p.slot).bind (·.clientWriteSeq)) deltaSeq = p.foldSeq)
    (hgen : (foldSuccessorWriteSeq (s.chunkGenerations p.base) p.foldSeq).filter
      (fun g => (s.chunkGenerations p.new).all (fun prev => decide (prev < g))) = p.generation) (size : Nat) (buf : Bytes) :
    (s.commitFold env p.slot p.token p.base p.delta deltaSeq p.new size buf).1.durable
      = (s.crashAt p (foldEffects.drop 4)).durable := by
  have hrekey : ∀ t : Node Id, (t.rekeyRing p.base p.new (some buf)).durable = t.durable := fun _ => rfl
  have hforget : ∀ t : Node Id, (t.forgetGeneration p.base p.new).durable = t.durable := fun t => by
    unfold forgetGeneration
    split <;> rfl
  have hmap : ∀ (t : Node Id) (seq : Option Nat),
      (t.updateChunkMapAfterPatch p.slot.1 (some p.slot.2) p.token p.new size env.nowMs seq).1.durable = t.durable := by
    intro t seq
    rw [updateChunkMapAfterPatch_congr (s := t) rfl]
    rfl
  unfold commitFold
  rw [hlive, if_neg (by simp)]
  dsimp only
  rw [hseq]
  set recorded : Node Id := { s with foldResultChunkIds := update s.foldResultChunkIds p.new true } with hrec
  set stamped := ((recorded.stampGeneration env p.slot p.base p.new p.foldSeq).forgetGeneration p.base p.new).rekeyRing p.base
    p.new (some buf) with hst
  have hstamped : stamped.durable = (s.crashAt p [.recordSeq]).durable := by
    rw [hst, hrekey, hforget]
    exact (stampGeneration_durable (s := recorded) hf hgen).trans (durable_crashAt p [.recordSeq] rfl)
  have htable : stamped.chunkTable p.new = some p.location := by
    obtain ⟨seqs, hrecord⟩ := recordSeq_eq p s
    have := congrFun (congrArg chunkTable hstamped) p.new
    exact this.trans ((congrFun (congrArg chunkTable hrecord) p.new).trans hloc)
  have hcorrected : (stamped.correctWriteSeq env p.new p.foldSeq).1.durable = (s.crashAt p [.recordSeq, .correctSeq]).durable :=
    (correctWriteSeq_durable hf htable hnone).trans (durable_crashAt p [.correctSeq] hstamped)
  generalize (stamped.correctWriteSeq env p.new p.foldSeq).1 = corrected at hcorrected ⊢
  generalize ((stamped.correctWriteSeq env p.new p.foldSeq).2.bind (·.clientWriteSeq)) = finalSeq
  rw [hf.2 .flipFolded, if_neg (by simp)]
  calc _ = ((corrected.updatePatchStateFolded p.token p.new).dropDelta env p.delta).durable := hmap _ _
    _ = (corrected.crashAt p [.flipFolded, .unregisterDelta, .deleteDelta]).durable := by
      simp only [dropDelta, hf.2, Bool.false_eq_true, if_false]
      rfl
    _ = (s.crashAt p (foldEffects.drop 4)).durable := durable_crashAt p [.flipFolded, .unregisterDelta, .deleteDelta] hcorrected

/-! ## The state after some of the effects -/

variable {done : List FoldEffect}

lemma prefix_foldEffects (h : done <+: foldEffects) : ∃ k < 10, done = foldEffects.take k :=
  ⟨done.length, Nat.lt_succ_of_le h.length_le, List.prefix_iff_eq_take.1 h⟩

/-- What one effect does to the rows and the files. -/
theorem apply_spec (s : Node Id) (e : FoldEffect) :
    (e.apply p s).patchState = (if e = .flipFolded then update s.patchState p.token (some (.folded p.new)) else s.patchState) ∧
    ((e.apply p s).files = match e with
      | .writeChunk => if p.new ≠ p.base ∨ s.hasChunk p.base = false then update s.files p.new (some p.content) else s.files
      | .unlinkBase => if p.new = p.base then s.files else update s.files p.base none
      | .deleteDelta => update s.files p.delta none
      | _ => s.files) ∧
    (e.apply p s).chunkTable = match e with
      | .registerNew => update s.chunkTable p.new (some p.location)
      | .unregisterBase => if p.new = p.base then s.chunkTable else update s.chunkTable p.base none
      | .correctSeq => if p.foldSeq = none then s.chunkTable else update s.chunkTable p.new (some p.corrected)
      | .unregisterDelta => update s.chunkTable p.delta none
      | _ => s.chunkTable := by
  cases e with
  | recordSeq =>
    obtain ⟨seqs, hrecord⟩ := recordSeq_eq p s
    rw [hrecord]
    exact ⟨rfl, rfl, rfl⟩
  | writeChunk | unlinkBase | unregisterBase | correctSeq =>
    dsimp only [FoldEffect.apply]
    split <;> exact ⟨rfl, rfl, rfl⟩
  | registerNew | flipFolded | unregisterDelta | deleteDelta => exact ⟨rfl, rfl, rfl⟩

lemma crashAt_patchState (s : Node Id) (p : FoldPlan Id) (h : done <+: foldEffects) (id : Id) : (s.crashAt p done).patchState id
      = if flipFolded ∈ done ∧ id = p.token then some (.folded p.new) else s.patchState id := by
  obtain ⟨k, hk, rfl⟩ := prefix_foldEffects h
  interval_cases k <;> simp [crashAt, foldEffects, apply_spec, update_apply]

lemma crashAt_files (s : Node Id) (p : FoldPlan Id) (hbase : s.hasChunk p.base = true) (h : done <+: foldEffects) (id : Id) :
    (s.crashAt p done).files id = if deleteDelta ∈ done ∧ id = p.delta then none
        else if unlinkBase ∈ done ∧ p.new ≠ p.base ∧ id = p.base then none
        else if FoldEffect.writeChunk ∈ done ∧ p.new ≠ p.base ∧ id = p.new then some p.content else s.files id := by
  obtain ⟨k, hk, rfl⟩ := prefix_foldEffects h
  by_cases hnew : p.new = p.base
  · interval_cases k <;> simp [crashAt, foldEffects, apply_spec, hbase, hnew, update_apply]
  · interval_cases k <;> simp [crashAt, foldEffects, apply_spec, hnew, update_apply]

lemma crashAt_chunkTable_new (s : Node Id) (p : FoldPlan Id) (hnone : p.location.clientWriteSeq = none)
    (h : done <+: foldEffects) : (s.crashAt p done).chunkTable p.new = if unregisterDelta ∈ done ∧ p.new = p.delta then none
        else if registerNew ∈ done then some (if correctSeq ∈ done then p.corrected else p.location) else s.chunkTable p.new := by
  obtain ⟨k, hk, rfl⟩ := prefix_foldEffects h
  have hsame : p.foldSeq = none → p.corrected = p.location := fun hseq => by
    rw [FoldPlan.corrected, hseq, ← hnone]
  by_cases hseq : p.foldSeq = none <;> by_cases hnew : p.new = p.base <;> interval_cases k <;>
    simp [crashAt, foldEffects, apply_spec, hseq, hsame, hnew, update_apply]

lemma crashAt_chunkTable_of_ne {id : Id} (hid : id ≠ p.new) (done : List FoldEffect) :
    ∀ s : Node Id, (s.crashAt p done).chunkTable id
      = if (FoldEffect.unregisterBase ∈ done ∧ id = p.base) ∨ (unregisterDelta ∈ done ∧ id = p.delta) then none
        else s.chunkTable id := by
  induction done with
  | nil =>
    intro s
    simp [crashAt]
  | cons e done ih =>
    intro s
    have hone : (e.apply p s).chunkTable id
        = if (e = .unregisterBase ∧ id = p.base) ∨ (e = .unregisterDelta ∧ id = p.delta) then none else s.chunkTable id := by
      rw [(apply_spec ..).2.2]
      cases e with
      | unregisterBase =>
        by_cases hnew : p.new = p.base
        · simp [hnew, hnew ▸ hid]
        · simp [hnew, update_apply]
      | correctSeq => by_cases hseq : p.foldSeq = none <;> simp [hseq, hid]
      | _ => simp [update_apply, hid]
    rw [crashAt, List.foldl_cons]
    refine (ih _).trans ?_
    rw [hone]
    simp only [List.mem_cons]
    grind

/-! ## A pending patch that is the slot's latest write -/

/-- The occupant is a `Pending` token with a row of its own, base and delta on disk. -/
structure PendingSlot (H : ChunkHash Id) (s : Node Id) (slot : Slot) (token base delta : Id) (b : Bytes)
    (records : Extents) (seq : Option Nat) (row : ChunkLocation Id) : Prop where
  grounded : Grounded H s slot
  occupant : ∃ loc, s.occupant slot = some loc ∧ loc.chunkId = token
  pending : ∃ size at_, s.patchState token = some (.pending base delta size at_ seq)
  baseFile : s.files base = some b
  baseAt : base = H.computeChunkHashAt b (slot.2 * chunkSize) slot.1
  deltaFile : ∃ d, s.files delta = some d ∧ parseDeltaRecords d = .ok records
  registered : s.chunkTable token = some row
  row_token : row.chunkId = token
  row_on : onSlot slot row = true

variable {b : Bytes} {records : Extents} {seq : Option Nat} {row : ChunkLocation Id}

lemma PendingSlot.rewriteBase (h : PendingSlot H s slot token base delta b records seq row) (hH : H.CollisionFree)
    (hf : env.toPatchEnv.NoFault) : s.rewriteBase H env.toPatchEnv slot.1 (slot.2 * chunkSize) base (s.chunkRing base) =
    .ok b := by
  unfold Node.rewriteBase
  cases hring : s.chunkRing base with
  | some c =>
    rw [h.baseAt] at hring
    rw [h.grounded.addressed.eq_of_entry hH (Or.inr (Or.inl hring))]
  | none =>
    dsimp only
    rw [h.baseFile]
    dsimp only
    rw [hf .readBase, if_neg (by simp), ← h.baseAt, if_neg (by simp)]

lemma runSingleFold_durable (hH : H.CollisionFree) (hf : env.NoFault)
    (h : PendingSlot H s slot token base delta b records seq row) (at_ : Nat) :
    (s.runSingleFold H env slot token base delta seq at_).2.isSome = true ∧
      (s.runSingleFold H env slot token base delta seq at_).1.durable
        = (s.crashAt (s.foldPlan H env slot token base delta seq (overlay b records)) foldEffects).durable := by
  obtain ⟨loc, hocc, hloc⟩ := h.occupant
  obtain ⟨d, hd, hparse⟩ := h.deltaFile
  have hgone : s.fileGone env slot.1 at_ = false := by simp [fileGone, h.grounded.present]
  have hcurrent : s.slotSuperseded slot token seq = false := by simp [slotSuperseded, hocc, hloc]
  have hread : s.readChunkArc delta = some d := h.grounded.addressed.readChunkArc_eq hH hd
  have hrewritten := fullRewriteChunk_durable hf.1 (h.rewriteBase hH hf.1) records token delta seq
  unfold runSingleFold
  rw [hgone, hcurrent, hf.2 .readDelta, if_neg (by simp), if_neg (by simp), if_neg (by simp), hread]
  dsimp only
  rw [hparse]
  dsimp only
  obtain ⟨files, table, cache, aliases, hrewrite, -⟩ := fullRewriteChunk_ok hf.1 h.baseFile (h.rewriteBase hH hf.1)
    (h.grounded.addressed _ _ (Or.inl h.baseFile)) hH records rfl rfl
  rw [hrewrite] at hrewritten ⊢
  dsimp only
  generalize hc : ({ s with files := files, chunkTable := table, cache := cache, retiredChunkAliases := aliases } : Node Id) = c
    at hrewritten ⊢
  set p := s.foldPlan H env slot token base delta seq (overlay b records)
  have htable : c.chunkTable p.new = some p.location := by
    have hrow := crashAt_chunkTable_new s p rfl (List.take_prefix 4 foldEffects)
    rw [if_neg (by simp [foldEffects]), if_pos (by simp [foldEffects]), if_neg (by simp [foldEffects])] at hrow
    exact (congrFun (congrArg Node.chunkTable hrewritten) p.new).trans hrow
  have hlive : c.tombstoned slot.1 = false := by
    subst hc
    exact (Bool.or_eq_false_iff.1 h.grounded.live).2
  have hseq : foldSuccessorWriteSeq ((c.occupant slot).bind (·.clientWriteSeq)) seq = p.foldSeq := by
    subst hc
    rfl
  have hgen : (foldSuccessorWriteSeq (c.chunkGenerations p.base) p.foldSeq).filter
      (fun g => (c.chunkGenerations p.new).all (fun prev => decide (prev < g))) = p.generation := by
    subst hc
    rfl
  obtain ⟨_, _, _, _, _, _, _, hcommit, -⟩ := commitFold_eq slot hf hlive htable rfl token base delta seq
    (overlay b records).length (overlay b records)
  refine ⟨?_, ?_⟩
  · exact congrArg (·.2.isSome) hcommit
  · calc (c.commitFold env slot token base delta seq p.new (overlay b records).length (overlay b records)).1.durable
        = (c.crashAt p (foldEffects.drop 4)).durable := commitFold_durable (p := p) hf hlive htable rfl hseq hgen _ _
      _ = ((s.crashAt p (foldEffects.take 4)).crashAt p (foldEffects.drop 4)).durable :=
        durable_crashAt p (foldEffects.drop 4) hrewritten
      _ = (s.crashAt p foldEffects).durable := rfl

end Dfs
