import Dfs.Lemmas.FoldEffect

/-!
# Acknowledged patches and folds

A slot patched with increasing sequences and folded reads as the base with the acknowledged patches: `Settled` on a chunk or
`Accumulating` under a token.
-/

namespace Dfs

open Overlay Stamped List Option Node

variable {Id : Type} [DecidableEq Id]

def PatchState.accumulator : PatchState Id → Option (Id × Id)
  | .pending base delta .. => some (base, delta)
  | .folded _ => none

/-- No accumulator has the identity of a patch's base or of the chunk folded into; an abandoned token has no generation. -/
def SlotStep.Safe (H : ChunkHash Id) (slot : Slot) (s : Node Id) : SlotStep Id → Prop
  | .patch _ _ =>
    ∀ p ∈ ((s.occupant slot).bind (fun loc => s.patchState loc.chunkId)).bind PatchState.accumulator, p.1 ≠ p.2
  | .fold _ =>
    ∀ d ∈ s.dirtyPatchSlots slot, ∀ p ∈ (s.patchState d.token).bind PatchState.accumulator,
      (s.resolveChunkContent d.token).map (fun v => H.computeChunkHashAt v (slot.2 * chunkSize) slot.1) ≠ some p.2 ∧
        ((s.occupant slot).map (·.chunkId) = some d.token ∨ s.chunkGenerations d.token = none)
  | .recache _ => True

instance (H : ChunkHash Id) (slot : Slot) (s : Node Id) : (step : SlotStep Id) → Decidable (step.Safe H slot s)
  | .patch _ _ => inferInstanceAs (Decidable (∀ p ∈ ((s.occupant slot).bind _).bind PatchState.accumulator, p.1 ≠ p.2))
  | .fold _ => inferInstanceAs (Decidable (∀ d ∈ s.dirtyPatchSlots slot,
      ∀ p ∈ (s.patchState d.token).bind PatchState.accumulator, _ ≠ some p.2 ∧ (_ = some d.token ∨ _ = none)))
  | .recache _ => isTrue trivial

def StepsSafe (H : ChunkHash Id) (slot : Slot) : Node Id × Extents → List (SlotStep Id) → Prop
  | _, [] => True
  | st, step :: steps => step.Safe H slot st.1 ∧ StepsSafe H slot (step.run H slot st) steps

/-! ## The state of the slot between two steps -/

/-- The occupant is on disk. A patch left dirty was refused: its sequence is below the occupant's, whose registration is gone. -/
structure Settled (s : Node Id) (slot : Slot) (v : Bytes) (loc : ChunkLocation Id) : Prop where
  occupant : s.occupant slot = some loc
  file : s.files loc.chunkId = some v
  refused : ∀ d, s.dirtyPatchSlots slot = some d → s.chunkTable loc.chunkId = none ∧
    ∃ base delta size at_ seq current, s.patchState d.token = some (.pending base delta size at_ (some seq)) ∧
      loc.clientWriteSeq = some current ∧ seq < current

/-- The occupant is the token of an accumulator over a chunk on disk, all below a bound in write sequence. -/
structure Accumulating (H : ChunkHash Id) (s : Node Id) (slot : Slot) (below : Nat) (v : Bytes) (loc : ChunkLocation Id)
    (offset : Nat) (base : Id) (b : Bytes) (records : List DeltaRecord) : Prop where
  occupant : s.occupant slot = some loc
  accumulates : Accumulates H s slot offset loc.chunkId base b records
  file : s.files base = some b
  content : overlay b (ranges records) = v
  records_lt : ∀ r ∈ records, r.1 < below
  seq_lt : ∀ current, loc.clientWriteSeq = some current → current < below

structure SlotAt (H : ChunkHash Id) (s : Node Id) (slot : Slot) (below : Nat) (v : Bytes) : Prop where
  grounded : Grounded H s slot
  state : (∃ loc, Settled s slot v loc) ∨
    ∃ loc offset base b records, Accumulating H s slot below v loc offset base b records

variable {H : ChunkHash Id} {s : Node Id} {slot : Slot} {below : Nat} {v : Bytes} {loc : ChunkLocation Id} {offset : Nat}
  {base : Id} {b : Bytes} {records : List DeltaRecord}

omit [DecidableEq Id] in
lemma OnBase.slotAt (h : OnBase H s slot b) : SlotAt H s slot 0 b := by
  obtain ⟨loc, hocc, hfile⟩ := h.occupant
  refine ⟨h.grounded, .inl ⟨loc, hocc, hfile, fun d hd => ?_⟩⟩
  rw [h.clean] at hd
  cases hd

lemma Accumulating.resolves (hH : H.CollisionFree) (hg : Grounded H s slot)
    (h : Accumulating H s slot below v loc offset base b records) : s.resolveChunkContent loc.chunkId = some v := by
  obtain ⟨size, at_, seq, hrow⟩ := h.accumulates.row
  obtain ⟨delta, htok⟩ := hg.rows _ _ hrow
  have hbase : (s.chunkRing base).or (s.readChunkArc base) = some b := by
    rw [hg.addressed.readChunkArc_eq hH h.file]
    cases hring : s.chunkRing base with
    | none => rfl
    | some c =>
      obtain ⟨o, f, hid⟩ := hg.addressed _ _ (.inl h.file)
      rw [hid] at hring
      rw [hg.addressed.eq_of_entry hH (.inr (.inl hring))]
      rfl
  have hdelta : (s.deltaRing (deltaId H slot offset records)).or (s.readChunkArc (deltaId H slot offset records))
      = some (encodeAccumulator records) := by
    rw [hg.addressed.readChunkArc_eq hH h.accumulates.file]
    cases hring : s.deltaRing (deltaId H slot offset records) with
    | none => rfl
    | some c =>
      rw [hg.addressed.eq_of_entry hH (.inr (.inr (.inl hring)))]
      rfl
  refine resolveChunkContent_of_pending hrow (htok ▸ hg.not_read hH delta) ?_
  unfold composeOnePatch
  rw [hbase, hdelta]
  dsimp only
  rw [parseDeltaRecords_encodeAccumulator h.accumulates.fits]
  dsimp only
  rw [applyDeltaRecords_eq_overlay, h.content]

lemma SlotAt.slotContent (hH : H.CollisionFree) (h : SlotAt H s slot below v) : s.slotContent slot = some v := by
  unfold Node.slotContent
  rcases h.state with ⟨loc, hs⟩ | ⟨loc, offset, base, b, records, ha⟩
  · obtain ⟨o, f, hid⟩ := h.grounded.addressed _ _ (.inl hs.file)
    rw [hs.occupant, bind_some]
    exact resolveChunkContent_of_file (hid ▸ h.grounded.row_none hH) (h.grounded.addressed.readChunkArc_eq hH hs.file)
  rw [ha.occupant, bind_some]
  exact ha.resolves hH h.grounded

/-! ## A request -/

lemma staleUpdate_lt {seq : Nat} {existing : Option Nat} (h : staleUpdate (some seq) existing = true) :
    ∃ current, existing = some current ∧ seq < current := by
  cases existing with
  | none => simp [staleUpdate] at h
  | some current => exact ⟨current, rfl, by simpa [staleUpdate] using h⟩

lemma overlay_patchRecords (b : Bytes) (seq : Nat) (patches : Extents) :
    overlay b (ranges (patchRecords seq patches)) = overlay b patches := by
  have hnone : ∀ r ∈ ([] : List DeltaRecord), r.1 < seq := by simp
  have h := ranges_append_patchRecords hnone patches
  rw [nil_append] at h
  rw [h]
  rfl

section Request

variable {env : HandlerEnv Id} {req : MultiPatch Id} {seq : Nat}

section

variable (hH : H.CollisionFree) (he : env.Alone) (hon : req.On slot seq) (hidx : slot.2 ≠ u64Max)

include hH he hon hidx

lemma Settled.patch (hg : Grounded H s slot) (h : Settled s slot v loc) : SlotAt H (s.handleMultiPatch H env req).1 slot (seq + 1)
      (if (s.handleMultiPatch H env req).2.acked then overlay v req.patches else v) := by
  obtain ⟨-, response, hres, hacked⟩ | ⟨s', response, delta, hres, happ, hfile, hreg⟩ :=
    handleMultiPatch_onBase hH he hon hidx hg h.occupant h.file
  · rw [hres, hacked, if_neg (by simp)]
    exact ⟨hg, .inl ⟨loc, h⟩⟩
  rw [hres]
  obtain ⟨o, f, hid⟩ := hg.addressed _ _ (.inl h.file)
  have hne : H.patchTokenIdentity delta ≠ loc.chunkId := fun heq => hH.separate delta v o f (heq.trans hid)
  obtain ⟨size, at_, hocc⟩ := happ.occupant
  refine ⟨happ.grounded, ?_⟩
  dsimp only
  cases hstale : staleUpdate (some seq) loc.clientWriteSeq with
  | true =>
    -- the chunk map keeps the chunk, and the accumulator stays behind until a fold abandons it
    have hacked : response.acked ≠ true := fun ha => by simpa [hne, hstale] using happ.acked_iff.1 ha
    rw [if_neg hacked]
    rw [if_pos (.inr hstale)] at hocc
    refine .inl ⟨loc, hocc, hfile, fun d hd => ⟨hreg, ?_⟩⟩
    obtain ⟨d', hd', htok, -⟩ := happ.accumulates.dirty
    obtain ⟨delta', size', at', hrow⟩ := happ.row
    obtain ⟨current, hcur, hlt⟩ := staleUpdate_lt hstale
    obtain rfl : d = d' := some.inj (hd.symm.trans hd')
    exact ⟨_, _, _, _, _, _, htok ▸ hrow, hcur, hlt⟩
  | false =>
    rw [if_pos (happ.acked_iff.2 (.inr hstale))]
    rw [if_neg (by simp [hne, hstale])] at hocc
    refine .inr ⟨_, _, _, v, _, hocc, happ.accumulates, hfile, overlay_patchRecords .., fun r hr => ?_, fun current hc => ?_⟩
    · rw [fst_of_mem_patchRecords hr]
      exact Nat.lt_succ_self seq
    · cases hc
      exact Nat.lt_succ_self seq

lemma Accumulating.patch
    (hg : Grounded H s slot) (h : Accumulating H s slot below v loc offset base b records) (hbelow : below ≤ seq)
    (hne : base ≠ deltaId H slot offset records) : SlotAt H (s.handleMultiPatch H env req).1 slot (seq + 1)
      (if (s.handleMultiPatch H env req).2.acked then overlay v req.patches else v) := by
  obtain ⟨o, f, hid⟩ := hg.addressed _ _ (.inl h.file)
  have hlt : ∀ r ∈ records, r.1 < seq := fun r hr => (h.records_lt r hr).trans_le hbelow
  obtain ⟨s', response, hres, hacked, hg', hacc, hfiles, hocc, hnoop⟩ | ⟨s', response, delta, hres, happ, hfiles⟩ :=
    handleMultiPatch_onToken hH he hon hidx hg h.occupant h.accumulates hid
  · rw [hres, hacked, if_pos rfl, ← h.content, overlay_eq_self_of_isNoop hnoop]
    exact ⟨hg', .inr ⟨loc, offset, base, b, records, hocc, hacc, hfiles ▸ h.file, rfl,
      fun r hr => (hlt r hr).trans (Nat.lt_succ_self seq),
      fun current hc => ((h.seq_lt current hc).trans_le hbelow).trans (Nat.lt_succ_self seq)⟩⟩
  have hfresh : staleUpdate (some seq) loc.clientWriteSeq = false := by
    cases hc : loc.clientWriteSeq with
    | none => rfl
    | some current =>
      have := h.seq_lt current hc
      simp only [staleUpdate, decide_eq_false_iff_not]
      omega
  rw [hres, if_pos (happ.acked_iff.2 (.inr hfresh))]
  obtain ⟨size, at_, hocc⟩ := happ.occupant
  have hbase : s'.files base = some b := by
    rw [hfiles, mergedFiles, deltaId]
    exact files_update_of_addressed hH hid ((Function.update_of_ne hne ..).trans h.file)
  have hcontent : overlay b (ranges (records ++ patchRecords seq req.patches)) = overlay v req.patches := by
    rw [ranges_append_patchRecords hlt, overlay_append, h.content]
  have hrecords : ∀ r ∈ records ++ patchRecords seq req.patches, r.1 < seq + 1 := by
    intro r hr
    rcases mem_append.1 hr with hr | hr
    · exact (hlt r hr).trans (Nat.lt_succ_self seq)
    · exact (fst_of_mem_patchRecords hr).trans_lt (Nat.lt_succ_self seq)
  -- an accumulator that kept its identity keeps the occupant as it was
  by_cases htok : H.patchTokenIdentity delta = loc.chunkId
  · rw [if_pos (.inl htok)] at hocc
    exact ⟨happ.grounded, .inr ⟨loc, offset, base, b, _, hocc, htok ▸ happ.accumulates, hbase, hcontent, hrecords,
      fun current hc => ((h.seq_lt current hc).trans_le hbelow).trans (Nat.lt_succ_self seq)⟩⟩
  rw [if_neg (by simp [htok, hfresh])] at hocc
  refine ⟨happ.grounded, .inr ⟨_, offset, base, b, _, hocc, happ.accumulates, hbase, hcontent, hrecords, fun current hc => ?_⟩⟩
  cases hc
  exact Nat.lt_succ_self seq

lemma SlotAt.patch (h : SlotAt H s slot below v) (hbelow : below ≤ seq) (hsafe : (SlotStep.patch env req).Safe H slot s) :
    SlotAt H (s.handleMultiPatch H env req).1 slot (seq + 1)
      (if (s.handleMultiPatch H env req).2.acked then overlay v req.patches else v) := by
  rcases h.state with ⟨loc, hs⟩ | ⟨loc, offset, base, b, records, ha⟩
  · exact hs.patch hH he hon hidx h.grounded
  refine ha.patch hH he hon hidx h.grounded hbelow ?_
  obtain ⟨size, at_, seq, hrow⟩ := ha.accumulates.row
  exact hsafe (base, deltaId H slot offset records) (by rw [ha.occupant, bind_some, hrow]; rfl)

end

end Request

/-! ## A fold -/

section Fold

variable {env : FoldEnv Id}

lemma Settled.fold (hH : H.CollisionFree) (hf : env.NoFault) (hg : Grounded H s slot) (h : Settled s slot v loc)
    (hsafe : (SlotStep.fold env).Safe H slot s) : SlotAt H (s.foldSlotNow H env slot).1 slot below v := by
  unfold foldSlotNow
  cases hd : s.dirtyPatchSlots slot with
  | none => exact ⟨hg, .inl ⟨loc, h⟩⟩
  | some d =>
    obtain ⟨-, base, delta, size, at_, seq, current, hrow, hcur, hlt⟩ := h.refused d hd
    obtain ⟨o, f, hid⟩ := hg.addressed _ _ (.inl h.file)
    obtain ⟨delta₀, htok⟩ := hg.rows _ _ hrow
    have hne : loc.chunkId ≠ d.token := fun heq => hH.separate delta₀ v o f (htok.symm.trans (heq.symm.trans hid))
    have hgen : s.chunkGenerations d.token = none := by
      obtain ⟨-, hocc | hgen⟩ := hsafe d hd (base, delta) (by rw [hrow]; rfl)
      · rw [h.occupant] at hocc
        exact absurd (some.inj hocc) hne
      · exact hgen
    have hgone : s.fileGone env slot.1 at_ = false := by simp [fileGone, hg.present]
    have hsuper : s.slotSuperseded slot d.token (some seq) = true := by
      have hbehind : s.occupantBehind loc d.token (some seq) = false := by
        unfold occupantBehind
        rw [hgen, hcur]
        cases s.chunkGenerations loc.chunkId <;> simp [hlt.le]
      simp [slotSuperseded, h.occupant, hne, hbehind]
    dsimp only
    rw [hrow, hf.2 .readPatchState, if_neg (by simp)]
    dsimp only
    unfold runSingleFold abandonPatch
    rw [hgone, hsuper, hf.2 .deletePatchState, if_neg (by simp), if_pos rfl, if_neg (by simp)]
    refine ⟨⟨hg.addressed, fun id st hst => hg.rows id st (entry_of_drop hst),
      fun id real hst => hg.folded id real (entry_of_drop hst), hg.live, hg.present⟩,
      .inl ⟨loc, h.occupant, h.file, fun d' hd' => ?_⟩⟩
    simp [recordFoldFailure] at hd'

omit [DecidableEq Id] in
lemma Accumulates.recordFoldFailure {token : Id} (h : Accumulates H s slot offset token base b records) :
    Accumulates H (s.recordFoldFailure slot) slot offset token base b records := by
  obtain ⟨d, hd, ht, hv, hl, hh, hring⟩ := h.dirty
  refine ⟨h.row, h.file, ⟨{ d with foldFailures := d.foldFailures + 1 }, ?_, ht, hv, hl, hh, hring⟩, h.fits⟩
  simp [Node.recordFoldFailure, hd]

lemma Accumulating.fold (hH : H.CollisionFree) (hf : env.NoFault) (hidx : slot.2 ≠ u64Max) (hg : Grounded H s slot)
    (h : Accumulating H s slot below v loc offset base b records) (hsafe : (SlotStep.fold env).Safe H slot s) :
    SlotAt H (s.foldSlotNow H env slot).1 slot below v := by
  obtain ⟨d, hd, htok, -⟩ := h.accumulates.dirty
  obtain ⟨size, at_, seq, hrow⟩ := h.accumulates.row
  have hne : H.computeChunkHashAt v (slot.2 * chunkSize) slot.1 ≠ deltaId H slot offset records := by
    obtain ⟨hne, -⟩ := hsafe d hd (base, deltaId H slot offset records) (by rw [htok, hrow]; rfl)
    rw [htok, h.resolves hH hg] at hne
    exact fun heq => hne (congrArg some heq)
  rcases foldSlotNow_accumulates hH hf hidx hg h.occupant h.accumulates h.file (h.content ▸ hne) with
    hfail | ⟨hg', hclean, loc', hocc, hfile⟩
  · rw [hfail]
    exact ⟨hg.congr hg.addressed rfl rfl rfl, .inr ⟨loc, offset, base, b, records, h.occupant,
      h.accumulates.recordFoldFailure, h.file, h.content, h.records_lt, h.seq_lt⟩⟩
  refine ⟨hg', .inl ⟨loc', hocc, h.content ▸ hfile, fun d' hd' => ?_⟩⟩
  rw [hclean] at hd'
  cases hd'

lemma SlotAt.fold (hH : H.CollisionFree) (hf : env.NoFault) (hidx : slot.2 ≠ u64Max) (h : SlotAt H s slot below v)
    (hsafe : (SlotStep.fold env).Safe H slot s) : SlotAt H (s.foldSlotNow H env slot).1 slot below v := by
  rcases h.state with ⟨loc, hs⟩ | ⟨loc, offset, base, b, records, ha⟩
  · exact hs.fold hH hf h.grounded hsafe
  · exact ha.fold hH hf hidx h.grounded hsafe

end Fold

omit [DecidableEq Id] in
lemma SlotAt.recache (h : SlotAt H s slot below v) (c : CacheChange Id) : SlotAt H (s.recache c) slot below v := by
  refine ⟨h.grounded.congr (h.grounded.addressed.recache c) rfl rfl rfl, ?_⟩
  rcases h.state with ⟨loc, hs⟩ | ⟨loc, offset, base, b, records, ha⟩
  · exact .inl ⟨loc, hs.occupant, hs.file, hs.refused⟩
  exact .inr ⟨loc, offset, base, b, records, ha.occupant, ha.accumulates.recache c, ha.file, ha.content, ha.records_lt, ha.seq_lt⟩

/-! ## A run -/

variable {st : Node Id × Extents}

lemma slotAt_run (hH : H.CollisionFree) (hidx : slot.2 ≠ u64Max) {step : SlotStep Id}
    (h : SlotAt H st.1 slot below (overlay b st.2)) (hon : step.On slot) (hbelow : ∀ seq, step.seq = some seq → below ≤ seq)
    (hsafe : step.Safe H slot st.1) :
    SlotAt H (step.run H slot st).1 slot ((step.seq.map (· + 1)).getD below) (overlay b (step.run H slot st).2) := by
  cases step with
  | patch env req =>
    obtain ⟨he, seq, hreq⟩ := hon
    have hstep := h.patch hH he hreq hidx (hbelow seq hreq.seq_eq) hsafe
    simp only [SlotStep.run, SlotStep.seq, hreq.seq_eq, map_some, getD_some]
    cases hacked : (st.1.handleMultiPatch H env req).2.acked with
    | true =>
      rw [hacked, if_pos rfl] at hstep
      rw [if_pos rfl, overlay_append]
      exact hstep
    | false =>
      rw [hacked, if_neg (by simp)] at hstep
      rw [if_neg (by simp)]
      exact hstep
  | fold env => exact h.fold hH hon hidx hsafe
  | recache c => exact h.recache c

lemma slotAt_runSteps (hH : H.CollisionFree) (hidx : slot.2 ≠ u64Max) {steps : List (SlotStep Id)}
    (h : SlotAt H st.1 slot below (overlay b st.2)) (hon : ∀ step ∈ steps, step.On slot)
    (hinc : (steps.filterMap SlotStep.seq).Pairwise (· < ·)) (hbelow : ∀ seq ∈ steps.filterMap SlotStep.seq, below ≤ seq)
    (hsafe : StepsSafe H slot st steps) (k : Nat) : ∃ bound, SlotAt H (runSteps H slot st (steps.take k)).1 slot bound
      (overlay b (runSteps H slot st (steps.take k)).2) := by
  induction steps generalizing st below k with
  | nil => exact ⟨below, by simpa [runSteps] using h⟩
  | cons step steps ih =>
    cases k with
    | zero => exact ⟨below, by simpa [runSteps] using h⟩
    | succ k =>
      have hstep := slotAt_run hH hidx h (hon step (by simp)) (fun seq hseq => hbelow seq (by simp [hseq])) hsafe.1
      refine ih hstep (fun step' hmem => hon step' (by simp [hmem])) ?_ ?_ hsafe.2 k
      · cases hseq : step.seq with
        | none => simpa [filterMap_cons, hseq] using hinc
        | some seq =>
          rw [filterMap_cons, hseq] at hinc
          exact (pairwise_cons.1 hinc).2
      · intro seq' hmem
        cases hseq : step.seq with
        | none => exact hbelow seq' (by simpa [filterMap_cons, hseq] using hmem)
        | some seq =>
          rw [filterMap_cons, hseq] at hinc
          exact (pairwise_cons.1 hinc).1 seq' hmem

def foldedRun : List (SlotStep FreeId) :=
  [.patch (.quiet 1) (rangePatch (.content [0] 0 7) 0 [1] 1), .fold (.quiet 1),
    .patch (.quiet 1) (rangePatch (.content [0] 0 7) 1 [2] 2)]

/-- One byte at offset 28 with write sequence 1, all of it but the byte. -/
def accumulatorHead : Bytes := (encodeAccumulator [(1, 28, [9])]).take 28

end Dfs
