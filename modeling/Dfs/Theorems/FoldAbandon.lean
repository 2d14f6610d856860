import Dfs.Lemmas.FoldEffect

/-! # What a fold abandons -/

namespace Dfs

open Overlay

variable {Id : Type}

def SlotStep.isFold : SlotStep Id → Bool
  | .fold _ => true
  | _ => false

def Reflects (content : Option Bytes) (records : Extents) : Prop := ∃ v ∈ content, overlay v records = v

variable [DecidableEq Id]

def Node.supersededRecords (s : Node Id) (env : FoldEnv Id) (slot : Slot) : Option Extents :=
  match s.dirtyPatchSlots slot with
  | none => none
  | some d =>
    match s.patchState d.token with
    | some (.pending _ delta _ writtenAt seq) =>
      if !s.fileGone env slot.1 writtenAt && s.slotSuperseded slot d.token seq then
        (s.readChunkArc delta).bind (fun bytes => (parseDeltaRecords bytes).toOption)
      else none
    | _ => none

/-- What a fold abandons as superseded is in the occupant's content. -/
def AbandonsOnlyReflected (H : ChunkHash Id) (env : FoldEnv Id) (s : Node Id) (slot : Slot) : Prop :=
  ∀ records ∈ s.supersededRecords env slot, Reflects ((s.foldSlotNow H env slot).1.slotContent slot) records

/-- Its write sequence is not below the occupant's. -/
def SlotStep.NotRefused (slot : Slot) (s : Node Id) : SlotStep Id → Prop
  | .patch _ req => ∀ loc ∈ s.occupant slot, staleUpdate req.clientWriteSeq loc.clientWriteSeq = false
  | _ => True

instance (slot : Slot) (s : Node Id) : (step : SlotStep Id) → Decidable (step.NotRefused slot s)
  | .patch _ req =>
    inferInstanceAs (Decidable (∀ loc ∈ s.occupant slot, staleUpdate req.clientWriteSeq loc.clientWriteSeq = false))
  | .fold _ => isTrue trivial
  | .recache _ => isTrue trivial

def NeverRefused (H : ChunkHash Id) (slot : Slot) : Node Id × Extents → List (SlotStep Id) → Prop
  | _, [] => True
  | st, step :: steps => step.NotRefused slot st.1 ∧ NeverRefused H slot (step.run H slot st) steps

/-! ## The accumulator stays the occupant's -/

/-- On a chunk without an accumulator, or on its accumulator's token. -/
structure Tracked (H : ChunkHash Id) (s : Node Id) (slot : Slot) : Prop where
  grounded : Grounded H s slot
  state : (∃ loc v, s.occupant slot = some loc ∧ s.files loc.chunkId = some v ∧ s.dirtyPatchSlots slot = none) ∨
    ∃ loc offset base b o f records, s.occupant slot = some loc ∧ base = H.computeChunkHashAt b o f ∧
      Accumulates H s slot offset loc.chunkId base b records

variable {H : ChunkHash Id} {s : Node Id} {slot : Slot} {b : Bytes} {loc : ChunkLocation Id}

lemma Tracked.supersededRecords (h : Tracked H s slot) (env : FoldEnv Id) : s.supersededRecords env slot = none := by
  unfold Node.supersededRecords
  rcases h.state with ⟨_, _, -, -, hclean⟩ | ⟨loc, offset, base, b, o, f, records, hocc, -, hacc⟩
  · rw [hclean]
  obtain ⟨d, hd, htok, -⟩ := hacc.dirty
  obtain ⟨size, at_, seq, hrow⟩ := hacc.row
  have hcurrent : s.slotSuperseded slot loc.chunkId seq = false := by simp [Node.slotSuperseded, hocc]
  simp [hd, htok, hrow, hcurrent]

lemma Appended.tracked {seq offset : Nat} {token base : Id} {o : Nat} {f : FileId} {records : List DeltaRecord}
    {s' : Node Id} {acked : Bool} (h : Appended H slot loc seq offset token base b records s' acked)
    (hb : base = H.computeChunkHashAt b o f) (hfresh : staleUpdate (some seq) loc.clientWriteSeq = false) :
    Tracked H s' slot := by
  obtain ⟨size, at_, hocc⟩ := h.occupant
  refine ⟨h.grounded, .inr ?_⟩
  by_cases htok : token = loc.chunkId
  · rw [if_pos (Or.inl htok)] at hocc
    exact ⟨loc, offset, base, b, o, f, records, hocc, hb, htok ▸ h.accumulates⟩
  rw [if_neg (by simp [htok, hfresh])] at hocc
  exact ⟨_, offset, base, b, o, f, records, hocc, hb, h.accumulates⟩

lemma Tracked.patch (hH : H.CollisionFree) (hidx : slot.2 ≠ u64Max) (h : Tracked H s slot) {env : HandlerEnv Id}
    (he : env.Alone) {req : MultiPatch Id} {seq : Nat} (hon : req.On slot seq)
    (hnot : (SlotStep.patch env req).NotRefused slot s) : Tracked H (s.handleMultiPatch H env req).1 slot := by
  have hfresh : ∀ loc, s.occupant slot = some loc → staleUpdate (some seq) loc.clientWriteSeq = false := by
    intro loc hocc
    rw [← hon.seq_eq]
    exact hnot loc hocc
  rcases h.state with ⟨loc, v, hocc, hfile, hclean⟩ | ⟨loc, offset, base, b, o, f, records, hocc, hb, hacc⟩
  · obtain ⟨o, f, hid⟩ := h.grounded.addressed _ _ (Or.inl hfile)
    obtain ⟨-, response, hres, -⟩ | ⟨s', response, delta, hres, happ, -⟩ :=
      handleMultiPatch_onBase hH he hon hidx h.grounded hocc hfile
    · rw [hres]
      exact h
    rw [hres]
    exact happ.tracked hid (hfresh loc hocc)
  obtain ⟨s', response, hres, -, hg, hacc', -, hocc', -⟩ | ⟨s', response, delta, hres, happ, -⟩ :=
    handleMultiPatch_onToken hH he hon hidx h.grounded hocc hacc hb
  · rw [hres]
    exact ⟨hg, .inr ⟨loc, offset, base, b, o, f, records, hocc', hb, hacc'⟩⟩
  rw [hres]
  exact happ.tracked hb (hfresh loc hocc)

omit [DecidableEq Id] in
lemma Tracked.recache (h : Tracked H s slot) (c : CacheChange Id) : Tracked H (s.recache c) slot := by
  refine ⟨h.grounded.congr (h.grounded.addressed.recache c) rfl rfl rfl, ?_⟩
  rcases h.state with ⟨loc, v, hocc, hfile, hclean⟩ | ⟨loc, offset, base, b, o, f, records, hocc, hb, hacc⟩
  · exact .inl ⟨loc, v, hocc, hfile, hclean⟩
  · exact .inr ⟨loc, offset, base, b, o, f, records, hocc, hb, hacc.recache c⟩

omit [DecidableEq Id] in
lemma OnBase.tracked (h : OnBase H s slot b) : Tracked H s slot := by
  obtain ⟨loc, hocc, hfile⟩ := h.occupant
  exact ⟨h.grounded, .inl ⟨loc, b, hocc, hfile, h.clean⟩⟩

lemma tracked_runSteps (hH : H.CollisionFree) (hidx : slot.2 ≠ u64Max) {steps : List (SlotStep Id)}
    {st : Node Id × Extents} (h : Tracked H st.1 slot) (hon : ∀ step ∈ steps, step.On slot)
    (hreq : ∀ step ∈ steps, step.isFold = false) (hnot : NeverRefused H slot st steps) :
    Tracked H (runSteps H slot st steps).1 slot := by
  induction steps generalizing st with
  | nil => exact h
  | cons step steps ih =>
    have hstep : Tracked H (step.run H slot st).1 slot := by
      cases step with
      | patch env req =>
        obtain ⟨he, seq, hreq⟩ := hon _ List.mem_cons_self
        exact h.patch hH hidx he hreq hnot.1
      | fold env => exact absurd (hreq _ List.mem_cons_self) (by simp [SlotStep.isFold])
      | recache c => exact h.recache c
    exact ih hstep (fun step' hmem => hon step' (by simp [hmem])) (fun step' hmem => hreq step' (by simp [hmem])) hnot.2

def orderedPatches : List (SlotStep FreeId) :=
  [.patch (.quiet 1) (rangePatch (.content [0] 0 7) 0 [1] 3), .patch (.quiet 1) (rangePatch (.content [0] 0 7) 0 [2] 5)]

/-- After an acknowledged request with write sequence 5 and a refused one with 3. -/
def refusedRun : Node FreeId × Extents :=
  runSteps freeHash (7, 0) (Node.holding freeHash (7, 0) [0] 1 none, [])
    [.patch (.quiet 1) (rangePatch (.content [0] 0 7) 0 [1] 5), .patch (.quiet 1) (rangePatch (.content [0] 0 7) 0 [2] 3)]

end Dfs
