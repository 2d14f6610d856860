import Dfs.Abandon
import Dfs.ChunkMap

/-! # Abandoning a patch does not revert the slot -/

namespace Dfs

open Transition AbandonCall AbandonPhase

variable {Id : Type} [DecidableEq Id]

structure AbandonCall.Spares (call : AbandonCall Id) (phase : AbandonPhase Id) (before after : Node Id) : Prop where
  occupant : (∀ loc ∈ before.occupant call.slot, loc.chunkId ≠ call.publicToken) →
    after.occupant call.slot = before.occupant call.slot
  /-- Nothing of the patch goes before the decision. -/
  patch : phase.abandoning = false → after.dirtyPatchSlots = before.dirtyPatchSlots ∧
    after.patchState = before.patchState ∧ after.patchStateSlot = before.patchStateSlot

/-- The occupant in the first node, the patch's generation in the second, the occupant's in the third. -/
def ReadAsSuperseded (slot : Slot) (token : Id) (patchSeq : Option Nat) (first second third : Node Id) : Prop :=
  ∃ loc, first.occupant slot = some loc ∧ loc.chunkId ≠ token ∧
    occupantIsCausallyBehind (third.chunkGenerations loc.chunkId) (second.chunkGenerations token) loc.clientWriteSeq patchSeq =
      false

variable {H : ChunkHash Id} {env : FoldEnv Id}

/-! ## A step of a call -/

lemma restoreTo_of_ne {s : Node Id} {slot : Slot} {token : Id} (prior : Id) (priorLoc : ChunkLocation Id)
    (h : ∀ loc ∈ s.occupant slot, loc.chunkId ≠ token) : s.restoreTo env slot token prior priorLoc = s := by
  unfold Node.restoreTo
  cases hmap : s.chunkMap slot.1 with
  | none => rfl
  | some entry =>
    obtain ⟨locs, w⟩ := entry
    cases hfind : slotPosition locs slot.2 with
    | none => simp [hfind]
    | some pos =>
      have hocc : s.occupant slot = locs[pos]? := by simp [Node.occupant, hmap, hfind]
      have hid : (locs[pos]?).map (·.chunkId) ≠ some token := by
        intro hid
        obtain ⟨loc, hloc, htoken⟩ := Option.map_eq_some_iff.mp hid
        exact h loc (hocc.trans hloc) htoken
      simp [hfind, hid]

variable {phase : AbandonPhase Id}

omit [DecidableEq Id] in
lemma AbandonCall.Spares.of_eq {call : AbandonCall Id} {s s' : Node Id}
    (hmap : s'.chunkMap = s.chunkMap) (hdirty : s'.dirtyPatchSlots = s.dirtyPatchSlots) (hrows : s'.patchState = s.patchState)
    (hslots : s'.patchStateSlot = s.patchStateSlot) : call.Spares phase s s' :=
  ⟨fun _ => occupant_congr hmap call.slot, fun _ => ⟨hdirty, hrows, hslots⟩⟩

omit [DecidableEq Id] in
lemma AbandonCall.Spares.of_abandoning {call : AbandonCall Id} {s s' : Node Id}
    (hphase : phase.abandoning = true) (hmap : s'.chunkMap = s.chunkMap) : call.Spares phase s s' :=
  ⟨fun _ => occupant_congr hmap call.slot, fun h => absurd (hphase.symm.trans h) Bool.noConfusion⟩

variable (call : AbandonCall Id)

lemma spares_pullChunkFromPeers (phase : AbandonPhase Id) (s : Node Id) (id : Id)
    (nodes : List NodeId) (file : FileId) (offset : Nat) :
    call.Spares phase s (s.pullChunkFromPeers H env.toPatchEnv id nodes file offset).1 := by
  unfold Node.pullChunkFromPeers
  dsimp only
  split
  · exact .of_eq rfl rfl rfl rfl
  · exact .of_eq rfl rfl rfl rfl

variable (s : Node Id)

lemma spares_next (phase : AbandonPhase Id) : call.Spares phase s (call.next H env s phase).1 := by
  have hsame (phase : AbandonPhase Id) : call.Spares phase s s := .of_eq rfl rfl rfl rfl
  unfold AbandonCall.next
  split
  case h_1 missing isBase _ =>
    split
    · exact spares_pullChunkFromPeers call _ s missing _ _ _
    · exact hsame _
  case h_3 => split <;> exact hsame _
  case h_4 => split <;> exact hsame _
  case h_5 prior priorLoc _ =>
    exact ⟨fun h => by rw [restoreTo_of_ne prior priorLoc h], fun h => absurd h (by simp [abandoning])⟩
  case h_7 => split <;> exact hsame _
  case h_10 => exact .of_abandoning rfl rfl
  case h_11 => exact .of_abandoning rfl (by split <;> rfl)
  all_goals exact hsame _

lemma abandoning_next (h : phase.abandoning = true) : (call.next H env s phase).2.abandoning = true := by
  unfold AbandonCall.next
  split
  case h_3 => split <;> [rfl; (split <;> rfl)]
  case h_4 => split <;> rfl
  case h_13 => exact h
  all_goals first | rfl | exact absurd h (by simp [abandoning])

lemma next_finished (abandoned : Bool) : (call.next H env s (.finished abandoned)).2 = .finished abandoned := by
  cases hreason : call.reason <;> simp [AbandonCall.next, hreason]

/-! ## The decision of a superseded call -/

lemma run_abandoning (acts : List (Option (Node Id))) (h : phase.abandoning = true) :
    (run (call.step H env) (s, phase) acts).2.abandoning = true := by
  have hstep : ∀ (st : Node Id × AbandonPhase Id) (others : Option (Node Id)), st.2.abandoning = true → True →
      (call.step H env st others).2.abandoning = true := fun st others h _ => abandoning_next call _ h
  exact invariant_run hstep h (meets_of_forall fun _ _ _ => trivial)

lemma run_finished (abandoned : Bool) (acts : List (Option (Node Id))) :
    (run (call.step H env) (s, .finished abandoned) acts).2 = .finished abandoned := by
  have hstep : ∀ (st : Node Id × AbandonPhase Id) (others : Option (Node Id)), st.2 = .finished abandoned → True →
      (call.step H env st others).2 = .finished abandoned := by
    intro st others h _
    rw [step, h]
    exact next_finished call _ abandoned
  exact invariant_run hstep rfl (meets_of_forall fun _ _ _ => trivial)

section Superseded

variable (H env) (slot : Slot) (token : Id) (patchSeq : Option Nat) (s : Node Id)

/-- The first step reads the occupant and the second the patch's generation; the third decides. -/
theorem run_superseded_iff (acts : List (Option (Node Id))) :
    (run (step H env ⟨slot, token, .slotSuperseded patchSeq⟩) (s, .started) acts).2.abandoning = true ↔
      ∃ first second third rest, acts = first :: second :: third :: rest ∧
        ReadAsSuperseded slot token patchSeq (first.getD s) (second.getD (first.getD s))
          (third.getD (second.getD (first.getD s))) := by
  have hstop (t : Node Id) (rest : List (Option (Node Id))) :
      (run (step H env ⟨slot, token, .slotSuperseded patchSeq⟩) (t, .finished false) rest).2.abandoning = false := by
    rw [run_finished]
    rfl
  have hgo (t : Node Id) (rest : List (Option (Node Id))) :
      (run (step H env ⟨slot, token, .slotSuperseded patchSeq⟩) (t, .condemned) rest).2.abandoning = true :=
    run_abandoning _ t rest rfl
  have hcons (st : Node Id × AbandonPhase Id) (others : Option (Node Id)) (rest : List (Option (Node Id))) :
      run (step H env ⟨slot, token, .slotSuperseded patchSeq⟩) st (others :: rest) =
        run (step H env ⟨slot, token, .slotSuperseded patchSeq⟩)
          (AbandonCall.next H env ⟨slot, token, .slotSuperseded patchSeq⟩ (others.getD st.1) st.2) rest := rfl
  rcases acts with - | ⟨first, acts⟩
  · simp [run, abandoning]
  cases hocc : (first.getD s).occupant slot with
  | none => simp [hcons, AbandonCall.next, hocc, hstop, ReadAsSuperseded]
  | some loc =>
    by_cases hid : loc.chunkId = token
    · simp [hcons, AbandonCall.next, hocc, hid, hstop, ReadAsSuperseded]
    rcases acts with - | ⟨second, - | ⟨third, rest⟩⟩
    · simp [run, step, AbandonCall.next, hocc, hid, abandoning]
    · simp [run, step, AbandonCall.next, hocc, hid, abandoning]
    cases hbehind : occupantIsCausallyBehind ((third.getD (second.getD (first.getD s))).chunkGenerations loc.chunkId)
      ((second.getD (first.getD s)).chunkGenerations token) loc.clientWriteSeq patchSeq with
    | true => simp [hcons, AbandonCall.next, hocc, hid, hbehind, hstop, ReadAsSuperseded]
    | false => simp [hcons, AbandonCall.next, hocc, hid, hbehind, hgo, ReadAsSuperseded]

end Superseded

/-! ## Whole calls -/

/-- No step reverts progress, and a patch is abandoned as superseded exactly if the slot is on another chunk that is
not behind it by the clock that decides. -/
theorem abandon_keeps_progress (H : ChunkHash Id) (env : FoldEnv Id) (slot : Slot) (token : Id) (s : Node Id)
    (acts : List (Option (Node Id))) : (∀ reason, Transition.Meets (AbandonCall.step H env ⟨slot, token, reason⟩)
      (fun st others => AbandonCall.Spares ⟨slot, token, reason⟩ st.2 (others.getD st.1)
        (AbandonCall.step H env ⟨slot, token, reason⟩ st others).1) (s, .started) acts) ∧
      ∀ patchSeq,
        ((Transition.run (AbandonCall.step H env ⟨slot, token, .slotSuperseded patchSeq⟩) (s, .started) acts).2.abandoning =
          true ↔
          ∃ first second third rest, acts = first :: second :: third :: rest ∧
            ReadAsSuperseded slot token patchSeq (first.getD s) (second.getD (first.getD s))
              (third.getD (second.getD (first.getD s)))) := by
  refine ⟨fun reason => ?_, fun patchSeq => run_superseded_iff H env slot token patchSeq s acts⟩
  exact meets_of_forall fun others _ st => spares_next _ (others.getD st.1) st.2

/-- A slot on a chunk, and a Pending patch of it with write sequence 5 under another chunk's token. -/
def contestedNode (seq : Option Nat) (generations : FreeId → Option Nat) : Node FreeId :=
  { Node.holding freeHash (7, 0) [0] 1 seq with
    patchState := fun id => if id = .token (.content [1] 0 7) then
      some (.pending (.content [0] 0 7) (.content [1] 0 7) 1 0 (some 5)) else none
    chunkGenerations := generations }

def contestedCall (s : Node FreeId) : Node FreeId × AbandonPhase FreeId :=
  AbandonCall.uninterrupted freeHash (.quiet 1) ⟨(7, 0), .token (.content [1] 0 7), .slotSuperseded (some 5)⟩ s

def aheadGenerations (id : FreeId) : Option Nat := if id = .content [0] 0 7 then some 9 else some 7

/-- Nothing orders patch and occupant; or it is behind by write sequence, 3, but ahead by generation. -/
theorem superseded_without_order :
    let unordered := contestedNode none fun _ => none
    let behind := contestedNode (some 3) aheadGenerations
    unordered.patchState (.token (.content [1] 0 7)) = some (.pending (.content [0] 0 7) (.content [1] 0 7) 1 0 (some 5)) ∧
      (unordered.occupant (7, 0)).map (fun loc => (loc.chunkId, loc.clientWriteSeq)) = some (.content [0] 0 7, none) ∧
      (contestedCall unordered).2.abandoning = true ∧
      (contestedCall unordered).1.patchState (.token (.content [1] 0 7)) = none ∧
      (behind.occupant (7, 0)).map (fun loc => (loc.chunkId, loc.clientWriteSeq)) = some (.content [0] 0 7, some 3) ∧
      (contestedCall behind).2.abandoning = true ∧ (contestedCall behind).1.patchState (.token (.content [1] 0 7)) = none := by
  decide +kernel

end Dfs
