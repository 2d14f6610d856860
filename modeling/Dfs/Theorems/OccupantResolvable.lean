import Dfs.Lemmas.PatchEffect

/-! # The occupant of a slot stays resolvable -/

namespace Dfs

open Node

variable {Id : Type}

def Node.SlotResolvable (s : Node Id) (slot : Slot) : Prop :=
  ∃ loc, s.occupant slot = some loc ∧ s.Resolvable loc.chunkId

instance (s : Node Id) (slot : Slot) : Decidable (s.SlotResolvable slot) :=
  decidable_of_iff (∃ loc ∈ s.occupant slot, s.Resolvable loc.chunkId) Iff.rfl

variable {s' : Node Id} {prior delta base token old : Id}

lemma SlotResolvable.of_kept {s : Node Id} (h : Kept s s') {slot : Slot} (hs : s.SlotResolvable slot) :
    s'.SlotResolvable slot := by
  obtain ⟨loc, hocc, hres⟩ := hs
  exact ⟨loc, (h.occupant slot).trans hocc, h.resolvable hres⟩

lemma slotResolvable_congr {s : Node Id} (hf : s'.files = s.files) (hr : s'.patchState = s.patchState)
    (hm : s'.chunkMap = s.chunkMap) (slot : Slot) : s'.SlotResolvable slot ↔ s.SlotResolvable slot := by
  unfold SlotResolvable Resolvable occupant hasChunk
  rw [hf, hr, hm]

lemma slotResolvable_iff_of_occupant {s : Node Id} {slot : Slot} {id : Id}
    (h : (s.occupant slot).map (·.chunkId) = some id) : s.SlotResolvable slot ↔ s.Resolvable id := by
  obtain ⟨loc, hocc, rfl⟩ := Option.map_eq_some_iff.1 h
  constructor
  · rintro ⟨loc', hocc', hres⟩
    rw [hocc] at hocc'
    cases hocc'
    exact hres
  · exact fun hres => ⟨loc, hocc, hres⟩

variable [DecidableEq Id]

lemma Renamed.hasChunk_iff {s : Node Id} (h : Renamed s prior delta s') (id : Id) :
    s'.hasChunk id = true ↔ id = delta ∨ id ≠ prior ∧ s.hasChunk id = true := by
  obtain ⟨content, hf⟩ := h.files
  rw [hasChunk, hf, Function.update_apply, Function.update_apply]
  by_cases hd : id = delta
  · simp [hd]
  by_cases hp : id = prior
  · simp [hp]
  · simp [hd, hp, hasChunk]

lemma Renamed.kept {s : Node Id} (h : Renamed s prior prior s') : Kept s s' := by
  refine ⟨fun id hid => (h.hasChunk_iff id).2 ?_, h.rows, h.slots, h.map⟩
  by_cases hp : id = prior
  · exact .inl hp
  · exact .inr ⟨hp, hid⟩

variable {loc : ChunkLocation Id} {seq : Option Nat}

lemma Committed.hasChunk {s : Node Id} {slot : Slot} (h : Committed s slot loc base delta token old seq s') (id : Id) :
    s'.hasChunk id = s.hasChunk id := by
  rw [Node.hasChunk, Node.hasChunk, h.files]

lemma Committed.resolvable_token {s : Node Id} {slot : Slot} (h : Committed s slot loc base delta token old seq s')
    (hb : s.hasChunk base = true) (hd : s.hasChunk delta = true) : s'.Resolvable token := by
  obtain ⟨size, at_, hrow⟩ := h.row
  exact .inr ⟨base, delta, size, at_, seq, hrow, by rw [h.hasChunk, hb], by rw [h.hasChunk, hd]⟩

lemma Committed.resolvable_other {s : Node Id} {slot : Slot} {id : Id} (h : Committed s slot loc base delta token old seq s')
    (hne : id ≠ token) (hslot : s.patchStateSlot slot ≠ some id) (hres : s.Resolvable id) : s'.Resolvable id := by
  have hrow : s'.patchState id = s.patchState id := by rw [h.others id hne, retireRow_apply, if_neg hslot]
  unfold Resolvable
  simp only [h.hasChunk, hrow]
  exact hres

/-! ## When a call of `apply_patch` keeps the occupant resolvable -/

variable (H : ChunkHash Id)

/-- Onto a `Pending` row: elided, stopped before the rename, the identity kept, or nothing fails up to the commit, the
write sequence is not refused, and the base is on disk and not renamed. A new accumulator: on the occupant, or the
occupant does not need the row retired, or no refusal. -/
def CallSafe (env : PatchEnv Id) (s : Node Id) (slot : Slot) (call : PatchCall Id) : Prop :=
  ∀ loc, s.occupant slot = some loc → s.fileRecentlyDeleted slot.1 = false →
    match s.patchState call.chunkId with
    | some (.pending base prior _ _ _) =>
      ∀ delta, s.renamesTo H env slot call base prior = some delta →
        (delta = prior ∧ call.chunkId = loc.chunkId ∧ H.patchTokenIdentity prior = loc.chunkId) ∨
        (env.stopsCommit = false ∧ staleUpdate call.clientWriteSeq loc.clientWriteSeq = false ∧ s.hasChunk base = true ∧
          (base ≠ prior ∨ base = delta) ∧ (call.chunkId = loc.chunkId ∨ H.patchTokenIdentity delta ≠ call.chunkId))
    | _ =>
      s.freshBaseId call.chunkId = loc.chunkId ∨ s.hasChunk loc.chunkId = true ∨
        s.patchStateSlot slot ≠ some loc.chunkId ∨
        (staleUpdate call.clientWriteSeq loc.clientWriteSeq = false ∧
          H.patchTokenIdentity (freshDelta H slot call) ≠ s.freshBaseId call.chunkId)

open SlotResolvable

section Call

variable {H : ChunkHash Id} {env : PatchEnv Id} {s : Node Id} {slot : Slot} {call : PatchCall Id} {size at_ : Nat}

lemma patchSlot_merge_resolvable (hidx : slot.2 ≠ u64Max) (hocc : s.occupant slot = some loc)
    (hres : s.Resolvable loc.chunkId) (hrow : s.patchState call.chunkId = some (.pending base prior size at_ seq))
    (hsafe : CallSafe H env s slot call) (hlive : s.fileRecentlyDeleted slot.1 = false) :
    (s.patchSlot H env slot call).1.SlotResolvable slot := by
  have heff := patchSlot_merge_effect H env hocc hidx hrow
  have hsafe' := hsafe loc hocc hlive
  rw [hrow] at hsafe'
  dsimp only at hsafe'
  cases hren : s.renamesTo H env slot call base prior with
  | none =>
    rw [hren] at heff
    exact of_kept heff ⟨loc, hocc, hres⟩
  | some delta =>
    rw [hren] at heff
    dsimp only at heff
    rcases hsafe' delta hren with ⟨rfl, hcall, htok⟩ | ⟨hstop, hstale, hb, hbase, hcall⟩
    · split at heff
      · exact of_kept heff.kept ⟨loc, hocc, hres⟩
      obtain ⟨s₁, hs₁, hcom⟩ := heff
      have hocc' := hcom.occupant
      rw [if_pos (.inl (htok.trans hcall.symm))] at hocc'
      rw [slotResolvable_iff_of_occupant hocc']
      rcases hres with hres | ⟨b, d, _, _, _, hrow', hb, hd⟩
      · exact .inl (by rw [hcom.hasChunk]; exact hs₁.kept.files _ hres)
      rw [← hcall, hrow] at hrow'
      cases hrow'
      rw [← htok]
      exact hcom.resolvable_token (hs₁.kept.files _ hb) (hs₁.kept.files _ hd)
    · rw [hstop, if_neg (by simp)] at heff
      obtain ⟨s₁, hs₁, hcom⟩ := heff
      have htoken : (s.patchSlot H env slot call).1.Resolvable (H.patchTokenIdentity delta) := by
        refine hcom.resolvable_token ((hs₁.hasChunk_iff _).2 ?_) ((hs₁.hasChunk_iff _).2 (.inl rfl))
        rcases hbase with hbase | hbase
        · exact .inr ⟨hbase, hb⟩
        · exact .inl hbase
      rw [slotResolvable_iff_of_occupant hcom.occupant]
      split
      · rename_i hkeep
        rcases hkeep with hkeep | hkeep
        · rcases hcall with hcall | hcall
          · rw [← hcall, ← hkeep]
            exact htoken
          · exact absurd hkeep hcall
        rw [hstale] at hkeep
        cases hkeep
      · exact htoken

lemma patchSlot_fresh_resolvable (hidx : slot.2 ≠ u64Max) (hocc : s.occupant slot = some loc)
    (hres : s.Resolvable loc.chunkId) (hrow : NotPending (s.patchState call.chunkId))
    (hsafe : s.freshBaseId call.chunkId = loc.chunkId ∨ s.hasChunk loc.chunkId = true ∨
      s.patchStateSlot slot ≠ some loc.chunkId ∨ (staleUpdate call.clientWriteSeq loc.clientWriteSeq = false ∧
        H.patchTokenIdentity (freshDelta H slot call) ≠ s.freshBaseId call.chunkId)) :
    (s.patchSlot H env slot call).1.SlotResolvable slot := by
  rcases patchSlot_fresh_effect H env hocc hidx hrow with hkept | ⟨s₁, hkept, hb, hd, hcom⟩
  · exact of_kept hkept ⟨loc, hocc, hres⟩
  rw [slotResolvable_iff_of_occupant hcom.occupant]
  split
  · rename_i hkeep
    rcases hsafe with hsafe | hsafe | hsafe | ⟨hstale, hne⟩
    · exact .inl (by rw [hcom.hasChunk, ← hsafe]; exact hb)
    · exact .inl (by rw [hcom.hasChunk]; exact hkept.files _ hsafe)
    · by_cases htok : loc.chunkId = H.patchTokenIdentity (freshDelta H slot call)
      · rw [htok]
        exact hcom.resolvable_token hb hd
      exact hcom.resolvable_other htok (hkept.slots ▸ hsafe) (hkept.resolvable hres)
    · rcases hkeep with hkeep | hkeep
      · exact absurd hkeep hne
      rw [hstale] at hkeep
      cases hkeep
  · exact hcom.resolvable_token hb hd

lemma applyPatch_resolvable (hidx : slot.2 ≠ u64Max) (hfile : call.fileId = slot.1) (hslot : call.chunkIdx = some slot.2)
    (hres : s.SlotResolvable slot) (hsafe : CallSafe H env s slot call) : (s.applyPatch H env call).1.SlotResolvable slot := by
  obtain ⟨loc, hocc, hloc⟩ := hres
  rw [applyPatch_slot hfile hslot]
  split
  · exact ⟨loc, hocc, hloc⟩
  rename_i hlive
  have hlive' : s.fileRecentlyDeleted slot.1 = false := by simpa using hlive
  have hsafe' := hsafe loc hocc hlive'
  split at hsafe'
  · rename_i hrow
    exact patchSlot_merge_resolvable hidx hocc hloc hrow hsafe hlive'
  rename_i hrow
  refine patchSlot_fresh_resolvable hidx hocc hloc ?_ hsafe'
  cases h : s.patchState call.chunkId with
  | none => trivial
  | some st =>
    cases st with
    | pending => exact absurd h (hrow _ _ _ _ _)
    | folded => trivial

lemma Renamed.not_resolvable {s₁ : Node Id} (h : Renamed s prior delta s₁)
    (hrow : s.patchState token = some (.pending base prior size at_ seq)) (hnofile : s.hasChunk token = false)
    (htoken : token ≠ delta) (hne : delta ≠ prior) (hfiles : ∀ id, s'.hasChunk id = s₁.hasChunk id)
    (hrows : s'.patchState token = none ∨ s'.patchState token = s.patchState token) : ¬s'.Resolvable token := by
  intro hres
  rcases hres with hres | ⟨b, d, _, _, _, hrow', -, hd⟩
  · rw [hfiles, h.hasChunk_iff] at hres
    rcases hres with hres | ⟨-, hres⟩
    · exact htoken hres
    rw [hnofile] at hres
    cases hres
  rcases hrows with hrows | hrows
  · rw [hrows] at hrow'
    cases hrow'
  rw [hrows, hrow] at hrow'
  cases hrow'
  rw [hfiles, h.hasChunk_iff] at hd
  rcases hd with hd | hd
  · exact hne hd.symm
  · exact hd.1 rfl

lemma merge_safe_of_resolvable (hH : H.CollisionFree) (hf : FilesTyped H s) (hr : RowsTyped H s) (hidx : slot.2 ≠ u64Max)
    (hocc : s.occupant slot = some loc) (hres : s.Resolvable loc.chunkId)
    (hrow : s.patchState call.chunkId = some (.pending base prior size at_ seq)) (hcall : call.chunkId = loc.chunkId)
    (hren : s.renamesTo H env slot call base prior = some delta) (hne : delta ≠ prior)
    (hafter : (s.patchSlot H env slot call).1.SlotResolvable slot) :
    env.stopsCommit = false ∧ staleUpdate call.clientWriteSeq loc.clientWriteSeq = false ∧ s.hasChunk base = true ∧
      (base ≠ prior ∨ base = delta) ∧ (call.chunkId = loc.chunkId ∨ H.patchTokenIdentity delta ≠ call.chunkId) := by
  obtain ⟨bytes, o, f, hcontent⟩ := renamesTo_content hren
  have hnofile : s.hasChunk loc.chunkId = false := hcall ▸ hasChunk_eq_false_of_pending hH hf hr hrow
  have htok : loc.chunkId = H.patchTokenIdentity prior := hcall ▸ hr _ _ _ _ _ _ hrow
  have hntok : loc.chunkId ≠ H.patchTokenIdentity delta := fun h => hne (hH.token (h.symm.trans htok))
  have hb : s.hasChunk base = true := by
    rcases hres with hres | ⟨b, d, _, _, _, hrow', hb, -⟩
    · rw [hnofile] at hres
      cases hres
    rw [← hcall, hrow] at hrow'
    cases hrow'
    exact hb
  have hlost : ∀ {s₁ s' : Node Id}, Renamed s prior delta s₁ → (∀ id, s'.hasChunk id = s₁.hasChunk id) →
      (s'.patchState loc.chunkId = none ∨ s'.patchState loc.chunkId = s.patchState loc.chunkId) →
      ¬s'.Resolvable loc.chunkId :=
    fun hs₁ => hs₁.not_resolvable (hcall ▸ hrow) hnofile
      (fun h => hH.separate prior bytes o f (htok.symm.trans (h.trans hcontent))) hne
  have heff := patchSlot_merge_effect H env hocc hidx hrow
  rw [hren] at heff
  dsimp only at heff
  split at heff
  · obtain ⟨loc', hocc', hres'⟩ := hafter
    have hsame : (s.patchSlot H env slot call).1.occupant slot = some loc := by
      rw [← hocc, occupant, occupant, heff.map]
    rw [hsame] at hocc'
    cases hocc'
    exact absurd hres' (hlost heff (fun _ => rfl) (.inr (by rw [heff.rows])))
  rename_i hstop
  obtain ⟨s₁, hs₁, hcom⟩ := heff
  rw [slotResolvable_iff_of_occupant hcom.occupant] at hafter
  split at hafter
  · refine absurd hafter (hlost hs₁ hcom.hasChunk ?_)
    rw [hcom.others _ hntok, retireRow_apply]
    split
    · exact .inl rfl
    · exact .inr (by rw [hs₁.rows])
  rename_i hmoved
  rw [not_or] at hmoved
  refine ⟨by simpa using hstop, by simpa using hmoved.2, hb, ?_, .inl hcall⟩
  obtain ⟨size', at', hrow'⟩ := hcom.row
  rcases hafter with hafter | ⟨b, d, _, _, _, hr', hb', -⟩
  · rw [hcom.hasChunk, hs₁.hasChunk_iff] at hafter
    rcases hafter with hafter | ⟨-, hafter⟩
    · exact absurd (hafter.trans hcontent) (hH.separate delta bytes o f)
    obtain ⟨b', o', f', he⟩ := hf _ hafter
    exact absurd he (hH.separate delta b' o' f')
  rw [hrow'] at hr'
  cases hr'
  rw [hcom.hasChunk, hs₁.hasChunk_iff] at hb'
  rcases hb' with hb' | hb'
  · exact .inr hb'
  · exact .inl hb'.1

lemma callSafe_of_resolvable (hH : H.CollisionFree) (hf : FilesTyped H s) (hr : RowsTyped H s) (hidx : slot.2 ≠ u64Max)
    (hfile : call.fileId = slot.1) (hslot : call.chunkIdx = some slot.2)
    (hocc : s.occupant slot = some loc) (hres : s.Resolvable loc.chunkId)
    (hon : call.chunkId = loc.chunkId ∨ s.patchState call.chunkId = some (.folded loc.chunkId))
    (hafter : (s.applyPatch H env call).1.SlotResolvable slot) : CallSafe H env s slot call := by
  intro loc' hocc' hlive
  rw [hocc] at hocc'
  cases hocc'
  rw [applyPatch_slot hfile hslot, hlive, if_neg (by simp)] at hafter
  split
  · rename_i base prior size at_ seq hrow
    have hcall : call.chunkId = loc.chunkId := by
      rcases hon with hon | hon
      · exact hon
      rw [hrow] at hon
      cases hon
    intro delta hren
    have htok : call.chunkId = H.patchTokenIdentity prior := hr _ _ _ _ _ _ hrow
    by_cases hsame : delta = prior
    · exact .inl ⟨hsame, hcall, htok.symm.trans hcall⟩
    · exact .inr (merge_safe_of_resolvable hH hf hr hidx hocc hres hrow hcall hren hsame hafter)
  · rename_i hrow
    rcases hon with hon | hon
    · cases h : s.patchState call.chunkId with
      | none => exact .inl (by rw [freshBaseId, h]; exact hon)
      | some st =>
        cases st with
        | pending => exact absurd h (hrow _ _ _ _ _)
        | folded real =>
          rcases hres with hres | ⟨_, _, _, _, _, hres, _⟩
          · exact .inr (.inl hres)
          rw [← hon, h] at hres
          cases hres
    · exact .inl (by rw [freshBaseId, hon])

end Call

/-! ## Requests -/

def PatchRequest.On (slot : Slot) : PatchRequest Id → Prop
  | .patchChunk req => req.fileId = slot.1 ∧ req.chunkIdx = some slot.2
  | .multiPatch req => req.fileId = slot.1 ∧ req.chunkIdx = some slot.2

def Retries (env : HandlerEnv Id) (s : Node Id) : PatchRequest Id → Prop
  | .patchChunk _ => False
  | .multiPatch req =>
    let call := s.multiPatchCall env req
    (s.applyPatch H env.first call).1.retryLocation env req call.chunkId (s.applyPatch H env.first call).2 ≠ none

/-- If a row is adopted for a retry, the occupant is on disk, or it is its own with the base here, or does not retire its row. -/
def AdoptionSafe (env : HandlerEnv Id) (s : Node Id) (slot : Slot) (offset : Nat) (fresh : ChunkLocation Id) : Prop :=
  ∀ loc base delta size writtenAt seq, s.occupant slot = some loc → H.looksLikePatchToken fresh.chunkId = true →
    resolvePatchTokenFromPeers env fresh.chunkId fresh.nodes = some (.pending base delta size writtenAt seq) →
    env.fails .adopt = false →
    s.hasChunk delta || (s.pullChunkFromPeers H env.second delta fresh.nodes slot.1 offset).2.isSome →
    s.hasChunk loc.chunkId = true ∨ loc.chunkId = delta ∨
      if loc.chunkId = fresh.chunkId then s.hasChunk base = true ∨ base = delta else s.patchStateSlot slot ≠ some loc.chunkId

/-- Each call of `apply_patch` is safe on its node, and so is the row adopted before a second. -/
def RequestSafe (env : HandlerEnv Id) (s : Node Id) (slot : Slot) : PatchRequest Id → Prop
  | .patchChunk req =>
    s.staleCandidate env req.fileId req.chunkIdx req.chunkId = none → CallSafe H env.first s slot req.call
  | .multiPatch req =>
    let call := s.multiPatchCall env req
    let first := s.applyPatch H env.first call
    CallSafe H env.first s slot call ∧
      ∀ fresh, first.1.retryLocation env req call.chunkId first.2 = some (slot, fresh) →
        let retry := first.1.prepareRetry H env slot req.chunkFileOffset call.chunkId fresh
        AdoptionSafe H env first.1 slot req.chunkFileOffset fresh ∧
          CallSafe H env.second retry.1 slot (req.call retry.2.1 call.prefetched retry.2.2)

section Request

variable {H : ChunkHash Id} {env : HandlerEnv Id} {s : Node Id} {slot : Slot}

lemma slotResolvable_recordChunkSeq (s : Node Id) (file : FileId) (idx newSeq : Option Nat) (new : Id) :
    (s.recordChunkSeq env file idx newSeq new).1.SlotResolvable slot ↔ s.SlotResolvable slot := by
  obtain ⟨seqs, gens, h⟩ := recordChunkSeq_eq s env file idx newSeq new
  rw [h]
  exact slotResolvable_congr rfl rfl rfl slot

lemma slotResolvable_rekeyRing (s : Node Id) (old new : Id) (buf : Option Bytes) :
    (s.rekeyRing old new buf).SlotResolvable slot ↔ s.SlotResolvable slot := by
  cases buf with
  | none => exact Iff.rfl
  | some b => exact slotResolvable_congr rfl rfl rfl slot

lemma handlePatchChunk_slotResolvable {req : PatchChunk Id}
    (hcall : s.staleCandidate env req.fileId req.chunkIdx req.chunkId = none) :
    (s.handlePatchChunk H env req).1.SlotResolvable slot ↔ (s.applyPatch H env.first req.call).1.SlotResolvable slot := by
  unfold handlePatchChunk
  rw [hcall]
  dsimp only
  split
  · rename_i r happly
    rw [happly]
    split
    · exact Iff.rfl
    · exact slotResolvable_recordChunkSeq ..
  rename_i happly
  rw [happly]

lemma handleMultiPatch_slotResolvable (req : MultiPatch Id) :
    (s.handleMultiPatch H env req).1.SlotResolvable slot ↔ (s.multiPatchResult H env req).1.SlotResolvable slot := by
  unfold handleMultiPatch
  dsimp only
  split
  · rename_i r hres
    rw [hres]
    split
    · exact Iff.rfl
    · rw [slotResolvable_recordChunkSeq, slotResolvable_rekeyRing]
  rename_i hres
  rw [hres]

variable {req : MultiPatch Id}

lemma committed_putPatchStatePending {token base delta : Id} (hocc : s.occupant slot = some loc) (size at_ : Nat)
    (seq : Option Nat) :
    Committed s slot loc base delta token token seq (s.putPatchStatePending slot token base delta size at_ seq).1 := by
  refine ⟨rfl, ⟨size, at_, Function.update_self ..⟩, fun id hne => Function.update_of_ne hne .., ?_⟩
  rw [if_pos (.inl rfl)]
  exact congrArg (Option.map (·.chunkId)) hocc

lemma prepareRetry_resolvable {fresh : ChunkLocation Id} {offset : Nat} (hres : s.SlotResolvable slot)
    (hsafe : AdoptionSafe H env s slot offset fresh) (tried : Id) :
    (s.prepareRetry H env slot offset tried fresh).1.SlotResolvable slot := by
  have hkept (id : Id) := @kept_pullChunkFromPeers _ _ H env.second s id fresh.nodes slot.1 offset
  have hpull (id : Id) := of_kept (hkept id) hres
  unfold prepareRetry
  dsimp only
  split
  · split
    · rename_i base delta size writtenAt seq hpeer
      have hadopt {s₁ : Node Id} (hk : Kept s s₁) (hd : s₁.hasChunk delta = true) (hok : env.fails .adopt = false)
          (hgot : s.hasChunk delta || (s.pullChunkFromPeers H env.second delta fresh.nodes slot.1 offset).2.isSome) :
          (s₁.putPatchStatePending slot fresh.chunkId base delta size writtenAt seq).1.SlotResolvable slot := by
        obtain ⟨loc, hocc, hloc⟩ := hres
        have hcom : Committed s₁ slot loc base delta fresh.chunkId fresh.chunkId seq _ :=
          committed_putPatchStatePending ((hk.occupant slot).trans hocc) size writtenAt seq
        rw [slotResolvable_iff_of_occupant hcom.occupant, if_pos (.inl rfl)]
        rcases hsafe loc base delta size writtenAt seq hocc ‹_› hpeer hok hgot with hdisk | rfl | h
        · exact .inl ((hcom.hasChunk _).trans (hk.files _ hdisk))
        · exact .inl ((hcom.hasChunk _).trans hd)
        split at h
        · rename_i htoken
          rw [htoken]
          exact hcom.resolvable_token (h.elim (hk.files _) fun heq => heq ▸ hd) hd
        · rename_i htoken
          exact hcom.resolvable_other htoken (hk.slots ▸ h) (hk.resolvable hloc)
      split
      · split
        · exact hadopt (.refl s) ‹_› (by simp_all) (by simp_all)
        · exact hres
      · split
        · rename_i hpulled
          rw [Bool.and_eq_true, Bool.not_eq_true'] at hpulled
          obtain ⟨b, hb⟩ := Option.isSome_iff_exists.mp hpulled.1
          exact hadopt (hkept delta) (hasChunk_of_pull (Prod.ext rfl hb)) hpulled.2 (by simp [hb])
        · exact hpull _
    · exact hpull _
    · split <;> exact hpull _
  · exact hpull _

lemma multiPatchResult_resolvable (hidx : slot.2 ≠ u64Max) (hres : s.SlotResolvable slot) (hfile : req.fileId = slot.1)
    (hslot : req.chunkIdx = some slot.2) (hsafe : RequestSafe H env s slot (.multiPatch req)) :
    (s.multiPatchResult H env req).1.SlotResolvable slot := by
  obtain ⟨hfirst, hsecond⟩ := hsafe
  have hafter : (s.applyPatch H env.first (s.multiPatchCall env req)).1.SlotResolvable slot :=
    applyPatch_resolvable hidx hfile hslot hres hfirst
  unfold multiPatchResult
  dsimp only
  split
  · rename_i slot' fresh hretry
    obtain rfl : slot' = slot := by
      unfold retryLocation at hretry
      rw [hslot, hfile] at hretry
      split at hretry
      · rename_i hsome
        cases hsome
        obtain ⟨_, -, heq⟩ := Option.map_eq_some_iff.mp hretry
        exact (congrArg Prod.fst heq).symm
      · cases hretry
    obtain ⟨hadopt, hsafe₂⟩ := hsecond fresh hretry
    exact applyPatch_resolvable hidx hfile hslot (prepareRetry_resolvable hafter hadopt _) hsafe₂
  · exact hafter

lemma multiPatchResult_of_not_retries (h : ¬Retries H env s (.multiPatch req)) :
    s.multiPatchResult H env req = s.applyPatch H env.first (s.multiPatchCall env req) := by
  have hnone := not_not.1 h
  unfold multiPatchResult
  dsimp only
  rw [hnone]

end Request

lemma filesTyped_holding (slot : Slot) (b : Bytes) (node : NodeId) (seq : Option Nat) :
    FilesTyped H (holding H slot b node seq) := by
  intro id hid
  simp only [hasChunk, holding] at hid
  split at hid
  · rename_i he
    exact ⟨_, _, _, he⟩
  · cases hid

lemma rowsTyped_holding (slot : Slot) (b : Bytes) (node : NodeId) (seq : Option Nat) : RowsTyped H (holding H slot b node seq) :=
  nofun

/-! ## A merge the chunk map refuses -/

def byteMultiPatch (chunkId : FreeId) (seq : Option Nat) (v : UInt8) : PatchRequest FreeId :=
  .multiPatch ⟨chunkId, 7, some 0, 0, [(0, [v])], seq, none⟩

/-- The chunk `[0]` at the slot, and over it a patch with write sequence 5. -/
def patchedNode : Node FreeId :=
  ((Node.holding freeHash (7, 0) [0] 1 none).handlePatch freeHash (.quiet 1)
    (byteMultiPatch (.content [0] 0 7) (some 5) 1)).1

end Dfs
