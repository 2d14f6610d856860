import Dfs.SlotRun
import Dfs.Lemmas.PatchEffect

/-!
# A `MultiPatch` request on a node alone

`handle_multi_patch` on a slot with a chunk on disk, or an accumulator, when nothing fails and no node answers.
-/

namespace Dfs

open Overlay Stamped Function Node

variable {Id : Type} {b : Bytes} {o offset : Nat} {f : FileId} {leader : Leader Id} {call : PatchCall Id} {r : Patched Id}
  {records : List DeltaRecord}

section Grounded

variable {H : ChunkHash Id} {s s' : Node Id} {slot : Slot}

lemma Grounded.row_none (hH : H.CollisionFree) (h : Grounded H s slot) : s.patchState (H.computeChunkHashAt b o f) = none := by
  cases hrow : s.patchState (H.computeChunkHashAt b o f) with
  | none => rfl
  | some st =>
    obtain ⟨delta, he⟩ := h.rows _ _ hrow
    exact absurd he.symm (hH.separate delta b o f)

lemma Grounded.not_read (hH : H.CollisionFree) (h : Grounded H s slot) (delta : Id) :
    s.readChunkArc (H.patchTokenIdentity delta) = none := by
  cases hread : s.readChunkArc (H.patchTokenIdentity delta) with
  | none => rfl
  | some d =>
    obtain ⟨o, f, he⟩ := h.addressed.of_readChunkArc hread
    exact absurd he (hH.separate delta d o f)

lemma Grounded.congr (h : Grounded H s slot) (haddr : Addressed H s') (hrows : s'.patchState = s.patchState)
    (hlive : s'.fileRecentlyDeleted = s.fileRecentlyDeleted) (hpresent : s'.fileExists = s.fileExists) : Grounded H s' slot :=
  ⟨haddr, hrows ▸ h.rows, hrows ▸ h.folded, hlive ▸ h.live, hpresent ▸ h.present⟩

end Grounded

/-! ## Answers on a node alone -/

variable [DecidableEq Id] {H : ChunkHash Id} {s : Node Id} {slot : Slot} {loc : ChunkLocation Id}

lemma refreshSlotFromLeader_alone (hl : leader.Alone) (hocc : s.occupant slot = some loc) :
    s.refreshSlotFromLeader leader slot loc.chunkId = none := by
  unfold refreshSlotFromLeader
  cases leader with
  | self => simp [hocc]
  | other answer =>
    obtain rfl : answer = none := hl
    rfl

lemma eq_of_refreshSlotFromLeader_alone (hl : leader.Alone) (hocc : s.occupant slot = some loc) {stale : Id}
    {fresh : ChunkLocation Id} (h : s.refreshSlotFromLeader leader slot stale = some fresh) : fresh = loc := by
  unfold refreshSlotFromLeader at h
  cases leader with
  | self =>
    rw [hocc] at h
    exact (Option.some.inj (Option.filter_eq_some_iff.1 h).1).symm
  | other answer =>
    obtain rfl : answer = none := hl
    cases h

lemma pullChunkFromPeers_alone {env : PatchEnv Id} (he : env.Alone) (s : Node Id) (id : Id) (nodes : List NodeId)
    (file : FileId) (offset : Nat) : s.pullChunkFromPeers H env id nodes file offset = (s, none) := by
  have hserved : nodes.findSome? (fun n => if n = env.localNodeId then none
      else (env.peerChunk n id).filter (fun b => decide (H.computeChunkHashAt b offset file = id))) = none := by
    rw [List.findSome?_eq_none_iff]
    intro n _
    split
    · rfl
    rw [he.peers]
    rfl
  unfold pullChunkFromPeers
  dsimp only
  rw [hserved]

lemma prepareRetry_alone {env : HandlerEnv Id} (he : env.Alone) (hdisk : s.hasChunk loc.chunkId = true) (offset : Nat)
    (tried : Id) : s.prepareRetry H env slot offset tried loc = (s, loc.chunkId, false) := by
  have hpeers : resolvePatchTokenFromPeers env loc.chunkId loc.nodes = none := by
    unfold resolvePatchTokenFromPeers
    rw [List.findSome?_eq_none_iff]
    intro n _
    rw [he.peerState, ite_self]
  unfold prepareRetry
  simp only [pullChunkFromPeers_alone he.second, hpeers, hdisk, Option.isNone_none, Bool.not_true, Bool.and_false,
    Bool.false_and, Bool.false_eq_true, if_false, ite_self]

/-! ## The calls -/

variable {env : HandlerEnv Id} {req : MultiPatch Id} {seq : Nat}

lemma applyPatch_live {env : PatchEnv Id} (hlive : s.fileRecentlyDeleted slot.1 = false) (hfile : call.fileId = slot.1)
    (hslot : call.chunkIdx = some slot.2) : s.applyPatch H env call = s.patchSlot H env slot call := by
  rw [applyPatch_slot hfile hslot, hlive, if_neg (by simp)]

lemma patchBase_on (slot : Slot) (call : PatchCall Id) {env : PatchEnv Id} (hf : env.NoFault)
    (hrow : s.patchState loc.chunkId = none)
    (hcall : call.chunkId = loc.chunkId ∨ s.patchState call.chunkId = some (.folded loc.chunkId)) :
    ∃ via, s.patchBase H env slot call = s.freshBase H env slot call.chunkFileOffset loc.chunkId via call.trustLocalBase := by
  unfold patchBase
  rw [hf .readPatchState, if_neg (by simp)]
  rcases hcall with hcall | hcall
  · rw [hcall, hrow]
    exact ⟨false, rfl⟩
  rw [hcall]
  exact ⟨true, rfl⟩

lemma patchSlot_unregistered (slot : Slot) (call : PatchCall Id) {env : PatchEnv Id} (hf : env.NoFault)
    (hrow : s.patchState loc.chunkId = none)
    (hcall : call.chunkId = loc.chunkId ∨ s.patchState call.chunkId = some (.folded loc.chunkId))
    (hreg : s.chunkTable loc.chunkId = none) : ∃ m, s.patchSlot H env slot call = (s, .error (m, .notFound)) := by
  obtain ⟨via, hbase⟩ := patchBase_on (H := H) slot call hf hrow hcall
  unfold patchSlot
  rw [hbase]
  unfold freshBase
  simp only [hf .readChunkLocation, hreg, Bool.false_eq_true, if_false, andThen]
  exact ⟨_, rfl⟩

lemma multiPatchResult_unregistered (he : env.Alone) (hon : req.On slot seq) (hlive : s.fileRecentlyDeleted slot.1 = false)
    (hocc : s.occupant slot = some loc) (hdisk : s.hasChunk loc.chunkId = true) (hrow : s.patchState loc.chunkId = none)
    (hreg : s.chunkTable loc.chunkId = none) : ∃ e, s.multiPatchResult H env req = (s, .error e) := by
  have htarget := multiPatchTarget_on hocc (Or.inl hdisk) (he.noFault .readOccupant) hon.file hon.idx
  have hfirst : ∃ m, s.applyPatch H env.first (s.multiPatchCall env req) = (s, .error (m, .notFound)) := by
    rw [applyPatch_live hlive hon.file hon.idx]
    exact patchSlot_unregistered slot _ he.first.noFault hrow htarget hreg
  obtain ⟨m, hfirst⟩ := hfirst
  unfold multiPatchResult
  dsimp only
  rw [hfirst]
  dsimp only
  split
  · rename_i slot' fresh hretry
    unfold retryLocation at hretry
    rw [hon.idx, hon.file] at hretry
    obtain ⟨fresh', hfresh, hpair⟩ := Option.map_eq_some_iff.1 hretry
    obtain ⟨rfl, rfl⟩ := Prod.mk.inj hpair
    obtain rfl := eq_of_refreshSlotFromLeader_alone he.retryLeader hocc hfresh
    unfold retryPatch
    rw [prepareRetry_alone he hdisk]
    dsimp only
    rw [applyPatch_live hlive hon.file hon.idx]
    obtain ⟨m', hsecond⟩ := patchSlot_unregistered (H := H) slot (req.call fresh'.chunkId
      (s.multiPatchCall env req).prefetched false) he.second.noFault hrow (Or.inl rfl) hreg
    exact ⟨_, hsecond⟩
  · exact ⟨_, rfl⟩

variable {s' : Node Id}

lemma multiPatchResult_of_ok (h : s.applyPatch H env.first (s.multiPatchCall env req) = (s', .ok r)) :
    s.multiPatchResult H env req = (s', .ok r) := by
  unfold multiPatchResult
  dsimp only
  rw [h]
  rfl

lemma handleMultiPatch_error {e : PatchError} (h : s.multiPatchResult H env req = (s', .error e)) :
    ∃ response, s.handleMultiPatch H env req = (s', response) ∧ response.acked = false := by
  unfold handleMultiPatch
  rw [h]
  refine ⟨_, rfl, ?_⟩
  unfold failedResponse
  dsimp only
  split <;> rfl

lemma handleMultiPatch_ok (h : s.multiPatchResult H env req = (s', .ok r)) (hbuf : r.buf = none) :
    ∃ seqs gens response, s.handleMultiPatch H env req = (s'.setSequences seqs gens, response) ∧
      response.acked = r.rejected.isNone := by
  unfold handleMultiPatch
  rw [h]
  dsimp only
  rw [hbuf]
  cases hrej : r.rejected with
  | some current => exact ⟨_, _, _, rfl, rfl⟩
  | none =>
    obtain ⟨seqs, gens, hrec⟩ := recordChunkSeq_eq s' env req.fileId req.chunkIdx req.newChunkSeq r.newChunkId
    exact ⟨seqs, gens, _, Prod.ext hrec rfl, rfl⟩

/-! ## The slot after an append -/

/-- The slot moved to the token of the accumulator, unless the chunk map refused; then there was no acknowledgement. -/
structure Appended (H : ChunkHash Id) (slot : Slot) (loc : ChunkLocation Id) (seq offset : Nat) (token base : Id) (b : Bytes)
    (records : List DeltaRecord) (s' : Node Id) (acked : Bool) : Prop where
  grounded : Grounded H s' slot
  accumulates : Accumulates H s' slot offset token base b records
  row : ∃ delta size at_, s'.patchState token = some (.pending base delta size at_ (some seq))
  occupant : ∃ size at_, s'.occupant slot = some (if token = loc.chunkId ∨ staleUpdate (some seq) loc.clientWriteSeq = true
    then loc else { loc with chunkId := token, size := size, writtenAt := some at_, clientWriteSeq := some seq })
  acked_iff : acked = true ↔ token = loc.chunkId ∨ staleUpdate (some seq) loc.clientWriteSeq = false

lemma Grounded.committed (h : Grounded H s slot) (env : PatchEnv Id) (call : PatchCall Id) (p : PatchBase Id)
    (old delta : Id) (size : Nat) (hasher : Hasher) (legacy : Bool) (carried : Option Bytes)
    (pending : Id → Option Slot) (prior : Option Id) :
    Grounded H (s.committed env slot call p old (H.patchTokenIdentity delta) delta size hasher legacy carried pending prior)
      slot := by
  have hretired : ∀ id st, s.retireRow slot id = some st → s.patchState id = some st := by
    intro id st hst
    rw [retireRow_apply] at hst
    split at hst
    · cases hst
    · exact hst
  refine ⟨h.addressed, fun id st hst => ?_, fun id real hst => ?_, h.live, h.present⟩
  · rcases entry_put hst with hst | ⟨hid, -⟩
    · exact h.rows id st (hretired id st hst)
    · exact ⟨delta, hid⟩
  · rcases entry_put hst with hst | ⟨-, hst⟩
    · exact h.folded id real (hretired id _ hst)
    · cases hst

lemma appended_of_committed {env : PatchEnv Id} {p : PatchBase Id} {delta : Id} {size : Nat} {hasher : Hasher}
    {legacy : Bool} {carried : Option Bytes} {pending : Id → Option Slot} {prior : Option Id} (hg : Grounded H s slot)
    (hidx : slot.2 ≠ u64Max) (hocc : s.occupant slot = some loc) (hseq : call.clientWriteSeq = some seq)
    (hacc : Accumulates H (s.committed env slot call p loc.chunkId (H.patchTokenIdentity delta) delta size hasher
    legacy carried pending prior) slot offset (H.patchTokenIdentity delta) p.base b records)
    (seqs : Slot → Option Nat) (gens : Id → Option Nat) :
    Appended H slot loc seq offset (H.patchTokenIdentity delta) p.base b records
      ((s.committed env slot call p loc.chunkId (H.patchTokenIdentity delta) delta size hasher legacy carried pending
        prior).setSequences seqs gens)
      (s.updateChunkMapAfterPatch slot.1 (some slot.2) loc.chunkId (H.patchTokenIdentity delta) size env.nowMs
        call.clientWriteSeq).2.isNone := by
  obtain ⟨hmap, hrej⟩ := occupant_updateChunkMapAfterPatch hocc hidx loc.chunkId (H.patchTokenIdentity delta) size env.nowMs
    call.clientWriteSeq
  have hg' := hg.committed env call p loc.chunkId delta size hasher legacy carried pending prior
  refine ⟨⟨hg'.addressed, hg'.rows, hg'.folded, hg'.live, hg'.present⟩, ⟨hacc.row, hacc.file, hacc.dirty, hacc.fits⟩,
    ⟨delta, size, env.nowSecs, ?_⟩, ⟨size, env.nowMs, ?_⟩, ?_⟩
  · rw [← hseq]
    exact update_self ..
  · rw [← hseq]
    exact hmap
  · rw [hrej, hseq]
    by_cases htok : H.patchTokenIdentity delta = loc.chunkId
    · simp [htok]
    · cases staleUpdate (some seq) loc.clientWriteSeq <;> simp [htok]

/-! ## The two cases of a request -/

lemma files_update_of_addressed (hH : H.CollisionFree) {files : Id → Option Bytes} {id : Id} {content : Bytes} {o' : Nat}
    {f' : FileId} (hid : id = H.computeChunkHashAt b o f) (hb : files id = some b) :
    update files (H.computeChunkHashAt content o' f') (some content) id = some b := by
  rw [update_apply]
  split
  · rename_i heq
    rw [(hH.content (hid.symm.trans heq)).1]
  · exact hb

lemma registerToken_fresh_base {env : PatchEnv Id} (hf : env.NoFault) (s : Node Id) (call : PatchCall Id) (base token : Id)
    (known size : Nat) : (s.registerToken env call ⟨base, none, known⟩ token size).chunkTable base = none := by
  unfold registerToken
  simp [hf .putChunkLocation, hf .deleteChunkLocation]

omit [DecidableEq Id] in
lemma MultiPatch.On.fits (hon : req.On slot seq) : ∀ r ∈ patchRecords seq req.patches, r.Fits := by
  intro r hr
  obtain ⟨p, hp, rfl⟩ := List.mem_map.1 hr
  obtain ⟨hoff, hlen⟩ := hon.patches_lt p hp
  exact ⟨hon.seq_lt, hoff, hlen⟩

section

variable (hH : H.CollisionFree) (he : env.Alone) (hon : req.On slot seq) (hidx : slot.2 ≠ u64Max) (hg : Grounded H s slot)
    (hocc : s.occupant slot = some loc)

include hH he hon hidx hg hocc

lemma handleMultiPatch_onBase (hb : s.files loc.chunkId = some b) :
    (s.chunkTable loc.chunkId = none ∧ ∃ response, s.handleMultiPatch H env req = (s, response) ∧ response.acked = false) ∨
    ∃ s' response delta, s.handleMultiPatch H env req = (s', response) ∧
      Appended H slot loc seq req.chunkFileOffset (H.patchTokenIdentity delta) loc.chunkId b (patchRecords seq req.patches) s'
        response.acked ∧ s'.files loc.chunkId = some b ∧ s'.chunkTable loc.chunkId = none := by
  obtain ⟨o, f, hid⟩ := hg.addressed _ _ (.inl hb)
  have hrow : s.patchState loc.chunkId = none := hid ▸ hg.row_none hH
  have hdisk : s.hasChunk loc.chunkId = true := by rw [hasChunk, hb]; rfl
  cases hreg : s.chunkTable loc.chunkId with
  | none =>
    obtain ⟨e, hres⟩ := multiPatchResult_unregistered (H := H) he hon hg.live hocc hdisk hrow hreg
    exact .inl ⟨rfl, handleMultiPatch_error hres⟩
  | some known =>
    have htarget := multiPatchTarget_on hocc (.inl hdisk) (he.noFault .readOccupant) hon.file hon.idx
    obtain ⟨via, hpb⟩ := patchBase_on (H := H) slot (s.multiPatchCall env req) he.first.noFault hrow htarget
    have hbase := hpb.trans (freshBase_ok he.first.noFault hreg hdisk (.inr (refreshSlotFromLeader_alone he.first.leader hocc)) _)
    -- the accumulator's file is written next to the base, which it can only overwrite with the same bytes
    have hrec : patchRecords seq req.patches
        = patchRecords ((s.multiPatchCall env req).clientWriteSeq.getD 0) (s.multiPatchCall env req).patches := by
      rw [show (s.multiPatchCall env req).clientWriteSeq = some seq from hon.seq_eq]
      rfl
    obtain ⟨size, pending, prior, hpatch⟩ := patchSlot_fresh_eq he.first.noFault hbase hrec rfl rfl
    obtain ⟨seqs, gens, response, hhandle, hacked⟩ := handleMultiPatch_ok (multiPatchResult_of_ok
      ((applyPatch_live hg.live hon.file hon.idx).trans hpatch)) rfl
    have hg₁ : Grounded H (s.setFiles (update s.files (deltaId H slot req.chunkFileOffset
        (patchRecords seq req.patches)) (some (encodeAccumulator (patchRecords seq req.patches))))) slot :=
      hg.congr (hg.addressed.of_files (fun id d hd => entry_update rfl hd) rfl rfl rfl) rfl rfl rfl
    have hnone : ∀ buf, (none : Option Bytes) = some buf → buf = overlay b (ranges (patchRecords seq req.patches)) ∧
        ∀ r ∈ patchRecords seq req.patches, r.1 ≤ (s.multiPatchCall env req).clientWriteSeq.getD 0 := by simp
    have happended := appended_of_committed hg₁ hidx hocc hon.seq_eq (accumulates_committed rfl _ (update_self ..)
      hon.fits hnone env.first ⟨loc.chunkId, none, known.size⟩ loc.chunkId _ size pending prior) seqs gens
    refine .inr ⟨_, _, _, hhandle, hacked ▸ happended, ?_, ?_⟩
    · exact files_update_of_addressed hH hid hb
    · exact registerToken_fresh_base he.first.noFault ..

lemma handleMultiPatch_onToken {base : Id} (hacc : Accumulates H s slot offset loc.chunkId base b records) {bo : Nat}
    {bf : FileId} (hb : base = H.computeChunkHashAt b bo bf) :
    (∃ s' response, s.handleMultiPatch H env req = (s', response) ∧ response.acked = true ∧ Grounded H s' slot ∧
      Accumulates H s' slot offset loc.chunkId base b records ∧ s'.files = s.files ∧ s'.occupant slot = some loc ∧
      isNoop (overlay b (ranges records)) req.patches = true) ∨ ∃ s' response delta,
        s.handleMultiPatch H env req = (s', response) ∧
      Appended H slot loc seq offset (H.patchTokenIdentity delta) base b (records ++ patchRecords seq req.patches) s'
        response.acked ∧ s'.files = mergedFiles H s.files slot offset records (patchRecords seq req.patches) := by
  obtain ⟨size₀, at_₀, seq₀, hrow⟩ := hacc.row
  have htarget : (s.multiPatchCall env req).chunkId = loc.chunkId := by
    rcases multiPatchTarget_on hocc (.inr (by rw [hrow]; rfl)) (he.noFault .readOccupant) hon.file hon.idx with h | h
    · exact h
    obtain ⟨d, o, f, hreal⟩ := hg.folded _ _ h
    obtain ⟨delta, htok⟩ := hg.rows _ _ hrow
    exact absurd (htok.symm.trans hreal) (hH.separate delta d o f)
  have hmore : patchRecords seq req.patches
      = patchRecords ((s.multiPatchCall env req).clientWriteSeq.getD 0) (s.multiPatchCall env req).patches := by
    rw [show (s.multiPatchCall env req).clientWriteSeq = some seq from hon.seq_eq]
    rfl
  obtain ⟨s', size, hpatch, ⟨ring, dirty, rfl⟩, hacc', hnoop⟩ |
      ⟨s₁, p, size, carried, pending, prior, ⟨ring, dirty, rfl⟩, rfl, hpatch, hacc'⟩ :=
    patchSlot_merge_cases hH hg.addressed hacc hb htarget he.first.noFault hmore hon.fits rfl
  · obtain ⟨seqs, gens, response, hhandle, hacked⟩ := handleMultiPatch_ok (multiPatchResult_of_ok
      ((applyPatch_live hg.live hon.file hon.idx).trans hpatch)) rfl
    exact .inl ⟨_, _, hhandle, hacked, hg.congr hg.addressed rfl rfl rfl,
      ⟨hacc'.row, hacc'.file, hacc'.dirty, hacc'.fits⟩, rfl, hocc, hnoop⟩
  obtain ⟨seqs, gens, response, hhandle, hacked⟩ := handleMultiPatch_ok (multiPatchResult_of_ok
    ((applyPatch_live hg.live hon.file hon.idx).trans hpatch)) rfl
  have hg₁ : Grounded H { s.setFiles (mergedFiles H s.files slot offset records (patchRecords seq req.patches)) with
      materializedRing := ring, dirtyPatchSlots := dirty } slot :=
    hg.congr (hg.addressed.of_files (fun id d hd => (entry_update rfl hd).imp_left entry_of_drop) rfl rfl rfl) rfl rfl rfl
  have happended := appended_of_committed hg₁ hidx hocc hon.seq_eq hacc' seqs gens
  exact .inr ⟨_, _, _, hhandle, hacked ▸ happended, rfl⟩

end

end Dfs
