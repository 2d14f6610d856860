import Dfs.ArrivalOrder

/-! # Replicas and the order of arrivals -/

namespace Dfs

open Overlay Stamped List Option Arrival

variable {Id : Type}

/-! ## The state of a replica -/

/-- The base without an accumulator, or one of the records over it. -/
structure ReplicaAt (H : ChunkHash Id) (slot : Slot) (base : Id) (b : Bytes) (st : Node Id × Id)
    (kept : Option (List DeltaRecord)) : Prop where
  addressed : Addressed H st.1
  live : st.1.fileRecentlyDeleted slot.1 = false
  content : match kept with
    | none => st.2 = base ∧ st.1.hasChunk base = true ∧ st.1.chunkTable base ≠ none ∧ st.1.patchState base = none
    | some records => ∃ offset, Accumulates H st.1 slot offset st.2 base b records

variable {a : Arrival Id} {k : Nat} {l : List (Fin 256 × UInt8)}

section

variable {H : ChunkHash Id} {slot : Slot} {base : Id} {b : Bytes} {st : Node Id × Id} {kept : Option (List DeltaRecord)}

lemma StartsAt.replicaAt {s : Node Id} (h : StartsAt H s slot base b) : ReplicaAt H slot base b (s, base) none :=
  ⟨h.addressed, h.live, rfl, by rw [Node.hasChunk, h.onDisk]; rfl, h.registered, h.unpatched⟩

section

variable (h : ReplicaAt H slot base b st kept)

include h

lemma ReplicaAt.accumulatorFile_eq : accumulatorFile st = kept.map (fun records => some (encodeAccumulator records)) := by
  unfold accumulatorFile
  cases kept with
  | none =>
    obtain ⟨htok, -, -, hrow⟩ := h.content
    rw [htok, hrow]
    rfl
  | some records =>
    obtain ⟨offset, hacc⟩ := h.content
    obtain ⟨size, at_, seq, hrow⟩ := hacc.row
    rw [hrow]
    exact congrArg some hacc.file

lemma ReplicaAt.accumulatorRecords_eq : accumulatorRecords st = kept.getD [] := by
  unfold accumulatorRecords
  rw [h.accumulatorFile_eq]
  cases kept with
  | none => rfl
  | some records =>
    obtain ⟨offset, hacc⟩ := h.content
    simp only [map_some, readRecords_encodeAccumulator hacc.fits, getD_some]

lemma ReplicaAt.replay_eq : replay st b = some (overlay b (ranges (kept.getD []))) := by
  unfold replay
  rw [h.accumulatorFile_eq]
  cases kept with
  | none => rfl
  | some records =>
    obtain ⟨offset, hacc⟩ := h.content
    simp only [map_some, parseDeltaRecords_encodeAccumulator hacc.fits, applyRanges_eq_overlay, getD_some]

/-! ## One arrival -/

lemma ReplicaAt.recache (c : CacheChange Id) : ReplicaAt H slot base b (st.1.recache c, st.2) kept := by
  refine ⟨h.addressed.recache c, h.live, ?_⟩
  cases kept with
  | none => exact h.content
  | some records =>
    obtain ⟨offset, hacc⟩ := h.content
    exact ⟨offset, hacc.recache c⟩

end

lemma Arrival.fits (a : Arrival Id) : ∀ r ∈ a.records, r.Fits := by
  intro r hr
  obtain ⟨p, hp, rfl⟩ := mem_map.1 hr
  obtain ⟨hoff, hlen⟩ := a.patches_lt p hp
  exact ⟨a.seq_lt, hoff, hlen⟩

variable [DecidableEq Id] {env : PatchEnv Id} {records : List DeltaRecord} {bo : Nat} {bf : FileId}

lemma patchSlot_fresh (h : ReplicaAt H slot base b st none) (call : PatchCall Id) (hcall : call.chunkId = st.2)
    (hf : env.NoFault) (hl : st.1.refreshSlotFromLeader env.leader slot base = none)
    (hrec : records = patchRecords call.seq call.patches) (hfits : ∀ r ∈ records, r.Fits) :
    ∃ s' r, st.1.patchSlot H env slot call = (s', .ok r) ∧ ReplicaAt H slot base b (s', r.newChunkId) (some records) := by
  obtain ⟨htok, hdisk, hreg, hrow⟩ := h.content
  obtain ⟨loc, hloc⟩ := ne_none_iff_exists'.1 hreg
  have hbase : st.1.patchBase H env slot call = (st.1, .ok ⟨base, none, loc.size⟩) := by
    unfold Node.patchBase
    rw [hf .readPatchState, if_neg (by simp), hcall, htok, hrow]
    exact freshBase_ok hf hloc hdisk (Or.inr hl) _
  obtain ⟨size, pending, prior, he⟩ := patchSlot_fresh_eq hf hbase hrec rfl rfl
  refine ⟨_, _, he, h.addressed.of_files (fun id d hd => entry_update rfl hd) rfl rfl rfl, h.live, call.chunkFileOffset, ?_⟩
  exact accumulates_committed rfl _ (Function.update_self ..) hfits (by simp) ..

lemma patchSlot_merge (hH : H.CollisionFree) (hb : base = H.computeChunkHashAt b bo bf)
    (h : ReplicaAt H slot base b st (some records)) (call : PatchCall Id) (hcall : call.chunkId = st.2) (hf : env.NoFault)
    {more : List DeltaRecord} (hmore : more = patchRecords call.seq call.patches) (hfits : ∀ r ∈ more, r.Fits) :
    ∃ s' r, st.1.patchSlot H env slot call = (s', .ok r) ∧ (isNoop (overlay b (ranges records)) call.patches = true ∧
          ReplicaAt H slot base b (s', r.newChunkId) (some records) ∨
        ReplicaAt H slot base b (s', r.newChunkId) (some (records ++ more))) := by
  obtain ⟨offset, hacc⟩ := h.content
  obtain ⟨s', size, he, ⟨ring, dirty, rfl⟩, hacc', hno⟩ | ⟨s₁, p, size, carried, pending, prior, ⟨ring, dirty, rfl⟩,
    rfl, he, hacc'⟩ :=
    patchSlot_merge_cases hH h.addressed hacc hb hcall hf hmore hfits rfl
  · exact ⟨_, _, he, .inl ⟨hno, h.addressed, h.live, offset, hacc'⟩⟩
  refine ⟨_, _, he, .inr ⟨h.addressed.of_files (fun id d hd => ?_) rfl rfl rfl, h.live, offset, hacc'⟩⟩
  exact (entry_update rfl hd).imp_left entry_of_drop

lemma arrive_spec (hH : H.CollisionFree) (hb : base = H.computeChunkHashAt b bo bf) (h : ReplicaAt H slot base b st kept)
    (hf : a.env.NoFault) (hl : kept = none → st.1.refreshSlotFromLeader a.env.leader slot base = none) :
    ∃ kept', ReplicaAt H slot base b (arrive H slot st a) (some kept') ∧
      (kept' = kept.getD [] ∧ isNoop (overlay b (ranges (kept.getD []))) a.patches = true ∨
        kept' = kept.getD [] ++ a.records) := by
  have hre := h.recache a.caches
  have happly : (st.1.recache a.caches).applyPatch H a.env (a.call slot st.2)
      = (st.1.recache a.caches).patchSlot H a.env slot (a.call slot st.2) := by
    have hlive : (st.1.recache a.caches).fileRecentlyDeleted (a.call slot st.2).fileId = false := hre.live
    unfold Node.applyPatch
    rw [hlive]
    rfl
  unfold arrive
  rw [happly]
  cases kept with
  | none =>
    obtain ⟨s', r, he, hrep⟩ := patchSlot_fresh hre (a.call slot st.2) rfl hf (hl rfl) rfl a.fits
    rw [he]
    exact ⟨_, hrep, .inr rfl⟩
  | some records =>
    obtain ⟨s', r, he, ⟨hno, hrep⟩ | hrep⟩ := patchSlot_merge hH hb hre (a.call slot st.2) rfl hf rfl a.fits
    · rw [he]
      exact ⟨_, hrep, .inl ⟨rfl, hno⟩⟩
    rw [he]
    exact ⟨_, hrep, .inr rfl⟩

end

/-! ## All arrivals -/

lemma inSeqOrder_eq (b : Bytes) (as : List (Arrival Id)) : inSeqOrder b as = overlay b (ranges (as.flatMap records)) := by
  have hkey : ∀ a ∈ as, ∀ r ∈ a.records, r.1 = a.seq := fun a _ r hr => fst_of_mem_patchRecords hr
  rw [inSeqOrder, Stamped.ranges, sortBy_flatMap records as hkey, map_flatMap]
  simp only [records, patchRecords_map_snd]

lemma inSeqOrder_eq_of_perm (b : Bytes) {as as' : List (Arrival Id)} (hd : (as.map seq).Nodup)
    (hp : (as.map patch).Perm (as'.map patch)) : inSeqOrder b as = inSeqOrder b as' := by
  have hsort : ∀ l : List (Arrival Id), (sortBy seq l).flatMap patches = (sortBy Prod.fst (l.map patch)).flatMap Prod.snd := by
    intro l
    have hmap : (sortBy seq l).map patch = sortBy Prod.fst (l.map patch) := map_insertionSort _ _ _ _ (fun _ _ _ _ => Iff.rfl)
    rw [← hmap, flatMap_map]
    rfl
  have hd' : ((as.map patch).map Prod.fst).Nodup := by
    rw [List.map_map]
    exact hd
  rw [inSeqOrder, inSeqOrder, hsort, hsort, sortBy_eq_of_perm hp (pairwise_map.1 hd')]

variable [DecidableEq Id] {H : ChunkHash Id} {slot : Slot} {s : Node Id} {base : Id} {b : Bytes} {as : List (Arrival Id)}

lemma refresh_of_take_eq_nil (hl : ∀ a ∈ as.head?, s.refreshSlotFromLeader a.env.leader slot base = none)
    (ha : as[k]? = some a) {kept : Option (List DeltaRecord)} (hnone : kept = none → as.take k = []) (hk : kept = none) :
    (arriveAll H slot (s, base) (as.take k)).1.refreshSlotFromLeader a.env.leader slot base = none := by
  have hfirst : a ∈ as.head? := by
    rcases take_eq_nil_iff.1 (hnone hk) with hzero | hnil
    · rw [hzero] at ha
      rw [head?_eq_getElem?]
      exact ha
    rw [hnil] at ha
    cases ha
  rw [hnone hk]
  exact hl a hfirst

section

variable (hH : H.CollisionFree) (h : StartsAt H s slot base b) (hf : ∀ a ∈ as, a.env.NoFault)
    (hl : ∀ a ∈ as.head?, s.refreshSlotFromLeader a.env.leader slot base = none)

include hH h hf hl

lemma replicaAt_take (k : Nat) : ∃ kept, ReplicaAt H slot base b (arriveAll H slot (s, base) (as.take k)) kept ∧
      (∀ r ∈ kept.getD [], r ∈ (as.take k).flatMap records) ∧ (kept = none → as.take k = []) := by
  obtain ⟨bo, bf, hb⟩ := h.addressed base b (Or.inl h.onDisk)
  induction k with
  | zero => exact ⟨none, h.replicaAt, by simp, fun _ => rfl⟩
  | succ k ih =>
    obtain ⟨kept, hrep, hsub, hnone⟩ := ih
    rw [take_add_one]
    cases ha : as[k]? with
    | none =>
      rw [toList_none, append_nil]
      exact ⟨kept, hrep, hsub, hnone⟩
    | some a =>
      obtain ⟨kept', hrep', hkept⟩ := arrive_spec hH hb hrep (hf a (mem_of_getElem? ha)) (refresh_of_take_eq_nil hl ha hnone)
      refine ⟨some kept', ?_, ?_, nofun⟩
      · rw [toList_some, arriveAll, foldl_append]
        exact hrep'
      · intro r hr
        rw [flatMap_append, mem_append]
        rcases hkept with ⟨rfl, -⟩ | rfl
        · exact .inl (hsub r hr)
        rcases mem_append.1 hr with hr | hr
        · exact .inl (hsub r hr)
        · exact .inr (by simpa using hr)

lemma replay_step_iff (ha : as[k]? = some a)
    (hk : replay (arriveAll H slot (s, base) (as.take k)) b = some (inSeqOrder b (as.take k))) :
    replay (arriveAll H slot (s, base) (as.take (k + 1))) b = some (inSeqOrder b (as.take (k + 1))) ↔
      NotOvertaken b ((as.take k).flatMap records) (accumulatorRecords (arriveAll H slot (s, base) (as.take k))) a := by
  obtain ⟨bo, bf, hb⟩ := h.addressed base b (Or.inl h.onDisk)
  obtain ⟨kept, hrep, hsub, hnone⟩ := replicaAt_take hH h hf hl k
  obtain ⟨kept', hrep', hkept⟩ := arrive_spec hH hb hrep (hf a (mem_of_getElem? ha)) (refresh_of_take_eq_nil hl ha hnone)
  have hsnoc : as.take (k + 1) = as.take k ++ [a] := by rw [take_add_one, ha, toList_some]
  have hstep : arriveAll H slot (s, base) (as.take (k + 1)) = arrive H slot (arriveAll H slot (s, base) (as.take k)) a := by
    rw [hsnoc, arriveAll, foldl_append]
    rfl
  have hrecs : (as.take (k + 1)).flatMap records = (as.take k).flatMap records ++ a.records := by
    rw [hsnoc, flatMap_append]
    simp
  have hseq : ∀ r ∈ a.records, r.1 = a.seq := fun r hr => fst_of_mem_patchRecords hr
  rw [hrep.replay_eq, inSeqOrder_eq, some.injEq] at hk
  rw [hstep, hrep'.replay_eq, inSeqOrder_eq, hrecs, some.injEq, getD_some, hrep.accumulatorRecords_eq]
  rcases hkept with ⟨rfl, hno⟩ | rfl
  · -- an elided patch writes what is there, wherever it would come in the order
    refine iff_of_true ?_ ?_
    · rw [hk] at hno ⊢
      refine (overlay_append_block_eq_self b _ hseq ?_ ?_).symm
      · rw [records, patchRecords_map_snd]
        exact extent_le_of_isNoop hno
      · intro i v hv
        rw [records, patchRecords_map_snd] at hv
        exact getD_of_isNoop hno hv
    · exact fun i v hv _ => .inr (getD_of_isNoop hno hv)
  · have hiff := overlay_append_block_eq_iff b (kept.getD []) hseq hsub hk
    rw [records, patchRecords_map_snd] at hiff
    exact hiff

lemma replaysInSeqOrder_iff : ReplaysInSeqOrder H slot s base b as ↔ NeverOvertaken H slot s base b as := by
  constructor
  · intro hr k a ha
    have hlt : k < as.length := (List.getElem?_eq_some_iff.1 ha).1
    exact (replay_step_iff hH h hf hl ha (hr k hlt.le)).1 (hr (k + 1) hlt)
  · intro hn k
    induction k with
    | zero => exact fun _ => h.replicaAt.replay_eq
    | succ k ih =>
      intro hk
      have ha := getElem?_eq_getElem (show k < as.length from hk)
      exact (replay_step_iff hH h hf hl ha (ih (by omega))).2 (hn k _ ha)

end

/-- Two replicas replay in the order of sequences, after each arrival and to the same bytes, exactly when no arrival
is overtaken on either. -/
theorem replicas_replay_in_seq_order_iff (hH : H.CollisionFree) {s₁ s₂ : Node Id} (h₁ : StartsAt H s₁ slot base b)
    (h₂ : StartsAt H s₂ slot base b) (as bs : List (Arrival Id)) (hd : (as.map Arrival.seq).Nodup)
    (hperm : (as.map Arrival.patch).Perm (bs.map Arrival.patch)) (hfa : ∀ a ∈ as, a.env.NoFault)
    (hfb : ∀ a ∈ bs, a.env.NoFault) (hla : ∀ a ∈ as.head?, s₁.refreshSlotFromLeader a.env.leader slot base = none)
    (hlb : ∀ a ∈ bs.head?, s₂.refreshSlotFromLeader a.env.leader slot base = none) :
    (ReplaysInSeqOrder H slot s₁ base b as ∧ ReplaysInSeqOrder H slot s₂ base b bs ∧
        replay (arriveAll H slot (s₁, base) as) b = replay (arriveAll H slot (s₂, base) bs) b) ↔
      NeverOvertaken H slot s₁ base b as ∧ NeverOvertaken H slot s₂ base b bs := by
  rw [← replaysInSeqOrder_iff hH h₁ hfa hla, ← replaysInSeqOrder_iff hH h₂ hfb hlb]
  refine ⟨fun h => ⟨h.1, h.2.1⟩, fun h => ⟨h.1, h.2, ?_⟩⟩
  have hend₁ := h.1 as.length le_rfl
  have hend₂ := h.2 bs.length le_rfl
  rw [take_length] at hend₁ hend₂
  rw [hend₁, hend₂, inSeqOrder_eq_of_perm b hd hperm]

lemma neverOvertaken_of_kept (h : ∀ k < as.length, accumulatorRecords (arriveAll H slot (s, base) (as.take k))
      = (as.take k).flatMap records) : NeverOvertaken H slot s base b as := by
  intro k a ha i v _ hc
  rw [h k (List.getElem?_eq_some_iff.1 ha).1]
  exact .inl hc

/-! ## An elided patch overtaken -/

def quietArrival (seq : Fin 256) (v : UInt8) : Arrival FreeId :=
  ⟨seq, [(0, [v])], 0, PatchEnv.quiet 1, .none, by have := seq.isLt; omega, by simp⟩

lemma quietArrival_noFault : ∀ a ∈ l.map (fun p => quietArrival p.1 p.2), a.env.NoFault := by
  intro a ha f
  obtain ⟨p, -, rfl⟩ := mem_map.1 ha
  rfl

abbrev byteReplica : Node FreeId := Node.holding freeHash (7, 0) [0] 1 none

lemma refreshSlotFromLeader_byteReplica : ∀ a ∈ (l.map (fun p => quietArrival p.1 p.2)).head?,
      byteReplica.refreshSlotFromLeader a.env.leader (7, 0) (.content [0] 0 7) = none := by
  intro a ha
  obtain ⟨p, -, rfl⟩ := mem_map.1 (mem_of_mem_head? ha)
  exact refreshSlotFromLeader_holding freeHash (7, 0) [0] 1 none

theorem replicas_replay_in_seq_order_swapped :
    replay (arriveAll freeHash (7, 0) (byteReplica, .content [0] 0 7) [quietArrival 1 1, quietArrival 2 2]) [0]
      = replay (arriveAll freeHash (7, 0) (byteReplica, .content [0] 0 7) [quietArrival 2 2, quietArrival 1 1]) [0] :=
  ((replicas_replay_in_seq_order_iff freeHash_collisionFree (startsAt_holding freeHash (7, 0) [0] 1 none)
    (startsAt_holding freeHash (7, 0) [0] 1 none) [quietArrival 1 1, quietArrival 2 2] [quietArrival 2 2, quietArrival 1 1]
    (by decide) (List.Perm.swap ..) (quietArrival_noFault (l := [(1, 1), (2, 2)]))
    (quietArrival_noFault (l := [(2, 2), (1, 1)])) (refreshSlotFromLeader_byteReplica (l := [(1, 1), (2, 2)]))
    (refreshSlotFromLeader_byteReplica (l := [(2, 2), (1, 1)]))).2
    ⟨neverOvertaken_of_kept (by decide +kernel), neverOvertaken_of_kept (by decide +kernel)⟩).2.2

/-- Patch 3 writes the byte patch 1 left and is elided, so on replay patch 2 comes last. -/
theorem elided_patch_overtaken : StartsAt freeHash byteReplica (7, 0) (.content [0] 0 7) [0] ∧
      replay (arriveAll freeHash (7, 0) (byteReplica, .content [0] 0 7)
        [quietArrival 1 1, quietArrival 3 1, quietArrival 2 2]) [0] = some [2] ∧
      replay (arriveAll freeHash (7, 0) (byteReplica, .content [0] 0 7)
        [quietArrival 1 1, quietArrival 2 2, quietArrival 3 1]) [0] = some [1] ∧
      inSeqOrder [0] [quietArrival 1 1, quietArrival 3 1, quietArrival 2 2] = [1] :=
  ⟨startsAt_holding freeHash (7, 0) [0] 1 none, by decide +kernel, by decide +kernel, by decide +kernel⟩

end Dfs
