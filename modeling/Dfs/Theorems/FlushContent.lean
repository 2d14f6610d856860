import Dfs.Lemmas.FlushEffect

/-! # What a flush leaves of the chunk -/

namespace Dfs

open Overlay Runs List Option Client FlushView

/-- It reaches as far as both, with the byte written last at every place, else that of `before`. -/
structure Overlaid (before : Bytes) (ws : Extents) (after : Bytes) : Prop where
  base : before.length ≤ after.length
  written : ∀ i, (lastAt ws i).isSome → i < after.length
  elems : ∀ i, after.getD i default = (lastAt ws i).getD (before.getD i default)

variable {data : Bytes} {start stop : Nat} {ranges : List (Nat × Nat)}

lemma getElem?_slice {i : Nat} (hstart : start ≤ i) (hstop : i < stop) : (slice data start stop)[i - start]? = data[i]? := by
  rw [slice, getElem?_drop, getElem?_take, if_pos (by omega)]
  congr 1
  omega

lemma length_slice (hstop : stop ≤ data.length) : (slice data start stop).length = stop - start := by
  rw [slice, length_drop, length_take]
  omega

lemma lastAt_slices (hvalid : ∀ r ∈ ranges, r.1 < r.2 ∧ r.2 ≤ data.length) (i : Nat) :
    lastAt (ranges.map (fun r => (r.1, slice data r.1 (min r.2 data.length)))) i
      = if ∃ r ∈ ranges, r.1 ≤ i ∧ i < r.2 then some (data.getD i default) else none := by
  induction ranges with
  | nil => simp [lastAt]
  | cons r ranges ih =>
    obtain ⟨hlt, hle⟩ := hvalid r (by simp)
    rw [map_cons, lastAt, ih (fun r hr => hvalid r (mem_cons_of_mem _ hr)), min_eq_left hle]
    have helem : elemIn (r.1, slice data r.1 r.2) i = if r.1 ≤ i ∧ i < r.2 then some (data.getD i default) else none := by
      split
      · rename_i hin
        rw [elemIn, if_pos hin.1, getElem?_slice hin.1 hin.2, getD_eq_getElem?_getD, getElem?_eq_getElem (by omega)]
        rfl
      rename_i hout
      rw [elemIn_eq_none_iff, length_slice hle]
      dsimp only
      omega
    rw [helem]
    simp only [mem_cons, exists_eq_or_imp]
    by_cases hin : r.1 ≤ i ∧ i < r.2
    · by_cases htail : ∃ r ∈ ranges, r.1 ≤ i ∧ i < r.2
      · rw [if_pos hin, if_pos htail, if_pos (Or.inl hin)]
        rfl
      rw [if_pos hin, if_neg htail, if_pos (Or.inl hin)]
      rfl
    by_cases htail : ∃ r ∈ ranges, r.1 ≤ i ∧ i < r.2
    · rw [if_neg hin, if_pos htail, if_pos (Or.inr htail)]
      rfl
    rw [if_neg hin, if_neg htail, if_neg (not_or.2 ⟨hin, htail⟩)]
    rfl

lemma applyReconstruction_eq {base : Bytes} (hvalid : ∀ r ∈ ranges, r.1 < r.2 ∧ r.2 ≤ data.length) :
    applyReconstruction base data ranges = overlay (resize base (max data.length base.length))
      (ranges.map (fun r => (r.1, slice data r.1 (min r.2 data.length)))) := by
  have hlen : data.length ≤ (resize base (max data.length base.length)).length := by simp
  unfold applyReconstruction
  generalize resize base (max data.length base.length) = buf at hlen
  induction ranges generalizing buf with
  | nil => rfl
  | cons r ranges ih =>
    obtain ⟨hlt, hle⟩ := hvalid r (by simp)
    have hmin : min r.2 buf.length = r.2 := by omega
    have hfit : r.1 + (slice data r.1 r.2).length ≤ buf.length := by
      rw [length_slice hle]
      omega
    rw [foldl_cons, map_cons, overlay_cons, min_eq_left hle]
    dsimp only
    rw [hmin, if_pos hlt, copyAt_eq_writeAt hfit]
    refine ih (fun r hr => hvalid r (mem_cons_of_mem _ hr)) _ ?_
    rw [length_writeAt]
    omega

variable {Id : Type} [DecidableEq Id] {c : Client Id} {env : FlushEnv Id} {ws : Extents}

def ChunkSlot.dirtyData (slot : ChunkSlot Id) : Extents :=
  slot.dirtyRanges.map (fun r => (r.1, FlushView.slice slot.materialize r.1 (min r.2 slot.materialize.length)))

omit [DecidableEq Id] in
lemma lastAt_dirtyData (h : c.shard.slot.Holds ws) (i : Nat) : lastAt c.shard.slot.dirtyData i = lastAt ws i := by
  obtain ⟨hlen, hbytes⟩ := h.materialize
  rw [ChunkSlot.dirtyData, lastAt_slices (fun r hr => by rw [hlen]; exact h.valid r hr), hbytes]
  have hcovers := h.dirty i
  cases hlast : lastAt ws i with
  | none => exact if_neg (fun hc => by rw [hlast] at hcovers; exact Bool.false_ne_true (hcovers.1 hc))
  | some b => exact if_pos (hcovers.2 (by rw [hlast]; rfl))

omit [DecidableEq Id] in
lemma overlaid_patches (h : c.shard.slot.Holds ws) (hws : c.shard.slot.dirtyRanges ≠ []) (before : Bytes) :
    Overlaid before ws (overlay before (c.slotView env).patches) := by
  have hpatches : (c.slotView env).patches = c.shard.slot.dirtyData :=
    if_neg (fun hempty => hws (isEmpty_iff.1 hempty))
  rw [hpatches]
  refine ⟨?_, fun i hi => ?_, fun i => ?_⟩
  · rw [length_overlay]
    exact le_max_left ..
  · rw [← lastAt_dirtyData h, isSome_iff_ne_none] at hi
    rw [length_overlay]
    exact lt_of_lt_of_le (lt_extent_of_lastAt hi) (le_max_right ..)
  · rw [getD_overlay, lastAt_dirtyData h]

variable (env) in
omit [DecidableEq Id] in
lemma freshData_spec (h : c.shard.slot.Holds ws) (base : Option Bytes) :
    ((c.slotView env).freshData base).length = max (base.getD []).length c.shard.slot.spanEnd ∧
      ∀ i, ((c.slotView env).freshData base).getD i default
        = (lastAt ws i).getD ((base.getD []).getD i default) := by
  obtain ⟨hlen, hbytes⟩ := h.materialize
  cases base with
  | none =>
    refine ⟨?_, fun i => ?_⟩
    · rw [getD_none, length_nil, Nat.zero_max]
      exact hlen
    · rw [getD_none, getD_nil]
      exact hbytes i
  | some base =>
    have hvalid : ∀ r ∈ c.shard.slot.dirtyRanges, r.1 < r.2 ∧ r.2 ≤ c.shard.slot.materialize.length := fun r hr => by
      rw [hlen]
      exact h.valid r hr
    have hfresh : (c.slotView env).freshData (some base)
        = overlay (resize base (max c.shard.slot.materialize.length base.length)) c.shard.slot.dirtyData :=
      applyReconstruction_eq hvalid
    rw [hfresh, getD_some]
    refine ⟨?_, fun i => ?_⟩
    · have hextent : extent c.shard.slot.dirtyData ≤ c.shard.slot.spanEnd := by
        refine extent_le_of_forall (fun x hx => ?_)
        obtain ⟨r, hr, rfl⟩ := mem_map.1 hx
        have hin := hvalid r hr
        rw [stop, min_eq_left hin.2, length_slice hin.2]
        omega
      rw [length_overlay, length_resize, hlen]
      omega
    · rw [getD_overlay, lastAt_dirtyData h, getD_resize (le_max_right ..)]

omit [DecidableEq Id] in
lemma overlaid_freshData_iff (h : c.shard.slot.Holds ws) (base : Option Bytes) (before : Bytes) :
    Overlaid before ws ((c.slotView env).freshData base) ↔
      before.length ≤ max (base.getD []).length c.shard.slot.spanEnd ∧
        ∀ i, lastAt ws i = none → (base.getD []).getD i default = before.getD i default := by
  obtain ⟨hlen, hbytes⟩ := freshData_spec env h base
  constructor
  · intro ho
    refine ⟨hlen ▸ ho.base, fun i hi => ?_⟩
    have := ho.elems i
    rwa [hbytes, hi] at this
  · rintro ⟨hle, hsame⟩
    refine ⟨hlen.symm ▸ hle, fun i hi => ?_, fun i => ?_⟩
    · rw [hlen]
      rw [← h.dirty] at hi
      obtain ⟨r, hr, -, hlt⟩ := hi
      have := (h.valid r hr).2
      omega
    · rw [hbytes]
      cases hi : lastAt ws i with
      | none => exact hsame i hi
      | some b => rfl

/-- After success the chunk has the writes over what it had, after a failure what it had. -/
def Client.ChangesOnlyWritten (c : Client Id) (ws : Extents) : Client Id × Except FlushError Unit → Prop
  | (c', .ok _) => ∃ after, c'.server = some after ∧ Overlaid (c.server.getD []) ws after
  | (c', .error _) => c'.server = c.server

/-- A flush changes only what was written just when no fresh write it comes down to stops short of the chunk or has a
base that differs from it where nothing was written. -/
theorem flush_changes_only_written_iff (c : Client Id) (env : FlushEnv Id) {ws : Extents}
    (hholds : c.shard.slot.Holds ws) (hws : ∃ w ∈ ws, w.2 ≠ []) :
    c.ChangesOnlyWritten ws (c.flushSlot env) ↔
      ∀ base, c.FreshFrom env (c.slotView env) base →
        (c.slotView env).realDataFound env = none → env.write.isSome = true →
          (c.server.getD []).length ≤ max (base.getD []).length c.shard.slot.spanEnd ∧
            ∀ i, lastAt ws i = none → (base.getD []).getD i default = (c.server.getD []).getD i default := by
  have hdirty : c.shard.slot.dirtyRanges ≠ [] := by
    obtain ⟨w, hw, hne⟩ := hws
    exact hholds.dirtyRanges_ne_nil hw hne
  rcases flush_server c env with ⟨hsent, hok, hserver⟩ | ⟨base, hfresh, hfound, hwrite, hok, hserver⟩ |
    ⟨-, hno, ⟨e, herr⟩, hserver⟩
  · -- sent as a patch: both sides hold
    generalize c.flushSlot env = r at hok hserver
    obtain ⟨c', res⟩ := r
    obtain rfl : res = .ok () := hok
    exact ⟨fun _ base hfresh => absurd hfresh (hsent.not_freshFrom base), fun _ => ⟨_, hserver, overlaid_patches hholds hdirty _⟩⟩
  · -- written fresh: the condition on the base is the claim
    generalize c.flushSlot env = r at hok hserver
    obtain ⟨c', res⟩ := r
    obtain rfl : res = .ok () := hok
    constructor
    · rintro ⟨after, hafter, hover⟩ base' hfresh' - -
      obtain rfl := hfresh.unique hfresh'
      obtain rfl := some.inj (hafter.symm.trans hserver)
      exact (overlaid_freshData_iff hholds _ _).1 hover
    · intro hcond
      exact ⟨_, hserver, (overlaid_freshData_iff hholds _ _).2 (hcond base hfresh hfound hwrite)⟩
  · -- failed: both sides hold
    generalize c.flushSlot env = r at herr hserver
    obtain ⟨c', res⟩ := r
    obtain rfl : res = .error e := herr
    exact ⟨fun _ base hfresh hfound hwrite => absurd ⟨hfound, hwrite⟩ (hno base hfresh), fun _ => hserver⟩

def Client.firstWrite : Client Nat := (Client.opened true).writeAll [⟨0, [1, 2], 1⟩]

def Client.rewritten : Client Nat := (Client.firstWrite.flushOneChunk (.onlyWrites ⟨5, 2⟩) []).1.writeAll [⟨0, [9], 2⟩]

lemma holds_firstWrite : firstWrite.shard.slot.Holds [(0, [1, 2])] := by
  have hnew : (opened true : Client Nat).shard.slot.Holds [] := holds_new 0
  exact hnew.writeAll [⟨0, [1, 2], 1⟩]

lemma holds_rewritten : rewritten.shard.slot.Holds [(0, [9])] := by
  have hdropped : (firstWrite.flushOneChunk (.onlyWrites ⟨5, 2⟩) []).1.shard.slot = ChunkSlot.new 0 := by decide +kernel
  have hnew : (firstWrite.flushOneChunk (.onlyWrites ⟨5, 2⟩) []).1.shard.slot.Holds [] := by
    rw [hdropped]
    exact holds_new 0
  exact hnew.writeAll [⟨0, [9], 2⟩]

theorem first_flush_changes_only_written : Client.firstWrite.ChangesOnlyWritten [(0, [1, 2])]
      (Client.firstWrite.flushSlot (.onlyWrites ⟨5, 2⟩)) := by
  refine (flush_changes_only_written_iff _ _ holds_firstWrite ⟨(0, [1, 2]), by decide, by decide⟩).2 ?_
  intro base hfresh _ _
  have hneeds : (firstWrite.slotView (.onlyWrites ⟨5, 2⟩)).needsPatch = false := by
    decide +kernel
  cases hfresh with
  | unpatched => exact ⟨Nat.zero_le _, fun i _ => rfl⟩
  | replacement h => exact absurd (h.needs.symm.trans hneeds) (by decide)
  | reconstructed h => exact absurd (h.needs.symm.trans hneeds) (by decide)

/-- `O_TRUNC` still counts after the first flush, the lookup fails, and the second flush makes the other byte zero. -/
theorem truncated_session_zeroes_a_byte : Client.rewritten.shard.slot.Holds [(0, [9])] ∧ Client.rewritten.server = some [1, 2] ∧
      (Client.rewritten.flushSlot (.onlyWrites ⟨6, 2⟩)).1.server = some [9, 0] ∧
      ¬Client.rewritten.ChangesOnlyWritten [(0, [9])]
        (Client.rewritten.flushSlot (.onlyWrites ⟨6, 2⟩)) := by
  have hbefore : rewritten.server = some [1, 2] := by decide +kernel
  have hok : (rewritten.flushSlot (.onlyWrites ⟨6, 2⟩)).2.toBool = true := by
    decide +kernel
  have hafter : (rewritten.flushSlot (.onlyWrites ⟨6, 2⟩)).1.server
      = some [9, 0] := by decide +kernel
  refine ⟨holds_rewritten, hbefore, hafter, ?_⟩
  generalize rewritten.flushSlot (.onlyWrites ⟨6, 2⟩) = r at hok hafter
  obtain ⟨c', _ | _⟩ := r
  · cases hok
  rintro ⟨after, hserver, hover⟩
  obtain rfl := some.inj (hserver.symm.trans hafter)
  have := hover.elems 1
  rw [hbefore] at this
  exact absurd this (by decide)

end Dfs
