import Dfs.Client.WriteBuffer
import Mathlib.Algebra.BigOperators.Group.List.Basic

/-!
# The write buffer is a byte array

`write_at` calls leave in each slot what the writes on zeros leave, tied together by the byte written last at each place
(`ChunkSlot.Tracks`).
-/

namespace Dfs

open Overlay Runs List Function Option ChunkSlot

variable {Id : Type}

/-! ## One slot -/

structure ChunkSlot.Tracks (slot : ChunkSlot Id) (bytes : Nat → Option UInt8) : Prop where
  held : ∃ ws, slot.Holds ws ∧ ∀ i, lastAt ws i = bytes i
  ne_nil : ∀ r ∈ slot.extents, r.2 ≠ []
  dirty_separated : Runs.Separated Prod.fst Prod.snd slot.dirtyRanges
  gap_le : ∀ i, bytes i ≠ none → slot.gapFilledPrefix ≤ i
  gap_span : slot.gapFilledPrefix < slot.spanEnd ∨ slot.gapFilledPrefix = 0 ∧ slot.spanEnd = 0
  lt_end : ∀ i, bytes i ≠ none → i < slot.realDataEnd
  at_end : slot.realDataEnd = 0 ∨ bytes (slot.realDataEnd - 1) ≠ none
  end_le : slot.realDataEnd ≤ slot.spanEnd
  span_le : slot.spanEnd ≤ chunkSize

lemma tracks_new (now : Nat) : (new now : ChunkSlot Id).Tracks fun _ => none where
  held := ⟨[], holds_new now, fun _ => rfl⟩
  ne_nil := by simp [new]
  dirty_separated := List.Pairwise.nil
  gap_le := fun _ h => absurd rfl h
  gap_span := .inr ⟨rfl, rfl⟩
  lt_end := fun _ h => absurd rfl h
  at_end := .inl rfl
  end_le := le_rfl
  span_le := Nat.zero_le _

lemma ChunkSlot.gapFilledPrefix_put (slot : ChunkSlot Id) (intra : Nat) (data : Bytes) (now : Nat) :
    ((slot.extendTo intra).put intra data now).gapFilledPrefix ≤ intra ∧
      (((slot.extendTo intra).put intra data now).gapFilledPrefix ≤ slot.gapFilledPrefix ∨
        slot.gapFilledPrefix = slot.spanEnd) := by
  simp only [put, extendTo]
  split_ifs <;> simp_all <;> omega

variable {cs : ChunkShardState Id} {r : Nat × Nat} {other : Nat}

namespace ChunkSlot.Tracks

variable {slot : ChunkSlot Id} {bytes : Nat → Option UInt8}

section

variable (h : slot.Tracks bytes)

include h

lemma abandoned : ({ slot with abandoned := true } : ChunkSlot Id).Tracks bytes := by
  obtain ⟨ws, hholds, hlast⟩ := h.held
  exact { h with held := ⟨ws, hholds.congr rfl rfl le_rfl, hlast⟩ }

lemma extents_eq (i : Nat) : lastAt slot.extents i = bytes i := by
  obtain ⟨ws, hholds, hlast⟩ := h.held
  rw [hholds.elems, hlast]

lemma separated : Runs.Separated Prod.fst stop slot.extents := by
  obtain ⟨ws, hholds, -⟩ := h.held
  exact hholds.separated

lemma stop_le {r : Nat × Bytes} (hr : r ∈ slot.extents) : stop r ≤ slot.spanEnd := by
  obtain ⟨ws, hholds, -⟩ := h.held
  exact hholds.bound r hr

lemma dirty_iff (i : Nat) : Covers Prod.fst Prod.snd slot.dirtyRanges i ↔ bytes i ≠ none := by
  obtain ⟨ws, hholds, hlast⟩ := h.held
  rw [hholds.dirty, hlast, isSome_iff_ne_none]

lemma dirty_valid (hr : r ∈ slot.dirtyRanges) : r.1 < r.2 := by
  obtain ⟨ws, hholds, -⟩ := h.held
  exact (hholds.valid r hr).1

lemma resident_eq : slot.resident = ((Finset.range chunkSize).filter fun i => (bytes i).isSome).card := by
  have hcard := sum_length_eq_card h.separated (fun r hr => (h.stop_le hr).trans h.span_le)
  simp only [places, h.extents_eq] at hcard
  exact hcard

lemma put {intra : Nat} {data : Bytes} (hdata : data ≠ []) (hfit : intra + data.length ≤ chunkSize)
    (now : Nat) : ((slot.extendTo intra).put intra data now).Tracks fun i => (elemIn (intra, data) i).or (bytes i) := by
  obtain ⟨hextents, hdirty, hspan⟩ := slot.extendTo_eq intra
  have hpos := length_pos_iff.mpr hdata
  have hend := h.end_le
  have hle := h.span_le
  have hnew : ∀ i, elemIn (intra, data) i ≠ none ↔ intra ≤ i ∧ i < intra + data.length := fun i => by
    rw [← isSome_iff_ne_none, elemIn_isSome_iff, stop]
  have hor : ∀ i, (elemIn (intra, data) i).or (bytes i) ≠ none ↔ (intra ≤ i ∧ i < intra + data.length) ∨ bytes i ≠ none := by
    intro i
    rw [← hnew, ne_eq, or_eq_none_iff, not_and_or]
  have hreal : ((slot.extendTo intra).put intra data now).realDataEnd = max slot.realDataEnd (intra + data.length) := by
    simp only [ChunkSlot.put, extendTo]
    split <;> rfl
  have hspan' : ((slot.extendTo intra).put intra data now).spanEnd = max (max slot.spanEnd intra) (intra + data.length) := by
    rw [← hspan]
    rfl
  obtain ⟨hgap, hgrow⟩ := slot.gapFilledPrefix_put intra data now
  refine ⟨?_, ?_, ?_, ?_, ?_, ?_, ?_, ?_, ?_⟩
  · obtain ⟨ws, hholds, hlast⟩ := h.held
    have hext := hholds.congr hextents hdirty (hspan ▸ le_max_left ..)
    refine ⟨_, hext.put intra data now, fun i => ?_⟩
    rw [lastAt_append, hlast]
    simp [lastAt]
  · show ∀ r ∈ writeExtent (slot.extendTo intra).extents intra data, r.2 ≠ []
    rw [hextents]
    exact writeExtent_ne_nil h.ne_nil intra hdata
  · show Runs.Separated Prod.fst Prod.snd (markDirty (slot.extendTo intra).dirtyRanges intra (intra + data.length))
    rw [hdirty]
    exact separated_markDirty h.dirty_separated (fun r hr => (h.dirty_valid hr).le) ..
  · intro i hi
    rcases (hor i).mp hi with ⟨hlo, -⟩ | hold
    · exact hgap.trans hlo
    have hi := h.lt_end i hold
    have hgapi := h.gap_le i hold
    rcases hgrow with hgrow | hall
    · exact hgrow.trans hgapi
    -- a slot that is all prefix has no byte
    have := h.gap_span
    omega
  · left
    rw [hspan']
    omega
  · intro i hi
    rw [hreal]
    rcases (hor i).mp hi with ⟨-, hlt⟩ | hold
    · omega
    have := h.lt_end i hold
    omega
  · right
    rw [hreal, hor]
    rcases le_total slot.realDataEnd (intra + data.length) with hcase | hcase
    · rw [max_eq_right hcase]
      exact .inl ⟨by omega, by omega⟩
    rw [max_eq_left hcase]
    exact .inr (h.at_end.resolve_left (by omega))
  · rw [hreal, hspan']
    omega
  · rw [hspan']
    omega

end

lemma writeAt (h : cs.slot.Tracks bytes) (hflushed : cs.flushedSize = 0) {intra : Nat} {data : Bytes} (hdata : data ≠ [])
    (hfit : intra + data.length ≤ chunkSize) (now : Nat) :
    (cs.writeAt intra data now).1.slot.Tracks fun i => (elemIn (intra, data) i).or (bytes i) := by
  have hseeded : cs.seeded = cs.slot := by simp [ChunkShardState.seeded, hflushed]
  have hput := h.put hdata hfit now
  rw [← hseeded] at hput
  exact hput

lemma resident_writeAt (h : cs.slot.Tracks bytes) (hflushed : cs.flushedSize = 0) {intra : Nat} {data : Bytes}
    (hdata : data ≠ []) (hfit : intra + data.length ≤ chunkSize) (now : Nat) :
    (cs.writeAt intra data now).1.slot.resident = cs.slot.resident + (cs.writeAt intra data now).2.2 := by
  have hgrow : cs.slot.resident ≤ (cs.writeAt intra data now).1.slot.resident := by
    rw [h.resident_eq, (h.writeAt hflushed hdata hfit now).resident_eq]
    refine Finset.card_le_card (Finset.monotone_filter_right _ fun i _ hi => ?_)
    rw [isSome_or, hi, Bool.or_true]
  show _ = cs.slot.resident + ((cs.writeAt intra data now).1.slot.resident - cs.slot.resident)
  omega

end ChunkSlot.Tracks

/-! ## The slots of a buffer -/

variable (file : Nat → Option UInt8)

def slotBytes (idx i : Nat) : Option UInt8 := if i < chunkSize then file (idx * chunkSize + i) else none

def overwritten (r : Nat × Bytes) (i : Nat) : Option UInt8 := (elemIn r i).or (file i)

lemma slotBytes_overwritten_self (idx : Nat) {intra : Nat} {data : Bytes} (hfit : intra + data.length ≤ chunkSize) :
    slotBytes (overwritten file (idx * chunkSize + intra, data)) idx = fun i => (elemIn (intra, data) i).or
      (slotBytes file idx i) := by
  funext i
  unfold slotBytes overwritten
  split
  · have hshift : elemIn (idx * chunkSize + intra, data) (idx * chunkSize + i) = elemIn (intra, data) i := by
      have hsub : elemIn (idx * chunkSize + intra - idx * chunkSize, data) (idx * chunkSize + i - idx * chunkSize)
          = elemIn (idx * chunkSize + intra, data) (idx * chunkSize + i) :=
        elemIn_sub (r := (idx * chunkSize + intra, data)) (Nat.le_add_right ..) (Nat.le_add_right ..)
      rw [← hsub, Nat.add_sub_cancel_left, Nat.add_sub_cancel_left]
    rw [hshift]
  · have hnone : elemIn (intra, data) i = none := (elemIn_eq_none_iff _ _).mpr (Or.inr (by dsimp only; omega))
    rw [hnone, none_or]

lemma slotBytes_overwritten_of_ne {idx : Nat} (hne : other ≠ idx) {intra : Nat} {data : Bytes}
    (hfit : intra + data.length ≤ chunkSize) :
    slotBytes (overwritten file (idx * chunkSize + intra, data)) other = slotBytes file other := by
  funext i
  unfold slotBytes overwritten
  split
  · have hnone : elemIn (idx * chunkSize + intra, data) (other * chunkSize + i) = none := by
      rw [elemIn_eq_none_iff]
      unfold chunkSize at *
      dsimp only
      omega
    rw [hnone, none_or]
  · rfl

/-- In step with the bytes written last at the places of the file. -/
structure InodeWriteBuffer.Tracks (b : InodeWriteBuffer Id) (file : Nat → Option UInt8) : Prop where
  slots : ∀ idx cs, b.chunks idx = some cs → cs.slot.Tracks (slotBytes file idx)
  flushed : ∀ idx cs, b.chunks idx = some cs → cs.flushedSize = 0
  written : ∀ idx cs, b.chunks idx = some cs → 0 < cs.slot.realDataEnd
  untouched : ∀ idx, b.chunks idx = none → slotBytes file idx = fun _ => none
  active : ∀ idx, idx ∈ b.activeChunks ↔ b.chunks idx ≠ none
  nodup : b.activeChunks.Nodup

lemma chunks_new (idx : Nat) (cs : ChunkShardState Id) : (InodeWriteBuffer.new : InodeWriteBuffer Id).chunks idx ≠ some cs := by
  simp [InodeWriteBuffer.new]

lemma tracks_empty : (InodeWriteBuffer.new : InodeWriteBuffer Id).Tracks fun _ => none where
  slots := fun idx cs h => absurd h (chunks_new idx cs)
  flushed := fun idx cs h => absurd h (chunks_new idx cs)
  written := fun idx cs h => absurd h (chunks_new idx cs)
  untouched := fun idx _ => funext fun i => ite_self none
  active := fun idx => by simp [InodeWriteBuffer.new]
  nodup := nodup_nil

namespace InodeWriteBuffer

variable {b : InodeWriteBuffer Id} {file : Nat → Option UInt8}

lemma chunks_leavePrevious (b : InodeWriteBuffer Id) (idx other : Nat) :
    (b.leavePrevious idx).1.chunks other = b.chunks other ∨ ∃ cs, b.chunks other = some cs ∧
      (b.leavePrevious idx).1.chunks other = some { cs with slot := { cs.slot with abandoned := true } } := by
  unfold leavePrevious
  dsimp only
  split
  · exact .inl rfl
  rename_i prev _
  split
  · exact .inl rfl
  split
  · exact .inl rfl
  rename_i cs hcs
  split
  · by_cases hother : other = prev
    · subst hother
      exact .inr ⟨cs, hcs, update_self ..⟩
    · exact .inl (update_of_ne hother ..)
  · exact .inl rfl

lemma activeChunks_leavePrevious (b : InodeWriteBuffer Id) (idx : Nat) :
    (b.leavePrevious idx).1.activeChunks = b.activeChunks := by
  unfold leavePrevious
  dsimp only
  split
  · rfl
  split
  · rfl
  split
  · rfl
  · split <;> rfl

def residentAt (b : InodeWriteBuffer Id) (idx : Nat) : Nat := ((b.chunks idx).map (·.slot.resident)).getD 0

lemma residentBytes_eq (b : InodeWriteBuffer Id) : b.residentBytes = (b.activeChunks.map b.residentAt).sum := by
  unfold residentBytes residentAt
  induction b.activeChunks with
  | nil => rfl
  | cons idx l ih =>
    rw [filterMap_cons, map_cons, sum_cons, ← ih]
    cases b.chunks idx with
    | none => simp
    | some cs => simp

lemma residentAt_leavePrevious (b : InodeWriteBuffer Id) (idx : Nat) : (b.leavePrevious idx).1.residentAt = b.residentAt := by
  funext other
  unfold residentAt
  rcases chunks_leavePrevious b idx other with hsame | ⟨cs, hcs, hmarked⟩
  · rw [hsame]
  rw [hmarked, hcs]
  rfl

lemma Tracks.leavePrevious (h : b.Tracks file) (idx : Nat) : (b.leavePrevious idx).1.Tracks file := by
  have hslot : ∀ other cs', (b.leavePrevious idx).1.chunks other = some cs' → ∃ cs, b.chunks other = some cs ∧
      (cs' = cs ∨ cs' = { cs with slot := { cs.slot with abandoned := true } }) := by
    intro other cs' hcs'
    rcases chunks_leavePrevious b idx other with hsame | ⟨cs, hcs, hmarked⟩
    · exact ⟨cs', hsame ▸ hcs', .inl rfl⟩
    · exact ⟨cs, hcs, .inr (some.inj (hcs'.symm.trans hmarked))⟩
  have hnone : ∀ other, (b.leavePrevious idx).1.chunks other = none ↔ b.chunks other = none := by
    intro other
    rcases chunks_leavePrevious b idx other with hsame | ⟨cs, hcs, hmarked⟩
    · rw [hsame]
    · simp [hcs, hmarked]
  refine ⟨?_, ?_, ?_, ?_, ?_, ?_⟩
  · intro other cs' hcs'
    obtain ⟨cs, hcs, rfl | rfl⟩ := hslot other cs' hcs'
    · exact h.slots other _ hcs
    · exact (h.slots other cs hcs).abandoned
  · intro other cs' hcs'
    obtain ⟨cs, hcs, rfl | rfl⟩ := hslot other cs' hcs'
    · exact h.flushed other _ hcs
    · exact h.flushed other cs hcs
  · intro other cs' hcs'
    obtain ⟨cs, hcs, rfl | rfl⟩ := hslot other cs' hcs'
    · exact h.written other _ hcs
    · exact h.written other cs hcs
  · intro other hother
    exact h.untouched other ((hnone other).mp hother)
  · intro other
    rw [activeChunks_leavePrevious, h.active, ne_eq, ne_eq, hnone]
  · rw [activeChunks_leavePrevious]
    exact h.nodup

lemma Tracks.chunkEntry (h : b.Tracks file) (idx now : Nat) :
    (b.chunkEntry idx now).slot.Tracks (slotBytes file idx) ∧ (b.chunkEntry idx now).flushedSize = 0 ∧
      (b.chunkEntry idx now).slot.resident = b.residentAt idx := by
  unfold InodeWriteBuffer.chunkEntry residentAt
  cases hcs : b.chunks idx with
  | none =>
    rw [h.untouched idx hcs]
    exact ⟨tracks_new now, rfl, rfl⟩
  | some cs => exact ⟨h.slots idx cs hcs, h.flushed idx cs hcs, rfl⟩

lemma writePart_eq (b : InodeWriteBuffer Id) (idx intra : Nat) (data : Bytes) (now : Nat) :
    (b.writePart idx intra data now).1.chunks = update (b.leavePrevious idx).1.chunks idx
          (some (((b.leavePrevious idx).1.chunkEntry idx now).writeAt intra data now).1) ∧
      (b.writePart idx intra data now).1.activeChunks = (if idx ∈ b.activeChunks then b.activeChunks else idx :: b.activeChunks) ∧
      (b.writePart idx intra data now).2.2 = (((b.leavePrevious idx).1.chunkEntry idx now).writeAt intra data now).2.2 := by
  rw [← activeChunks_leavePrevious b idx]
  exact ⟨rfl, rfl, rfl⟩

section Part

variable {idx intra : Nat} {data : Bytes}

lemma chunks_writePart_cases {now : Nat} (hcs : (b.writePart idx intra data now).1.chunks other = some cs) :
    (other = idx ∧ cs = (((b.leavePrevious idx).1.chunkEntry idx now).writeAt intra data now).1) ∨
      (other ≠ idx ∧ (b.leavePrevious idx).1.chunks other = some cs) := by
  rw [(writePart_eq b idx intra data now).1] at hcs
  by_cases hother : other = idx
  · subst hother
    rw [update_self] at hcs
    exact .inl ⟨rfl, (some.inj hcs).symm⟩
  rw [update_of_ne hother] at hcs
  exact .inr ⟨hother, hcs⟩

lemma Tracks.writePart (h : b.Tracks file) (hdata : data ≠ []) (hfit : intra + data.length ≤ chunkSize) (now : Nat) :
    (b.writePart idx intra data now).1.Tracks (overwritten file (idx * chunkSize + intra, data)) := by
  have hleft := h.leavePrevious idx
  obtain ⟨hslot, hflushed, -⟩ := hleft.chunkEntry idx now
  have hwritten := hslot.writeAt hflushed hdata hfit now
  obtain ⟨hchunks, hactive, -⟩ := writePart_eq b idx intra data now
  have hpos := length_pos_iff.mpr hdata
  refine ⟨?_, ?_, ?_, ?_, ?_, ?_⟩
  · intro other cs hcs
    rcases chunks_writePart_cases hcs with ⟨rfl, rfl⟩ | ⟨hother, hold⟩
    · rw [slotBytes_overwritten_self file other hfit]
      exact hwritten
    rw [slotBytes_overwritten_of_ne file hother hfit]
    exact hleft.slots other cs hold
  · intro other cs hcs
    rcases chunks_writePart_cases hcs with ⟨rfl, rfl⟩ | ⟨-, hold⟩
    · exact hflushed
    · exact hleft.flushed other cs hold
  · intro other cs hcs
    rcases chunks_writePart_cases hcs with ⟨rfl, rfl⟩ | ⟨-, hold⟩
    · have hend : intra + data.length ≤ ((((b.leavePrevious other).1.chunkEntry other now).writeAt intra data
        now).1).slot.realDataEnd :=
        le_max_right ..
      omega
    · exact hleft.written other cs hold
  · intro other hnone
    rw [hchunks] at hnone
    by_cases hother : other = idx
    · subst hother
      rw [update_self] at hnone
      cases hnone
    rw [update_of_ne hother] at hnone
    rw [slotBytes_overwritten_of_ne file hother hfit]
    exact hleft.untouched other hnone
  · intro other
    have hold := hleft.active other
    rw [activeChunks_leavePrevious] at hold
    rw [hactive, hchunks]
    by_cases hother : other = idx
    · subst hother
      rw [update_self]
      split <;> simp_all
    rw [update_of_ne hother, ← hold]
    split
    · rfl
    · simp [hother]
  · rw [hactive]
    split
    · exact h.nodup
    rename_i hnot
    exact nodup_cons.mpr ⟨hnot, h.nodup⟩

lemma Tracks.residentBytes_writePart (h : b.Tracks file) (hdata : data ≠ []) (hfit : intra + data.length ≤ chunkSize)
    (now : Nat) :
    (b.writePart idx intra data now).1.residentBytes = b.residentBytes + (b.writePart idx intra data now).2.2 := by
  obtain ⟨hslot, hflushed, hresident⟩ := (h.leavePrevious idx).chunkEntry idx now
  have hgrow := hslot.resident_writeAt hflushed hdata hfit now
  obtain ⟨hchunks, hactive, hadded⟩ := writePart_eq b idx intra data now
  rw [hresident, residentAt_leavePrevious] at hgrow
  have hself : (b.writePart idx intra data now).1.residentAt idx = b.residentAt idx + (b.writePart idx intra data now).2.2 := by
    rw [hadded, ← hgrow, residentAt, hchunks, update_self]
    rfl
  have hother : ∀ other ∈ b.activeChunks.erase idx, (b.writePart idx intra data now).1.residentAt other = b.residentAt other := by
    intro other hmem
    have hne : other ≠ idx := fun heq => h.nodup.not_mem_erase (heq ▸ hmem)
    rw [← residentAt_leavePrevious b idx, residentAt, hchunks, update_of_ne hne]
    rfl
  rw [residentBytes_eq, residentBytes_eq, hactive]
  by_cases hmem : idx ∈ b.activeChunks
  · rw [if_pos hmem, ← sum_map_erase _ hmem, ← sum_map_erase b.residentAt hmem, hself, map_congr_left hother]
    omega
  have hzero : b.residentAt idx = 0 := by
    have hnone : b.chunks idx = none := not_not.mp (mt (h.active idx).mpr hmem)
    rw [residentAt, hnone]
    rfl
  rw [erase_of_not_mem hmem] at hother
  rw [if_neg hmem, map_cons, sum_cons, hself, hzero, map_congr_left hother]
  omega

end Part

lemma writeAt_of_ne_nil (b : InodeWriteBuffer Id) (offset : Nat) {data : Bytes} (hdata : data ≠ []) (now : Nat → Nat) :
    let n := min data.length (chunkSize - intraOffset offset)
    let part := b.writePart (chunkIndex offset) (intraOffset offset) (data.take n) (now (chunkIndex offset))
    let rest := part.1.writeAt (offset + n) (data.drop n) now
    b.writeAt offset data now = (rest.1, part.2.1 || rest.2.1, part.2.2 + rest.2.2) := by
  rw [InodeWriteBuffer.writeAt, if_neg hdata]

lemma overwritten_split (file : Nat → Option UInt8) (offset : Nat) {data : Bytes} {n : Nat} (hn : n ≤ data.length) :
    overwritten (overwritten file (offset, data.take n)) (offset + n, data.drop n) = overwritten file (offset, data) := by
  funext i
  have happend := elemIn_append (offset, data.take n) (data.drop n) i
  simp only [stop, length_take, min_eq_left hn, take_append_drop] at happend
  unfold overwritten
  rw [happend, Option.or_assoc]

lemma Tracks.writeAt (h : b.Tracks file) (offset : Nat) (data : Bytes) (now : Nat → Nat) :
    (b.writeAt offset data now).1.Tracks (overwritten file (offset, data)) ∧
      (b.writeAt offset data now).1.residentBytes = b.residentBytes + (b.writeAt offset data now).2.2 := by
  induction hlen : data.length using Nat.strong_induction_on generalizing b file offset data with
  | _ len ih =>
    by_cases hdata : data = []
    · subst hdata
      have hsame : overwritten file (offset, []) = file := by
        funext i
        simp [overwritten, elemIn]
      rw [InodeWriteBuffer.writeAt, if_pos rfl, hsame]
      exact ⟨h, rfl⟩
    have hspace : intraOffset offset < chunkSize := Nat.mod_lt _ chunkSize_pos
    have hpos := length_pos_iff.mpr hdata
    rw [writeAt_of_ne_nil b offset hdata now]
    generalize hn : min data.length (chunkSize - intraOffset offset) = n
    have hlentake : (data.take n).length = n := by
      rw [length_take]
      omega
    have hpart : data.take n ≠ [] := length_pos_iff.mp (by omega)
    have hfit : intraOffset offset + (data.take n).length ≤ chunkSize := by omega
    have hplace : chunkIndex offset * chunkSize + intraOffset offset = offset := Nat.div_add_mod' ..
    generalize hidx : chunkIndex offset = idx at hplace ⊢
    have htracks : (b.writePart idx (intraOffset offset) (data.take n) (now idx)).1.Tracks _ := h.writePart hpart hfit (now idx)
    have hadded : (b.writePart idx (intraOffset offset) (data.take n) (now idx)).1.residentBytes = _ :=
      h.residentBytes_writePart hpart hfit (now idx)
    rw [hplace] at htracks
    have hless : (data.drop n).length < len := by
      rw [length_drop]
      omega
    obtain ⟨hrest, hgrown⟩ := ih _ hless htracks (offset + n) (data.drop n) rfl
    rw [overwritten_split file offset (by omega)] at hrest
    exact ⟨hrest, by rw [hgrown, hadded, Nat.add_assoc]⟩

lemma Tracks.writeAll (h : b.Tracks file) (ws : List BufferWrite) :
    (b.writeAll ws).1.Tracks (fun i => (lastAt (ws.map BufferWrite.range) i).or (file i)) ∧
      (b.writeAll ws).1.residentBytes = b.residentBytes + (b.writeAll ws).2 := by
  induction ws generalizing b file with
  | nil => exact ⟨h, rfl⟩
  | cons w ws ih =>
    obtain ⟨hone, hadded⟩ := h.writeAt w.offset w.data w.now
    obtain ⟨hall, hsum⟩ := ih hone
    have hlast : (fun i => (lastAt ((w :: ws).map BufferWrite.range) i).or (file i))
        = fun i => (lastAt (ws.map BufferWrite.range) i).or (overwritten file (w.offset, w.data) i) := by
      funext i
      rw [map_cons, lastAt, Option.or_assoc]
      rfl
    rw [hlast]
    refine ⟨hall, hsum.trans ?_⟩
    rw [hadded, Nat.add_assoc]
    rfl

end InodeWriteBuffer

/-! ## What the buffer holds -/

/-- A slot of a file that was written to in order. -/
structure ChunkSlot.Refines (slot : ChunkSlot Id) (ws : Extents) (idx : Nat) : Prop where
  /-- The slot as one buffer is the zero array overlaid with the writes, over the slot's span. -/
  materialize : slot.materialize = (List.range slot.spanEnd).map fun i => (overlay [] ws).getD (idx * chunkSize + i) 0
  dirty : ∀ i, Covers Prod.fst Prod.snd slot.dirtyRanges i ↔ i < chunkSize ∧ lastAt ws (idx * chunkSize + i) ≠ none
  /-- A read from a dirty place on has the bytes that were written last. -/
  read : ∀ i max, Covers Prod.fst Prod.snd slot.dirtyRanges i → ∃ data, slot.readAt i max = some data ∧ (0 < max → data ≠ []) ∧
    ∀ k < data.length, data[k]? = lastAt ws (idx * chunkSize + (i + k))
  read_none : ∀ i max, ¬Covers Prod.fst Prod.snd slot.dirtyRanges i → slot.readAt i max = none
  /-- The extents are sorted, disjoint and not adjacent. -/
  separated : slot.extents.Pairwise fun r r' => r.1 + r.2.length < r'.1
  ne_nil : ∀ r ∈ slot.extents, r.2 ≠ []
  ranges : slot.dirtyRanges = slot.extents.map fun r => (r.1, r.1 + r.2.length)
  gap_le : ∀ r ∈ slot.dirtyRanges, slot.gapFilledPrefix ≤ r.1
  /-- The greatest end of a dirty range. -/
  end_le : ∀ r ∈ slot.dirtyRanges, r.2 ≤ slot.realDataEnd
  end_mem : ∃ r ∈ slot.dirtyRanges, r.2 = slot.realDataEnd
  span : slot.realDataEnd ≤ slot.spanEnd ∧ slot.spanEnd ≤ chunkSize

namespace ChunkSlot.Tracks

variable {slot : ChunkSlot Id} {bytes : Nat → Option UInt8}

lemma materialize_eq (h : slot.Tracks bytes) : slot.materialize = (List.range slot.spanEnd).map fun i => (bytes i).getD 0 := by
  obtain ⟨ws, hholds, hlast⟩ := h.held
  obtain ⟨hlen, hget⟩ := hholds.materialize
  refine ext_getElem (by simpa using hlen) fun i hi hi' => ?_
  have hat := hget i
  rw [getD_eq_getElem _ _ hi, hlast] at hat
  rw [hat, getElem_map, getElem_range]
  rfl

lemma readAt_eq (h : slot.Tracks bytes) {i : Nat} (hi : bytes i ≠ none) (max : Nat) :
    ∃ data, slot.readAt i max = some data ∧ (0 < max → data ≠ []) ∧ ∀ k < data.length, data[k]? = bytes (i + k) := by
  rw [← h.extents_eq, ← isSome_iff_ne_none] at hi
  obtain ⟨r, hr, hlo, hhi⟩ := lastAt_isSome_iff.mp hi
  have hfind : (slot.extents.find? fun r => decide (r.1 ≤ i ∧ i < stop r)).isSome :=
    find?_isSome.mpr ⟨r, hr, by simpa using ⟨hlo, hhi⟩⟩
  obtain ⟨found, hfound⟩ := isSome_iff_exists.mp hfind
  have hmem := mem_of_find?_eq_some hfound
  obtain ⟨hlo, hhi⟩ : found.1 ≤ i ∧ i < stop found := by simpa using find?_some hfound
  refine ⟨_, by rw [readAt, hfound, map_some], ?_, ?_⟩
  · intro hmax
    unfold stop at hhi
    refine length_pos_iff.mp ?_
    simp only [length_take, length_drop]
    omega
  · intro k hk
    simp only [length_take, length_drop] at hk
    have hsome : (elemIn found (i + k)).isSome := elemIn_isSome_iff.mpr ⟨by omega, by unfold stop; omega⟩
    rw [← h.extents_eq, lastAt_of_mem h.separated hmem hsome, elemIn, if_pos (by omega), getElem?_take_of_lt (by omega),
      getElem?_drop]
    congr 1
    omega

lemma readAt_eq_none (h : slot.Tracks bytes) {i : Nat} (hi : bytes i = none) (max : Nat) : slot.readAt i max = none := by
  rw [← h.extents_eq, lastAt_eq_none_iff] at hi
  have hnone : (slot.extents.find? fun r => decide (r.1 ≤ i ∧ i < stop r)) = none := by
    refine find?_eq_none.mpr fun r hr hcov => ?_
    have hsome : (elemIn r i).isSome := elemIn_isSome_iff.mpr (by simpa using hcov)
    rw [hi r hr] at hsome
    cases hsome
  rw [readAt, hnone]
  rfl

lemma dirtyRanges_eq (h : slot.Tracks bytes) : slot.dirtyRanges = slot.extents.map fun r => (r.1, r.1 + r.2.length) := by
  have hunique : slot.dirtyRanges.map (fun r => (r.1, r.2)) = slot.extents.map (fun r => (r.1, stop r)) :=
    intervals_unique h.dirty_separated h.separated (fun r hr => h.dirty_valid hr)
      (fun r hr => Nat.lt_add_of_pos_right (length_pos_iff.mpr (h.ne_nil r hr)))
      (fun i => by rw [h.dirty_iff, ← h.extents_eq, ← isSome_iff_ne_none, lastAt_isSome_iff])
  simpa [stop] using hunique

lemma dirty_last (h : slot.Tracks bytes) (hr : r ∈ slot.dirtyRanges) : bytes (r.2 - 1) ≠ none := by
  have hlt := h.dirty_valid hr
  exact (h.dirty_iff _).mp ⟨r, hr, by omega, by omega⟩

lemma refines {ws : Extents} {idx : Nat} (h : slot.Tracks (slotBytes (lastAt ws) idx)) (hpos : 0 < slot.realDataEnd) :
    slot.Refines ws idx where
  materialize := by
    rw [h.materialize_eq]
    refine map_congr_left fun i hi => ?_
    have hlt : i < chunkSize := (mem_range.mp hi).trans_le h.span_le
    have hover := getD_overlay [] ws (idx * chunkSize + i)
    rw [slotBytes, if_pos hlt]
    exact hover.symm
  dirty := by
    intro i
    rw [h.dirty_iff, slotBytes]
    split <;> simp_all
  read := by
    intro i max hcov
    obtain ⟨data, hread, hne, hdata⟩ := h.readAt_eq ((h.dirty_iff i).mp hcov) max
    refine ⟨data, hread, hne, fun k hk => ?_⟩
    have hk' := hdata k hk
    rw [slotBytes] at hk'
    split at hk'
    · exact hk'
    rw [getElem?_eq_getElem hk] at hk'
    cases hk'
  read_none := fun i max hcov => h.readAt_eq_none (not_not.mp (mt (h.dirty_iff i).mpr hcov)) max
  separated := h.separated
  ne_nil := h.ne_nil
  ranges := h.dirtyRanges_eq
  gap_le := by
    intro r hr
    exact h.gap_le _ ((h.dirty_iff _).mp ⟨r, hr, le_rfl, h.dirty_valid hr⟩)
  end_le := by
    intro r hr
    have := h.lt_end _ (h.dirty_last hr)
    omega
  end_mem := by
    obtain ⟨r, hr, hlo, hhi⟩ := (h.dirty_iff _).mpr (h.at_end.resolve_left (by omega))
    have := h.lt_end _ (h.dirty_last hr)
    exact ⟨r, hr, by omega⟩
  span := ⟨h.end_le, h.span_le⟩

end ChunkSlot.Tracks

/-- After every sequence of writes each slot refines its chunk's bytes, no byte went to a chunk without a slot, and
the bytes reported are those in the extents of all slots. An offset is a number: those of the source end below `2^64`,
where none wraps. -/
theorem write_buffer_refines (ws : List BufferWrite) :
    let r := (InodeWriteBuffer.new : InodeWriteBuffer Id).writeAll ws
    (∀ idx cs, r.1.chunks idx = some cs → cs.slot.Refines (ws.map BufferWrite.range) idx) ∧
    (∀ idx, r.1.chunks idx = none → ∀ i < chunkSize, lastAt (ws.map BufferWrite.range) (idx * chunkSize + i) = none) ∧
    r.1.activeChunks.Nodup ∧ (∀ idx, idx ∈ r.1.activeChunks ↔ r.1.chunks idx ≠ none) ∧
    r.2 = (r.1.activeChunks.filterMap fun idx => (r.1.chunks idx).map fun cs => (cs.slot.extents.map (·.2.length)).sum).sum := by
  have hempty : (InodeWriteBuffer.new : InodeWriteBuffer Id).Tracks fun _ => none := tracks_empty
  obtain ⟨htracks, hsum⟩ := hempty.writeAll ws
  simp only [or_none] at htracks
  refine ⟨?_, ?_, htracks.nodup, htracks.active, ?_⟩
  · intro idx cs hcs
    exact (htracks.slots idx cs hcs).refines (htracks.written idx cs hcs)
  · intro idx hnone i hi
    have hbytes := congrFun (htracks.untouched idx hnone) i
    rw [slotBytes, if_pos hi] at hbytes
    exact hbytes
  · exact .trans (Nat.zero_add _).symm hsum.symm

end Dfs
