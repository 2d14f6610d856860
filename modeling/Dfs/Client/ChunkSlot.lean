import Dfs.Types
import Dfs.Lib.Runs
import Mathlib.Data.List.Sort

/-!
# The write buffer of a chunk

`ChunkSlot`, `write_at` within one chunk, and what a run of writes leaves: the byte written last at every place, and a
dirty range over it (`ChunkSlot.Holds`).
-/

namespace Dfs

open Overlay Runs List Option

/-- The stamp of the last write is wall-clock time, the others are monotonic seconds. -/
structure ChunkSlot (Id : Type) where
  extents : Extents
  spanEnd : Nat
  lastModified : Nat
  gapFilledPrefix : Nat
  realDataEnd : Nat
  dirtyRanges : List (Nat × Nat)
  flushing : Bool
  lastSequentialEnd : Option Nat
  consecutivePatchFailures : Nat
  serverChunkId : Option Id
  serverChunkIdSetAt : Option Nat
  terminalFailureCount : Nat
  retryBackoffUntil : Option Nat
  abandoned : Bool
  firstTerminalFailureAt : Option Nat
  deriving DecidableEq

/-- Which nodes a write goes to is left out. -/
structure ChunkShardState (Id : Type) where
  slot : ChunkSlot Id
  flushedSize : Nat
  flushWaiter : Bool
  deriving DecidableEq

variable {Id : Type}

def ChunkSlot.new (now : Nat) : ChunkSlot Id :=
  ⟨[], 0, now, 0, 0, [], false, none, 0, none, none, 0, none, false, none⟩

def ChunkSlot.isEmpty (slot : ChunkSlot Id) : Bool := decide (slot.spanEnd = 0)

def ChunkSlot.resident (slot : ChunkSlot Id) : Nat := (slot.extents.map (·.2.length)).sum

/-! ## Writing a run of bytes -/

def rangeLE (a b : Nat × Nat) : Prop := a.1 < b.1 ∨ (a.1 = b.1 ∧ a.2 ≤ b.2)

instance : DecidableRel rangeLE := fun a b => inferInstanceAs (Decidable (a.1 < b.1 ∨ (a.1 = b.1 ∧ a.2 ≤ b.2)))

instance : Std.Total rangeLE := ⟨fun a b => by unfold rangeLE; omega⟩

instance : IsTrans (Nat × Nat) rangeLE := ⟨fun a b c hab hbc => by unfold rangeLE at *; omega⟩

def markDirty (ranges : List (Nat × Nat)) (start stop : Nat) : List (Nat × Nat) :=
  if stop ≤ start then ranges
  else
    let r := absorb Prod.fst Prod.snd ranges start stop
    (r.kept ++ [(r.start, r.stop)]).insertionSort rangeLE

def containedIn (start stop : Nat) (r : Nat × Bytes) : Bool := decide (r.1 ≤ start ∧ stop ≤ Runs.stop r)

def overwriteRun (start : Nat) (data : Bytes) (r : Nat × Bytes) : Nat × Bytes := (r.1, copyAt r.2 (start - r.1) data)

/-- One extent takes the place of those the range overlaps or touches. -/
def mergeExtent (extents : Extents) (start : Nat) (data : Bytes) : Extents :=
  let r := absorb Prod.fst Runs.stop extents start (start + data.length)
  r.kept.insertIdx (r.kept.findIdx (fun x => r.start < x.1)) (r.start, mergeRuns r.start r.stop r.taken start data)

/-- The fast paths: an append to the last extent, a write within the last or any one. -/
def writeExtent (extents : Extents) (start : Nat) (data : Bytes) : Extents :=
  if data = [] then extents
  else match extents.getLast? with
    | none => mergeExtent extents start data
    | some last =>
      if Runs.stop last = start then extents.dropLast ++ [(last.1, last.2 ++ data)]
      else if containedIn start (start + data.length) last then extents.dropLast ++ [overwriteRun start data last]
      else if extents.any (containedIn start (start + data.length)) then
        updateFirst (containedIn start (start + data.length)) (overwriteRun start data) extents
      else mergeExtent extents start data

def ChunkSlot.materialize (slot : ChunkSlot Id) : Bytes :=
  slot.extents.foldl (fun buf r =>
    let stop := min (Runs.stop r) buf.length
    if stop ≤ r.1 then buf else copyAt buf r.1 (r.2.take (stop - r.1))) (List.replicate slot.spanEnd 0)

/-! ## Writing to the slot -/

def ChunkShardState.seeded (cs : ChunkShardState Id) : ChunkSlot Id :=
  if cs.slot.isEmpty && decide (0 < cs.flushedSize) then
    { cs.slot with spanEnd := cs.flushedSize, gapFilledPrefix := cs.flushedSize }
  else cs.slot

/-- A gap that starts at the front counts as on the server. -/
def ChunkSlot.extendTo (slot : ChunkSlot Id) (intra : Nat) : ChunkSlot Id :=
  if slot.spanEnd < intra then
    { slot with
      gapFilledPrefix := if slot.gapFilledPrefix = slot.spanEnd ∧ slot.gapFilledPrefix < intra then intra
        else slot.gapFilledPrefix
      spanEnd := intra }
  else slot

def ChunkSlot.put (slot : ChunkSlot Id) (intra : Nat) (data : Bytes) (now : Nat) : ChunkSlot Id :=
  { slot with
    abandoned := false
    extents := writeExtent slot.extents intra data
    spanEnd := max slot.spanEnd (intra + data.length)
    gapFilledPrefix := if intra < slot.gapFilledPrefix then intra else slot.gapFilledPrefix
    realDataEnd := max slot.realDataEnd (intra + data.length)
    dirtyRanges := markDirty slot.dirtyRanges intra (intra + data.length)
    lastModified := now
    lastSequentialEnd := some (intra + data.length) }

/-- With whether the sequential pattern broke and how many bytes were added. -/
def ChunkShardState.writeAt (cs : ChunkShardState Id) (intra : Nat) (data : Bytes) (now : Nat) :
    ChunkShardState Id × Bool × Nat :=
  let seeded := cs.seeded
  let patternChanged := decide (intra ≠ seeded.lastSequentialEnd.getD intra) &&
    (decide (0 < seeded.realDataEnd) || decide (0 < seeded.gapFilledPrefix))
  let slot := (seeded.extendTo intra).put intra data now
  ({ cs with slot := slot }, patternChanged, slot.resident - cs.slot.resident)

structure SlotWrite where
  intra : Nat
  data : Bytes
  now : Nat
  deriving DecidableEq, Repr

def SlotWrite.range (w : SlotWrite) : Nat × Bytes := (w.intra, w.data)

def ChunkShardState.writeAll (cs : ChunkShardState Id) (ws : List SlotWrite) : ChunkShardState Id :=
  ws.foldl (fun cs w => (cs.writeAt w.intra w.data w.now).1) cs

/-! ## What a run of bytes leaves in the extents -/

/-- Separated, within the bound or the end of the write, with the byte written last at every place. -/
structure Written (extents : Extents) (start : Nat) (data : Bytes) (after : Extents) : Prop where
  separated : Separated Prod.fst Runs.stop after
  elems : ∀ i, lastAt after i = (elemIn (start, data) i).or (lastAt extents i)
  bound : ∀ m, (∀ r ∈ extents, Runs.stop r ≤ m) → start + data.length ≤ m → ∀ r ∈ after, Runs.stop r ≤ m

variable {extents : Extents}

lemma written_mergeExtent (hsep : Separated Prod.fst stop extents) (start : Nat)
    (data : Bytes) : Written extents start data (mergeExtent extents start data) := by
  have hvalid : ∀ r ∈ extents, r.1 ≤ stop r := fun r _ => Nat.le_add_right ..
  have ha := absorb_spec Prod.fst stop (Nat.le_add_right start data.length) hvalid
  unfold mergeExtent
  generalize absorb Prod.fst stop extents start (start + data.length) = a at ha
  dsimp only
  have hse : a.start ≤ a.stop := le_trans ha.start_le (le_trans (Nat.le_add_right ..) ha.le_stop)
  have hend : stop (a.start, mergeRuns a.start a.stop a.taken start data) = a.stop := by
    rw [stop, length_mergeRuns ha.start_le ha.le_stop ha.within]
    omega
  have helem := elemIn_mergeRuns ha.start_le ha.le_stop ha.within (fun i hi => (ha.interval i).1 hi)
  generalize hx : (a.start, mergeRuns a.start a.stop a.taken start data) = x at hend helem ⊢
  have hlo : x.1 = a.start := by rw [← hx]
  have hafter : ∀ r, r ∈ a.kept.insertIdx (a.kept.findIdx (fun y => a.start < y.1)) x ↔ r = x ∨ r ∈ a.kept := fun r =>
    mem_insertIdx findIdx_le_length
  have hsep' : Separated Prod.fst stop (a.kept.insertIdx (a.kept.findIdx (fun y => a.start < y.1)) x) := by
    rw [← hlo]
    refine separated_insert (by rw [hlo, hend]; exact hse) (hsep.sublist ha.kept)
      (fun r hr => hvalid r (ha.kept.subset hr)) (fun r hr => ?_)
    rw [hlo, hend]
    exact ha.apart hsep r hr
  refine ⟨hsep', fun i => ?_, fun m hl he r hr => ?_⟩
  · by_cases hin : a.start ≤ i ∧ i < a.stop
    · have hcovers : (elemIn x i).isSome := elemIn_isSome_iff.2 (by rw [hlo, hend]; exact hin)
      rw [lastAt_of_mem hsep' ((hafter x).2 (.inl rfl)) hcovers, helem]
      rw [helem] at hcovers
      cases hnew : elemIn (start, data) i with
      | some b => rfl
      | none =>
        rw [hnew, none_or] at hcovers
        obtain ⟨r, hr, hri⟩ := lastAt_isSome_iff.1 hcovers
        have hsome := elemIn_isSome_iff.2 hri
        rw [lastAt_of_mem (hsep.sublist ha.taken) hr hsome, lastAt_of_mem hsep (ha.taken.subset hr) hsome]
    · have hnew : elemIn (start, data) i = none := by
        rw [← not_isSome_iff_eq_none, elemIn_isSome_iff]
        exact fun h => hin ((ha.interval i).2 (.inl h))
      rw [hnew, none_or]
      by_cases hold : (lastAt extents i).isSome
      · obtain ⟨r, hr, hri⟩ := lastAt_isSome_iff.1 hold
        have hsome := elemIn_isSome_iff.2 hri
        have hkept : r ∈ a.kept := ((ha.mem r).1 hr).resolve_right (fun ht => hin ((ha.interval i).2 (.inr ⟨r, ht, hri⟩)))
        rw [lastAt_of_mem hsep' ((hafter r).2 (.inr hkept)) hsome, lastAt_of_mem hsep hr hsome]
      rw [not_isSome_iff_eq_none] at hold
      rw [hold, lastAt_eq_none_iff]
      intro r hr
      rcases (hafter r).1 hr with rfl | hr
      · rw [← not_isSome_iff_eq_none, elemIn_isSome_iff, hlo, hend]
        exact hin
      · exact (lastAt_eq_none_iff _ _).1 hold r (ha.kept.subset hr)
  · rcases (hafter r).1 hr with rfl | hr
    · rw [hend]
      exact ha.stop_le m he hl
    · exact hl r (ha.kept.subset hr)

variable {slot : ChunkSlot Id} {start : Nat} {data : Bytes} {pre post : Extents} {r : Nat × Bytes}

lemma written_replace {r' : Nat × Bytes} (hsep : Separated Prod.fst stop (pre ++ r :: post)) (hlo : r'.1 = r.1)
    (hpost : ∀ x ∈ post, stop r' < x.1) (hend : stop r' ≤ max (stop r) (start + data.length))
    (helem : ∀ i, elemIn r' i = (elemIn (start, data) i).or (elemIn r i)) :
    Written (pre ++ r :: post) start data (pre ++ r' :: post) := by
  obtain ⟨hpre, htail, hcross⟩ := pairwise_append.1 hsep
  obtain ⟨-, hpost'⟩ := pairwise_cons.1 htail
  refine ⟨?_, fun i => ?_, fun m hl he x hx => ?_⟩
  · refine pairwise_append.2 ⟨hpre, pairwise_cons.2 ⟨hpost, hpost'⟩, fun x hx y hy => ?_⟩
    rcases mem_cons.1 hy with rfl | hy
    · rw [hlo]
      exact hcross x hx r (by simp)
    · exact hcross x hx y (mem_cons_of_mem _ hy)
  · rw [lastAt_append, lastAt_append, lastAt, lastAt, helem]
    cases hnew : elemIn (start, data) i with
    | none => simp
    | some b =>
      -- the changed extent covers the place, so no later one does
      have hcover : r'.1 ≤ i ∧ i < stop r' := elemIn_isSome_iff.1 (by rw [helem, hnew]; rfl)
      have hnone : lastAt post i = none := by
        rw [lastAt_eq_none_iff]
        intro x hx
        rw [elemIn_eq_none_iff]
        have := hpost x hx
        omega
      simp [hnone]
  · rcases mem_append.1 hx with hx | hx
    · exact hl x (mem_append_left _ hx)
    rcases mem_cons.1 hx with rfl | hx
    · have := hl r (by simp)
      omega
    · exact hl x (by simp [hx])

lemma written_overwriteRun (hsep : Separated Prod.fst stop (pre ++ r :: post))
    (hin : containedIn start (start + data.length) r = true) :
    Written (pre ++ r :: post) start data (pre ++ overwriteRun start data r :: post) := by
  have hin' : r.1 ≤ start ∧ start + data.length ≤ stop r := by simpa [containedIn] using hin
  have hstop : stop (overwriteRun start data r) = stop r := by
    unfold overwriteRun stop
    unfold stop at hin'
    rw [copyAt_eq_writeAt (by omega), length_writeAt]
    dsimp only
    omega
  refine written_replace hsep rfl (fun x hx => ?_) (by rw [hstop]; exact le_max_left ..) (elemIn_copyAt hin'.1 hin'.2)
  rw [hstop]
  exact (pairwise_cons.1 (pairwise_append.1 hsep).2.1).1 x hx

lemma written_writeExtent (hsep : Separated Prod.fst stop extents) (start : Nat)
    (data : Bytes) : Written extents start data (writeExtent extents start data) := by
  unfold writeExtent
  by_cases hdata : data = []
  · rw [if_pos hdata, hdata]
    refine ⟨hsep, fun i => ?_, fun m hl _ => hl⟩
    have hnone : elemIn (start, ([] : Bytes)) i = none := by simp [elemIn]
    rw [hnone, none_or]
  rw [if_neg hdata]
  cases hlast : extents.getLast? with
  | none => exact written_mergeExtent hsep start data
  | some last =>
    dsimp only
    have hsplit : extents.dropLast ++ [last] = extents := dropLast_append_getLast? last hlast
    split
    · rename_i hat
      rw [← hsplit] at hsep
      conv => arg 1; rw [← hsplit]
      refine written_replace hsep rfl (by simp) ?_ (fun i => ?_)
      · simp [stop] at hat ⊢
        omega
      · rw [← hat]
        exact elemIn_append last data i
    split
    · rename_i hin
      rw [← hsplit] at hsep
      conv => arg 1; rw [← hsplit]
      exact written_overwriteRun hsep hin
    split
    · rename_i hany
      obtain ⟨r, hfind⟩ := isSome_iff_exists.1 (find?_isSome.2 (any_eq_true.1 hany))
      obtain ⟨hin, pre, post, rfl, hpre⟩ := find?_eq_some_iff_append.1 hfind
      rw [updateFirst_append_cons (fun x hx => by simpa using hpre x hx) hin]
      exact written_overwriteRun hsep hin
    · exact written_mergeExtent hsep start data

/-! ## What a run of writes leaves in the slot -/

variable {ranges : List (Nat × Nat)}

lemma covers_markDirty (hvalid : ∀ r ∈ ranges, r.1 ≤ r.2) (start stop i : Nat) :
    Covers Prod.fst Prod.snd (markDirty ranges start stop) i ↔ (start ≤ i ∧ i < stop) ∨ Covers Prod.fst Prod.snd ranges i := by
  unfold markDirty
  split
  · rename_i hle
    exact ⟨Or.inr, fun h => h.resolve_left (by omega)⟩
  rename_i hlt
  have ha := absorb_spec Prod.fst Prod.snd (by omega : start ≤ stop) hvalid
  generalize absorb Prod.fst Prod.snd ranges start stop = a at ha
  have hinterval := ha.interval i
  simp only [Covers, mem_insertionSort, mem_append, List.mem_singleton] at hinterval ⊢
  constructor
  · rintro ⟨r, hr | rfl, hri⟩
    · exact .inr ⟨r, ha.kept.subset hr, hri⟩
    rcases hinterval.1 hri with hnew | ⟨r, hr, hri⟩
    · exact .inl hnew
    · exact .inr ⟨r, ha.taken.subset hr, hri⟩
  · rintro (hnew | ⟨r, hr, hri⟩)
    · exact ⟨(a.start, a.stop), .inr rfl, hinterval.2 (.inl hnew)⟩
    rcases (ha.mem r).1 hr with hr | hr
    · exact ⟨r, .inl hr, hri⟩
    · exact ⟨(a.start, a.stop), .inr rfl, hinterval.2 (.inr ⟨r, hr, hri⟩)⟩

lemma markDirty_valid {m : Nat} (hvalid : ∀ r ∈ ranges, r.1 < r.2 ∧ r.2 ≤ m) {stop : Nat} (hstop : stop ≤ m) :
    ∀ r ∈ markDirty ranges start stop, r.1 < r.2 ∧ r.2 ≤ m := by
  unfold markDirty
  split
  · exact hvalid
  rename_i hlt
  have ha := absorb_spec Prod.fst Prod.snd (by omega : start ≤ stop) (fun r hr => (hvalid r hr).1.le)
  intro r hr
  simp only [mem_insertionSort, mem_append, List.mem_singleton] at hr
  rcases hr with hr | rfl
  · exact hvalid r (ha.kept.subset hr)
  have := ha.start_le
  have := ha.le_stop
  exact ⟨by dsimp only; omega, ha.stop_le m hstop (fun r hr => (hvalid r hr).2)⟩

lemma separated_markDirty (hsep : Separated Prod.fst Prod.snd ranges) (hvalid : ∀ r ∈ ranges, r.1 ≤ r.2)
    (start stop : Nat) : Separated Prod.fst Prod.snd (markDirty ranges start stop) := by
  unfold markDirty
  split
  · exact hsep
  have ha := absorb_spec Prod.fst Prod.snd (by omega : start ≤ stop) hvalid
  generalize absorb Prod.fst Prod.snd ranges start stop = a at ha
  have hnew : a.start ≤ a.stop := le_trans ha.start_le (le_trans (by omega) ha.le_stop)
  have hvalid' : ∀ r ∈ a.kept ++ [(a.start, a.stop)], r.1 ≤ r.2 := by
    intro r hr
    rcases mem_append.mp hr with hr | hr
    · exact hvalid r (ha.kept.subset hr)
    rw [List.mem_singleton.mp hr]
    exact hnew
  have hapart : (a.kept ++ [(a.start, a.stop)]).Pairwise fun r r' => r.2 < r'.1 ∨ r'.2 < r.1 := by
    refine pairwise_append.mpr ⟨(hsep.sublist ha.kept).imp Or.inl, pairwise_singleton .., fun r hr r' hr' => ?_⟩
    rw [List.mem_singleton.mp hr']
    exact ha.apart hsep r hr
  have hperm := perm_insertionSort rangeLE (a.kept ++ [(a.start, a.stop)])
  refine separated_of_sorted ?_ ((hperm.pairwise_iff fun h => h.symm).mpr hapart)
    (fun r hr => hvalid' r ((mem_insertionSort _).mp hr))
  exact (pairwise_insertionSort rangeLE _).imp fun h => by unfold rangeLE at h; omega

lemma writeExtent_ne_nil (hne : ∀ r ∈ extents, r.2 ≠ []) (start : Nat) (hdata : data ≠ []) :
    ∀ r ∈ writeExtent extents start data, r.2 ≠ [] := by
  have hmerge : ∀ r ∈ mergeExtent extents start data, r.2 ≠ [] := by
    intro r hr
    have ha := absorb_spec Prod.fst stop (Nat.le_add_right start data.length) (fun r (_ : r ∈ extents) => Nat.le_add_right ..)
    unfold mergeExtent at hr
    generalize absorb Prod.fst stop extents start (start + data.length) = a at ha hr
    rcases (mem_insertIdx findIdx_le_length).mp hr with rfl | hr
    · have hlen := length_mergeRuns ha.start_le ha.le_stop ha.within
      have hpos := length_pos_iff.mpr hdata
      have := ha.start_le
      have := ha.le_stop
      refine length_pos_iff.mp ?_
      rw [hlen]
      omega
    · exact hne r (ha.kept.subset hr)
  have hover : ∀ r ∈ extents, (overwriteRun start data r).2 ≠ [] := by
    intro r hr
    have := length_pos_iff.mpr hdata
    refine length_pos_iff.mp ?_
    simp only [overwriteRun, copyAt, length_append]
    omega
  unfold writeExtent
  rw [if_neg hdata]
  cases hlast : extents.getLast? with
  | none => exact hmerge
  | some last =>
    have hmem : last ∈ extents := mem_of_getLast? hlast
    have hend (x : Nat × Bytes) (hx : x.2 ≠ []) : ∀ r ∈ extents.dropLast ++ [x], r.2 ≠ [] := by
      intro r hr
      rcases mem_append.mp hr with hr | hr
      · exact hne r (dropLast_subset _ hr)
      · exact List.mem_singleton.mp hr ▸ hx
    dsimp only
    split
    · exact hend _ (by simp [hdata])
    split
    · exact hend _ (hover last hmem)
    split
    · intro r hr
      rcases mem_updateFirst hr with hr | ⟨old, hold, rfl⟩
      · exact hne r hr
      · exact hover old hold
    · exact hmerge

/-- The extents have the byte written last at every place, and the dirty ranges are just those places. -/
structure ChunkSlot.Holds (slot : ChunkSlot Id) (ws : Extents) : Prop where
  separated : Separated Prod.fst Runs.stop slot.extents
  elems : ∀ i, lastAt slot.extents i = lastAt ws i
  bound : ∀ r ∈ slot.extents, Runs.stop r ≤ slot.spanEnd
  dirty : ∀ i, Covers Prod.fst Prod.snd slot.dirtyRanges i ↔ (lastAt ws i).isSome
  valid : ∀ r ∈ slot.dirtyRanges, r.1 < r.2 ∧ r.2 ≤ slot.spanEnd

open ChunkSlot

lemma holds_new (now : Nat) : (new now : ChunkSlot Id).Holds [] := by
  constructor <;> simp [new, Separated, Covers, lastAt]

variable {ws : Extents}

lemma ChunkSlot.Holds.congr {slot' : ChunkSlot Id} (h : slot.Holds ws) (hextents : slot'.extents = slot.extents)
    (hdirty : slot'.dirtyRanges = slot.dirtyRanges) (hspan : slot.spanEnd ≤ slot'.spanEnd) : slot'.Holds ws := by
  constructor
  · rw [hextents]
    exact h.separated
  · rw [hextents]
    exact h.elems
  · rw [hextents]
    exact fun r hr => le_trans (h.bound r hr) hspan
  · rw [hdirty]
    exact h.dirty
  · rw [hdirty]
    exact fun r hr => ⟨(h.valid r hr).1, le_trans (h.valid r hr).2 hspan⟩

lemma ChunkSlot.Holds.dirtyRanges_ne_nil (h : slot.Holds ws) {w : Nat × Bytes} (hw : w ∈ ws) (hne : w.2 ≠ []) :
    slot.dirtyRanges ≠ [] := by
  have hcover : Covers Prod.fst stop ws w.1 := ⟨w, hw, le_rfl, Nat.lt_add_of_pos_right (length_pos_iff.2 hne)⟩
  obtain ⟨r, hr, -⟩ := (h.dirty w.1).2 (lastAt_isSome_iff.2 hcover)
  exact ne_nil_of_mem hr

lemma ChunkSlot.Holds.put (h : slot.Holds ws) (intra : Nat) (data : Bytes) (now : Nat) :
    (slot.put intra data now).Holds (ws ++ [(intra, data)]) := by
  have hw := written_writeExtent h.separated intra data
  have hlast : ∀ i, lastAt (ws ++ [(intra, data)]) i = (elemIn (intra, data) i).or (lastAt ws i) := fun i => by
    rw [lastAt_append]
    simp [lastAt]
  constructor
  · exact hw.separated
  · intro i
    rw [hlast, ← h.elems]
    exact hw.elems i
  · exact hw.bound _ (fun r hr => le_trans (h.bound r hr) (le_max_left ..)) (le_max_right ..)
  · intro i
    rw [hlast, isSome_or, Bool.or_eq_true, elemIn_isSome_iff, ← h.dirty]
    exact covers_markDirty (fun r hr => (h.valid r hr).1.le) ..
  · exact markDirty_valid (fun r hr => ⟨(h.valid r hr).1, le_trans (h.valid r hr).2 (le_max_left ..)⟩) (le_max_right ..)

variable (cs : ChunkShardState Id)

open ChunkShardState

lemma ChunkShardState.seeded_eq :
    cs.seeded.extents = cs.slot.extents ∧ cs.seeded.dirtyRanges = cs.slot.dirtyRanges ∧ cs.slot.spanEnd ≤ cs.seeded.spanEnd := by
  unfold seeded
  split
  · rename_i h
    have hempty : cs.slot.spanEnd = 0 := by simpa [ChunkSlot.isEmpty] using (Bool.and_eq_true_iff.1 h).1
    exact ⟨rfl, rfl, by rw [hempty]; exact Nat.zero_le _⟩
  · exact ⟨rfl, rfl, le_rfl⟩

lemma ChunkSlot.extendTo_eq (slot : ChunkSlot Id) (intra : Nat) :
    (slot.extendTo intra).extents = slot.extents ∧ (slot.extendTo intra).dirtyRanges = slot.dirtyRanges ∧
      (slot.extendTo intra).spanEnd = max slot.spanEnd intra := by
  unfold extendTo
  split
  · exact ⟨rfl, rfl, by dsimp only; omega⟩
  · exact ⟨rfl, rfl, by omega⟩

lemma ChunkSlot.Holds.writeAt {cs : ChunkShardState Id} (h : cs.slot.Holds ws) (intra : Nat)
    (data : Bytes) (now : Nat) : (cs.writeAt intra data now).1.slot.Holds (ws ++ [(intra, data)]) := by
  obtain ⟨hextents, hdirty, hspan⟩ := cs.seeded_eq
  obtain ⟨hextents', hdirty', hspan'⟩ := cs.seeded.extendTo_eq intra
  have hseeded : (cs.seeded.extendTo intra).Holds ws :=
    h.congr (hextents'.trans hextents) (hdirty'.trans hdirty) (le_trans hspan (hspan'.symm ▸ le_max_left ..))
  exact hseeded.put intra data now

lemma ChunkSlot.Holds.writeAll {cs : ChunkShardState Id} (h : cs.slot.Holds ws)
    (ws' : List SlotWrite) : (cs.writeAll ws').slot.Holds (ws ++ ws'.map SlotWrite.range) := by
  induction ws' generalizing cs ws with
  | nil => simpa [ChunkShardState.writeAll] using h
  | cons w ws' ih =>
    have := ih (h.writeAt w.intra w.data w.now)
    rwa [append_assoc] at this

lemma writeAt_spanEnd (hslot : cs.slot.isEmpty = false) (intra : Nat) (data : Bytes) (now : Nat) :
    (cs.writeAt intra data now).1.slot.spanEnd = max cs.slot.spanEnd (intra + data.length) := by
  have hseeded : cs.seeded = cs.slot := by rw [seeded, hslot, Bool.false_and, if_neg Bool.false_ne_true]
  have hextend := (cs.slot.extendTo_eq intra).2.2
  simp only [ChunkShardState.writeAt, hseeded, put, hextend]
  omega

lemma writeAll_spanEnd (hslot : cs.slot.isEmpty = false) (ws : List SlotWrite) :
    (cs.writeAll ws).slot.spanEnd = max cs.slot.spanEnd (extent (ws.map SlotWrite.range)) := by
  induction ws generalizing cs with
  | nil => simp [writeAll, extent]
  | cons w ws ih =>
    have hspan := writeAt_spanEnd cs hslot w.intra w.data w.now
    have hpos : cs.slot.spanEnd ≠ 0 := by simpa [ChunkSlot.isEmpty] using hslot
    have hslot' : (cs.writeAt w.intra w.data w.now).1.slot.isEmpty = false := by
      rw [ChunkSlot.isEmpty, hspan]
      exact decide_eq_false (by omega)
    have htail := ih _ hslot'
    rw [hspan] at htail
    rw [map_cons, extent_cons, SlotWrite.range, ← max_assoc]
    exact htail

lemma writeAll_lastModified (ws : List SlotWrite) :
    (cs.writeAll ws).slot.lastModified = (ws.getLast?.map (·.now)).getD cs.slot.lastModified := by
  rcases eq_nil_or_concat ws with rfl | ⟨ws, w, rfl⟩
  · rfl
  rw [writeAll, concat_eq_append, foldl_append, getLast?_concat]
  rfl

/-! ## The slot as it is sent -/

lemma foldl_materialize {buf : Bytes} (hbound : ∀ r ∈ extents, Runs.stop r ≤ buf.length) : extents.foldl (fun buf r =>
      let stop := min (Runs.stop r) buf.length
      if stop ≤ r.1 then buf else copyAt buf r.1 (r.2.take (stop - r.1))) buf = overlay buf extents := by
  induction extents generalizing buf with
  | nil => rfl
  | cons r extents ih =>
    have hr : r.1 + r.2.length ≤ buf.length := hbound r (by simp)
    have hlen : (writeAt buf r.1 r.2).length = buf.length := by
      rw [length_writeAt]
      omega
    have hcopy : (if min (Runs.stop r) buf.length ≤ r.1 then buf
        else copyAt buf r.1 (r.2.take (min (Runs.stop r) buf.length - r.1))) = writeAt buf r.1 r.2 := by
      rw [Runs.stop, min_eq_left hr]
      split
      · have hnil : r.2 = [] := length_eq_zero_iff.1 (by omega)
        rw [hnil, ← copyAt_eq_writeAt (by simp only [length_nil]; omega)]
        simp [copyAt]
      · rw [take_of_length_le (by omega), copyAt_eq_writeAt hr]
    rw [foldl_cons, overlay_cons]
    dsimp only
    rw [hcopy]
    exact ih (fun x hx => by rw [hlen]; exact hbound x (mem_cons_of_mem _ hx))

lemma ChunkSlot.Holds.materialize (h : slot.Holds ws) :
    slot.materialize.length = slot.spanEnd ∧ ∀ i, slot.materialize.getD i default = (lastAt ws i).getD default := by
  have hoverlay : slot.materialize = overlay (replicate slot.spanEnd 0) slot.extents :=
    foldl_materialize (fun r hr => by rw [length_replicate]; exact h.bound r hr)
  have hextent : extent slot.extents ≤ slot.spanEnd := extent_le_of_forall h.bound
  refine ⟨?_, fun i => ?_⟩
  · rw [hoverlay, length_overlay, length_replicate]
    omega
  · rw [hoverlay, ← h.elems, getD_overlay]
    congr 1
    exact getD_append_replicate [] slot.spanEnd i

end Dfs
