import Dfs.Client.ReadEngine
import Dfs.PutMetadata

/-! # What a read finds in the map of the read engine -/

namespace Dfs

open List Option ReadEngine Transition

variable {Id : Type}

def ChunkLocation.FitsSlot (l : ChunkLocation Id) : Prop := ∀ o ∈ l.fileOffset, o % chunkSize + l.size ≤ chunkSize

instance (l : ChunkLocation Id) : Decidable l.FitsSlot :=
  inferInstanceAs (Decidable (∀ o ∈ l.fileOffset, o % chunkSize + l.size ≤ chunkSize))

/-- A whole map is sorted by its locations' offsets, with one for a slot at most. -/
def ReadEngineOp.Given : ReadEngineOp Id → Prop
  | .updateChunkMap locations =>
    (∀ l ∈ locations, l.fileOffset.isSome = true ∧ l.FitsSlot) ∧
      locations.Pairwise fun a b => ∀ c ∈ slotOf a, ∀ d ∈ slotOf b, c < d
  | .updateSingleChunk loc => loc.FitsSlot
  | .updateChunkMapWindow window _ _ => ∀ l ∈ window, l.FitsSlot
  | _ => True

instance : (a : ReadEngineOp Id) → Decidable a.Given
  | .updateChunkMap locations => inferInstanceAs (Decidable ((∀ l ∈ locations, l.fileOffset.isSome = true ∧ l.FitsSlot) ∧
      locations.Pairwise fun a b => ∀ c ∈ slotOf a, ∀ d ∈ slotOf b, c < d))
  | .updateSingleChunk loc => inferInstanceAs (Decidable loc.FitsSlot)
  | .updateChunkMapWindow window _ _ => inferInstanceAs (Decidable (∀ l ∈ window, l.FitsSlot))
  | .expireChunkMapAsync | .markChunkProvenAbsent _ => inferInstanceAs (Decidable True)

def ReadEngine.SlotsInPlace (s : ReadEngine Id) : Prop := ∀ i l, s.map[i]? = some l → ∀ c ∈ slotOf l, c = i

instance (s : ReadEngine Id) : Decidable s.SlotsInPlace :=
  decidable_of_iff (∀ x ∈ s.map.zipIdx, ∀ c ∈ slotOf x.1, c = x.2)
    ⟨fun h i l hi => h (l, i) (List.mem_zipIdx_iff_getElem?.mpr hi), fun h x hx => h x.2 x.1 (List.mem_zipIdx_iff_getElem?.mp hx)⟩

/-- A merge is into a map with its slots in place, a single update has a slot, within the map for a chunk proven absent. -/
def ReadEngineOp.InPlace (s : ReadEngine Id) : ReadEngineOp Id → Prop
  | .updateSingleChunk loc =>
    s.SlotsInPlace ∧ ∃ idx ∈ slotOf loc, loc.chunkId ∈ s.provenAbsent → idx < s.map.length
  | .updateChunkMapWindow .. => s.SlotsInPlace
  | _ => True

instance [DecidableEq Id] (s : ReadEngine Id) : (a : ReadEngineOp Id) → Decidable (a.InPlace s)
  | .updateSingleChunk loc =>
    inferInstanceAs (Decidable (s.SlotsInPlace ∧ ∃ idx ∈ slotOf loc, loc.chunkId ∈ s.provenAbsent → idx < s.map.length))
  | .updateChunkMapWindow .. => inferInstanceAs (Decidable s.SlotsInPlace)
  | .updateChunkMap _ | .expireChunkMapAsync | .markChunkProvenAbsent _ => inferInstanceAs (Decidable True)

/-- A merge replaces a slot's location only by another of the slot. -/
def ReadEngineOp.Keeps (s s' : ReadEngine Id) : ReadEngineOp Id → Prop
  | .updateSingleChunk _ | .updateChunkMapWindow .. =>
    ∀ (i : Nat) l l', s.map[i]? = some l → s'.map[i]? = some l' → l' ≠ l → ∀ c ∈ slotOf l, slotOf l' = some c
  | _ => True

/-- The position, offset and size of a chunk, not empty, that overlaps the range. -/
def overlap (start len : Nat) (loc : ChunkLocation Id) (idx : Nat) : Option (Nat × Nat × Nat) :=
  loc.fileOffset.bind fun offset =>
    if 0 < loc.size ∧ offset < start + len ∧ start < offset + loc.size then some (idx, offset, loc.size) else none

variable (map : Locations Id) (start : Nat)

def overlapping (len : Nat) : List (Nat × Nat × Nat) := map.zipIdx.filterMap fun x => overlap start len x.1 x.2

/-- The vectors are in step, and a read finds what the map has of its range in file order. -/
structure ReadEngine.Coherent (s : ReadEngine Id) : Prop where
  length : s.offsets.length = s.map.length
  describes : ∀ i l, s.map[i]? = some l → s.offsets[i]? = some (offsetEntry i l)
  ends : s.offsets.Pairwise fun a b => a.1 + a.2 ≤ b.1 + b.2
  range : ∀ start len, chunksForRange s.offsets start len = overlapping s.map start len
  ordered : ∀ start len, (chunksForRange s.offsets start len).Pairwise fun a b => a.1 < b.1 ∧ a.2.1 + a.2.2 ≤ b.2.1

/-! ## The query -/

def Apart (offsets : List (Nat × Nat)) : Prop := offsets.Pairwise fun a b => a.1 + a.2 ≤ b.1

def entryOverlap (stop : Nat) (x : (Nat × Nat) × Nat) : Option (Nat × Nat × Nat) :=
  if 0 < x.1.2 ∧ x.1.1 < stop ∧ start < x.1.1 + x.1.2 then some (x.2, x.1.1, x.1.2) else none

variable {offsets : List (Nat × Nat)}

lemma scanRange_eq (h : Apart offsets) (start stop idx : Nat) :
    scanRange start stop idx offsets = (offsets.zipIdx idx).filterMap (entryOverlap start stop) := by
  induction offsets generalizing idx with
  | nil => rfl
  | cons e rest ih =>
    obtain ⟨hafter, hrest⟩ := pairwise_cons.mp h
    obtain ⟨chunkStart, chunkLen⟩ := e
    simp only [scanRange, zipIdx_cons, filterMap_cons, entryOverlap]
    split
    · rename_i hstop
      rw [if_neg (by omega)]
      refine (filterMap_eq_nil_iff.mpr fun x hx => if_neg ?_).symm
      have := hafter x.1 (fst_mem_of_mem_zipIdx hx)
      dsimp only at this
      omega
    rename_i hstop
    split
    · rename_i hin
      rw [if_pos ⟨hin.1, by omega, hin.2⟩, ih hrest]
    rename_i hout
    rw [if_neg (by omega), ih hrest]

lemma chunksForRange_eq (h : Apart offsets) (start len : Nat) :
    chunksForRange offsets start len = offsets.zipIdx.filterMap (entryOverlap start (start + len)) := by
  have hpart : Partitioned (endsBefore start) offsets := by
    refine h.imp fun {a b} hab hb => ?_
    simp only [endsBefore, decide_eq_true_eq] at hb ⊢
    omega
  have hbefore : ((offsets.takeWhile (endsBefore start)).zipIdx).filterMap (entryOverlap start (start + len)) = [] := by
    rw [filterMap_eq_nil_iff]
    intro x hx
    apply if_neg
    have hend := mem_takeWhile_imp (fst_mem_of_mem_zipIdx hx)
    simp only [endsBefore, decide_eq_true_eq] at hend
    omega
  have hrest : Apart (offsets.dropWhile (endsBefore start)) := h.sublist (dropWhile_sublist _)
  calc chunksForRange offsets start len
      = scanRange start (start + len) (offsets.takeWhile (endsBefore start)).length (offsets.dropWhile (endsBefore start)) := by
        simp only [chunksForRange]
        rw [drop_partitionPoint hpart, partitionPoint_eq hpart]
    _ = ((offsets.takeWhile (endsBefore start) ++ offsets.dropWhile (endsBefore start)).zipIdx).filterMap
          (entryOverlap start (start + len)) := by
        rw [scanRange_eq hrest, zipIdx_append, filterMap_append, hbefore, nil_append, Nat.zero_add]
    _ = offsets.zipIdx.filterMap (entryOverlap start (start + len)) := by rw [takeWhile_append_dropWhile]

lemma zipIdx_buildOffsets : (buildOffsets map).zipIdx = map.zipIdx.map fun x => (offsetEntry x.2 x.1, x.2) := by
  apply ext_getElem?
  intro i
  cases hi : map[i]? <;> simp [buildOffsets, hi]

lemma entryOverlap_offsetEntry (len : Nat) (l : ChunkLocation Id) (i : Nat) :
    entryOverlap start (start + len) (offsetEntry i l, i) = overlap start len l i := by
  cases ho : l.fileOffset <;> simp [entryOverlap, offsetEntry, overlap, ho]

lemma chunksForRange_buildOffsets {map : Locations Id} (h : Apart (buildOffsets map)) (start len : Nat) :
    chunksForRange (buildOffsets map) start len = overlapping map start len := by
  rw [chunksForRange_eq h, zipIdx_buildOffsets, filterMap_map]
  exact filterMap_congr fun x _ => entryOverlap_offsetEntry start len x.1 x.2

lemma pairwise_zipIdx (h : Apart offsets) (k : Nat) :
    (offsets.zipIdx k).Pairwise fun a b => a.2 < b.2 ∧ a.1.1 + a.1.2 ≤ b.1.1 := by
  induction offsets generalizing k with
  | nil => exact List.Pairwise.nil
  | cons e rest ih =>
    obtain ⟨hafter, hrest⟩ := pairwise_cons.mp h
    rw [zipIdx_cons, pairwise_cons]
    refine ⟨?_, ih hrest (k + 1)⟩
    intro x hx
    exact ⟨le_snd_of_mem_zipIdx hx, hafter x.1 (fst_mem_of_mem_zipIdx hx)⟩

lemma pairwise_chunksForRange (h : Apart offsets) (start len : Nat) :
    (chunksForRange offsets start len).Pairwise fun a b => a.1 < b.1 ∧ a.2.1 + a.2.2 ≤ b.2.1 := by
  rw [chunksForRange_eq h]
  refine (pairwise_zipIdx h 0).filterMap _ fun a b hab c hc d hd => ?_
  simp only [entryOverlap, ite_none_right_eq_some, some.injEq] at hc hd
  obtain ⟨-, rfl⟩ := hc
  obtain ⟨-, rfl⟩ := hd
  exact hab

/-! ## Positions -/

def AtPositions (P : Nat → ChunkLocation Id → Prop) (map : Locations Id) : Prop := ∀ i l, map[i]? = some l → P i l

variable {loc l : ChunkLocation Id} {idx : Nat}

namespace AtPositions

variable {P : Nat → ChunkLocation Id → Prop} {map : Locations Id}

lemma rightpad (h : AtPositions P map) (hl : ∀ i, map.length ≤ i → P i l) (n : Nat) : AtPositions P (map.rightpad n l) := by
  intro i l' hi
  rw [List.rightpad, getElem?_append] at hi
  split at hi
  · exact h i l' hi
  rename_i hlen
  rw [eq_of_mem_replicate (mem_of_getElem? hi)]
  exact hl i (Nat.le_of_not_lt hlen)

lemma set (h : AtPositions P map) (hloc : P idx loc) : AtPositions P (map.set idx loc) := by
  intro i l hi
  rw [getElem?_set] at hi
  split at hi
  · rename_i hidx
    split at hi
    · rw [← some.inj hi, ← hidx]
      exact hloc
    · cases hi
  · exact h i l hi

variable [DecidableEq Id]

lemma popNil_eq_take (nilId : Id) (map : Locations Id) : popNil nilId map = map.take (popNil nilId map).length := by
  have hsplit : popNil nilId map ++ map.rtakeWhile (fun l => decide (l.chunkId = nilId)) = map := rdropWhile_append_rtakeWhile
  calc popNil nilId map
      = (popNil nilId map ++ map.rtakeWhile (fun l => decide (l.chunkId = nilId))).take (popNil nilId map).length :=
        take_left.symm
    _ = map.take (popNil nilId map).length := by rw [hsplit]

lemma popNil (h : AtPositions P map) (nilId : Id) : AtPositions P (popNil nilId map) := by
  intro i l hi
  rw [popNil_eq_take, getElem?_take] at hi
  split at hi
  · exact h i l hi
  · cases hi

lemma mergeLoc (h : AtPositions P map) (s : ReadEngine Id) (fromWritePath : Bool)
    (hloc : ∀ idx, slotOf loc = some idx → P idx loc) : AtPositions P (s.mergeLoc fromWritePath map loc) := by
  unfold ReadEngine.mergeLoc
  cases ho : loc.fileOffset with
  | none => exact h
  | some offset =>
    have hslot : slotOf loc = some (offset / chunkSize) := by rw [slotOf, ho]; rfl
    dsimp only
    cases map[offset / chunkSize]? with
    | none => exact h
    | some existing =>
      dsimp only
      split
      · exact h.set (hloc _ hslot)
      · exact h

lemma mergeWindow (s : ReadEngine Id) (fromWritePath : Bool) {window : Locations Id}
    (hwindow : ∀ loc ∈ window, ∀ idx, slotOf loc = some idx → P idx loc) (h : AtPositions P map) :
    AtPositions P (window.foldl (s.mergeLoc fromWritePath) map) := by
  induction window generalizing map with
  | nil => exact h
  | cons loc rest ih =>
    obtain ⟨hloc, hrest⟩ := forall_mem_cons.mp hwindow
    exact ih hrest (h.mergeLoc s fromWritePath hloc)

end AtPositions

def PlacedAt (i : Nat) (l : ChunkLocation Id) : Prop := (∀ c ∈ slotOf l, c = i) ∧ l.FitsSlot

/-- It was there, fills a new position, or is of the position's slot. -/
def StemsFrom (i : Nat) (l : ChunkLocation Id) : Prop := map[i]? = some l ∨ map.length ≤ i ∨ slotOf l = some i

lemma placedAt_of_slotOf (hfits : loc.FitsSlot) (hslot : slotOf loc = some idx) : PlacedAt idx loc := by
  refine ⟨fun c hc => ?_, hfits⟩
  exact some.inj (hc.symm.trans hslot)

lemma placedAt_nilLoc (nilId : Id) (i : Nat) : PlacedAt i (nilLoc nilId) := ⟨nofun, nofun⟩

lemma offsetEntry_bounds {i : Nat} (h : PlacedAt i l) :
    i * chunkSize ≤ (offsetEntry i l).1 ∧ (offsetEntry i l).1 + (offsetEntry i l).2 ≤ (i + 1) * chunkSize := by
  rw [Nat.succ_mul, offsetEntry]
  cases ho : l.fileOffset with
  | none =>
    dsimp only
    omega
  | some offset =>
    have hidx : offset / chunkSize = i := h.1 _ (by rw [slotOf, ho]; rfl)
    have hfits := h.2 offset ho
    have hdiv := Nat.div_add_mod' offset chunkSize
    rw [hidx] at hdiv
    dsimp only
    omega

lemma apart_of_placedAt {map : Locations Id} (h : AtPositions PlacedAt map) : Apart (buildOffsets map) := by
  apply pairwise_iff_getElem.mpr
  intro i j hi hj hij
  simp only [buildOffsets, length_mapIdx] at hi hj
  simp only [buildOffsets, getElem_mapIdx]
  have hbefore := (offsetEntry_bounds (h i map[i] (getElem?_eq_getElem hi))).2
  have hafter := (offsetEntry_bounds (h j map[j] (getElem?_eq_getElem hj))).1
  have hslots : (i + 1) * chunkSize ≤ j * chunkSize := Nat.mul_le_mul_right _ hij
  omega

lemma apart_of_given {locations : Locations Id} (h : (ReadEngineOp.updateChunkMap locations).Given) :
    Apart (buildOffsets locations) := by
  apply pairwise_iff_getElem.mpr
  intro i j hi hj hij
  simp only [buildOffsets, length_mapIdx] at hi hj
  simp only [buildOffsets, getElem_mapIdx]
  obtain ⟨hall, hsorted⟩ := h
  obtain ⟨ha, hafits⟩ := hall _ (getElem_mem hi)
  obtain ⟨hb, hbfits⟩ := hall _ (getElem_mem hj)
  obtain ⟨o, ho⟩ := isSome_iff_exists.mp ha
  obtain ⟨o', ho'⟩ := isSome_iff_exists.mp hb
  have hlt : o / chunkSize < o' / chunkSize :=
    pairwise_iff_getElem.mp hsorted i j hi hj hij _ (by rw [slotOf, ho]; rfl) _ (by rw [slotOf, ho']; rfl)
  have hfits := hafits o ho
  simp only [offsetEntry, ho, ho']
  unfold chunkSize at *
  omega

/-! ## The calls -/

/-- The offsets are the map's, the chunks apart, each in its slot. -/
structure ReadEngine.Tracked (s : ReadEngine Id) : Prop where
  built : s.offsets = buildOffsets s.map
  apart : Apart s.offsets
  fits : ∀ l ∈ s.map, l.FitsSlot

variable {s : ReadEngine Id}

lemma ReadEngine.Tracked.coherent (h : s.Tracked) : s.Coherent where
  length := by rw [h.built, buildOffsets, length_mapIdx]
  describes := by
    intro i l hi
    rw [h.built, buildOffsets, getElem?_mapIdx, hi]
    rfl
  ends := h.apart.imp fun hab => Nat.le_trans hab (Nat.le_add_right ..)
  range := by
    intro start len
    have hapart := h.apart
    rw [h.built] at hapart ⊢
    exact chunksForRange_buildOffsets hapart start len
  ordered := pairwise_chunksForRange h.apart

lemma ReadEngine.tracked_of_placedAt {map : Locations Id} (h : AtPositions PlacedAt map) (provenAbsent : List Id) :
    (⟨map, buildOffsets map, provenAbsent⟩ : ReadEngine Id).Tracked where
  built := rfl
  apart := apart_of_placedAt h
  fits := by
    intro l hl
    obtain ⟨i, hi⟩ := getElem?_of_mem hl
    exact (h i l hi).2

lemma ReadEngine.Tracked.atPositions (h : s.Tracked) (hplace : s.SlotsInPlace) :
    AtPositions (fun i l => PlacedAt i l ∧ StemsFrom s.map i l) s.map := by
  intro i l hi
  exact ⟨⟨hplace i l hi, h.fits l (mem_of_getElem? hi)⟩, .inl hi⟩

lemma stemsFrom_nilLoc (nilId : Id) {map : Locations Id} (i : Nat) (hi : map.length ≤ i) :
    PlacedAt i (nilLoc nilId) ∧ StemsFrom map i (nilLoc nilId) :=
  ⟨placedAt_nilLoc nilId i, .inr (Or.inl hi)⟩

lemma stemsFrom_slotOf (hfits : loc.FitsSlot) (map : Locations Id) (hslot : slotOf loc = some idx) :
    PlacedAt idx loc ∧ StemsFrom map idx loc :=
  ⟨placedAt_of_slotOf hfits hslot, .inr (Or.inr hslot)⟩

lemma keeps_of_stemsFrom (hplace : s.SlotsInPlace) {map : Locations Id}
    (h : AtPositions (StemsFrom s.map) map) (i : Nat) (l l' : ChunkLocation Id)
    (hl : s.map[i]? = some l) (hl' : map[i]? = some l')
    (hne : l' ≠ l) (c : Nat) (hc : c ∈ slotOf l) : slotOf l' = some c := by
  rw [hplace i l hl c hc]
  rcases h i l' hl' with hsame | hlen | hslot
  · exact absurd (some.inj (hsame.symm.trans hl)) hne
  · rw [getElem?_eq_none hlen] at hl
    cases hl
  · exact hslot

variable [DecidableEq Id]

omit [DecidableEq Id] in
lemma offsets_updateSingleChunk (nilId : Id) (map : Locations Id) (idx : Nat) (loc : ChunkLocation Id) {n : Nat}
    (hn : n ≤ (map.rightpad (idx + 1) (nilLoc nilId)).length) :
    ((buildOffsets map ++ (range' map.length (n - map.length)).map fun i => (i * chunkSize, 0)).set idx
        (offsetEntry idx loc)).take n = buildOffsets (((map.rightpad (idx + 1) (nilLoc nilId)).set idx loc).take n) := by
  apply ext_getElem?
  intro i
  simp only [buildOffsets, getElem?_take, getElem?_set, getElem?_mapIdx]
  have hlen : (map.rightpad (idx + 1) (nilLoc nilId)).length = map.length + (idx + 1 - map.length) := by simp [List.rightpad]
  by_cases hin : i < n
  · simp only [if_pos hin]
    by_cases hidx : idx = i
    · subst hidx
      rw [if_pos rfl, if_pos rfl, if_pos (by simp; omega), if_pos (by omega)]
      rfl
    rw [if_neg hidx, if_neg hidx]
    by_cases hold : i < map.length
    · simp [List.rightpad, getElem?_append, hold]
    have hfill : i - map.length < n - map.length := by omega
    have hpad : i - map.length < idx + 1 - map.length := by omega
    have hpos : map.length + (i - map.length) = i := by omega
    simp [List.rightpad, getElem?_append, hold, hfill, hpad, hpos, offsetEntry, nilLoc]
  · simp only [if_neg hin, map_none]

lemma mergeAdmits_nilLoc (nilId : Id) (s : ReadEngine Id) (h : loc.chunkId ∉ s.provenAbsent) :
    s.mergeAdmits (nilLoc nilId) loc (singleSeqOk loc.clientWriteSeq (nilLoc nilId).clientWriteSeq) = true := by
  have hseq : singleSeqOk loc.clientWriteSeq (nilLoc nilId).clientWriteSeq = true := by
    cases loc.clientWriteSeq <;> rfl
  simp only [mergeAdmits, hseq, if_neg h, ite_self]

lemma updateSingleChunk_cases (nilId : Id) (hbuilt : s.offsets = buildOffsets s.map) (hslot : slotOf loc = some idx)
    (habsent : loc.chunkId ∈ s.provenAbsent → idx < s.map.length) : s.updateSingleChunk nilId loc = s ∨
      ∃ map, map = popNil nilId ((s.map.rightpad (idx + 1) (nilLoc nilId)).set idx loc) ∧
        s.updateSingleChunk nilId loc = ⟨map, buildOffsets map, s.provenAbsent⟩ := by
  obtain ⟨o, ho, -⟩ := map_eq_some_iff.mp hslot
  have hidx : (slotOf loc).getD 0 = idx := by
    rw [hslot]
    rfl
  have hentry : (loc.fileOffset.getD 0, loc.size) = offsetEntry idx loc := by rw [offsetEntry, ho]; rfl
  have holdLen : s.offsets.length = s.map.length := by rw [hbuilt, buildOffsets, length_mapIdx]
  unfold updateSingleChunk
  rw [hidx, holdLen, hbuilt]
  dsimp only
  split
  · right
    refine ⟨_, rfl, ?_⟩
    have htake := AtPositions.popNil_eq_take nilId ((s.map.rightpad (idx + 1) (nilLoc nilId)).set idx loc)
    have hn : (popNil nilId ((s.map.rightpad (idx + 1) (nilLoc nilId)).set idx loc)).length ≤
        (s.map.rightpad (idx + 1) (nilLoc nilId)).length := by
      rw [htake, length_take, length_set]
      exact Nat.min_le_right ..
    rw [hentry, offsets_updateSingleChunk nilId s.map idx loc hn, ← htake]
  left
  rename_i hrejected
  have hin : idx < s.map.length := by
    by_contra hout
    have hfilled : idx - s.map.length < idx + 1 - s.map.length := by omega
    have hexisting : (s.map.rightpad (idx + 1) (nilLoc nilId)).getD idx (nilLoc nilId) = nilLoc nilId := by
      simp [List.rightpad, getElem?_append, hout, hfilled]
    rw [hexisting] at hrejected
    exact hrejected (mergeAdmits_nilLoc nilId s (mt habsent hout))
  have hpad : s.map.rightpad (idx + 1) (nilLoc nilId) = s.map := by
    rw [List.rightpad, Nat.sub_eq_zero_of_le hin, replicate_zero, append_nil]
  rw [hpad, ← hbuilt]

lemma tracked_readEngineStep (H : ChunkHash Id) (nilId : Id) (s : ReadEngine Id) (a : ReadEngineOp Id) (h : s.Tracked)
    (ha : a.Given ∧ a.InPlace s) : (s.step H nilId a).Tracked ∧ a.Keeps s (s.step H nilId a) := by
  obtain ⟨hgiven, hin⟩ := ha
  cases a with
  | updateChunkMap locations => exact ⟨⟨rfl, apart_of_given hgiven, fun l hl => (hgiven.1 l hl).2⟩, trivial⟩
  | updateSingleChunk loc =>
    obtain ⟨hplace, idx, hslot, habsent⟩ := hin
    simp only [step, ReadEngineOp.Keeps]
    rcases updateSingleChunk_cases nilId h.built hslot habsent with hsame | ⟨map, hmap, hstep⟩
    · rw [hsame]
      exact ⟨h, keeps_of_stemsFrom hplace fun i l hi => .inl hi⟩
    have hpos : AtPositions (fun i l => PlacedAt i l ∧ StemsFrom s.map i l) map := by
      rw [hmap]
      exact (((h.atPositions hplace).rightpad (stemsFrom_nilLoc nilId) _).set (stemsFrom_slotOf hgiven s.map hslot)).popNil nilId
    rw [hstep]
    exact ⟨tracked_of_placedAt (fun i l hi => (hpos i l hi).1) _, keeps_of_stemsFrom hplace fun i l hi => (hpos i l hi).2⟩
  | updateChunkMapWindow window total fromWritePath =>
    have hpos : AtPositions (fun i l => PlacedAt i l ∧ StemsFrom s.map i l)
        (s.updateChunkMapWindow nilId window total fromWritePath).map :=
      (AtPositions.mergeWindow s fromWritePath (fun loc hloc _ hslot => stemsFrom_slotOf (hgiven loc hloc) s.map hslot)
        ((h.atPositions hin).rightpad (stemsFrom_nilLoc nilId) total)).popNil nilId
    exact ⟨tracked_of_placedAt (fun i l hi => (hpos i l hi).1) _, keeps_of_stemsFrom hin fun i l hi => (hpos i l hi).2⟩
  | expireChunkMapAsync => exact ⟨⟨rfl, List.Pairwise.nil, nofun⟩, trivial⟩
  | markChunkProvenAbsent cid =>
    refine ⟨?_, trivial⟩
    simp only [step, ReadEngine.markChunkProvenAbsent]
    split
    · exact ⟨h.built, h.apart, h.fits⟩
    · exact h

/-- The vectors describe each other, the ends do not decrease, no slot loses its location to another, and
`chunks_for_range` returns the overlapping chunks in order, once each. -/
theorem read_engine_coherent (H : ChunkHash Id) (nilId : Id) (l : List (ReadEngineOp Id)) (hgiven : ∀ a ∈ l, a.Given)
    (hplace : Transition.Meets (ReadEngine.step H nilId) (fun s a => a.InPlace s) .new l) :
    Transition.Meets (ReadEngine.step H nilId)
      (fun s a => a.Keeps s (s.step H nilId a) ∧ (s.step H nilId a).Coherent) .new l := by
  have hboth : Meets (step H nilId) (fun s a => a.Given ∧ a.InPlace s) .new l :=
    (meets_congr fun s a ha => (and_iff_right (hgiven a ha)).symm).mp hplace
  have hnew : (new : ReadEngine Id).Tracked := ⟨rfl, List.Pairwise.nil, nofun⟩
  refine meets_of_invariant (fun s a hs ha => ?_) (fun s a hs ha => (tracked_readEngineStep H nilId s a hs ha).1) hnew hboth
  obtain ⟨htracked, hkeeps⟩ := tracked_readEngineStep H nilId s a hs ha
  exact ⟨hkeeps, htracked.coherent⟩

def fiveBytesAt (b : UInt8) (offset : Option Nat) : ChunkLocation FreeId := ⟨.content [b] 0 0, [], 5, offset, none, none, none⟩

theorem merged_window_coherent :
    let l : List (ReadEngineOp FreeId) :=
      [.updateChunkMapWindow [fiveBytesAt 1 (some 0), fiveBytesAt 3 (some (2 * chunkSize)), fiveBytesAt 4 none] 3 false,
        .updateSingleChunk (fiveBytesAt 2 (some chunkSize)), .markChunkProvenAbsent (.token (.content [] 0 0)),
        .updateSingleChunk { fiveBytesAt 2 (some chunkSize) with chunkId := .token (.content [] 0 0) }]
    Transition.Meets (ReadEngine.step freeHash (.content [] 0 0))
      (fun s a => a.Keeps s (s.step freeHash (.content [] 0 0) a) ∧ (s.step freeHash (.content [] 0 0) a).Coherent) .new l := by
  intro l
  refine read_engine_coherent freeHash (.content [] 0 0) l ?_ ?_
  · decide
  · exact ⟨by decide, by decide, by decide, by decide, trivial⟩

/-- A rejected absent chunk leaves the map extended; without its slot 1, slot 1's update replaces slot 2; one without
an offset replaces slot 0. -/
theorem read_engine_out_of_step :
    let run := Transition.run (ReadEngine.step freeHash (.content [] 0 0)) .new
    let rejected : List (ReadEngineOp FreeId) := [.markChunkProvenAbsent (.token (.content [] 0 0)),
      .updateSingleChunk { fiveBytesAt 2 (some chunkSize) with chunkId := .token (.content [] 0 0) }]
    let sparse : List (ReadEngineOp FreeId) := [.updateChunkMap [fiveBytesAt 1 (some 0), fiveBytesAt 3 (some (2 * chunkSize))],
      .updateSingleChunk (fiveBytesAt 2 (some chunkSize))]
    let unplaced : List (ReadEngineOp FreeId) :=
      [.updateChunkMap [fiveBytesAt 1 (some 0)], .updateSingleChunk (fiveBytesAt 4 none)]
    (∀ a ∈ rejected ++ sparse ++ unplaced, a.Given) ∧
      ((run rejected).map.length = 2 ∧ (run rejected).offsets.length = 0) ∧
      ((run sparse).map = [fiveBytesAt 1 (some 0), fiveBytesAt 2 (some chunkSize)] ∧
        chunksForRange (run sparse).offsets (2 * chunkSize) 5 = []) ∧
      ((run unplaced).map = [fiveBytesAt 4 none] ∧ chunksForRange (run unplaced).offsets 0 5 = [(0, 0, 5)]) := by
  refine ⟨by decide, by decide, by decide, by decide⟩

end Dfs
