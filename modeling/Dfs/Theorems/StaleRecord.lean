import Dfs.Theorems.ConcurrentPut

/-!
# A stale or partial record

The reconciliation lets times decide before sequences and does not merge within a slot. `chunk_map_update` never
lowers the entry's sequence and drops only slots behind a newer record, but passes the occupant's own chunk, and its
halving search misses occupants in a list that is not in order.
-/

namespace Dfs

open KeyedList Node
open List hiding lookup

variable {Id : Type}

/-! ## The reconciliation with the map -/

/-- `map_locs_by_cidx`: the last location of the map in a slot. -/
def mapLocOf (mapLocs : Locations Id) (cidx : Nat) : Option (ChunkLocation Id) :=
  mapLocs.reverse.find? fun l => slotOf l = some cidx

variable {cidx : Nat} {mapLocs : Locations Id} {l : ChunkLocation Id}

lemma slotLocs_reconciled {incoming : Locations Id} (hne : incoming ≠ []) (cidx : Nat) :
    (slotLocs (reconcileChunkLocationsWithMap incoming mapLocs) cidx).Perm
      (if mentioned incoming cidx then (slotLocs incoming cidx).map (reconcileLocation mapLocs)
        else (mapLocs.find? fun l => slotOf l = some cidx).toList) := by
  have hslot : ∀ l ∈ incoming, slotOf (reconcileLocation mapLocs l) = slotOf l := fun l _ => slotOf_reconcileLocation mapLocs l
  have hslots := slotLocs_addUnmentioned (fun _ => false) (incoming.map (reconcileLocation mapLocs)) mapLocs cidx
  rw [mentioned_map hslot, slotLocs_map hslot] at hslots
  have hfirst : firstKept (fun _ => false) mapLocs cidx = mapLocs.find? fun l => slotOf l = some cidx := by simp [firstKept]
  rw [← hfirst, ← hslots, reconcileChunkLocationsWithMap, if_neg (by simpa using hne)]
  exact (perm_insertionSort ..).filter _

lemma not_lowerSeq_reconcileLocation_iff {mapLoc : ChunkLocation Id} (hslot : slotOf l = some cidx)
    (hmap : mapLocOf mapLocs cidx = some mapLoc) : ¬ LowerSeq (reconcileLocation mapLocs l) mapLoc ↔
      (LowerSeq l mapLoc → ∀ ts, l.writtenAt = some ts → ts < mapLoc.writtenAt.getD 0) := by
  have hself : ¬ LowerSeq mapLoc mapLoc := by
    unfold LowerSeq
    cases mapLoc.clientWriteSeq <;> simp
  have hrec : reconcileLocation mapLocs l = if shouldUseServer l mapLoc then mapLoc else l := by
    simp only [reconcileLocation, hslot, show mapLocs.reverse.find? _ = some mapLoc from hmap]
  cases hts : l.writtenAt with
  | some ts => by_cases hnewer : ts < mapLoc.writtenAt.getD 0 <;> simp [hrec, shouldUseServer, hts, hnewer, hself]
  | none =>
    -- without a time the sequences decide, as they should
    have huse : shouldUseServer l mapLoc = true ↔ LowerSeq l mapLoc := by
      unfold shouldUseServer LowerSeq
      cases l.clientWriteSeq <;> cases mapLoc.clientWriteSeq <;> simp [hts]
    by_cases hlower : LowerSeq l mapLoc <;> simp [hrec, huse, hlower, hself]

/-- The reconciled list is sorted; it has one entry per slot exactly if the record has none twice, and no sequence
below the map's exactly if each such location has an earlier time too and the map's first in an omitted slot is not
below its last. -/
theorem reconciled_canonical_iff (first : ChunkLocation Id) (rest mapLocs : Locations Id) :
    let incoming := first :: rest
    let result := reconcileChunkLocationsWithMap incoming mapLocs
    result.Pairwise (fun a b => a.fileOffset.getD u64Max ≤ b.fileOffset.getD u64Max) ∧
    ((∀ cidx, mentioned incoming cidx = true ∨ mentioned mapLocs cidx = true → (slotLocs result cidx).length = 1) ↔
      ∀ cidx, (slotLocs incoming cidx).length ≤ 1) ∧
    ((∀ cidx mapLoc, mapLocOf mapLocs cidx = some mapLoc → ∀ x ∈ slotLocs result cidx, ¬ LowerSeq x mapLoc) ↔
      ∀ cidx mapLoc, mapLocOf mapLocs cidx = some mapLoc →
        (∀ l ∈ slotLocs incoming cidx, LowerSeq l mapLoc → ∀ ts, l.writtenAt = some ts → ts < mapLoc.writtenAt.getD 0) ∧
        (mentioned incoming cidx = false → ∀ l, mapLocs.find? (fun l => slotOf l = some cidx) = some l → ¬ LowerSeq l mapLoc))
          := by
  intro incoming result
  have hslots (cidx) : (slotLocs result cidx).Perm
    (if mentioned incoming cidx then (slotLocs incoming cidx).map (reconcileLocation mapLocs)
      else (mapLocs.find? fun l => slotOf l = some cidx).toList) := slotLocs_reconciled (cons_ne_nil first rest) cidx
  refine ⟨sortByOffset_sorted _, forall_congr' fun cidx => ?_, forall₃_congr fun cidx mapLoc hmap => ?_⟩
  · rw [(hslots cidx).length_eq]
    cases hm : mentioned incoming cidx with
    | true =>
      have hpos : 0 < (slotLocs incoming cidx).length := length_pos_iff.mpr fun h => by simp [mentioned_eq_false h] at hm
      simp
      omega
    | false =>
      rw [slotLocs_eq_nil hm]
      simp [mentioned]
  · simp only [(hslots cidx).mem_iff]
    cases hm : mentioned incoming cidx with
    | true =>
      simp only [if_true, mem_map, forall_exists_index, and_imp, forall_apply_eq_imp_iff₂, Bool.true_eq_false,
        false_imp_iff, and_true]
      refine forall₂_congr fun l hl => not_lowerSeq_reconcileLocation_iff ?_ hmap
      simpa using (List.mem_filter.mp hl).2
    | false =>
      rw [slotLocs_eq_nil hm]
      simp

def startSlot (id seq : Nat) : ChunkLocation Nat := { slotStart id 0 with clientWriteSeq := some seq }

/-- A later time lets a lower sequence stay, and two of one slot both stay. -/
theorem reconciled_goes_back :
    let timed (l : ChunkLocation Nat) (ts : Nat) := { l with writtenAt := some ts }
    reconcileChunkLocationsWithMap [timed (startSlot 12 3) 200] [timed (startSlot 10 5) 100] = [timed (startSlot 12 3) 200] ∧
      reconcileChunkLocationsWithMap [startSlot 12 6, startSlot 13 7] [startSlot 10 5] = [startSlot 12 6, startSlot 13 7] := by
  decide +kernel

/-! ## The merge into the map -/

variable [DecidableEq Id]

section

variable {s : Node Id} {m : FileMetadata Id} {existing : Locations Id} {mapSeq : Nat} {search : SlotSearch Id}
  (hentry : s.chunkMap m.id = some (existing, mapSeq)) (hsearch : search.Sound) (hrange : InRange m.chunkLocations)

include hentry in
lemma chunkMapUpdate_of_nil (hnil : m.chunkLocations = []) : (s.chunkMapUpdateBy search m).chunkMap m.id =
    some (if m.size = 0 ∧ mapSeq < m.writeSeq then ([], m.writeSeq) else (existing, mapSeq)) := by
  by_cases hsize : m.size = 0 <;> by_cases hnewer : mapSeq < m.writeSeq <;>
    simp [chunkMapUpdateBy, hnil, hsize, hnewer, hentry]

include hentry hsearch hrange

lemma mem_chunkMapUpdate_slot {x : ChunkLocation Id} (hslot : slotOf x = some cidx)
    (hm : mentioned m.chunkLocations cidx = true) : x ∈ (s.chunkMapUpdateBy search m).locsOf m.id ↔
      ∃ l ∈ m.chunkLocations, slotOf l = some cidx ∧ (guardLocationBy s.hasChunk search existing l).1 = x := by
  have hguard : ∀ l ∈ m.chunkLocations, slotOf (guardLocationBy s.hasChunk search existing l).1 = slotOf l :=
    fun l hl => slotOf_guardLocationBy _ hsearch (hrange l hl)
  have hslots := slotLocs_addUnmentioned (shrinkDrops m mapSeq)
    (m.chunkLocations.map fun l => (guardLocationBy s.hasChunk search existing l).1) existing cidx
  rw [mentioned_map hguard, if_pos hm, slotLocs_map hguard] at hslots
  have hlocs : m.chunkLocations ≠ [] := by
    rintro h
    simp [h, mentioned] at hm
  have hsome : x.fileOffset.isSome = true := by
    obtain ⟨o, ho, -⟩ := Option.map_eq_some_iff.mp hslot
    simp [ho]
  have hmem : x ∈ (s.chunkMapUpdateBy search m).locsOf m.id ↔ x ∈ slotLocs (addUnmentioned (shrinkDrops m mapSeq)
      (m.chunkLocations.map fun l => (guardLocationBy s.hasChunk search existing l).1) existing) cidx := by
    simp [locsOf_chunkMapUpdate search hlocs, hentry, mergedLocationsBy, sortByOffset, slotLocs, hsome, hslot]
  rw [hmem, hslots]
  simp [slotLocs, and_assoc]

/-- A location of the record is taken unless the search finds another chunk in its slot that it is stale against. -/
theorem mem_chunkMapUpdate (hl : l ∈ m.chunkLocations) (hslot : slotOf l = some cidx) :
    l ∈ (s.chunkMapUpdateBy search m).locsOf m.id ↔ ¬ ∃ found, search existing cidx = some found ∧ found.chunkId ≠ l.chunkId ∧
      staleForMap s.hasChunk l found = true := by
  rw [mem_chunkMapUpdate_slot hentry hsearch hrange hslot (mentioned_iff.mpr ⟨l, hl, hslot⟩)]
  constructor
  · rintro ⟨l', -, hslot', htaken⟩ ⟨found, hfound, hne, hstale⟩
    rcases guardLocation_cases s.hasChunk search existing l' with ⟨h, hsame⟩ | ⟨cidx', old, hslot'', hold, -, h⟩
    · rw [h] at htaken
      subst htaken
      exact hne (hsame cidx found hslot' hfound)
    cases hslot'.symm.trans hslot''
    cases hfound.symm.trans hold
    rw [h] at htaken
    split at htaken
    · exact hne (congrArg _ htaken)
    rename_i hfresh
    obtain rfl : l' = l := htaken
    exact hfresh hstale
  · intro hnone
    refine ⟨l, hl, hslot, ?_⟩
    rcases guardLocation_cases s.hasChunk search existing l with ⟨h, -⟩ | ⟨cidx', old, hslot', hold, hne, h⟩
    · rw [h]
    cases hslot.symm.trans hslot'
    rw [h, if_neg fun hstale => hnone ⟨old, hold, hne, hstale⟩]

end

/-- The record replaces no location of the entry by one with a lower sequence. -/
def SparesNewer (m : FileMetadata Id) (existing locs : Locations Id) : Prop :=
  ∀ l ∈ m.chunkLocations, ∀ old ∈ existing, ∀ cidx, slotOf l = some cidx → slotOf old = some cidx → LowerSeq l old → l ∉ locs

/-- In a list in order the halving search finds the occupant, and only the occupant's own chunk passes the guard. -/
theorem sparesNewer_iff_of_sorted {s : Node Id} {m : FileMetadata Id} {existing : Locations Id} {mapSeq : Nat}
    (hentry : s.chunkMap m.id = some (existing, mapSeq)) (hrange : InRange m.chunkLocations) (hsorted : Sorted cidxOf existing) :
    SparesNewer m existing ((s.chunkMapUpdateBy searchByIdx m).locsOf m.id) ↔
      ∀ l ∈ m.chunkLocations, ∀ old ∈ existing, ∀ cidx, slotOf l = some cidx → slotOf old = some cidx → LowerSeq l old →
        l.chunkId ≠ old.chunkId := by
  refine forall₂_congr fun l hl => forall₂_congr fun old hold => forall₃_congr fun cidx hslot hslot' =>
    forall_congr' fun hlower => ?_
  have hfound : searchByIdx existing cidx = some old := by
    rw [searchByIdx_eq hsorted, ← cidxOf_of_fileOffset hslot', lookup_of_mem hsorted hold]
  rw [mem_chunkMapUpdate hentry searchByIdx_sound hrange hl hslot, not_not]
  constructor
  · rintro ⟨found, hsearched, hne, -⟩ hid
    cases hfound.symm.trans hsearched
    exact hne hid.symm
  · intro hne
    exact ⟨old, hfound, hne.symm, staleForMap_of_lowerSeq _ hlower⟩

/-- The entry's sequence does not drop, and an omitted slot goes only for a newer record that ends before it. If the
entry is in order, a record that is not newer replaces no location of a higher sequence exactly if none of its lower
ones is of the occupant's own chunk; in any order, exactly if the halving search finds another chunk there that the
lower one is stale against. -/
theorem record_spares_map_iff {s : Node Id} {m : FileMetadata Id} {existing : Locations Id} {mapSeq : Nat}
    (hentry : s.chunkMap m.id = some (existing, mapSeq)) (hrange : InRange m.chunkLocations) :
    let s' := s.chunkMapUpdateBy searchByIdx m
    (∃ seq, s'.chunkMap m.id = some (s'.locsOf m.id, seq) ∧ mapSeq ≤ seq) ∧
    (∀ old ∈ existing, ∀ cidx, slotOf old = some cidx → mentioned m.chunkLocations cidx = false →
      mentioned (s'.locsOf m.id) cidx = false → mapSeq < m.writeSeq ∧ m.size ≤ old.fileOffset.getD 0) ∧
    (Sorted cidxOf existing → ((m.writeSeq ≤ mapSeq → SparesNewer m existing (s'.locsOf m.id)) ↔
      (m.writeSeq ≤ mapSeq → ∀ l ∈ m.chunkLocations, ∀ old ∈ existing, ∀ cidx, slotOf l = some cidx → slotOf old = some cidx →
        LowerSeq l old → l.chunkId ≠ old.chunkId))) ∧
    ((m.writeSeq ≤ mapSeq → SparesNewer m existing (s'.locsOf m.id)) ↔
      (m.writeSeq ≤ mapSeq → ∀ l ∈ m.chunkLocations, ∀ old ∈ existing, ∀ cidx, slotOf l = some cidx → slotOf old = some cidx →
        LowerSeq l old → ∃ found, searchByIdx existing cidx = some found ∧ found.chunkId ≠ l.chunkId ∧
          staleForMap s.hasChunk l found = true)) := by
  intro s'
  refine ⟨?_, fun old hold cidx hslot _ hgone => ?_, fun hsorted => ?_, ?_⟩
  · by_cases hnil : m.chunkLocations = []
    · refine ⟨if m.size = 0 ∧ mapSeq < m.writeSeq then m.writeSeq else mapSeq, ?_, ?_⟩
      · simp only [s', locsOf, chunkMapUpdate_of_nil hentry hnil]
        split <;> rfl
      · split <;> omega
    refine ⟨max m.writeSeq mapSeq, ?_, Nat.le_max_right ..⟩
    rw [show s'.locsOf m.id = _ from locsOf_chunkMapUpdate searchByIdx hnil]
    simp [s', chunkMapUpdateBy, hnil, hentry]
  · by_cases hnil : m.chunkLocations = []
    · simp only [s', locsOf, chunkMapUpdate_of_nil hentry hnil] at hgone
      split at hgone
      · rename_i hclear
        exact ⟨hclear.2, by simp [hclear.1]⟩
      · exact absurd (mentioned_iff.mpr ⟨old, hold, hslot⟩) (by simpa using hgone)
    have hdrop : shrinkDrops m mapSeq old = true := by
      by_contra hkept
      have hlocs : s'.locsOf m.id = _ := locsOf_chunkMapUpdate searchByIdx hnil
      rw [hlocs, mentioned_filter, hentry, Bool.eq_false_iff, ne_eq, mentioned_mergedLocations searchByIdx_sound hrange] at hgone
      exact hgone (.inr ⟨old, hold, hslot, by simpa using hkept⟩)
    simpa [shrinkDrops] using hdrop
  · exact imp_congr_right fun _ => sparesNewer_iff_of_sorted hentry hrange hsorted
  · refine imp_congr_right fun _ => forall₂_congr fun l hl => forall₂_congr fun old _ => forall₂_congr fun cidx hslot => ?_
    rw [mem_chunkMapUpdate hentry searchByIdx_sound hrange hl hslot, not_not]

def recordOf (locs : List (ChunkLocation Nat)) : FileMetadata Nat := ⟨7, ['/', 'f'], 2 * chunkSize, .regularFile, locs, 1⟩

theorem older_location_is_refused :
    startSlot 12 3 ∉ (((Node.empty : Node Nat).chunkMapUpdateBy searchByIdx
      (recordOf [startSlot 10 5, slotStart 11 1])).chunkMapUpdateBy
      searchByIdx (recordOf [startSlot 12 3])).locsOf 7 := by
  have hentry : ((empty : Node Nat).chunkMapUpdateBy searchByIdx (recordOf [startSlot 10 5, slotStart 11 1])).chunkMap
      (recordOf [startSlot 12 3]).id = some ([startSlot 10 5, slotStart 11 1], 1) := by decide +kernel
  have hrange : InRange (recordOf [startSlot 12 3]).chunkLocations := by
    intro l hl o ho
    simp only [recordOf, startSlot, slotStart, List.mem_singleton] at hl
    simp [hl] at ho
    omega
  have hsorted : [startSlot 10 5, slotStart 11 1].Pairwise fun a b => cidxOf a < cidxOf b := by decide +kernel
  refine ((record_spares_map_iff hentry hrange).2.2.1 hsorted).mpr ?_ (by decide) _ (by simp [recordOf])
    (startSlot 10 5) (by simp) 0
    rfl rfl (by simp [LowerSeq, startSlot])
  intro _ l hl old hold cidx hslot hslot' hlower
  cases List.mem_singleton.mp hl
  simp only [List.mem_cons, List.not_mem_nil, or_false] at hold
  rcases hold with rfl | rfl <;> decide

/-- Sequence five becomes three: after a first record out of order, and for the occupant's own chunk. -/
theorem older_location_is_taken :
    (((Node.empty : Node Nat).chunkMapUpdateBy searchByIdx (recordOf [slotStart 11 1, startSlot 10 5])).chunkMapUpdateBy
      searchByIdx
        (recordOf [startSlot 12 3])).chunkMap 7 = some ([startSlot 12 3, slotStart 11 1], 1) ∧
      (((Node.empty : Node Nat).chunkMapUpdateBy searchByIdx (recordOf [startSlot 10 5])).chunkMapUpdateBy searchByIdx
        (recordOf [startSlot 10 3])).chunkMap 7 = some ([startSlot 10 3], 1) := by
  decide +kernel

end Dfs
