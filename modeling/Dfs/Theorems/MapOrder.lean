import Dfs.Lib.Transition
import Dfs.Lemmas.MergedSlots
import Dfs.MapRun

/-! # Are the lists of the chunk map in order? -/

namespace Dfs

open KeyedList Option Node
open List hiding lookup

variable {Id : Type}

/-- Sorted by index with no index twice, and every location has its place. -/
structure Ordered (locs : Locations Id) : Prop where
  sorted : Sorted cidxOf locs
  placed : ∀ l ∈ locs, l.fileOffset.isSome = true

/-- In order, and the search finds an index exactly if a location has it. -/
structure Node.MapOrdered (s : Node Id) : Prop where
  ordered : ∀ file, Ordered (s.locsOf file)
  finds : ∀ file cidx, (chunkMapFindByIdx (s.locsOf file) cidx).isSome = true ↔ ∃ l ∈ s.locsOf file, slotOf l = some cidx

/-! ## Lists in order -/

lemma ordered_nil : Ordered ([] : Locations Id) := ⟨List.Pairwise.nil, fun _ h => (nomatch h)⟩

lemma slotOf_of_isSome {l : ChunkLocation Id} (h : l.fileOffset.isSome = true) : slotOf l = some (cidxOf l) := by
  obtain ⟨o, ho⟩ := isSome_iff_exists.mp h
  unfold cidxOf slotOf
  rw [ho]
  rfl

lemma isSome_chunkMapFindByIdx {locs : Locations Id} (h : Sorted cidxOf locs) (cidx : Nat) :
    (chunkMapFindByIdx locs cidx).isSome = (lookup cidxOf locs cidx).isSome := by
  rw [chunkMapFindByIdx_eq (h.imp Nat.le_of_lt)]
  unfold slotPosition lookup position
  dsimp only
  cases locs[(locs.takeWhile fun l => decide (cidxOf l < cidx)).length]? with
  | none => rfl
  | some l => by_cases h : cidxOf l = cidx <;> simp [h, Option.filter]

variable {locs : Locations Id}

lemma Ordered.finds (h : Ordered locs) (cidx : Nat) :
    (chunkMapFindByIdx locs cidx).isSome = true ↔ ∃ l ∈ locs, slotOf l = some cidx := by
  rw [isSome_chunkMapFindByIdx h.sorted]
  constructor
  · intro hfound
    obtain ⟨l, hl⟩ := isSome_iff_exists.mp hfound
    refine ⟨l, mem_of_lookup hl, ?_⟩
    rw [slotOf_of_isSome (h.placed l (mem_of_lookup hl)), key_of_lookup hl]
  · rintro ⟨l, hl, hslot⟩
    rw [slotOf_of_isSome (h.placed l hl), some.injEq] at hslot
    rw [← hslot, lookup_of_mem h.sorted hl]
    rfl

lemma Node.mapOrdered_iff {s : Node Id} : s.MapOrdered ↔ ∀ file, Ordered (s.locsOf file) :=
  ⟨fun h => h.ordered, fun h => ⟨h, fun file => (h file).finds⟩⟩

lemma Ordered.congr {locs' : Locations Id} (h : Ordered locs)
    (hoff : locs'.map (·.fileOffset) = locs.map (·.fileOffset)) : Ordered locs' := by
  have hsorted (l : Locations Id) :
      Sorted cidxOf l ↔ (l.map (·.fileOffset)).Pairwise fun a b =>
        (a.map (· / chunkSize)).getD u64Max < (b.map (· / chunkSize)).getD u64Max := by
    unfold Sorted cidxOf slotOf
    rw [pairwise_map]
  constructor
  · rw [hsorted, hoff, ← hsorted]
    exact h.sorted
  · intro l hl
    have hmem : l.fileOffset ∈ locs.map (·.fileOffset) := hoff ▸ mem_map_of_mem hl
    obtain ⟨l', hl', heq⟩ := mem_map.mp hmem
    rw [← heq]
    exact h.placed l' hl'

lemma map_fileOffset_updateFirst {p : ChunkLocation Id → Bool} {f : ChunkLocation Id → ChunkLocation Id}
    (hf : ∀ l, (f l).fileOffset = l.fileOffset) (locs : Locations Id) :
    (updateFirst p f locs).map (·.fileOffset) = locs.map (·.fileOffset) := by
  induction locs with
  | nil => rfl
  | cons l locs ih =>
    unfold updateFirst
    split
    · rw [map_cons, map_cons, hf]
    · rw [map_cons, map_cons, ih]

lemma pairwise_slot_iff (hplaced : ∀ l ∈ locs, l.fileOffset.isSome = true) :
    (locs.Pairwise fun a b => cidxOf a ≠ cidxOf b) ↔ ∀ cidx, (slotLocs locs cidx).length ≤ 1 := by
  induction locs with
  | nil => simp [slotLocs]
  | cons a locs ih =>
    have ha : slotOf a = some (cidxOf a) := slotOf_of_isSome (hplaced a mem_cons_self)
    rw [pairwise_cons, ih fun l hl => hplaced l (mem_cons_of_mem _ hl)]
    have hcons : ∀ cidx, slotLocs (a :: locs) cidx = if cidxOf a = cidx then a :: slotLocs locs cidx else slotLocs locs cidx := by
      intro cidx
      by_cases h : cidxOf a = cidx <;> simp [slotLocs, ha, h]
    have hempty : (∀ b ∈ locs, cidxOf a ≠ cidxOf b) ↔ slotLocs locs (cidxOf a) = [] := by
      unfold slotLocs
      rw [filter_eq_nil_iff]
      refine forall₂_congr fun b hb => ?_
      rw [slotOf_of_isSome (hplaced b (mem_cons_of_mem _ hb))]
      simp [eq_comm]
    rw [hempty]
    constructor
    · rintro ⟨hnil, hrest⟩ cidx
      rw [hcons]
      split
      · rename_i h
        rw [← h, hnil]
        exact Nat.le_refl 1
      · exact hrest cidx
    · intro h
      refine ⟨?_, fun cidx => ?_⟩
      · have := h (cidxOf a)
        rw [hcons, if_pos rfl, length_cons] at this
        exact length_eq_zero_iff.mp (by omega)
      · have := h cidx
        rw [hcons] at this
        split at this
        · exact Nat.le_of_succ_le this
        · exact this

lemma ordered_sortByOffset_iff (locs : Locations Id) :
    Ordered ((sortByOffset locs).filter (·.fileOffset.isSome)) ↔ ∀ cidx, (slotLocs locs cidx).length ≤ 1 := by
  have hplaced : ∀ l ∈ (sortByOffset locs).filter (·.fileOffset.isSome), l.fileOffset.isSome = true := fun l hl =>
    (List.mem_filter.mp hl).2
  have hlength : ∀ cidx, (slotLocs ((sortByOffset locs).filter (·.fileOffset.isSome)) cidx).length =
    (slotLocs locs cidx).length := by
    intro cidx
    have hfilter : slotLocs ((sortByOffset locs).filter (·.fileOffset.isSome)) cidx = slotLocs (sortByOffset locs) cidx := by
      unfold slotLocs
      rw [List.filter_filter]
      refine filter_congr fun l _ => ?_
      unfold slotOf
      cases l.fileOffset <;> simp
    rw [hfilter]
    exact ((perm_insertionSort ..).filter _).length_eq
  rw [← forall_congr' fun cidx => by rw [← hlength cidx], ← pairwise_slot_iff hplaced]
  constructor
  · intro h
    exact h.sorted.imp fun hlt => hlt.ne
  · intro h
    exact ⟨(pairwise_sortByOffset locs).imp₂ (fun _ _ hle hne => lt_of_le_of_ne hle hne) h, hplaced⟩

/-! ## When a call keeps the order -/

variable [DecidableEq Id]

def Fits (locs : Locations Id) (loc : ChunkLocation Id) : Prop :=
  loc.fileOffset.isSome = true ∧ ∀ pre old post, locs = pre ++ old :: post → (∀ x ∈ pre, x.chunkId ≠ loc.chunkId) →
    old.chunkId = loc.chunkId → (∀ x ∈ pre, cidxOf x < cidxOf loc) ∧ ∀ x ∈ post, cidxOf loc < cidxOf x

def Node.walkedTo (s : Node Id) (walk : List FileId) (loc : ChunkLocation Id) : Option FileId :=
  walk.find? fun f => (s.locsOf f).any (sameChunk loc)

variable {loc : ChunkLocation Id}

lemma any_of_walkedTo {s : Node Id} {walk : List FileId} {f : FileId} (h : s.walkedTo walk loc = some f) :
    (s.locsOf f).any (sameChunk loc) = true :=
  find?_some (p := fun f => (s.locsOf f).any (sameChunk loc)) h

lemma locsOf_chunkMapUpdateLocation (s : Node Id) (walk : List FileId) (loc : ChunkLocation Id) (f : FileId) :
    (s.chunkMapUpdateLocation walk loc).locsOf f = if s.walkedTo walk loc = some f
      then updateFirst (sameChunk loc) (fun _ => loc) (s.locsOf f) else s.locsOf f := by
  have hwalk : walk.find? (fun f => ((s.chunkMap f).elim [] Prod.fst).any (sameChunk loc))
      = s.walkedTo walk loc := rfl
  unfold chunkMapUpdateLocation
  rw [hwalk]
  cases hto : s.walkedTo walk loc with
  | none => rfl
  | some g =>
    dsimp only
    cases hentry : s.chunkMap g with
    | none =>
      have hany := any_of_walkedTo hto
      rw [locsOf_of_entry hentry] at hany
      cases hany
    | some e =>
      dsimp only
      rw [locsOf_setEntry]
      by_cases hf : f = g
      · subst hf
        rw [if_pos rfl, if_pos rfl, locsOf_of_entry hentry]
        rfl
      · rw [if_neg hf, if_neg fun h => hf (some.inj h).symm]

omit [DecidableEq Id] in
/-- A file's first record has its locations in order, another no slot twice. -/
def RecordInOrder (m : FileMetadata Id) : Option (Locations Id × Nat) → Prop
  | none => Sorted cidxOf (m.chunkLocations.filter (·.fileOffset.isSome))
  | some _ => ∀ cidx, (slotLocs m.chunkLocations cidx).length ≤ 1

/-- A record is in order, a location that replaces another by identity fits there, one without an offset is new to the list. -/
def Node.KeepsOrder (s : Node Id) : MapAction Id → Prop
  | .update m => RecordInOrder m (s.chunkMap m.id)
  | .updateLocation walk loc => ∀ f, s.walkedTo walk loc = some f → Fits (s.locsOf f) loc
  | .updateLocationForFile _ file loc => loc.fileOffset.isSome = true ∨ ∀ l ∈ s.locsOf file, l.chunkId ≠ loc.chunkId
  | .afterPatch .. | .remove _ | .elsewhere _ => True

section Steps

variable {s : Node Id}

omit [DecidableEq Id] in
lemma mapOrdered_update (hs : s.MapOrdered) (file : FileId) (entry : Option (Locations Id × Nat)) :
    (s.setChunkMap (Function.update s.chunkMap file entry)).MapOrdered ↔ Ordered (entry.elim [] Prod.fst) := by
  rw [mapOrdered_iff]
  constructor
  · intro h
    have := h file
    rwa [locsOf_setEntry, if_pos rfl] at this
  · intro h f
    rw [locsOf_setEntry]
    split
    · exact h
    · exact hs.ordered f

variable {existing : Locations Id}

lemma slotOf_guardLocation_of_placed (onDisk : Id → Bool) (hplaced : ∀ l ∈ existing, l.fileOffset.isSome = true)
    (loc : ChunkLocation Id) : slotOf (guardLocation onDisk existing loc).1 = slotOf loc := by
  refine slotOf_guardLocation_of onDisk fun cidx old _ hold => ?_
  rw [slotOf_of_isSome (hplaced old (mem_of_lookup hold)), key_of_lookup hold]

lemma ordered_mergedLocations_iff (onDisk : Id → Bool) (m : FileMetadata Id) (mapSeq : Nat)
    (hplaced : ∀ l ∈ existing, l.fileOffset.isSome = true) :
    Ordered ((mergedLocations onDisk m (some (existing, mapSeq))).filter (·.fileOffset.isSome)) ↔
      ∀ cidx, (slotLocs m.chunkLocations cidx).length ≤ 1 := by
  unfold mergedLocations mergedLocationsBy
  rw [ordered_sortByOffset_iff]
  refine forall_congr' fun cidx => ?_
  have hguard : ∀ l ∈ m.chunkLocations, slotOf (guardLocation onDisk existing l).1 = slotOf l := fun l _ =>
    slotOf_guardLocation_of_placed onDisk hplaced l
  rw [slotLocs_addUnmentioned, mentioned_map hguard, slotLocs_map hguard]
  split
  · rw [length_map]
  rename_i hm
  rw [slotLocs_eq_nil (by simpa using hm)]
  cases firstKept (shrinkDrops m mapSeq) existing cidx <;> simp

omit [DecidableEq Id] in
lemma recordInOrder_of_nil {m : FileMetadata Id} (h : m.chunkLocations = []) (entry : Option (Locations Id × Nat)) :
    RecordInOrder m entry := by
  unfold RecordInOrder
  rw [h]
  split
  · exact List.Pairwise.nil
  · exact fun _ => Nat.zero_le 1

lemma mapOrdered_chunkMapUpdate_iff (hs : s.MapOrdered) (m : FileMetadata Id) :
    (s.chunkMapUpdate m).MapOrdered ↔ RecordInOrder m (s.chunkMap m.id) := by
  unfold chunkMapUpdate chunkMapUpdateBy
  by_cases hnil : m.chunkLocations = []
  · -- the list is cleared or stays
    refine iff_of_true ?_ (recordInOrder_of_nil hnil _)
    simp only [hnil, isEmpty_nil, Bool.not_true, Bool.false_eq_true, if_false]
    split
    · split
      · exact hs
      split
      · exact (mapOrdered_update hs _ _).mpr ordered_nil
      · exact hs
    · exact hs
  · rw [if_pos (by simpa using hnil), mapOrdered_update hs, elim_some]
    cases hentry : s.chunkMap m.id with
    | none => exact ⟨fun h => h.sorted, fun h => ⟨h, fun l hl => (List.mem_filter.mp hl).2⟩⟩
    | some e =>
      have hplaced : ∀ l ∈ e.1, l.fileOffset.isSome = true := by
        have hplaced := (hs.ordered m.id).placed
        rwa [locsOf_of_entry hentry] at hplaced
      exact ordered_mergedLocations_iff _ m e.2 hplaced

lemma ordered_updateFirst_iff (hlocs : Ordered locs) (hany : locs.any (sameChunk loc) = true) :
    Ordered (updateFirst (sameChunk loc) (fun _ => loc) locs) ↔ Fits locs loc := by
  have hsplit : ∀ pre old post, locs = pre ++ old :: post → (∀ x ∈ pre, x.chunkId ≠ loc.chunkId) → old.chunkId = loc.chunkId →
      updateFirst (sameChunk loc) (fun _ => loc) locs = pre ++ loc :: post := by
    rintro pre old post rfl hpre hold
    exact updateFirst_append_cons (fun x hx => by simpa using hpre x hx) (by simpa using hold)
  obtain ⟨pre, old, post, heq, hpre, hold⟩ : ∃ pre old post, locs = pre ++ old :: post ∧ (∀ x ∈ pre, x.chunkId ≠ loc.chunkId) ∧
      old.chunkId = loc.chunkId := by
    have hsome : (locs.find? (sameChunk loc)).isSome = true := by
      rw [find?_isSome]
      exact any_eq_true.mp hany
    obtain ⟨old, hfind⟩ := isSome_iff_exists.mp hsome
    obtain ⟨hold, pre, post, heq, hpre⟩ := find?_eq_some_iff_append.mp hfind
    exact ⟨pre, old, post, heq, fun x hx => by simpa using hpre x hx, by simpa using hold⟩
  constructor
  · intro h
    refine ⟨?_, fun pre old post heq hpre hold => ?_⟩
    · refine h.placed loc ?_
      rw [hsplit pre old post heq hpre hold]
      exact mem_append_right _ mem_cons_self
    · have hsorted := h.sorted
      rw [hsplit pre old post heq hpre hold] at hsorted
      obtain ⟨-, hpost, hcross⟩ := pairwise_append.mp hsorted
      exact ⟨fun x hx => hcross x hx loc mem_cons_self, (pairwise_cons.mp hpost).1⟩
  · rintro ⟨hsome, hfits⟩
    obtain ⟨hbelow, habove⟩ := hfits pre old post heq hpre hold
    rw [hsplit pre old post heq hpre hold]
    have hsorted := hlocs.sorted
    rw [heq] at hsorted
    obtain ⟨hsortedPre, hsortedPost, hcross⟩ := pairwise_append.mp hsorted
    refine ⟨pairwise_append.mpr ⟨hsortedPre, pairwise_cons.mpr ⟨habove, (pairwise_cons.mp hsortedPost).2⟩, ?_⟩, ?_⟩
    · intro x hx y hy
      rcases mem_cons.mp hy with rfl | hy
      · exact hbelow x hx
      · exact hcross x hx y (mem_cons_of_mem _ hy)
    · intro x hx
      rcases mem_append.mp hx with hx | hx
      · exact hlocs.placed x (by rw [heq]; exact mem_append_left _ hx)
      rcases mem_cons.mp hx with rfl | hx
      · exact hsome
      · exact hlocs.placed x (by rw [heq]; exact mem_append_right _ (mem_cons_of_mem _ hx))

lemma mapOrdered_chunkMapUpdateLocation_iff (hs : s.MapOrdered) (walk : List FileId) (loc : ChunkLocation Id) :
    (s.chunkMapUpdateLocation walk loc).MapOrdered ↔ ∀ f, s.walkedTo walk loc = some f → Fits (s.locsOf f) loc := by
  rw [mapOrdered_iff]
  refine forall_congr' fun f => ?_
  rw [locsOf_chunkMapUpdateLocation]
  split
  · rename_i hto
    rw [ordered_updateFirst_iff (hs.ordered f) (any_of_walkedTo hto)]
    exact ⟨fun h _ => h, fun h => h hto⟩
  rename_i hto
  exact iff_of_true (hs.ordered f) fun h => absurd h hto

lemma mapOrdered_syncLocation_iff (hs : s.MapOrdered) (floor : Nat) (file : FileId) (loc : ChunkLocation Id) :
    (s.syncLocation floor file loc).MapOrdered ↔ loc.fileOffset.isSome = true ∨ ∀ l ∈ s.locsOf file, l.chunkId ≠ loc.chunkId := by
  unfold syncLocation
  rw [mapOrdered_update hs, elim_some]
  cases hoff : loc.fileOffset with
  | some o =>
    refine iff_of_true ?_ (.inl rfl)
    rw [chunkMapUpdateLocationForFileSync_locs (by rw [hoff]; rfl)]
    show Ordered (upsert cidxOf _ (s.locsOf file) loc)
    refine ⟨sorted_upsert (hs.ordered file).sorted fun _ => cidxOf_arbitrateBy, fun l hl => ?_⟩
    have hloc : loc.fileOffset.isSome = true := by rw [hoff]; rfl
    rcases mem_upsert hl with hl | rfl | ⟨old, hold, rfl⟩
    · exact (hs.ordered file).placed l hl
    · exact hloc
    unfold arbitrateBy
    split
    · exact hloc
    · exact (hs.ordered file).placed old hold
  | none =>
    have hentry : (chunkMapUpdateLocationForFileSync s.foldResultChunkIds s.chunkGenerations floor (s.chunkMap file) loc).1.1
        = updateFirst (sameChunk loc) (fun _ => loc) (s.locsOf file) := by
      unfold chunkMapUpdateLocationForFileSync
      rw [hoff, ← getD_chunkMap_fst s file (loc.clientWriteSeq.getD 0)]
    rw [hentry]
    cases hany : (s.locsOf file).any (sameChunk loc) with
    | false =>
      have hnone : ∀ l ∈ s.locsOf file, l.chunkId ≠ loc.chunkId := by simpa using hany
      rw [updateFirst_of_none fun l hl => by simpa using hnone l hl]
      exact iff_of_true (hs.ordered file) (.inr hnone)
    | true =>
      rw [ordered_updateFirst_iff (hs.ordered file) hany]
      refine iff_of_false (fun h => ?_) ?_
      · have := h.1
        rw [hoff] at this
        cases this
      · rintro (h | h)
        · cases h
        obtain ⟨l, hl, hid⟩ := any_eq_true.mp hany
        exact h l hl (by simpa using hid)

lemma mapOrdered_updateChunkMapAfterPatch (hs : s.MapOrdered) (file : FileId) (idx : Option Nat) (old new : Id)
    (size writtenAt : Nat) (seq : Option Nat) :
    (s.updateChunkMapAfterPatch file idx old new size writtenAt seq).1.MapOrdered := by
  unfold updateChunkMapAfterPatch
  split
  · exact hs
  split
  · exact hs
  rename_i locs w hentry
  have hlocs : Ordered locs := by
    have hordered := hs.ordered file
    rwa [locsOf_of_entry hentry] at hordered
  dsimp only
  split
  · exact hs
  split
  · exact hs
  refine (mapOrdered_update hs _ _).mpr (hlocs.congr ?_)
  rw [elim_some]
  exact map_fileOffset_updateFirst (fun _ => by rfl) locs

lemma mapOrdered_mapStep_iff (s : Node Id) (a : MapAction Id) (hs : s.MapOrdered) :
    (s.mapStep a).MapOrdered ↔ s.KeepsOrder a := by
  cases a with
  | update m => exact mapOrdered_chunkMapUpdate_iff hs m
  | updateLocation walk loc => exact mapOrdered_chunkMapUpdateLocation_iff hs walk loc
  | updateLocationForFile floor file loc => exact mapOrdered_syncLocation_iff hs floor file loc
  | afterPatch file idx old new size writtenAt seq =>
    exact iff_of_true (mapOrdered_updateChunkMapAfterPatch hs file idx old new size writtenAt seq) trivial
  | remove file => exact iff_of_true ((mapOrdered_update hs file none).mpr ordered_nil) trivial
  | elsewhere t => exact iff_of_true (mapOrdered_iff.mpr hs.ordered) trivial

end Steps

/-- The map is ordered in every state exactly if every call of the run meets its condition. -/
theorem map_ordered_iff (l : List (MapAction Id)) :
    Transition.Meets Node.mapStep (fun s a => (s.mapStep a).MapOrdered) (Node.empty : Node Id) l ↔
      Transition.Meets Node.mapStep Node.KeepsOrder (Node.empty : Node Id) l := by
  have hempty : (empty : Node Id).MapOrdered := mapOrdered_iff.mpr fun _ => ordered_nil
  exact Transition.meets_invariant_iff mapOrdered_mapStep_iff hempty

def unsortedRecord : FileMetadata Nat := ⟨7, ['/', 'f'], 2 * chunkSize, .regularFile, [slotStart 11 1, slotStart 10 0], 1⟩

theorem unsorted_record_hides_slot :
    ((Node.empty : Node Nat).mapStep (.update unsortedRecord)).locsOf 7 = [slotStart 11 1, slotStart 10 0] ∧
      slotOf (slotStart 10 0) = some 0 ∧
      chunkMapFindByIdx (((Node.empty : Node Nat).mapStep (.update unsortedRecord)).locsOf 7) 0 = none := by
  refine ⟨?_, ?_, ?_⟩ <;> decide +kernel

end Dfs
