import Dfs.PutMetadata

/-! # Does a truncation take effect on the leader? -/

namespace Dfs

open KeyedList
open Option hiding or_assoc
open List hiding lookup

variable {Id : Type}

def NoSlotFrom (size : Nat) (locs : Locations Id) : Prop := ∀ l ∈ locs, ∀ cidx, slotOf l = some cidx → cidx * chunkSize < size

/-! ## The slots that a list mentions -/

variable {locs : Locations Id} {cidx : Nat}

lemma mentioned_iff : mentioned locs cidx = true ↔ ∃ l ∈ locs, slotOf l = some cidx := by
  simp [mentioned]

lemma noSlotFrom_iff {size : Nat} : NoSlotFrom size locs ↔ ∀ cidx, mentioned locs cidx = true → cidx * chunkSize < size := by
  simp only [mentioned_iff]
  exact ⟨fun h cidx ⟨l, hl, hslot⟩ => h l hl cidx hslot, fun h l hl cidx hslot => h cidx ⟨l, hl, hslot⟩⟩

lemma mentioned_append {locs' : Locations Id} :
    mentioned (locs ++ locs') cidx = (mentioned locs cidx || mentioned locs' cidx) := any_append

lemma mentioned_sortByOffset : mentioned (sortByOffset locs) cidx = mentioned locs cidx :=
  (perm_insertionSort ..).any_eq

lemma mentioned_filter : mentioned (locs.filter (·.fileOffset.isSome)) cidx = mentioned locs cidx := by
  rw [Bool.eq_iff_iff, mentioned_iff, mentioned_iff]
  constructor
  · rintro ⟨l, hl, hslot⟩
    exact ⟨l, (List.mem_filter.mp hl).1, hslot⟩
  · rintro ⟨l, hl, hslot⟩
    obtain ⟨o, ho, -⟩ := map_eq_some_iff.mp hslot
    exact ⟨l, List.mem_filter.mpr ⟨hl, by rw [ho]; rfl⟩, hslot⟩

lemma mentioned_map {f : ChunkLocation Id → ChunkLocation Id}
    (hf : ∀ l ∈ locs, slotOf (f l) = slotOf l) : mentioned (locs.map f) cidx = mentioned locs cidx := by
  rw [Bool.eq_iff_iff, mentioned_iff, mentioned_iff]
  simp only [List.mem_map, exists_exists_and_eq_and]
  exact ⟨fun ⟨l, hl, hslot⟩ => ⟨l, hl, hf l hl ▸ hslot⟩, fun ⟨l, hl, hslot⟩ => ⟨l, hl, (hf l hl).trans hslot⟩⟩

lemma addUnmentioned_cons (drop : ChunkLocation Id → Bool) (locs : Locations Id) (l : ChunkLocation Id)
    (mapLocs : Locations Id) : (addUnmentioned drop locs (l :: mapLocs) = addUnmentioned drop locs mapLocs ∧
      ∀ c, slotOf l = some c → mentioned locs c = true ∨ drop l = true) ∨
    ∃ c, slotOf l = some c ∧ mentioned locs c = false ∧ drop l = false ∧
      addUnmentioned drop locs (l :: mapLocs) = addUnmentioned drop (locs ++ [l]) mapLocs := by
  unfold addUnmentioned
  rw [foldl_cons]
  cases hslot : slotOf l with
  | none => exact .inl ⟨rfl, fun c hc => (nomatch hc)⟩
  | some c =>
    dsimp only
    by_cases hskip : (mentioned locs c || drop l) = true
    · rw [if_pos hskip]
      refine .inl ⟨rfl, fun c' hc => ?_⟩
      rw [← some.inj hc]
      exact (Bool.or_eq_true _ _).mp hskip
    rw [if_neg hskip]
    rw [Bool.not_eq_true, Bool.or_eq_false_iff] at hskip
    exact .inr ⟨c, rfl, hskip.1, hskip.2, rfl⟩

variable {mapLocs : Locations Id} {mapSeq : Nat} {s : Node Id} {l : ChunkLocation Id}

lemma mentioned_addUnmentioned {drop : ChunkLocation Id → Bool} : mentioned (addUnmentioned drop locs mapLocs) cidx = true ↔
      mentioned locs cidx = true ∨ ∃ l ∈ mapLocs, slotOf l = some cidx ∧ drop l = false := by
  induction mapLocs generalizing locs with
  | nil => simp [addUnmentioned]
  | cons l mapLocs ih =>
    simp only [exists_mem_cons_iff]
    rcases addUnmentioned_cons drop locs l mapLocs with ⟨heq, hskip⟩ | ⟨c, hslot, -, hkeep, heq⟩
    · rw [heq, ih]
      constructor
      · rintro (h | h)
        · exact .inl h
        · exact .inr (.inr h)
      · rintro (h | ⟨hc, hkeep⟩ | h)
        · exact .inl h
        · exact .inl ((hskip cidx hc).resolve_right (by rw [hkeep]; exact Bool.false_ne_true))
        · exact .inr h
    · have hself : mentioned [l] cidx = true ↔ slotOf l = some cidx ∧ drop l = false := by
        simp [mentioned, hkeep]
      rw [heq, ih, mentioned_append, Bool.or_eq_true, or_assoc, hself]

/-! ## The two steps -/

lemma slotOf_reconcileLocation (mapLocs : Locations Id) (loc : ChunkLocation Id) :
    slotOf (reconcileLocation mapLocs loc) = slotOf loc := by
  unfold reconcileLocation
  cases hslot : slotOf loc with
  | none => exact hslot
  | some cidx =>
    dsimp only
    cases hfind : mapLocs.reverse.find? fun l => slotOf l = some cidx with
    | none => exact hslot
    | some mapLoc =>
      have hmap : slotOf mapLoc = some cidx := by simpa using find?_some hfind
      dsimp only
      split
      · exact hmap
      · exact hslot

lemma mentioned_reconcile (hlocs : locs ≠ []) : mentioned (reconcileChunkLocationsWithMap locs mapLocs) cidx = true ↔
      mentioned locs cidx = true ∨ mentioned mapLocs cidx = true := by
  unfold reconcileChunkLocationsWithMap
  rw [if_neg (by simpa using hlocs), mentioned_sortByOffset, mentioned_addUnmentioned,
    mentioned_map fun l _ => slotOf_reconcileLocation mapLocs l, @mentioned_iff _ mapLocs]
  simp

variable [DecidableEq Id]

/-- A slot of the map is one of the offsets that a file can have. -/
def InRange (locs : Locations Id) : Prop := ∀ l ∈ locs, ∀ o, l.fileOffset = some o → o ≤ u64Max

omit [DecidableEq Id] in
lemma slotOf_of_cidxOf (h : cidxOf l = cidx) (hrange : cidx < u64Max) : slotOf l = some cidx := by
  unfold cidxOf at h
  cases hslot : slotOf l with
  | none =>
    rw [hslot] at h
    exact absurd h (Nat.ne_of_gt hrange)
  | some i =>
    rw [hslot] at h
    exact congrArg some h

omit [DecidableEq Id] in
lemma slot_lt_of_le {o : Nat} (h : o ≤ u64Max) : o / chunkSize < u64Max := by
  have hlt : o / chunkSize ≤ o / 2 := Nat.div_le_div_left (by decide) (by decide)
  have hhalf : o / 2 < u64Max := by
    have : 0 < u64Max := by decide
    omega
  omega

variable {existing : Locations Id}

lemma slotOf_guardLocationBy (onDisk : Id → Bool) {search : SlotSearch Id} (hsearch : search.Sound) {loc : ChunkLocation Id}
    (hrange : ∀ o, loc.fileOffset = some o → o ≤ u64Max) :
    slotOf (guardLocationBy onDisk search existing loc).1 = slotOf loc := by
  refine slotOf_guardLocation_of onDisk fun cidx old hslot hfind => ?_
  obtain ⟨o, ho, rfl⟩ := map_eq_some_iff.mp hslot
  exact slotOf_of_cidxOf (hsearch _ _ _ hfind) (slot_lt_of_le (hrange o ho))

omit [DecidableEq Id] in
lemma lookup_sound : SlotSearch.Sound (lookup (cidxOf : ChunkLocation Id → Nat)) := fun _ _ _ => key_of_lookup

lemma slotOf_guardLocation (onDisk : Id → Bool) {loc : ChunkLocation Id}
    (hrange : ∀ o, loc.fileOffset = some o → o ≤ u64Max) : slotOf (guardLocation onDisk existing loc).1 = slotOf loc :=
  slotOf_guardLocationBy onDisk lookup_sound hrange

variable {m : FileMetadata Id} {search : SlotSearch Id}

lemma mentioned_mergedLocations {onDisk : Id → Bool} (hsearch : search.Sound) (hrange : InRange m.chunkLocations) :
    mentioned (mergedLocationsBy onDisk search m (some (existing, mapSeq))) cidx = true ↔ mentioned m.chunkLocations cidx = true ∨
      ∃ l ∈ existing, slotOf l = some cidx ∧ shrinkDrops m mapSeq l = false := by
  unfold mergedLocationsBy
  rw [mentioned_sortByOffset, mentioned_addUnmentioned,
    mentioned_map fun l hl => slotOf_guardLocationBy onDisk hsearch (hrange l hl)]

lemma locsOf_chunkMapUpdate (search : SlotSearch Id) (hlocs : m.chunkLocations ≠ []) : (s.chunkMapUpdateBy search m).locsOf m.id
      = (mergedLocationsBy s.hasChunk search m (s.chunkMap m.id)).filter (·.fileOffset.isSome) := by
  unfold Node.chunkMapUpdateBy Node.locsOf
  rw [if_pos (by simpa using hlocs)]
  simp

section

omit [DecidableEq Id]

lemma addUnmentioned_eq_append (drop : ChunkLocation Id → Bool) (locs mapLocs : Locations Id) :
    ∃ added, addUnmentioned drop locs mapLocs = locs ++ added ∧ added ⊆ mapLocs := by
  induction mapLocs generalizing locs with
  | nil => exact ⟨[], (append_nil _).symm, List.Subset.refl _⟩
  | cons l mapLocs ih =>
    rcases addUnmentioned_cons drop locs l mapLocs with ⟨heq, -⟩ | ⟨c, -, -, -, heq⟩
    · obtain ⟨added, h, hsub⟩ := ih locs
      exact ⟨added, heq.trans h, subset_cons_of_subset _ hsub⟩
    obtain ⟨added, h, hsub⟩ := ih (locs ++ [l])
    refine ⟨l :: added, ?_, cons_subset_cons _ hsub⟩
    rw [heq, h, append_assoc]
    rfl

lemma mem_reconcileChunkLocationsWithMap (h : l ∈ reconcileChunkLocationsWithMap locs mapLocs) : l ∈ locs ∨ l ∈ mapLocs := by
  unfold reconcileChunkLocationsWithMap at h
  split at h
  · cases h
  obtain ⟨added, hadded, hsub⟩ := addUnmentioned_eq_append (fun _ => false) (locs.map (reconcileLocation mapLocs)) mapLocs
  rw [sortByOffset, mem_insertionSort, hadded] at h
  rcases mem_append.mp h with h | h
  · obtain ⟨loc, hloc, rfl⟩ := mem_map.mp h
    unfold reconcileLocation
    split
    · exact .inl hloc
    split
    · exact .inl hloc
    rename_i mapLoc hfind
    split
    · exact .inr (mem_reverse.mp (mem_of_find?_eq_some hfind))
    · exact .inl hloc
  · exact .inr (hsub h)

lemma reconcileChunkLocationsWithMap_ne_nil (h : locs ≠ []) : reconcileChunkLocationsWithMap locs mapLocs ≠ [] := by
  obtain ⟨added, hadded, -⟩ := addUnmentioned_eq_append (fun _ => false) (locs.map (reconcileLocation mapLocs)) mapLocs
  intro hnil
  have hlen := congrArg length hnil
  rw [reconcileChunkLocationsWithMap, if_neg (by simpa using h), sortByOffset, length_insertionSort, hadded] at hlen
  simp [h] at hlen

end

lemma mentioned_chunkMapUpdate_reconciled (hentry : s.chunkMap m.id = some (mapLocs, mapSeq)) (hlocs : m.chunkLocations ≠ [])
    (hrange : InRange m.chunkLocations) (hmap : InRange mapLocs) : mentioned ((s.chunkMapUpdate
        { m with chunkLocations := reconcileChunkLocationsWithMap m.chunkLocations mapLocs }).locsOf m.id) cidx = true ↔
      mentioned m.chunkLocations cidx = true ∨ mentioned mapLocs cidx = true := by
  have hrange' : InRange (reconcileChunkLocationsWithMap m.chunkLocations mapLocs) := fun l hl =>
    (mem_reconcileChunkLocationsWithMap hl).elim (hrange l) (hmap l)
  have hupdate := locsOf_chunkMapUpdate (s := s)
    (m := { m with chunkLocations := reconcileChunkLocationsWithMap m.chunkLocations mapLocs }) (lookup cidxOf)
    (reconcileChunkLocationsWithMap_ne_nil hlocs)
  dsimp only at hupdate
  rw [hupdate, mentioned_filter, hentry, mentioned_mergedLocations lookup_sound hrange', mentioned_reconcile hlocs]
  constructor
  · rintro (h | ⟨l, hl, hslot, -⟩)
    · exact h
    · exact .inr (mentioned_iff.mpr ⟨l, hl, hslot⟩)
  · exact .inl

/-! ## The handler -/

omit [DecidableEq Id] in
lemma snapToMap_eq (s : LeaderServer Id) (env : PutEnv) (m : FileMetadata Id) : ∃ path, s.snapToMap env m = { m with
    path := path
    chunkLocations := (s.node.chunkMap m.id).elim m.chunkLocations fun e =>
      reconcileChunkLocationsWithMap m.chunkLocations e.1 } := by
  unfold LeaderServer.snapToMap
  cases (if env.recordReadable then s.tables.fileTable m.id else none) with
  | none => exact ⟨m.path, by dsimp only; cases s.node.chunkMap m.id <;> rfl⟩
  | some existing => exact ⟨existing.path, by dsimp only; cases s.node.chunkMap m.id <;> rfl⟩

lemma mentioned_chunkMapUpdate_snapToMap {s : LeaderServer Id} (env : PutEnv)
    (hlocs : m.chunkLocations ≠ []) (hrange : InRange m.chunkLocations) (hmap : InRange (s.node.locsOf m.id)) :
    mentioned ((s.node.chunkMapUpdate (s.snapToMap env m)).locsOf m.id) cidx = true ↔
      mentioned m.chunkLocations cidx = true ∨ mentioned (s.node.locsOf m.id) cidx = true := by
  obtain ⟨path, hsnap⟩ := snapToMap_eq s env m
  rw [hsnap]
  cases hentry : s.node.chunkMap m.id with
  | none =>
    have hbefore : s.node.locsOf m.id = [] := locsOf_of_entry hentry
    have hupdate := locsOf_chunkMapUpdate (s := s.node) (m := { m with path := path }) (lookup cidxOf) hlocs
    dsimp only [elim_none] at hupdate ⊢
    rw [hupdate, mentioned_filter, hentry, hbefore]
    simp [mergedLocationsBy, mentioned]
  | some entry =>
    obtain ⟨mapLocs, mapSeq⟩ := entry
    have hbefore : s.node.locsOf m.id = mapLocs := locsOf_of_entry hentry
    rw [hbefore] at hmap ⊢
    exact mentioned_chunkMapUpdate_reconciled (m := { m with path := path }) hentry hlocs hrange hmap

/-- A put that succeeds leaves a slot at or beyond the size exactly when there was one. -/
theorem truncation_effect_iff (s : LeaderServer Id) (env : PutEnv) (m : FileMetadata Id) (covers : Nat)
    (hlocs : m.chunkLocations ≠ [])
    (hends : ∀ l ∈ m.chunkLocations, ∀ o, l.fileOffset = some o → o < m.size) (hrange : InRange m.chunkLocations)
    (hmap : InRange (s.node.locsOf m.id)) (hok : (s.handlePutFileMetadata env m covers).2 = .ok) :
    NoSlotFrom m.size ((s.handlePutFileMetadata env m covers).1.node.locsOf m.id) ↔ NoSlotFrom m.size (s.node.locsOf m.id) := by
  have hrecord : ∀ cidx, mentioned m.chunkLocations cidx = true → cidx * chunkSize < m.size := by
    refine noSlotFrom_iff.mp fun l hl cidx hslot => ?_
    obtain ⟨o, ho, rfl⟩ := map_eq_some_iff.mp hslot
    exact lt_of_le_of_lt (Nat.div_mul_le_self o chunkSize) (hends l hl o ho)
  unfold LeaderServer.handlePutFileMetadata at hok ⊢
  cases hleader : env.isLeader with
  | false =>
    rw [hleader] at hok
    cases hok
  | true =>
    cases hdeleted : s.node.deleteTombstones m.id with
    | true => exact Iff.rfl
    | false =>
      cases hcommit : env.commitError with
      | some e =>
        simp only [hleader, hdeleted, hcommit] at hok
        cases hok
      | none =>
        simp only [Bool.not_true, Bool.false_eq_true, if_false]
        rw [noSlotFrom_iff, noSlotFrom_iff]
        simp only [mentioned_chunkMapUpdate_snapToMap env hlocs hrange hmap]
        exact ⟨fun h cidx hc => h cidx (.inr hc), fun h cidx hc => hc.elim (hrecord cidx) (h cidx)⟩

/-! ## A file of two slots -/

def slotStart (id cidx : Nat) : ChunkLocation Nat := ⟨id, [1], 1, some (cidx * chunkSize), none, some 1, some 7⟩

/-- With an entry for file `7`, last put with write sequence one. -/
def leaderWith (locs : List (ChunkLocation Nat)) : LeaderServer Nat where
  node := Node.empty.setChunkMap fun f => if f = 7 then some (locs, 1) else none
  tables := FileTables.empty
  fileWriteSeqs f := if f = 7 then some 1 else none

def calmPut : PutEnv := ⟨true, none, true, none⟩

def oneSlotRecord : FileMetadata Nat := ⟨7, ['/', 'f'], chunkSize, .regularFile, [slotStart 10 0], 2⟩

lemma inRange_slotStart : InRange [slotStart 10 0] := by
  intro l hl o ho
  obtain rfl := List.mem_singleton.mp hl
  obtain rfl := some.inj ho
  decide

theorem one_slot_stays :
    NoSlotFrom chunkSize (((leaderWith [slotStart 10 0]).handlePutFileMetadata calmPut oneSlotRecord 2).1.node.locsOf 7) := by
  refine (truncation_effect_iff (leaderWith [slotStart 10 0]) calmPut oneSlotRecord 2 (cons_ne_nil _ _) ?_ inRange_slotStart
    inRange_slotStart (by decide +kernel)).mpr ?_
  · intro l hl o ho
    obtain rfl := List.mem_singleton.mp hl
    obtain rfl := some.inj ho
    decide
  · intro l hl cidx hslot
    obtain rfl := List.mem_singleton.mp hl
    obtain rfl : 0 = cidx := by simpa [slotOf, slotStart] using hslot
    decide

/-- Of two slots cut to one, the second is still in the map. -/
theorem truncated_slot_remains :
    let r := (leaderWith [slotStart 10 0, slotStart 11 1]).handlePutFileMetadata calmPut oneSlotRecord 2
    r.2 = .ok ∧ r.1.node.chunkMap 7 = some ([slotStart 10 0, slotStart 11 1], 2) ∧ oneSlotRecord.size = 1 * chunkSize := by
  decide +kernel

end Dfs
