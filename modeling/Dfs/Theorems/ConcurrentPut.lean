import Dfs.PutRace
import Dfs.Lemmas.MergedSlots

/-! # Is an accepted location lost to a concurrent put? -/

namespace Dfs

open KeyedList Node

variable {Id : Type}

/-- The write sequence is lower, or there is none and the other has one. -/
def LowerSeq (l loc : ChunkLocation Id) : Prop :=
  match l.clientWriteSeq, loc.clientWriteSeq with
  | some inc, some ext => inc < ext
  | none, some _ => True
  | _, none => False

def OmitsOrLower (m : FileMetadata Id) (cidx : Nat) (loc : ChunkLocation Id) : Prop :=
  slotLocs m.chunkLocations cidx = [] ∨ ∃ l, slotLocs m.chunkLocations cidx = [l] ∧ LowerSeq l loc

variable [DecidableEq Id]

def LeavesChunk (onDisk : Id → Bool) (m : FileMetadata Id) (entry : Option (Locations Id × Nat)) (cidx : Nat) (id : Id) :
    Prop :=
  match entry with
  | none => (lookup cidxOf (m.chunkLocations.filter (·.fileOffset.isSome)) cidx).map (·.chunkId) = some id
  | some (existing, mapSeq) => match (slotLocs m.chunkLocations cidx).head? with
    | some l => match lookup cidxOf existing cidx with
      | none => l.chunkId = id
      | some old => if old.chunkId ≠ l.chunkId ∧ staleForMap onDisk l old = true then old.chunkId = id else l.chunkId = id
    | none => (firstKept (shrinkDrops m mapSeq) existing cidx).map (·.chunkId) = some id

variable (onDisk : Id → Bool) {l : ChunkLocation Id}

lemma chunkId_guardLocation (existing : Locations Id) {cidx : Nat} (h : slotOf l = some cidx) (id : Id) :
    (guardLocation onDisk existing l).1.chunkId = id ↔ match lookup cidxOf existing cidx with
      | none => l.chunkId = id
      | some old => if old.chunkId ≠ l.chunkId ∧ staleForMap onDisk l old = true then old.chunkId = id else l.chunkId = id := by
  unfold guardLocation guardLocationBy
  rw [h]
  dsimp only
  cases lookup cidxOf existing cidx with
  | none => rfl
  | some old =>
    dsimp only
    by_cases hid : old.chunkId = l.chunkId
    · simp [hid]
    · by_cases hstale : staleForMap onDisk l old = true <;> simp [hid, hstale]

lemma lookup_mergedLocations {m : FileMetadata Id} (entry : Option (Locations Id × Nat)) {cidx : Nat}
    (hrange : InRange m.chunkLocations) (hone : (slotLocs m.chunkLocations cidx).length ≤ 1) (id : Id) :
    (lookup cidxOf ((mergedLocations onDisk m entry).filter (·.fileOffset.isSome)) cidx).map (·.chunkId) = some id ↔
      LeavesChunk onDisk m entry cidx id := by
  cases entry with
  | none => exact Iff.rfl
  | some e =>
    obtain ⟨existing, mapSeq⟩ := e
    have hguard : ∀ l ∈ m.chunkLocations, slotOf (guardLocation onDisk existing l).1 = slotOf l := fun l hl =>
      slotOf_guardLocation onDisk (hrange l hl)
    have hslots := slotLocs_addUnmentioned (shrinkDrops m mapSeq)
      (m.chunkLocations.map fun l => (guardLocation onDisk existing l).1) existing cidx
    rw [mentioned_map hguard, slotLocs_map hguard] at hslots
    unfold mergedLocations mergedLocationsBy LeavesChunk
    dsimp only
    match hl : slotLocs m.chunkLocations cidx, hone with
    | [], _ =>
      rw [mentioned_eq_false hl] at hslots
      simp only [Bool.false_eq_true, if_false] at hslots
      rw [lookup_sortByOffset (by rw [hslots]; cases firstKept (shrinkDrops m mapSeq) existing cidx <;> simp), hslots]
      cases firstKept (shrinkDrops m mapSeq) existing cidx <;> rfl
    | [l], _ =>
      have hmem : l ∈ m.chunkLocations ∧ slotOf l = some cidx := by
        have : l ∈ slotLocs m.chunkLocations cidx := by rw [hl]; exact List.mem_singleton.mpr rfl
        simpa [slotLocs] using this
      have hm : mentioned m.chunkLocations cidx = true := mentioned_iff.mpr ⟨l, hmem⟩
      rw [if_pos hm, hl, List.map_singleton] at hslots
      rw [lookup_sortByOffset (by rw [hslots]; simp), hslots]
      simp only [List.head?_cons, Option.map_some, Option.some.injEq]
      exact chunkId_guardLocation onDisk existing hmem.2 id

/-! ## The race -/

def Node.entryAfter (s : Node Id) (floor : Nat) (file : FileId) (loc : ChunkLocation Id) : Locations Id × Nat :=
  (chunkMapUpdateLocationForFileSync s.foldResultChunkIds s.chunkGenerations floor (s.chunkMap file) loc).1

/-- A record without locations matters only if it clears the entry. Else a location before the third step stays if the
record has its slot or does not drop it; one after, only if the chunk would have had the slot. -/
def AcceptedStays (s : Node Id) (floor : Nat) (m : FileMetadata Id) (loc : ChunkLocation Id) (cidx k : Nat) : Prop :=
  if m.chunkLocations = [] then
    2 ≤ k ∨ truncates m (if k = 0 then some (s.entryAfter floor m.id loc) else s.chunkMap m.id) = false
  else
    3 ≤ k ∨
    (k = 0 ∧ (mentioned m.chunkLocations cidx = true ∨
      (firstKept (shrinkDrops m (s.entryAfter floor m.id loc).2) (s.entryAfter floor m.id loc).1 cidx).map (·.chunkId)
        = some loc.chunkId)) ∨
    (0 < k ∧ LeavesChunk s.hasChunk m (s.chunkMap m.id) cidx loc.chunkId)

section Race

variable {s : Node Id} {m : FileMetadata Id} {loc : ChunkLocation Id} {cidx : Nat} {floor : Nat} {k : Nat} {file : FileId}

lemma occupant_of_acceptsLocation (hslot : slotOf loc = some cidx) (h : s.acceptsLocation floor file loc = true) :
    (s.syncLocation floor file loc).occupant (file, cidx) = some loc := by
  have hcidx : cidxOf loc = cidx := cidxOf_of_fileOffset hslot
  obtain ⟨o, ho, -⟩ := Option.map_eq_some_iff.mp hslot
  rw [occupant_syncLocation_self floor hslot, occupant_eq_lookup_locsOf]
  unfold acceptsLocation chunkMapUpdateLocationForFileSync at h
  simp only [ho, hcidx, getD_chunkMap_fst] at h
  cases hold : lookup cidxOf (s.locsOf file) cidx with
  | none => rfl
  | some old =>
    rw [hold] at h
    dsimp only at h
    by_cases hupdate : shouldUpdate s.foldResultChunkIds s.chunkGenerations floor old loc = true
    · simp [merged, arbitrateBy, hupdate]
    rw [if_neg hupdate] at h
    cases h

lemma chunkMap_syncLocation (s : Node Id) (floor : Nat) (file : FileId) (loc : ChunkLocation Id) :
    (s.syncLocation floor file loc).chunkMap file = some (s.entryAfter floor file loc) := by
  simp [syncLocation, entryAfter]

section

omit [DecidableEq Id]

lemma occupant_of_entry {locs : Locations Id} {w : Nat} (h : s.chunkMap file = some (locs, w)) (cidx : Nat) :
    s.occupant (file, cidx) = lookup cidxOf locs cidx := by
  rw [occupant_eq_lookup_locsOf, locsOf_of_entry h]
  rfl

lemma staleForMap_of_lowerSeq (h : LowerSeq l loc) : staleForMap onDisk l loc = true := by
  unfold LowerSeq at h
  unfold staleForMap
  cases hl : l.clientWriteSeq <;> cases hloc : loc.clientWriteSeq <;> simp_all

lemma OmitsOrLower.length_le (h : OmitsOrLower m cidx loc) : (slotLocs m.chunkLocations cidx).length ≤ 1 := by
  rcases h with h | ⟨l, h, -⟩ <;> simp [h]

end

lemma leavesChunk_of_occupant {existing : Locations Id} {mapSeq : Nat} (hrec : OmitsOrLower m cidx loc)
    (hocc : lookup cidxOf existing cidx = some loc) :
    LeavesChunk onDisk m (some (existing, mapSeq)) cidx loc.chunkId ↔ mentioned m.chunkLocations cidx = true ∨
      (firstKept (shrinkDrops m mapSeq) existing cidx).map (·.chunkId) = some loc.chunkId := by
  unfold LeavesChunk
  rcases hrec with h | ⟨l, h, hlower⟩
  · rw [h, mentioned_eq_false h]
    simp
  have hl : l ∈ slotLocs m.chunkLocations cidx := by
    rw [h]
    exact List.mem_singleton.mpr rfl
  have hm : mentioned m.chunkLocations cidx = true := mentioned_iff.mpr ⟨l, by simpa [slotLocs] using hl⟩
  simp only [h, hm, hocc, List.head?_cons, staleForMap_of_lowerSeq onDisk hlower, and_true, true_or, iff_true]
  split
  · trivial
  rename_i hid
  exact (not_not.mp hid).symm

lemma stays_of_done (hslot : slotOf loc = some cidx) (hdone : (chunkMapUpdateSteps m k (s, .start)).2 = .done)
    (h : (s.beforeUpdate m k).acceptsLocation floor m.id loc = true) :
    ((s.racedUpdate floor m loc k).occupant (m.id, cidx)).map (·.chunkId) = some loc.chunkId := by
  unfold racedUpdate
  dsimp only
  rw [hdone, chunkMapUpdateSteps_done]
  exact congrArg (Option.map (·.chunkId)) (occupant_of_acceptsLocation hslot h)

lemma stays_iff_of_nil (hnil : m.chunkLocations = []) (hslot : slotOf loc = some cidx)
    (hacc : (s.beforeUpdate m k).acceptsLocation floor m.id loc = true) :
    ((s.racedUpdate floor m loc k).occupant (m.id, cidx)).map (·.chunkId) = some loc.chunkId ↔
      2 ≤ k ∨ truncates m (if k = 0 then some (s.entryAfter floor m.id loc) else s.chunkMap m.id) = false := by
  have hstart : ∀ s' : Node Id, chunkMapUpdateStep m (s', .start)
      = if truncates m (s'.chunkMap m.id) then (s', .truncating) else (s', .done) := by
    intro s'
    simp [chunkMapUpdateStep, hnil]
  have hempty : ∀ (s' : Node Id) (w : Nat),
      (s'.setChunkMap (Function.update s'.chunkMap m.id (some ([], w)))).occupant (m.id, cidx) = none := by
    intro s' w
    rw [occupant_of_entry (Function.update_self ..)]
    rfl
  rcases k with _ | _ | k
  · have hocc : (s.syncLocation floor m.id loc).occupant (m.id, cidx) = some loc := occupant_of_acceptsLocation hslot hacc
    have hraced : s.racedUpdate floor m loc 0
        = (chunkMapUpdateStep m (chunkMapUpdateStep m (chunkMapUpdateStep m (s.syncLocation floor m.id loc, .start)))).1 := rfl
    rw [hraced, hstart, chunkMap_syncLocation]
    cases htrunc : truncates m (some (s.entryAfter floor m.id loc)) with
    | false => simp [chunkMapUpdateStep, hocc, htrunc]
    | true => simp [chunkMapUpdateStep, hempty, htrunc]
  · have hone : chunkMapUpdateSteps m 1 (s, .start) = if truncates m (s.chunkMap m.id) then (s, .truncating)
      else (s, .done) := hstart s
    cases htrunc : truncates m (s.chunkMap m.id) with
    | false =>
      rw [htrunc] at hone
      exact iff_of_true (stays_of_done hslot (by rw [hone]; rfl) hacc) (.inr htrunc)
    | true =>
      rw [htrunc, if_pos rfl] at hone
      unfold racedUpdate
      rw [hone]
      simp [chunkMapUpdateSteps, chunkMapUpdateStep, hempty, htrunc]
  · have hdone : (chunkMapUpdateSteps m (k + 2) (s, .start)).2 = .done := by
      rw [Nat.add_comm, chunkMapUpdateSteps_add]
      show (chunkMapUpdateSteps m k (chunkMapUpdateStep m (chunkMapUpdateStep m (s, .start)))).2 = _
      rw [hstart]
      split <;> simp [chunkMapUpdateStep]
    exact iff_of_true (stays_of_done hslot hdone hacc) (.inl (Nat.le_add_left 2 k))

lemma locsOf_racedUpdate_between (hlocs : m.chunkLocations ≠ []) (hk : k = 1 ∨ k = 2) : (s.racedUpdate floor m loc k).locsOf m.id
      = (mergedLocations s.hasChunk m (s.chunkMap m.id)).filter (·.fileOffset.isSome) := by
  have hne : m.chunkLocations.isEmpty = false := by simpa using hlocs
  rcases hk with rfl | rfl <;>
    simp [racedUpdate, chunkMapUpdateSteps, chunkMapUpdateStep, hne, locsOf]

lemma stays_iff_of_ne_nil (hlocs : m.chunkLocations ≠ []) (hrange : InRange m.chunkLocations) (hslot : slotOf loc = some cidx)
    (hrec : OmitsOrLower m cidx loc) (hacc : (s.beforeUpdate m k).acceptsLocation floor m.id loc = true) :
    ((s.racedUpdate floor m loc k).occupant (m.id, cidx)).map (·.chunkId) = some loc.chunkId ↔ 3 ≤ k ∨
      (k = 0 ∧ (mentioned m.chunkLocations cidx = true ∨
        (firstKept (shrinkDrops m (s.entryAfter floor m.id loc).2) (s.entryAfter floor m.id loc).1 cidx).map (·.chunkId)
          = some loc.chunkId)) ∨ (0 < k ∧ LeavesChunk s.hasChunk m (s.chunkMap m.id) cidx loc.chunkId) := by
  have hbetween (hk : k = 1 ∨ k = 2) : ((s.racedUpdate floor m loc k).occupant (m.id, cidx)).map (·.chunkId) = some loc.chunkId ↔
      LeavesChunk s.hasChunk m (s.chunkMap m.id) cidx loc.chunkId := by
    rw [occupant_eq_lookup_locsOf, locsOf_racedUpdate_between hlocs hk]
    exact lookup_mergedLocations _ _ hrange hrec.length_le _
  rcases k with _ | _ | _ | k
  · have hraced : s.racedUpdate floor m loc 0 = (s.syncLocation floor m.id loc).chunkMapUpdate m :=
      congrArg Prod.fst (chunkMapUpdateSteps_alone (s.syncLocation floor m.id loc) m)
    have hocc : lookup cidxOf (s.entryAfter floor m.id loc).1 cidx = some loc :=
      (occupant_of_entry (chunkMap_syncLocation s floor m.id loc) cidx).symm.trans (occupant_of_acceptsLocation hslot hacc)
    rw [hraced, occupant_eq_lookup_locsOf, locsOf_chunkMapUpdate _ hlocs, lookup_mergedLocations _ _ hrange hrec.length_le,
      chunkMap_syncLocation, leavesChunk_of_occupant _ hrec hocc]
    simp
  · simpa using hbetween (.inl rfl)
  · simpa using hbetween (.inr rfl)
  · have hdone : (chunkMapUpdateSteps m (k + 3) (s, .start)).2 = .done := by
      rw [Nat.add_comm, chunkMapUpdateSteps_add, chunkMapUpdateSteps_alone, chunkMapUpdateSteps_done]
    exact iff_of_true (stays_of_done hslot hdone hacc) (.inl (Nat.le_add_left 3 k))

end Race

def oneSlotNode : Node Nat := Node.empty.setChunkMap fun f => if f = 7 then some ([slotStart 10 0], 1) else none

def laterLocation : ChunkLocation Nat := { slotStart 11 0 with clientWriteSeq := some 2 }

def earlierRecord : FileMetadata Nat := ⟨7, ['/', 'f'], chunkSize, .regularFile, [slotStart 10 0], 1⟩

end Dfs
