import Dfs.Restart

/-!
# Putting a location into the chunk map

A location competes with the slot's occupant by `location_supersedes` with the generations known; start-up has none
(`chunkMapUpdateLocationForFileSync_none`).
-/

namespace Dfs

open KeyedList Option Node Function

variable {Id : Type}

/-- What a rejection says beside the occupant is only logged. -/
inductive SlotMergeOutcome (Id : Type) where
  | applied (current : Id)
  | rejected (current : Id)
  | unplaceable
  | fileDeleted
  deriving DecidableEq, Repr

def SlotMergeOutcome.isApplied : SlotMergeOutcome Id → Bool
  | .applied _ => true
  | _ => false

def SlotMergeOutcome.currentChunkId : SlotMergeOutcome Id → Option Id
  | .applied current | .rejected current => some current
  | .unplaceable | .fileDeleted => none

variable [DecidableEq Id]

def shouldUpdate (isFold : Id → Bool) (gens : Id → Option Nat) (durabilityFloor : Nat) (existing incoming : ChunkLocation Id) :
    Bool :=
  decide (existing.chunkId = incoming.chunkId) ||
    locationSupersedes incoming existing (isFold incoming.chunkId) (isFold existing.chunkId) (gens incoming.chunkId)
      (gens existing.chunkId) durabilityFloor

/-- By the generations that are known. -/
def arbitrateBy (isFold : Id → Bool) (gens : Id → Option Nat) (durabilityFloor : Nat) (existing incoming : ChunkLocation Id) :
    ChunkLocation Id :=
  if shouldUpdate isFold gens durabilityFloor existing incoming then incoming else existing

/-- The file's entry, and what became of the location. -/
def chunkMapUpdateLocationForFileSync (isFold : Id → Bool) (gens : Id → Option Nat) (durabilityFloor : Nat)
    (entry : Option (Locations Id × Nat)) (loc : ChunkLocation Id) :
    (Locations Id × Nat) × SlotMergeOutcome Id :=
  let (locs, w) := entry.getD ([], loc.clientWriteSeq.getD 0)
  match loc.fileOffset with
  | some _ =>
    ((upsert cidxOf (arbitrateBy isFold gens durabilityFloor) locs loc, w),
      match lookup cidxOf locs (cidxOf loc) with
      | some old => if shouldUpdate isFold gens durabilityFloor old loc then .applied loc.chunkId else .rejected old.chunkId
      | none => .applied loc.chunkId)
  | none =>
    ((updateFirst (sameChunk loc) (fun _ => loc) locs, w),
      if locs.any (sameChunk loc) then .applied loc.chunkId else .unplaceable)

variable (s : Node Id)

/-- `location_supersedes` with the fold results and generations of the node. -/
def Node.supersedes (durabilityFloor : Nat) (incoming existing : ChunkLocation Id) : Bool :=
  locationSupersedes incoming existing (s.foldResultChunkIds incoming.chunkId) (s.foldResultChunkIds existing.chunkId)
    (s.chunkGenerations incoming.chunkId) (s.chunkGenerations existing.chunkId) durabilityFloor

variable (readable : Slot → Bool) (durabilityFloor : Nat)

def Node.readChunkSeq (slot : Slot) : Option Nat := if readable slot then s.chunkSeq slot else none

/-- An occupant without a generation gets the sequence stored for its slot. -/
def Node.backfillOccupant (slot : Slot) (incoming : Id) : Node Id :=
  match s.occupant slot with
  | none => s
  | some existing =>
    if existing.chunkId ≠ incoming ∧ s.chunkGenerations existing.chunkId = none then
      match s.readChunkSeq readable slot with
      | some seq => s.bumpChunkGeneration existing.chunkId seq
      | none => s
    else s

def Node.chunkMapUpdateLocationForFile (readable : Slot → Bool) (file : FileId) (loc : ChunkLocation Id) :
    Node Id × SlotMergeOutcome Id :=
  if s.fileRecentlyDeleted file then (s, .fileDeleted)
  else
    let s := match loc.fileOffset with
      | some o => s.backfillOccupant readable (file, o / chunkSize) loc.chunkId
      | none => s
    let (entry, outcome) :=
      chunkMapUpdateLocationForFileSync s.foldResultChunkIds s.chunkGenerations durabilityFloor (s.chunkMap file) loc
    (s.setChunkMap (update s.chunkMap file (some entry)), outcome)

/-- Without a file: the first entry with the identity, in the first file that has one. -/
def Node.chunkMapUpdateLocation (walk : List FileId) (loc : ChunkLocation Id) : Node Id :=
  match walk.find? (fun f => ((s.chunkMap f).elim [] Prod.fst).any (sameChunk loc)) with
  | none => s
  | some f => match s.chunkMap f with
    | none => s
    | some (locs, w) =>
      s.setChunkMap (update s.chunkMap f
        (some (updateFirst (sameChunk loc) (fun _ => loc) locs, w)))

/-! ## What the update makes of a slot -/

section Update

variable (isFold : Id → Bool) (gens : Id → Option Nat) (floor : Nat)

lemma arbitrateBy_none : arbitrateBy isFold (fun _ => none) floor = arbitrate isFold floor := by
  funext existing incoming
  simp [arbitrateBy, arbitrate, shouldUpdate]

lemma chunkMapUpdateLocationForFileSync_none (entry : Option (Locations Id × Nat)) (loc : ChunkLocation Id) :
    (chunkMapUpdateLocationForFileSync isFold (fun _ => none) floor entry loc).1
      = chunkMapUpdateLocationForFile isFold floor entry loc := by
  unfold chunkMapUpdateLocationForFileSync chunkMapUpdateLocationForFile
  rw [arbitrateBy_none]
  cases loc.fileOffset <;> rfl

variable {isFold gens floor}

lemma cidxOf_arbitrateBy {old loc : ChunkLocation Id} (h : cidxOf old = cidxOf loc) :
    cidxOf (arbitrateBy isFold gens floor old loc) = cidxOf loc := by
  unfold arbitrateBy
  split
  · rfl
  · exact h

section

omit [DecidableEq Id]

variable {loc : ChunkLocation Id} {idx : Nat} (h : slotOf loc = some idx)

include h

lemma cidxOf_of_fileOffset : cidxOf loc = idx := by
  unfold cidxOf
  rw [h, getD_some]

lemma isSome_of_slotOf : loc.fileOffset.isSome = true := by
  obtain ⟨o, ho, -⟩ := map_eq_some_iff.mp h
  exact isSome_iff_exists.mpr ⟨o, ho⟩

end

variable (s : Node Id) (file : FileId)

def Node.locsOf : Locations Id := (s.chunkMap file).elim [] Prod.fst

variable {entry : Option (Locations Id × Nat)}

section

omit [DecidableEq Id]

lemma locsOf_of_entry {s : Node Id} {file : FileId} (h : s.chunkMap file = entry) : s.locsOf file = entry.elim [] Prod.fst := by
  unfold locsOf
  rw [h]

lemma getD_chunkMap_fst (w : Nat) : ((s.chunkMap file).getD ([], w)).1 = s.locsOf file := by
  unfold locsOf
  cases s.chunkMap file <;> rfl

lemma locsOf_setEntry (entry : Option (Locations Id × Nat)) (f : FileId) :
    (s.setChunkMap (update s.chunkMap file entry)).locsOf f = if f = file then entry.elim [] Prod.fst else s.locsOf f := by
  unfold locsOf
  rw [setChunkMap_chunkMap, update_apply]
  split <;> rfl

lemma occupant_eq_lookup_locsOf (slot : Slot) : s.occupant slot = lookup cidxOf (s.locsOf slot.1) slot.2 :=
  occupant_eq_lookup s slot

end

lemma chunkMapUpdateLocationForFileSync_locs {loc : ChunkLocation Id} (h : loc.fileOffset.isSome = true) :
    (chunkMapUpdateLocationForFileSync isFold gens floor entry loc).1.1
      = upsert cidxOf (arbitrateBy isFold gens floor) (entry.elim [] Prod.fst) loc := by
  obtain ⟨o, ho⟩ := isSome_iff_exists.mp h
  unfold chunkMapUpdateLocationForFileSync
  rw [ho]
  cases entry <;> rfl

end Update

def Node.backfilled (slot : Slot) (incoming id : Id) : Option Nat :=
  if (s.occupant slot).map (·.chunkId) = some id ∧ id ≠ incoming then (s.chunkGenerations id).or (s.readChunkSeq readable slot)
  else s.chunkGenerations id

lemma backfilled_incoming (slot : Slot) (incoming : Id) :
    s.backfilled readable slot incoming incoming = s.chunkGenerations incoming :=
  if_neg fun h => h.2 rfl

variable {slot : Slot} {s' : Node Id}

lemma backfilled_occupant {s : Node Id} {incoming : Id} {x : ChunkLocation Id} (hocc : s.occupant slot = some x)
    (hx : x.chunkId ≠ incoming) :
    s.backfilled readable slot incoming x.chunkId = (s.chunkGenerations x.chunkId).or (s.readChunkSeq readable slot) := by
  unfold backfilled
  rw [hocc, if_pos ⟨rfl, hx⟩]

lemma backfillOccupant_eq (slot : Slot) (incoming : Id) :
    s.backfillOccupant readable slot incoming = s.setSequences s.chunkSeq (s.backfilled readable slot incoming) := by
  have hsame (h : ∀ id, s.backfilled readable slot incoming id = s.chunkGenerations id) :
      s = s.setSequences s.chunkSeq (s.backfilled readable slot incoming) := by
    rw [show s.backfilled readable slot incoming = s.chunkGenerations from funext h]
    rfl
  unfold backfillOccupant
  split
  · rename_i hocc
    exact hsame (fun id => by simp [backfilled, hocc])
  rename_i existing hocc
  split
  · rename_i h
    split
    · rename_i seq hseq
      unfold bumpChunkGeneration setSequences
      congr 1
      funext id
      by_cases hid : id = existing.chunkId
      · subst hid
        simp [backfilled, hocc, h, hseq]
      · simp [backfilled, hocc, Ne.symm hid, hid]
    · rename_i hseq
      exact hsame (fun id => by simp [backfilled, hseq])
  · rename_i h
    refine hsame (fun id => ?_)
    unfold backfilled
    split
    · rename_i hid
      rw [hocc, map_some, some.injEq] at hid
      obtain ⟨rfl, hne⟩ := hid
      have hsome : s.chunkGenerations existing.chunkId ≠ none := fun hn => h ⟨hne, hn⟩
      obtain ⟨g, hg⟩ := ne_none_iff_exists'.mp hsome
      rw [hg]
      rfl
    · rfl

def Node.syncLocation (file : FileId) (loc : ChunkLocation Id) : Node Id :=
  s.setChunkMap (update s.chunkMap file (some (chunkMapUpdateLocationForFileSync s.foldResultChunkIds s.chunkGenerations
    durabilityFloor (s.chunkMap file) loc).1))

lemma chunkMapUpdateLocationForFile_eq {s : Node Id} {file : FileId} {loc : ChunkLocation Id} {idx : Nat} (floor : Nat)
    (readable : Slot → Bool) (hfile : s.fileRecentlyDeleted file = false) (hidx : slotOf loc = some idx) :
    (s.chunkMapUpdateLocationForFile floor readable file loc).1
      = (s.setSequences s.chunkSeq (s.backfilled readable (file, idx) loc.chunkId)).syncLocation floor file loc := by
  obtain ⟨o, ho, rfl⟩ := map_eq_some_iff.mp hidx
  unfold Node.chunkMapUpdateLocationForFile
  simp only [hfile, Bool.false_eq_true, if_false, ho, backfillOccupant_eq]
  rfl

section Sync

variable {s : Node Id} {file : FileId} {loc : ChunkLocation Id} {idx : Nat} (floor : Nat)

lemma locsOf_syncLocation (hidx : slotOf loc = some idx) (f : FileId) : (s.syncLocation floor file loc).locsOf f
      = if f = file then upsert cidxOf (arbitrateBy s.foldResultChunkIds s.chunkGenerations floor) (s.locsOf file) loc
        else s.locsOf f := by
  unfold syncLocation
  rw [locsOf_setEntry, elim_some, chunkMapUpdateLocationForFileSync_locs (isSome_of_slotOf hidx)]
  rfl

lemma occupant_syncLocation_self (hidx : slotOf loc = some idx) :
    (s.syncLocation floor file loc).occupant (file, idx)
      = merged (arbitrateBy s.foldResultChunkIds s.chunkGenerations floor) (s.occupant (file, idx)) loc := by
  have hcidx := cidxOf_of_fileOffset hidx
  rw [occupant_eq_lookup_locsOf, occupant_eq_lookup_locsOf, locsOf_syncLocation floor hidx, if_pos rfl]
  subst hcidx
  exact lookup_upsert_self (fun old => cidxOf_arbitrateBy)

lemma occupant_syncLocation_of_ne (hs : Sorted cidxOf (s.locsOf file)) (hidx : slotOf loc = some idx)
    (hslot : (file, idx) ≠ slot) : (s.syncLocation floor file loc).occupant slot = s.occupant slot := by
  rw [occupant_eq_lookup_locsOf, occupant_eq_lookup_locsOf, locsOf_syncLocation floor hidx]
  split
  · rename_i hf
    rw [hf]
    refine lookup_upsert_of_ne hs (fun _ => cidxOf_arbitrateBy) ?_
    rw [cidxOf_of_fileOffset hidx]
    exact fun h => hslot (Prod.ext hf.symm h)
  · rfl

end Sync

lemma occupant_chunkMapUpdateLocationForFile {s : Node Id} {file : FileId} {loc : ChunkLocation Id} {idx : Nat} (floor : Nat)
    (readable : Slot → Bool) (hfile : s.fileRecentlyDeleted file = false) (hidx : slotOf loc = some idx) :
    (s.chunkMapUpdateLocationForFile floor readable file loc).1.occupant (file, idx)
      = merged (arbitrateBy s.foldResultChunkIds (s.backfilled readable (file, idx) loc.chunkId) floor)
          (s.occupant (file, idx)) loc := by
  rw [chunkMapUpdateLocationForFile_eq floor readable hfile hidx]
  exact occupant_syncLocation_self floor hidx

/-! ## Identities that name one slot -/

omit [DecidableEq Id] in
lemma occupant_congr {s : Node Id} (h : s'.chunkMap = s.chunkMap) (slot : Slot) : s'.occupant slot = s.occupant slot := by
  rw [occupant_eq_lookup, occupant_eq_lookup, h]

/-- The chunk map's lists are sorted by index, and an entry lies at the place of its identity. -/
structure Node.Placed (s : Node Id) (place : Id → Slot) : Prop where
  sorted : ∀ file, Sorted cidxOf (s.locsOf file)
  place_eq : ∀ file, ∀ l ∈ s.locsOf file, place l.chunkId = (file, cidxOf l)

def AtPlace (place : Id → Slot) (record : ChunkLocation Id) : Prop :=
  record.fileId = some (place record.chunkId).1 ∧ slotOf record = some (place record.chunkId).2

def FreeId.place : FreeId → Slot
  | .content _ offset file => (file, offset / chunkSize)
  | .token _ => (0, 0)

section Placed

variable {place : Id → Slot} {s : Node Id}

omit [DecidableEq Id] in
lemma Node.Placed.congr (hs : s.Placed place) (h : s'.chunkMap = s.chunkMap) : s'.Placed place := by
  have hlocs (f : FileId) : s'.locsOf f = s.locsOf f := by
    unfold locsOf
    rw [h]
  exact ⟨fun f => hlocs f ▸ hs.sorted f, fun f => hlocs f ▸ hs.place_eq f⟩

omit [DecidableEq Id] in
lemma Node.Placed.occupant (hs : s.Placed place) {occ : ChunkLocation Id} (h : s.occupant slot = some occ) :
    place occ.chunkId = slot := by
  rw [occupant_eq_lookup_locsOf, lookup_eq_find? (hs.sorted _)] at h
  rw [hs.place_eq _ occ (List.mem_of_find?_eq_some h)]
  exact Prod.ext rfl (by simpa using List.find?_some h)

lemma Node.Placed.syncLocation (hs : s.Placed place) (floor : Nat) {record : ChunkLocation Id} (hrec : AtPlace place record) :
    (s.syncLocation floor (place record.chunkId).1 record).Placed place := by
  have hrecord : place record.chunkId = ((place record.chunkId).1, cidxOf record) := by
    rw [cidxOf_of_fileOffset hrec.2]
  constructor
  · intro f
    rw [locsOf_syncLocation floor hrec.2]
    split
    · exact sorted_upsert (hs.sorted _) (fun _ => cidxOf_arbitrateBy)
    · exact hs.sorted f
  · intro f l hl
    rw [locsOf_syncLocation floor hrec.2] at hl
    split at hl
    · rename_i hf
      subst hf
      rcases mem_upsert hl with hl | rfl | ⟨old, hold, rfl⟩
      · exact hs.place_eq _ l hl
      · exact hrecord
      unfold arbitrateBy
      split
      · exact hrecord
      · exact hs.place_eq _ old hold
    · exact hs.place_eq f l hl

end Placed

end Dfs
