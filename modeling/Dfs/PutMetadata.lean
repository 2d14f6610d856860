import Dfs.ChunkMap
import Dfs.FileTables

/-!
# Putting the metadata of a file

`handle_put_file_metadata` on the leader: the record's locations are reconciled with the file's entry, then
`chunk_map_update` merges it.
-/

namespace Dfs

open KeyedList

variable {Id : Type}

/-! ## Reconciling with the map -/

def mentioned (locs : Locations Id) (cidx : Nat) : Bool := locs.any fun l => slotOf l = some cidx

/-- The order of `sort_by_key`: by offset, last without one. -/
def sortByOffset (locs : Locations Id) : Locations Id :=
  locs.insertionSort fun a b => a.fileOffset.getD u64Max ≤ b.fileOffset.getD u64Max

/-- The map's locations whose slots are not mentioned, but for those dropped. -/
def addUnmentioned (drop : ChunkLocation Id → Bool) (locs mapLocs : Locations Id) : Locations Id :=
  mapLocs.foldl (fun locs l => match slotOf l with
    | none => locs
    | some cidx => if mentioned locs cidx || drop l then locs else locs ++ [l]) locs

def shouldUseServer (loc mapLoc : ChunkLocation Id) : Bool :=
  match loc.writtenAt with
  | some clientTs => decide (clientTs < mapLoc.writtenAt.getD 0)
  | none => match loc.clientWriteSeq, mapLoc.clientWriteSeq with
    | none, some _ => true
    | some inc, some ext => decide (inc < ext)
    | _, none => false

/-- One incoming location, or the map's in its slot (the last of them). -/
def reconcileLocation (mapLocs : Locations Id) (loc : ChunkLocation Id) : ChunkLocation Id :=
  match slotOf loc with
  | none => loc
  | some cidx => match mapLocs.reverse.find? fun l => slotOf l = some cidx with
    | none => loc
    | some mapLoc => if shouldUseServer loc mapLoc then mapLoc else loc

def reconcileChunkLocationsWithMap (chunkLocations mapLocs : Locations Id) : Locations Id :=
  if chunkLocations.isEmpty then []
  else sortByOffset (addUnmentioned (fun _ => false) (chunkLocations.map (reconcileLocation mapLocs)) mapLocs)

variable [DecidableEq Id]

/-! ## The merge into the map -/

variable (onDisk : Id → Bool)

/-- The incoming location, of another identity, is the older one. -/
def staleForMap (loc old : ChunkLocation Id) : Bool :=
  match loc.clientWriteSeq, old.clientWriteSeq with
  | some inc, some ext => decide (inc < ext)
  | some _, none => false
  | none, some _ => true
  | none, none => match loc.writtenAt with
    | some incomingTs => decide (incomingTs < old.writtenAt.getD 0)
    | none => !onDisk loc.chunkId

/-- How an entry is searched for the location of a slot. -/
abbrev SlotSearch (Id : Type) := Locations Id → Nat → Option (ChunkLocation Id)

/-- By `chunk_map_find_by_idx`. In a list in order `lookup` finds the same (`searchByIdx_eq`). -/
def searchByIdx : SlotSearch Id := fun locs cidx => (chunkMapFindByIdx locs cidx).bind fun i => locs[i]?

def SlotSearch.Sound (search : SlotSearch Id) : Prop := ∀ locs cidx old, search locs cidx = some old → cidxOf old = cidx

omit [DecidableEq Id] in
lemma searchByIdx_sound : (searchByIdx : SlotSearch Id).Sound := by
  intro locs cidx old h
  obtain ⟨i, hfind, hi⟩ := Option.bind_eq_some_iff.mp h
  unfold chunkMapFindByIdx at hfind
  dsimp only at hfind
  split at hfind
  · split at hfind
    · rename_i hat hidx
      cases hfind
      rw [hat] at hi
      cases hi
      exact hidx
    · cases hfind
  · cases hfind

omit [DecidableEq Id] in
lemma searchByIdx_eq {locs : Locations Id} (h : Sorted cidxOf locs) (cidx : Nat) :
    searchByIdx locs cidx = lookup cidxOf locs cidx := by
  rw [searchByIdx, chunkMapFindByIdx_eq (h.imp Nat.le_of_lt), lookup, position, slotPosition]
  cases hat : locs[(locs.takeWhile fun l => cidxOf l < cidx).length]? with
  | none => rfl
  | some l => by_cases hl : cidxOf l = cidx <;> simp [hl, hat, Option.filter]

variable (search : SlotSearch Id) (existing : Locations Id) (loc : ChunkLocation Id)

/-- The incoming location or the occupant that the search finds, with the identity it supersedes. -/
def guardLocationBy : ChunkLocation Id × Option Id :=
  match slotOf loc with
  | none => (loc, none)
  | some cidx => match search existing cidx with
    | none => (loc, none)
    | some old =>
      if old.chunkId = loc.chunkId then (loc, none)
      else if staleForMap onDisk loc old then (old, none)
      else (loc, some old.chunkId)

abbrev guardLocation := guardLocationBy onDisk (lookup cidxOf) existing loc

lemma guardLocation_cases : (guardLocationBy onDisk search existing loc = (loc, none) ∧
      ∀ cidx old, slotOf loc = some cidx → search existing cidx = some old → old.chunkId = loc.chunkId) ∨
    ∃ cidx old, slotOf loc = some cidx ∧ search existing cidx = some old ∧ old.chunkId ≠ loc.chunkId ∧
      guardLocationBy onDisk search existing loc = if staleForMap onDisk loc old then (old, none)
        else (loc, some old.chunkId) := by
  unfold guardLocationBy
  cases hslot : slotOf loc with
  | none => exact .inl ⟨rfl, by simp⟩
  | some cidx =>
    simp only [Option.some.injEq]
    cases hold : search existing cidx with
    | none => exact .inl ⟨rfl, by rintro _ old rfl h; cases hold.symm.trans h⟩
    | some old =>
      by_cases hid : old.chunkId = loc.chunkId
      · exact .inl ⟨if_pos hid, by rintro _ old' rfl h; cases hold.symm.trans h; exact hid⟩
      · exact .inr ⟨cidx, old, rfl, hold, hid, if_neg hid⟩

lemma slotOf_guardLocation_of {search : SlotSearch Id} {existing : Locations Id} {loc : ChunkLocation Id}
    (hold : ∀ cidx old, slotOf loc = some cidx → search existing cidx = some old → slotOf old = some cidx) :
    slotOf (guardLocationBy onDisk search existing loc).1 = slotOf loc := by
  rcases guardLocation_cases onDisk search existing loc with ⟨h, -⟩ | ⟨cidx, old, hslot, hfind, -, h⟩
  · rw [h]
  rw [h, hslot]
  split
  · exact hold cidx old hslot hfind
  · exact hslot

variable (metadata : FileMetadata Id)

def shrinkDrops (mapSeq : Nat) (l : ChunkLocation Id) : Bool :=
  decide (mapSeq < metadata.writeSeq) && decide (metadata.size ≤ l.fileOffset.getD 0)

/-- Before those without an offset are dropped. -/
def mergedLocationsBy : Option (Locations Id × Nat) → Locations Id
  | none => metadata.chunkLocations
  | some (existing, mapSeq) => sortByOffset (addUnmentioned (shrinkDrops metadata mapSeq)
      (metadata.chunkLocations.map fun l => (guardLocationBy onDisk search existing l).1) existing)

abbrev mergedLocations := mergedLocationsBy onDisk (lookup cidxOf) metadata

/-- `chunk_map_update`, with its search of the entry. -/
def Node.chunkMapUpdateBy (s : Node Id) (metadata : FileMetadata Id) : Node Id :=
  if !metadata.chunkLocations.isEmpty then
    let newLocs := (mergedLocationsBy s.hasChunk search metadata (s.chunkMap metadata.id)).filter (·.fileOffset.isSome)
    s.setChunkMap (Function.update s.chunkMap metadata.id
      (some (newLocs, max metadata.writeSeq ((s.chunkMap metadata.id).elim 0 Prod.snd))))
  else if metadata.size = 0 then
    match s.chunkMap metadata.id with
    | none => s
    | some (_, mapSeq) =>
      if mapSeq < metadata.writeSeq then s.setChunkMap (Function.update s.chunkMap metadata.id (some ([], metadata.writeSeq)))
        else s
  else s

abbrev Node.chunkMapUpdate (s : Node Id) (metadata : FileMetadata Id) : Node Id := s.chunkMapUpdateBy (lookup cidxOf) metadata

/-! ## The handler -/

def detectMetadataWriteSeqGap (storedWriteSeq coversFromWriteSeq incomingWriteSeq : Nat) : Option (Nat × Nat) :=
  if 0 < incomingWriteSeq ∧ storedWriteSeq + 1 < coversFromWriteSeq then some (storedWriteSeq + 1, coversFromWriteSeq - 1)
    else none

/-- With the highest write sequence seen of each file. -/
structure LeaderServer (Id : Type) where
  node : Node Id
  tables : FileTables Id
  fileWriteSeqs : FileId → Option Nat

/-- Does the server lead, where is the leader, can the record be read, and the error of a failed commit. -/
structure PutEnv where
  isLeader : Bool
  leaderAddr : Option NodeId
  recordReadable : Bool
  commitError : Option String

inductive PutResponse where
  | ok
  | notLeader (leaderAddr : Option NodeId)
  | resyncMetadataRequested (file : FileId)
  | error (message : String) (code : ErrorCode)
  deriving DecidableEq, Repr

def LeaderServer.snapToMap (s : LeaderServer Id) (env : PutEnv) (metadata : FileMetadata Id) : FileMetadata Id :=
  let metadata := match if env.recordReadable then s.tables.fileTable metadata.id else none with
    | some existing => { metadata with path := existing.path }
    | none => metadata
  match s.node.chunkMap metadata.id with
  | some (mapLocs, _) => { metadata with chunkLocations := reconcileChunkLocationsWithMap metadata.chunkLocations mapLocs }
  | none => metadata

/-- A file deleted within the last thirty seconds is answered with success. -/
def LeaderServer.handlePutFileMetadata (s : LeaderServer Id) (env : PutEnv) (metadata : FileMetadata Id)
    (coversFromWriteSeq : Nat) :
    LeaderServer Id × PutResponse :=
  if !env.isLeader then (s, .notLeader env.leaderAddr)
  else if s.node.deleteTombstones metadata.id then (s, .ok)
  else
    let stored := (s.fileWriteSeqs metadata.id).getD 0
    let seqs := if stored < metadata.writeSeq then Function.update s.fileWriteSeqs metadata.id (some metadata.writeSeq)
      else s.fileWriteSeqs
    let m := s.snapToMap env metadata
    let node := s.node.chunkMapUpdate m
    match env.commitError with
    | some e => ({ s with node := node, fileWriteSeqs := seqs }, .error ("metadata commit failed: " ++ e) .ioError)
    | none =>
      (⟨node, (s.tables.putFile s.node.tombstoned m).1, seqs⟩,
        if (detectMetadataWriteSeqGap stored coversFromWriteSeq metadata.writeSeq).isSome then
          .resyncMetadataRequested metadata.id
        else .ok)

end Dfs
