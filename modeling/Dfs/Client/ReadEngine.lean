import Mathlib.Data.List.DropRight
import Dfs.Lib.PartitionPoint
import Dfs.Lib.Transition
import Dfs.Types

/-!
# The chunk map of the read engine

The locations of a file's chunks, and beside them offset and size of each, updated by separate statements; reads
search the second.
-/

namespace Dfs

variable {Id : Type}

structure ReadEngine (Id : Type) where
  map : Locations Id
  offsets : List (Nat × Nat)
  provenAbsent : List Id

/-- A placeholder gets the start of its slot. -/
def offsetEntry (idx : Nat) (loc : ChunkLocation Id) : Nat × Nat :=
  match loc.fileOffset with
  | some offset => (offset, loc.size)
  | none => (idx * chunkSize, 0)

def buildOffsets (locations : Locations Id) : List (Nat × Nat) := locations.mapIdx offsetEntry

def nilLoc (nilId : Id) : ChunkLocation Id := ⟨nilId, [], 0, none, none, none, none⟩

/-! ## Queries -/

/-- It stops at the first chunk that starts at the end of the range or after. -/
def scanRange (start stop : Nat) : Nat → List (Nat × Nat) → List (Nat × Nat × Nat)
  | _, [] => []
  | idx, (chunkStart, chunkLen) :: rest =>
    if stop ≤ chunkStart then []
    else if 0 < chunkLen ∧ start < chunkStart + chunkLen then (idx, chunkStart, chunkLen) :: scanRange start stop (idx + 1) rest
    else scanRange start stop (idx + 1) rest

def endsBefore (start : Nat) (e : Nat × Nat) : Bool := decide (e.1 + e.2 ≤ start)

def chunksForRange (offsets : List (Nat × Nat)) (start len : Nat) : List (Nat × Nat × Nat) :=
  let startIdx := partitionPoint (endsBefore start) offsets
  scanRange start (start + len) startIdx (offsets.drop startIdx)

/-! ## Updates -/

variable [DecidableEq Id] (nilId : Id)

def popNil (map : Locations Id) : Locations Id := map.rdropWhile fun l => decide (l.chunkId = nilId)

def provenAbsentCap : Nat := 4096

/-- Only patch tokens are recorded; a full set is cleared. -/
def ReadEngine.markChunkProvenAbsent (H : ChunkHash Id) (s : ReadEngine Id) (cid : Id) : ReadEngine Id :=
  if H.looksLikePatchToken cid then
    { s with provenAbsent := (if provenAbsentCap ≤ s.provenAbsent.length then [] else s.provenAbsent).insert cid }
  else s

variable (s : ReadEngine Id)

def ReadEngine.mergeAdmits (existing incoming : ChunkLocation Id) (seqOk : Bool) : Bool :=
  if incoming.chunkId = existing.chunkId then seqOk
  else if incoming.chunkId ∈ s.provenAbsent then false
  else if existing.chunkId ∈ s.provenAbsent then true
  else seqOk

def ReadEngine.updateChunkMap (locations : Locations Id) : ReadEngine Id :=
  { s with map := locations, offsets := buildOffsets locations }

def ReadEngine.expireChunkMapAsync : ReadEngine Id := { s with map := [], offsets := [] }

def singleSeqOk : (incoming existing : Option Nat) → Bool
  | some inc, some ext => decide (ext ≤ inc)
  | _, _ => true

/-- Without an offset it goes to position 0; a rejected one leaves the map extended. -/
def ReadEngine.updateSingleChunk (loc : ChunkLocation Id) : ReadEngine Id :=
  let idx := (slotOf loc).getD 0
  let map := s.map.rightpad (idx + 1) (nilLoc nilId)
  let existing := map.getD idx (nilLoc nilId)
  if s.mergeAdmits existing loc (singleSeqOk loc.clientWriteSeq existing.clientWriteSeq) then
    let map := popNil nilId (map.set idx loc)
    let oldLen := s.offsets.length
    let offsets := s.offsets ++ (List.range' oldLen (map.length - oldLen)).map fun i => (i * chunkSize, 0)
    { s with map := map, offsets := (offsets.set idx (loc.fileOffset.getD 0, loc.size)).take map.length }
  else { s with map := map }

def windowSeqOk (fromWritePath : Bool) (incoming existing : Option Nat) : Bool :=
  if fromWritePath then true
  else
    match incoming, existing with
    | some inc, some ext => decide (ext ≤ inc)
    | some _, none => true
    | none, some _ => false
    | none, none => true

/-- Without an offset or beyond the map it is skipped. -/
def ReadEngine.mergeLoc (fromWritePath : Bool) (map : Locations Id) (loc : ChunkLocation Id) : Locations Id :=
  match loc.fileOffset with
  | none => map
  | some offset =>
    match map[offset / chunkSize]? with
    | none => map
    | some existing =>
      if s.mergeAdmits existing loc (windowSeqOk fromWritePath loc.clientWriteSeq existing.clientWriteSeq) then
        map.set (offset / chunkSize) loc
      else map

def ReadEngine.updateChunkMapWindow (window : Locations Id) (total : Nat) (fromWritePath : Bool) : ReadEngine Id :=
  let map := popNil nilId (window.foldl (s.mergeLoc fromWritePath) (s.map.rightpad total (nilLoc nilId)))
  { s with map := map, offsets := buildOffsets map }

/-! ## Runs -/

inductive ReadEngineOp (Id : Type) where
  | updateChunkMap (locations : Locations Id)
  | updateSingleChunk (loc : ChunkLocation Id)
  | updateChunkMapWindow (window : Locations Id) (total : Nat) (fromWritePath : Bool)
  | expireChunkMapAsync
  | markChunkProvenAbsent (cid : Id)

def ReadEngine.step (H : ChunkHash Id) (nilId : Id) (s : ReadEngine Id) : ReadEngineOp Id → ReadEngine Id
  | .updateChunkMap locations => s.updateChunkMap locations
  | .updateSingleChunk loc => s.updateSingleChunk nilId loc
  | .updateChunkMapWindow window total fromWritePath => s.updateChunkMapWindow nilId window total fromWritePath
  | .expireChunkMapAsync => s.expireChunkMapAsync
  | .markChunkProvenAbsent cid => s.markChunkProvenAbsent H cid

def ReadEngine.new : ReadEngine Id := ⟨[], [], []⟩

/-! ## A refresh and the write path -/

def ReadEngine.mergeWindow (newMap window : Locations Id) (total : Nat) (fromWritePath : Bool) : Locations Id :=
  popNil nilId (window.foldl (s.mergeLoc fromWritePath) (newMap.rightpad total (nilLoc nilId)))

def ReadEngine.feed (locs : Locations Id) : ReadEngine Id :=
  locs.foldl (fun s loc => s.updateSingleChunk nilId loc) s

/-- The map is cloned under the read lock and installed under the write lock; single updates come before, between or after. -/
structure WindowRefresh (Id : Type) where
  before : Locations Id
  window : Locations Id
  total : Nat
  fromWritePath : Bool
  between : Locations Id
  after : Locations Id

variable (r : WindowRefresh Id)

def WindowRefresh.cloned (s : ReadEngine Id) : ReadEngine Id := s.feed nilId r.before

def WindowRefresh.installed (s : ReadEngine Id) : ReadEngine Id :=
  let t := r.cloned nilId s
  (t.feed nilId r.between).updateChunkMap (t.mergeWindow nilId t.map r.window r.total r.fromWritePath)

def WindowRefresh.final (s : ReadEngine Id) : ReadEngine Id := (r.installed nilId s).feed nilId r.after

end Dfs
