import Dfs.FileTables
import Dfs.Node

/-!
# Runs of the metadata store

Operations on `FILE_TABLE`, `PATH_TABLE`, tombstones and the slot tables, each a transaction of its own or in a group
(`apply_ops_group`).
-/

namespace Dfs

open Function

variable {Id : Type}

structure MetadataStore (Id : Type) where
  node : Node Id
  tables : FileTables Id

def MetadataStore.empty : MetadataStore Id := ⟨Node.empty, FileTables.empty⟩

/-- The record goes, with the entries of its own path and of the path given, whatever file that names. -/
def FileTables.deleteFile (t : FileTables Id) (file : FileId) (path : Option Path) : FileTables Id where
  fileTable := update t.fileTable file none
  pathTable :=
    let own := match t.fileTable file with
      | some m => update t.pathTable m.path none
      | none => t.pathTable
    match path with
    | some p => update own p none
    | none => own

def FileTables.putFilesBatch (t : FileTables Id) (tombstoned : FileId → Bool) (items : List (FileMetadata Id)) : FileTables Id :=
  items.foldl (fun t metadata => (t.putFile tombstoned metadata).1) t

variable [DecidableEq Id]

/-- The chunks' rows and all that is kept for a slot go, and the tombstone is set. `scan` has the indices the scan meets. -/
def Node.deleteFileRows (s : Node Id) (file : FileId) (chunkIds : List Id) (scan : List Nat) : Node Id :=
  let tokens := scan.filterMap fun cidx => s.patchStateSlot (file, cidx)
  { s with
    chunkTable := fun id => if id ∈ chunkIds then none else s.chunkTable id
    tombstoned := update s.tombstoned file true
    patchStateSlot := fun slot => if slot.1 = file then none else s.patchStateSlot slot
    patchState := fun id => if id ∈ tokens then none else s.patchState id
    chunkSeq := fun slot => if slot.1 = file then none else s.chunkSeq slot }

inductive StoreOp (Id : Type) where
  | putFile (metadata : FileMetadata Id)
  | putFilesBatch (items : List (FileMetadata Id))
  | deleteFile (file : FileId)
  | deleteFileForGoodWith (file : FileId) (path : Path) (chunkIds : List Id) (scan : List Nat)
  | deletePathIndex (path : Path)
  | putChunkSeq (slot : Slot) (seq : Nat)
  | putPatchStatePending (slot : Slot) (token base delta : Id) (size writtenAt : Nat) (seq : Option Nat)
  | updatePatchStateFolded (token real : Id) (file : Option FileId)

def MetadataStore.deleteFileForGoodWith (s : MetadataStore Id) (file : FileId) (path : Path) (chunkIds : List Id)
    (scan : List Nat) :
    MetadataStore Id :=
  ⟨s.node.deleteFileRows file chunkIds scan, s.tables.deleteFile file (some path)⟩

/-- Refused if a file is given that was deleted for good. -/
def Node.updatePatchStateFoldedOf (s : Node Id) (token real : Id) (file : Option FileId) : Node Id :=
  if file.any s.tombstoned then s else s.updatePatchStateFolded token real

def MetadataStore.step (s : MetadataStore Id) : StoreOp Id → MetadataStore Id
  | .putFile metadata => { s with tables := (s.tables.putFile s.node.tombstoned metadata).1 }
  | .putFilesBatch items => { s with tables := s.tables.putFilesBatch s.node.tombstoned items }
  | .deleteFile file => { s with tables := s.tables.deleteFile file none }
  | .deleteFileForGoodWith file path chunkIds scan => s.deleteFileForGoodWith file path chunkIds scan
  | .deletePathIndex path => { s with tables := s.tables.deletePathIndex path }
  | .putChunkSeq slot seq => { s with node := (s.node.putChunkSeq slot seq).1 }
  | .putPatchStatePending slot token base delta size writtenAt seq =>
    { s with node := (s.node.putPatchStatePending slot token base delta size writtenAt seq).1 }
  | .updatePatchStateFolded token real file => { s with node := s.node.updatePatchStateFoldedOf token real file }

end Dfs
