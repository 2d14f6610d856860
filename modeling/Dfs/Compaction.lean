import Dfs.Lib.ShadowCopy
import Dfs.Lib.Transition
import Dfs.StoreRun

/-!
# Online compaction

The tables are copied into a shadow database that catches up, last under the exclusive lock: `FILE_TABLE` and
`PATH_TABLE` by marked keys, the others whole.
-/

namespace Dfs

open ShadowCopy

variable {Id : Type}

/-! ## The database -/

structure OtherTables (Id : Type) where
  chunkTable : Id → Option (ChunkLocation Id)
  patchState : Id → Option (PatchState Id)
  patchStateSlot : Slot → Option Id
  chunkSeq : Slot → Option Nat
  tombstoned : FileId → Bool

structure Database (Id : Type) where
  tables : FileTables Id
  others : OtherTables Id

def MetadataStore.database (s : MetadataStore Id) : Database Id :=
  ⟨s.tables, ⟨s.node.chunkTable, s.node.patchState, s.node.patchStateSlot, s.node.chunkSeq, s.node.tombstoned⟩⟩

def MetadataStore.withDatabase (s : MetadataStore Id) (db : Database Id) : MetadataStore Id where
  node := { s.node with
    chunkTable := db.others.chunkTable
    patchState := db.others.patchState
    patchStateSlot := db.others.patchStateSlot
    chunkSeq := db.others.chunkSeq
    tombstoned := db.others.tombstoned }
  tables := db.tables

def diffAllTablesTracked (src dst : Database Id) (dirtyFiles : List FileId) (dirtyPaths : List Path) : Database Id where
  tables :=
    { fileTable := diffByKeys src.tables.fileTable dst.tables.fileTable dirtyFiles
      pathTable := diffByKeys src.tables.pathTable dst.tables.pathTable dirtyPaths }
  others := src.others

/-! ## The writers -/

/-- What `repair_path_index` and `remove_unlisted_files` scanned is part of the operation. -/
inductive DbOp (Id : Type) where
  | store (op : StoreOp Id)
  | deletePatchStateAbandoned (token : Id) (slot : Slot)
  | repairMissing (entries : List (Path × FileId))
  | repairStale (paths : List Path)
  | removeUnlistedFiles (records : List (FileId × Path))
  | removeUnlistedPaths (paths : List Path)

def FileTables.insertPaths (t : FileTables Id) (entries : List (Path × FileId)) : FileTables Id :=
  { t with pathTable := entries.foldl (fun table e => Function.update table e.1 (some e.2)) t.pathTable }

variable [DecidableEq Id]

def MetadataStore.apply (s : MetadataStore Id) : DbOp Id → MetadataStore Id
  | .store op => s.step op
  | .deletePatchStateAbandoned token slot => { s with node := s.node.deletePatchStateAbandoned token slot }
  | .repairMissing entries => { s with tables := s.tables.insertPaths entries }
  | .repairStale paths => { s with tables := s.tables.without paths }
  | .removeUnlistedFiles records =>
    let t := s.tables.without (records.map Prod.snd)
    { s with tables := { t with fileTable := fun f => if f ∈ records.map Prod.fst then none else t.fileTable f } }
  | .removeUnlistedPaths paths => { s with tables := s.tables.without paths }

omit [DecidableEq Id] in
def FileTables.oldId (t : FileTables Id) (tombstoned : FileId → Bool) (m : FileMetadata Id) : Option FileId :=
  if tombstoned m.id then none else (t.pathTable (mergeFileMetadata (t.fileTable m.id) m).1.path).filter (· ≠ m.id)

omit [DecidableEq Id] in
def FileTables.touchedBy (t : FileTables Id) (tombstoned : FileId → Bool) : List (FileMetadata Id) → List FileId × List Path
  | [] => ([], [])
  | m :: items =>
    let rest := FileTables.touchedBy (t.putFile tombstoned m).1 tombstoned items
    (m.id :: ((t.oldId tombstoned m).toList ++ rest.1), m.path :: rest.2)

/-- `repair_path_index` marks none. -/
def DbOp.touched (s : MetadataStore Id) : DbOp Id → List FileId × List Path
  | .store (.putFile m) => (m.id :: (s.tables.oldId s.node.tombstoned m).toList, [m.path])
  | .store (.putFilesBatch items) => s.tables.touchedBy s.node.tombstoned items
  | .store (.deleteFile file) => ([file], ((s.tables.fileTable file).map (·.path)).toList)
  | .store (.deleteFileForGoodWith file path _ _) => ([file], ((s.tables.fileTable file).map (·.path)).toList ++ [path])
  | .store (.deletePathIndex path) => ([], [path])
  | .removeUnlistedFiles records => (records.map Prod.fst, records.map Prod.snd)
  | .removeUnlistedPaths paths => ([], paths)
  | _ => ([], [])

/-- With the keys that are marked once it has committed. -/
def MetadataStore.commit (s : MetadataStore Id) : List (DbOp Id) → MetadataStore Id × List FileId × List Path
  | [] => (s, [], [])
  | op :: ops =>
    let r := MetadataStore.commit (s.apply op) ops
    (r.1, (op.touched s).1 ++ r.2.1, (op.touched s).2 ++ r.2.2)

/-! ## The run -/

structure CompactionRun (Id : Type) where
  live : MetadataStore Id
  shadow : Option (Database Id)
  files : Marks FileId
  paths : Marks Path

def CompactionRun.start (live : MetadataStore Id) : CompactionRun Id := ⟨live, none, .none, .none⟩

inductive CompactStep (Id : Type) where
  | commit (ops : List (DbOp Id))
  | markFile (i : Nat)
  | markPath (i : Nat)
  /-- A new compaction forgets the marks. -/
  | clearFiles
  | clearPaths
  | copyAllTables
  | takeDirtyFiles
  | takeDirtyPaths
  | catchUp
  | defer
  | finish

/-- The last phase has the exclusive lock: no writer is before its marks. -/
def CompactionRun.step (s : CompactionRun Id) : CompactStep Id → CompactionRun Id
  | .commit ops =>
    let r := s.live.commit ops
    { s with live := r.1, files := s.files.commit r.2.1, paths := s.paths.commit r.2.2 }
  | .markFile i => { s with files := s.files.mark i }
  | .markPath i => { s with paths := s.paths.mark i }
  | .clearFiles => { s with shadow := none, files := s.files.clear.done }
  | .clearPaths => { s with shadow := none, paths := s.paths.clear.done }
  | .copyAllTables => { s with shadow := some s.live.database }
  | .takeDirtyFiles => { s with files := s.files.drain }
  | .takeDirtyPaths => { s with paths := s.paths.drain }
  | .catchUp =>
    { s with
      shadow := s.shadow.map fun db => diffAllTablesTracked s.live.database db s.files.drained s.paths.drained
      files := s.files.done
      paths := s.paths.done }
  | .defer => { s with shadow := none }
  | .finish =>
    match s.shadow with
    | none => s
    | some db =>
      if s.files.pending.isEmpty && s.paths.pending.isEmpty && s.files.drained.isEmpty && s.paths.drained.isEmpty then
        { live := s.live.withDatabase (diffAllTablesTracked s.live.database db s.files.dirty s.paths.dirty)
          shadow := none
          files := s.files.clear
          paths := s.paths.clear }
      else s

end Dfs
