import Dfs.Types

/-!
# The tables of files and paths

`FILE_TABLE` and `PATH_TABLE`: `put_file_in_txn`, look-ups, removal of an entry, the scan of a subtree. Records are stored without
locations.
-/

namespace Dfs

open Function

variable {Id : Type}

structure FileTables (Id : Type) where
  fileTable : FileId → Option (FileMetadata Id)
  pathTable : Path → Option FileId

def FileTables.empty : FileTables Id := ⟨fun _ => none, fun _ => none⟩

inductive PutFileResult (Id : Type) where
  | stored
  | stale (existing : FileMetadata Id)
  | deleted
  deriving DecidableEq, Repr

def isStale (existing incoming : FileMetadata Id) : Bool :=
  decide (0 < existing.writeSeq) && decide (0 < incoming.writeSeq) && decide (incoming.writeSeq < existing.writeSeq)

/-- The record whose scalar fields are stored, and is the incoming one stale. -/
def mergeFileMetadata : Option (FileMetadata Id) → FileMetadata Id → FileMetadata Id × Bool
  | none, incoming => (incoming, false)
  | some existing, incoming => if isStale existing incoming then (existing, true) else (incoming, false)

def FileTables.without (t : FileTables Id) (ps : List Path) : FileTables Id :=
  { t with pathTable := fun p => if p ∈ ps then none else t.pathTable p }

def FileTables.withoutPathOwner (t : FileTables Id) (path : Path) (id : FileId) : FileId → Option (FileMetadata Id) :=
  match t.pathTable path with
  | some old => if old ≠ id then update t.fileTable old none else t.fileTable
  | none => t.fileTable

lemma withoutPathOwner_apply (t : FileTables Id) (path : Path) (id g : FileId) :
    t.withoutPathOwner path id g = if t.pathTable path = some g ∧ g ≠ id then none else t.fileTable g := by
  unfold FileTables.withoutPathOwner
  cases hp : t.pathTable path with
  | none => simp
  | some old =>
    dsimp only
    by_cases hold : old = id
    · subst hold
      by_cases hg : g = old <;> simp [hg, eq_comm]
    rw [if_pos hold]
    by_cases hg : g = old
    · subst hg
      simp [hold]
    · simp [update_of_ne hg, Ne.symm hg]

def FileTables.putFile (t : FileTables Id) (tombstoned : FileId → Bool) (metadata : FileMetadata Id) :
    FileTables Id × PutFileResult Id :=
  if tombstoned metadata.id then (t, .deleted)
  else
    let r := mergeFileMetadata (t.fileTable metadata.id) metadata
    ({ fileTable := update (t.withoutPathOwner r.1.path metadata.id) metadata.id (some { r.1 with chunkLocations := [] })
       pathTable := update t.pathTable r.1.path (some metadata.id) },
      if r.2 then .stale r.1 else .stored)

def FileTables.getFileByPath (t : FileTables Id) (path : Path) : Option (FileMetadata Id) := (t.pathTable path).bind t.fileTable

def FileTables.deletePathIndex (t : FileTables Id) (path : Path) : FileTables Id :=
  { t with pathTable := update t.pathTable path none }

variable {t : FileTables Id} {tombstoned : FileId → Bool} {m : FileMetadata Id}

lemma putFile_of_not_stale (hlive : tombstoned m.id = false) (hfresh : ∀ e, t.fileTable m.id = some e → isStale e m = false) :
    t.putFile tombstoned m = ({ fileTable := update (t.withoutPathOwner m.path m.id) m.id (some { m with chunkLocations := [] })
                                pathTable := update t.pathTable m.path (some m.id) }, .stored) := by
  unfold FileTables.putFile
  rw [hlive]
  cases he : t.fileTable m.id with
  | none => rfl
  | some e => simp [mergeFileMetadata, hfresh e he]

lemma fileTable_putFile_self (hlive : tombstoned m.id = false) (hfresh : ∀ e, t.fileTable m.id = some e → isStale e m = false) :
    (t.putFile tombstoned m).1.fileTable m.id = some { m with chunkLocations := [] } := by
  rw [putFile_of_not_stale hlive hfresh]
  exact update_self ..

end Dfs
