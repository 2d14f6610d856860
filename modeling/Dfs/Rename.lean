import Mathlib.Data.List.DropRight
import Dfs.FileTables

/-!
# Renaming a file or a directory

`handle_rename_file`: the record is stored under the new path, the old entry removed, and `rename_descendants` does so
below. Every call may fail.
-/

namespace Dfs

variable {Id : Type}

def trimEndSlash (p : Path) : Path := p.rdropWhile (· == '/')

/-- `format!("{}/", dir.trim_end_matches('/'))`. -/
def dirPrefix (dir : Path) : Path := trimEndSlash dir ++ ['/']

def stripPrefix (pre p : Path) : Option Path := if pre.isPrefixOf p then some (p.drop pre.length) else none

/-- `keys` are the paths in use in the table's order; the range scan meets those with the prefix. -/
def FileTables.listSubtree (t : FileTables Id) (keys : List Path) (dirPath : Path) : List (FileMetadata Id) :=
  let dirPath := if dirPath.getLast? = some '/' then dirPath else dirPath ++ ['/']
  (keys.filter dirPath.isPrefixOf).filterMap t.getFileByPath

/-- The order of the scan, and the message of each call that fails. -/
structure RenameEnv where
  keys : List Path
  lookupError : Option String
  rereadError : Option String
  putError : FileId → Option String
  deleteError : Path → Option String
  listError : Option String
  getError : FileId → Option String
  recheckError : FileId → Option String

inductive PutOutcome where
  | stored
  | deleted
  | exhausted
  deriving DecidableEq, Repr

def maxRenameStaleRetries : Nat := 5

def FileTables.putRetrying (t : FileTables Id) (tombstoned : FileId → Bool) (metadata : FileMetadata Id) :
    Nat → FileTables Id × PutOutcome
  | 0 => (t, .exhausted)
  | attempts + 1 => match t.putFile tombstoned metadata with
    | (t, .stored) => (t, .stored)
    | (t, .deleted) => (t, .deleted)
    | (t, .stale existing) => t.putRetrying tombstoned { metadata with writeSeq := existing.writeSeq + 1 } attempts

variable (env : RenameEnv) (tombstoned : FileId → Bool) (t : FileTables Id)

/-- The record is read again and stored under the new prefix. Returns the old path, if it was below the directory. -/
def RenameEnv.moveDescendant (oldPrefix newPrefix : Path) (t : FileTables Id) (id : FileId) :
    FileTables Id × Except String (Option Path) :=
  match env.getError id with
  | some e => (t, .error e)
  | none => match t.fileTable id with
    | none => (t, .ok none)
    | some m => match stripPrefix oldPrefix m.path with
      | none => (t, .ok none)
      | some rest => match env.putError id with
        | some e => (t, .error e)
        | none =>
          let moved := { m with path := newPrefix ++ rest, writeSeq := m.writeSeq + 1 }
          match t.putRetrying tombstoned moved maxRenameStaleRetries with
          | (t, .stored) => (t, .ok (some m.path))
          | (t, _) => match env.recheckError id with
            | some e => (t, .error e)
            | none => match t.fileTable id with
              | none => (t, .ok (some m.path))
              | some _ => (t, .error (String.ofList moved.path ++ " kept losing to concurrent writers"))

/-- Over what the scan listed, with the old paths in order. -/
def RenameEnv.moveDescendants (env : RenameEnv) (tombstoned : FileId → Bool) (oldPrefix newPrefix : Path) :
    FileTables Id → List (FileMetadata Id) → FileTables Id × Except String (List Path)
  | t, [] => (t, .ok [])
  | t, listed :: descendants => match env.moveDescendant tombstoned oldPrefix newPrefix t listed.id with
    | (t, .error e) => (t, .error e)
    | (t, .ok old) => match env.moveDescendants tombstoned oldPrefix newPrefix t descendants with
      | (t, .error e) => (t, .error e)
      | (t, .ok oldPaths) => (t, .ok (old.toList ++ oldPaths))

def RenameEnv.deletePathIndexes (env : RenameEnv) : FileTables Id → List Path → FileTables Id × Except String Unit
  | t, [] => (t, .ok ())
  | t, p :: oldPaths => match env.deleteError p with
    | some e => (t, .error e)
    | none => env.deletePathIndexes (t.deletePathIndex p) oldPaths

def RenameEnv.renameDescendants (oldDir newDir : Path) : FileTables Id × Except String Unit :=
  match env.listError with
  | some e => (t, .error e)
  | none =>
    let descendants := t.listSubtree env.keys oldDir
    if descendants.isEmpty then (t, .ok ())
    else match env.moveDescendants tombstoned (dirPrefix oldDir) (dirPrefix newDir) t descendants with
      | (t, .error e) => (t, .error e)
      | (t, .ok oldPaths) => env.deletePathIndexes t oldPaths

inductive RenameResponse where
  | ok
  | error (message : String) (code : ErrorCode)
  deriving DecidableEq, Repr

/-- The old entry is removed (a failure is only logged), a directory's contents moved. -/
def RenameEnv.finishRename (fileType : FileType) (oldPath newPath : Path) : FileTables Id × RenameResponse :=
  let t := if (env.deleteError oldPath).isSome then t else t.deletePathIndex oldPath
  if fileType = .directory then
    match env.renameDescendants tombstoned t oldPath newPath with
    | (t, .error e) => (t, .error ("Renamed directory but failed to move its contents: " ++ e) .internalError)
    | (t, .ok ()) => (t, .ok)
  else (t, .ok)

def RenameEnv.handleRenameFile (oldPath newPath : Path) : FileTables Id × RenameResponse :=
  let notFound : FileTables Id × RenameResponse := (t, .error ("File not found: " ++ String.ofList oldPath) .notFound)
  let failed (t : FileTables Id) (e : String) : FileTables Id × RenameResponse :=
    (t, .error ("Failed to rename file: " ++ e) .internalError)
  match env.lookupError with
  | some e => failed t e
  | none => match t.getFileByPath oldPath with
    | none => notFound
    | some _ => match env.rereadError with
      | some e => failed t e
      | none => match t.getFileByPath oldPath with
        | none => notFound
        | some m => match env.putError m.id with
          | some e => failed t e
          | none =>
            match t.putRetrying tombstoned { m with path := newPath, writeSeq := m.writeSeq + 1 } maxRenameStaleRetries with
            | (t, .stored) => env.finishRename tombstoned t m.fileType oldPath newPath
            | (t, .deleted) => failed t (String.ofList oldPath ++ " was deleted during the rename")
            | (t, .exhausted) => failed t ("exhausted " ++ toString maxRenameStaleRetries ++
                " retries — write_seq kept losing to concurrent writers")

end Dfs
