import Mathlib.Logic.Function.Basic
import Dfs.Lib.Transition

/-!
# The presence index of the chunk storage

The first `list_chunks` indexes the disk by a walk; then each operation changes the disk and, in another step, the
index. Any number run at once, and each file operation or sync may fail.
-/

namespace Dfs

variable {Id : Type}

inductive StorageOp where
  | write | delete | quarantine
  deriving DecidableEq

inductive StoragePhase where
  | write
  /-- `write_chunk` after its rename: it syncs, if syncs are coalesced, and then updates the index. -/
  | renamed
  | delete
  /-- `delete_chunk` that found the file. -/
  | found
  | quarantine
  /-- The file is gone, and the index is to forget the chunk. -/
  | forgetting
  deriving DecidableEq

structure StorageTask (Id : Type) where
  id : Id
  phase : StoragePhase
  deriving DecidableEq

def StorageOp.start : StorageOp → StoragePhase
  | .write => .write
  | .delete => .delete
  | .quarantine => .quarantine

/-- The chunk files, the index, what the walk under way has collected, and the operations in progress. -/
structure ChunkStorage (Id : Type) where
  coalescer : Bool
  disk : Id → Bool
  listChunksCache : Option (Id → Bool)
  walk : Option (Id → Bool)
  tasks : List (StorageTask Id)

inductive StorageStep (Id : Type) where
  | start (id : Id) (op : StorageOp)
  | advance (i : Nat)
  | fail (i : Nat)
  | beginWalk
  /-- The walk comes to the place of a chunk. -/
  | observe (id : Id)
  | install
  | walkFails

def ChunkStorage.setPhase (s : ChunkStorage Id) (i : Nat) (t : StorageTask Id) (phase : StoragePhase) : ChunkStorage Id :=
  { s with tasks := s.tasks.set i { t with phase := phase } }

def ChunkStorage.finish (s : ChunkStorage Id) (i : Nat) : ChunkStorage Id := { s with tasks := s.tasks.eraseIdx i }

variable [DecidableEq Id] (s : ChunkStorage Id)

def ChunkStorage.setFile (id : Id) (there : Bool) : ChunkStorage Id := { s with disk := Function.update s.disk id there }

def ChunkStorage.setIndex (id : Id) (there : Bool) : ChunkStorage Id :=
  { s with listChunksCache := s.listChunksCache.map fun index => Function.update index id there }

def ChunkStorage.advance (i : Nat) (t : StorageTask Id) : ChunkStorage Id :=
  match t.phase with
  | .write => (s.setFile t.id true).setPhase i t .renamed
  | .renamed => (s.setIndex t.id true).finish i
  | .delete => if s.disk t.id then s.setPhase i t .found else s.setPhase i t .forgetting
  -- without a file the removal and the rename return an error
  | .found | .quarantine => if s.disk t.id then (s.setFile t.id false).setPhase i t .forgetting else s.finish i
  | .forgetting => (s.setIndex t.id false).finish i

/-- After its rename a write can fail only in a coalesced sync. -/
def ChunkStorage.fail (i : Nat) (t : StorageTask Id) : ChunkStorage Id :=
  match t.phase with
  | .write | .found | .quarantine => s.finish i
  | .renamed => if s.coalescer then s.finish i else s
  | .delete | .forgetting => s

def ChunkStorage.step : StorageStep Id → ChunkStorage Id
  | .start id op => { s with tasks := s.tasks ++ [⟨id, op.start⟩] }
  | .advance i =>
    match s.tasks[i]? with
    | some t => s.advance i t
    | none => s
  | .fail i =>
    match s.tasks[i]? with
    | some t => s.fail i t
    | none => s
  -- `list_chunks_population_lock` lets one walk at a time, and only while there is no index
  | .beginWalk => if s.listChunksCache.isNone && s.walk.isNone then { s with walk := some s.disk } else s
  | .observe id => { s with walk := s.walk.map fun collected => Function.update collected id (s.disk id) }
  | .install =>
    match s.walk with
    | some collected => { s with listChunksCache := some collected, walk := none }
    | none => s
  | .walkFails => { s with walk := none }

/-- What the index has, or what a walk finds, while nothing else runs. -/
def ChunkStorage.present (id : Id) : Bool := (s.listChunksCache.getD s.disk) id

def ChunkStorage.opened (coalescer : Bool) (disk : Id → Bool) : ChunkStorage Id := ⟨coalescer, disk, none, none, []⟩

end Dfs
