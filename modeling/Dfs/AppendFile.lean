import Dfs.ChunkMap
import Dfs.FileTables

/-!
# Appending to a file

`handle_append_file`, a function for each stage between two awaits; `handleAppendFile` is a request that runs alone.
-/

namespace Dfs

variable {Id : Type}

/-- The node, its tables of files, and what a chunk reads as on any node. -/
structure Server (Id : Type) where
  node : Node Id
  tables : FileTables Id
  content : Id → Option Bytes

inductive ScanFault where
  | failed (error : String)
  | panicked (error : String)
  deriving DecidableEq, Repr

/-- Which reads and writes fail, the rows of `CHUNK_TABLE` as scanned, and where a chunk is placed and stored. -/
structure AppendEnv (Id : Type) where
  replicationFactor : Nat
  metadataError : Option String
  scan : Except ScanFault (Locations Id)
  tailReadable : Bool
  tailError : String
  targetNodes : Id → List NodeId
  stores : Id → NodeId → Bool
  rowWritable : Id → Bool
  seqReadable : Slot → Bool
  putError : Option String

inductive AppendResponse (Id : Type) where
  | appendFileResult (metadata : FileMetadata Id) (remainingInChunk : Nat)
  | error (message : String) (code : ErrorCode)
  deriving DecidableEq, Repr

/-- The chunks that are left, the offset of the next one, and what was registered. -/
structure AppendJob (Id : Type) where
  metadata : FileMetadata Id
  expectedOffset : Nat
  writeLength : Nat
  actualPartialBytes : Nat
  chunks : List (Id × Bytes)
  currentOffset : Nat
  newLocations : List (ChunkLocation Id × Bytes)

/-! ## The chunker -/

def dataChunks (size : Nat) (data : Bytes) : List Bytes :=
  (List.range ((data.length + size - 1) / size)).map (fun k => (data.drop (k * size)).take size)

def chunkDataAt (H : ChunkHash Id) (file : FileId) : Nat → List Bytes → List (Id × Bytes)
  | _, [] => []
  | offset, b :: rest => (H.computeChunkHashAt b offset file, b) :: chunkDataAt H file (offset + b.length) rest

def chunkData (H : ChunkHash Id) (data : Bytes) (file : FileId) : List (Id × Bytes) :=
  chunkDataAt H file 0 (dataChunks chunkSize data)

/-! ## The stages -/

variable (srv : Server Id) (env : AppendEnv Id) (file : FileId)

def Server.appendCheck (expectedOffset : Nat) : Except (AppendResponse Id) (FileMetadata Id) :=
  match env.metadataError with
  | some e => .error (.error ("Failed to read metadata: " ++ e) .internalError)
  | none => match srv.tables.fileTable file with
    | none => .error (.error ("File not found: " ++ toString file) .notFound)
    | some metadata =>
      if metadata.size ≠ expectedOffset then
        .error (.error ("Offset mismatch: expected " ++ toString expectedOffset ++ " but file is " ++
          toString metadata.size ++ " bytes")
          .offsetMismatch)
      else .ok metadata

def offsetLt : Option Nat → Option Nat → Bool
  | _, none => false
  | none, some _ => true
  | some a, some b => decide (a < b)

/-- The location of a file with the highest offset, the first of them. -/
def bestLocation (rows : Locations Id) : Option (ChunkLocation Id) :=
  rows.foldl (fun best loc =>
    if decide (loc.fileId = some file) && best.all (fun b => offsetLt b.fileOffset loc.fileOffset) then some loc else best) none

def Server.lastLocation : Except (AppendResponse Id) (ChunkLocation Id) :=
  match (srv.node.locsOf file).getLast? with
  | some loc => .ok loc
  | none => match env.scan with
    | .ok rows => match bestLocation file rows with
      | some loc => .ok loc
      | none => .error (.error "File metadata has no chunk locations" .internalError)
    | .error (.failed e) => .error (.error ("Failed to scan chunk locations: " ++ e) .internalError)
    | .error (.panicked e) => .error (.error ("Chunk location scan panicked: " ++ e) .internalError)

def Server.readTail (id : Id) : Except (AppendResponse Id) Bytes :=
  match env.tailReadable, srv.content id with
  | true, some b => .ok b
  | _, _ => .error (.error ("Failed to read partial tail chunk: " ++ env.tailError) .ioError)

/-- Step 3: the bytes before the new data, none at a chunk boundary. -/
def Server.tailData (size : Nat) : Except (AppendResponse Id) Bytes :=
  if size % chunkSize > 0 then (srv.lastLocation env file).bind (fun loc => srv.readTail env loc.chunkId) else .ok []

/-- Steps 3 to 5. Without any data the answer is the record as it is. -/
def Server.appendPrepare (H : ChunkHash Id) (srv : Server Id) (env : AppendEnv Id) (metadata : FileMetadata Id) (newData : Bytes)
    (expectedOffset : Nat) : Except (AppendResponse Id) (AppendJob Id) :=
  match srv.tailData env metadata.id metadata.size with
  | .error r => .error r
  | .ok tail =>
    let writeData := tail ++ newData
    let chunks := chunkData H writeData metadata.id
    if chunks.isEmpty then .error (.appendFileResult metadata (chunkSize - metadata.size % chunkSize))
    else .ok ⟨metadata, expectedOffset, writeData.length, tail.length, chunks, metadata.size - tail.length, []⟩

def AppendEnv.immediateReplicas : Nat := if 3 ≤ env.replicationFactor then 2 else env.replicationFactor

def AppendEnv.successfulNodes (id : Id) : List NodeId :=
  ((env.targetNodes id).take env.immediateReplicas).filter (env.stores id)

def AppendEnv.locationOf (chunk : Id × Bytes) (offset : Nat) : ChunkLocation Id :=
  ⟨chunk.1, env.successfulNodes chunk.1, chunk.2.length, some offset, none, none, some file⟩

/-- Steps 8 to 10: the record is stored with the new size. -/
def Server.appendFinish (job : AppendJob Id) : Server Id × AppendResponse Id :=
  let size := job.expectedOffset + (job.writeLength - job.actualPartialBytes)
  let metadata := { job.metadata with size := size }
  match env.putError with
  | some e => (srv, .error ("Failed to persist metadata: " ++ e) .internalError)
  | none =>
    ({ srv with tables := (srv.tables.putFile srv.node.tombstoned metadata).1 },
      .appendFileResult metadata (if size % chunkSize = 0 then 0 else chunkSize - size % chunkSize))

variable [DecidableEq Id] (H : ChunkHash Id)

/-- Step 6: one chunk is written to the quorum, registered and put into the chunk map. -/
def Server.appendChunk (srv : Server Id) (env : AppendEnv Id) (job : AppendJob Id) (chunk : Id × Bytes)
    (rest : List (Id × Bytes)) : Server Id × Except (AppendResponse Id) (AppendJob Id) :=
  let successful := env.successfulNodes chunk.1
  let srv := if successful.isEmpty then srv else { srv with content := Function.update srv.content chunk.1 (some chunk.2) }
  if (env.targetNodes chunk.1).isEmpty then (srv, .error (.error "No nodes available for chunk replication" .ioError))
  else if successful.length < env.immediateReplicas then
    (srv, .error (.error ("Failed to achieve quorum for chunk " ++ H.toHex chunk.1 ++ " (" ++ toString successful.length ++ "/" ++
      toString env.immediateReplicas ++ ")") .ioError))
  else
    let loc := env.locationOf job.metadata.id chunk job.currentOffset
    let node := if env.rowWritable chunk.1 then srv.node.putChunkLocation loc else srv.node
    let node := (node.chunkMapUpdateLocationForFile (writeQuorum env.replicationFactor) env.seqReadable job.metadata.id loc).1
    ({ srv with node := node },
      .ok { job with chunks := rest, currentOffset := job.currentOffset + chunk.2.length,
                     newLocations := job.newLocations ++ [(loc, chunk.2)] })

def Server.appendChunks (H : ChunkHash Id) (env : AppendEnv Id) :
    List (Id × Bytes) → Server Id → AppendJob Id → Server Id × Except (AppendResponse Id) (AppendJob Id)
  | [], srv, job => (srv, .ok job)
  | chunk :: rest, srv, job => match srv.appendChunk H env job chunk rest with
    | (srv, .ok job) => Server.appendChunks H env rest srv job
    | (srv, .error r) => (srv, .error r)

/-- With the locations that were registered. -/
def Server.handleAppendFile (srv : Server Id) (env : AppendEnv Id) (file : FileId) (newData : Bytes) (expectedOffset : Nat) :
    Server Id × AppendResponse Id × List (ChunkLocation Id × Bytes) :=
  match srv.appendCheck env file expectedOffset with
  | .error r => (srv, r, [])
  | .ok metadata => match srv.appendPrepare H env metadata newData expectedOffset with
    | .error r => (srv, r, [])
    | .ok job => match Server.appendChunks H env job.chunks srv job with
      | (srv, .error r) => (srv, r, [])
      | (srv, .ok job) =>
        let (srv, r) := srv.appendFinish env job
        (srv, r, job.newLocations)

/-! ## Requests that interleave -/

inductive AppendPhase (Id : Type) where
  | received (newData : Bytes) (expectedOffset : Nat)
  | checked (metadata : FileMetadata Id) (newData : Bytes) (expectedOffset : Nat)
  | writing (job : AppendJob Id)
  | answered (response : AppendResponse Id)

structure AppendState (Id : Type) where
  server : Server Id
  request : Nat → AppendPhase Id

def Server.advance (srv : Server Id) (file : FileId) (env : AppendEnv Id) : AppendPhase Id → Server Id × AppendPhase Id
  | .received newData expectedOffset => match srv.appendCheck env file expectedOffset with
    | .ok metadata => (srv, .checked metadata newData expectedOffset)
    | .error r => (srv, .answered r)
  | .checked metadata newData expectedOffset => match srv.appendPrepare H env metadata newData expectedOffset with
    | .ok job => (srv, .writing job)
    | .error r => (srv, .answered r)
  | .writing job => match job.chunks with
    | chunk :: rest => match srv.appendChunk H env job chunk rest with
      | (srv, .ok job) => (srv, .writing job)
      | (srv, .error r) => (srv, .answered r)
    | [] => let (srv, r) := srv.appendFinish env job; (srv, .answered r)
  | .answered r => (srv, .answered r)

def AppendState.step (file : FileId) (s : AppendState Id) (a : Nat × AppendEnv Id) : AppendState Id :=
  let r := s.server.advance H file a.2 (s.request a.1)
  ⟨r.1, Function.update s.request a.1 r.2⟩

/-! ## Reading a file through the chunk map -/

/-- Zero where the chunk does not reach. -/
def byteOf (content : Id → Option Bytes) (loc : ChunkLocation Id) (i : Nat) : UInt8 :=
  let o := loc.fileOffset.getD 0
  if o ≤ i then ((content loc.chunkId).getD []).getD (i - o) 0 else 0

/-- The byte of the chunk in the slot, zero without one. -/
def Server.byteAt (srv : Server Id) (file : FileId) (i : Nat) : UInt8 :=
  match srv.node.occupant (file, i / chunkSize) with
  | some loc => byteOf srv.content loc i
  | none => 0

def Server.readFile (srv : Server Id) (file : FileId) (size : Nat) : Bytes := (List.range size).map (srv.byteAt file)

end Dfs
