import Dfs.Lib.Transition
import Dfs.Types

/-!
# The cache of byte ranges and a flush

After a range read's reply the client tests if its writes recorded another id for the chunk, then takes the cache's lock. A flush
records the id and removes the ranges; a fresh write in the other order.
-/

namespace Dfs

open Function

variable {Id : Type}

/-- `CachedChunk` without its expiry. The chunk the bytes are of is not in the source. -/
structure RangeEntry (Id : Type) where
  data : Bytes
  source : Id
  deriving DecidableEq

inductive FetchPhase where
  | inFlight | replied
  /-- The reply goes into the cache. Whether the record of the flush stood when it was tested, or was what its retry
  read, is not data of the source. -/
  | passed (recorded : Bool)
  /-- The metadata is refreshed and the range is asked for again. -/
  | retrying
  deriving DecidableEq

structure RangeFetch (Id : Type) where
  idx : Nat
  offsetInChunk : Nat
  lenInChunk : Nat
  cid : Id
  data : Bytes
  phase : FetchPhase
  deriving DecidableEq

def RangeFetch.key (f : RangeFetch Id) : Nat := f.idx * chunkSize + f.offsetInChunk

/-- A patch records the new id, then invalidates; a fresh write invalidates first. -/
inductive FlushPath where
  | patch | fresh
  deriving DecidableEq

structure RangeClient (Id : Type) where
  recent : Nat → Option Id
  cache : Nat → Option (RangeEntry Id)
  fetches : List (RangeFetch Id)
  path : FlushPath
  /-- The chunk that is flushed and its new id. -/
  flushed : Nat
  newId : Id
  recorded : Bool
  invalidated : Bool

inductive RangeStep (Id : Type) where
  /-- A read of `size` bytes at `offset` needs the chunk, which the map has under an id and with a size. -/
  | issue (idx : Nat) (located : Id) (chunkLen offset size : Nat)
  /-- A replica sends the bytes, or none has the chunk. -/
  | reply (i : Nat) (data : Option Bytes)
  | staleTest (i : Nat)
  /-- The retry reads the client's own id, or else the one that the leader has for the chunk. -/
  | retry (i : Nat) (fresh : Id) (ownRead : Bool) (data : Bytes)
  | insert (i : Nat)
  | recordId
  | invalidate
  /-- The cache drops an entry, for its age or to make room. -/
  | evict (key : Nat)
  /-- The record of a write is dropped, as `evict_recent_chunk_writes` does for each chunk of an inode. -/
  | forget (idx : Nat)

variable [DecidableEq Id]

def invalidateByteRangeCacheForChunk (cache : Nat → Option (RangeEntry Id)) (chunkFileOffset chunkLen : Nat) (key : Nat) :
    Option (RangeEntry Id) :=
  if chunkFileOffset ≤ key ∧ key < chunkFileOffset + chunkLen then none else cache key

variable (s : RangeClient Id)

def RangeClient.setFetch (i : Nat) (f : RangeFetch Id) : RangeClient Id := { s with fetches := s.fetches.set i f }

/-- From the start of the read or of the chunk to the end of either. -/
def RangeClient.newFetch (idx : Nat) (located : Id) (chunkLen offset size : Nat) : RangeFetch Id :=
  let chunkStart := idx * chunkSize
  let readStart := max offset chunkStart
  let readEnd := min (offset + size) (chunkStart + chunkLen)
  { idx := idx, offsetInChunk := readStart - chunkStart, lenInChunk := readEnd - readStart
    cid := (s.recent idx).getD located, data := [], phase := .inFlight }

/-- The client's own id, if another than the one that failed and a replica has it. -/
def RangeClient.ownId (f : RangeFetch Id) (ownRead : Bool) : Option Id :=
  if ownRead then (s.recent f.idx).filter (· ≠ f.cid) else none

def RangeClient.step : RangeStep Id → RangeClient Id
  | .issue idx located chunkLen offset size =>
    -- a chunk fits in its slot
    if chunkLen ≤ chunkSize then { s with fetches := s.fetches ++ [s.newFetch idx located chunkLen offset size] } else s
  | .reply i data =>
    match s.fetches[i]? with
    | none => s
    | some f =>
      if f.phase = .inFlight then
        match data with
        | some data => s.setFetch i { f with data := data.take f.lenInChunk, phase := .replied }
        | none => s.setFetch i { f with phase := .retrying }
      else s
  | .staleTest i =>
    match s.fetches[i]? with
    | none => s
    | some f =>
      if f.phase = .replied then
        if (s.recent f.idx).any (· ≠ f.cid) then s.setFetch i { f with phase := .retrying }
        else s.setFetch i { f with phase := .passed (s.recorded && (s.recent f.idx).isSome) }
      else s
  | .retry i fresh ownRead data =>
    match s.fetches[i]? with
    | none => s
    | some f =>
      if f.phase = .retrying then
        let own := s.ownId f ownRead
        s.setFetch i { f with cid := own.getD fresh, data := data.take f.lenInChunk, phase := .passed (s.recorded && own.isSome) }
      else s
  | .insert i =>
    match s.fetches[i]? with
    | none => s
    | some f =>
      match f.phase with
      | .passed _ =>
        { s with cache := update s.cache f.key (some ⟨f.data, f.cid⟩), fetches := s.fetches.eraseIdx i }
      | _ => s
  | .recordId =>
    if s.path = .patch ∨ s.invalidated = true then
      { s with recent := update s.recent s.flushed (some s.newId), recorded := true }
    else s
  | .invalidate =>
    if s.path = .fresh ∨ s.recorded = true then
      { s with cache := invalidateByteRangeCacheForChunk s.cache (s.flushed * chunkSize) chunkSize, invalidated := true }
    else s
  | .evict key => { s with cache := update s.cache key none }
  | .forget idx => { s with recent := update s.recent idx none }

def RangeClient.start (recent : Nat → Option Id) (path : FlushPath) (flushed : Nat) (newId : Id) : RangeClient Id :=
  ⟨recent, fun _ => none, [], path, flushed, newId, false, false⟩

end Dfs
