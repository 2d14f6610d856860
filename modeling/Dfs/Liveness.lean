import Dfs.ChunkMap
import Dfs.Fold
import Dfs.PatchHandlers

/-!
# Which chunks are live

`handle_confirm_chunks_live` answers from `CHUNK_TABLE` (cached), `chunk_to_file`, and the patch rows of the node and
its online peers; below, how events change the index.
-/

namespace Dfs

open KeyedList Function

variable {Id : Type}

/-! ## The chunks that patches need -/

abbrev PatchRows (Id : Type) := List (Id × PatchState Id)

def allPendingPatchChunkIds (rows : PatchRows Id) : List Id :=
  rows.flatMap (fun r => match r.2 with
    | .pending base delta _ _ _ => [base, delta]
    | .folded _ => [])

def allPatchTokenIds (rows : PatchRows Id) : List Id := rows.map (·.1)

def ReadsPatchRows (s : Node Id) (rows : PatchRows Id) : Prop := ∀ token st, (token, st) ∈ rows ↔ s.patchState token = some st

def Node.PendingInput (s : Node Id) (id : Id) : Prop :=
  ∃ token base delta size at_ seq, s.patchState token = some (.pending base delta size at_ seq) ∧ (id = base ∨ id = delta)

def Node.PatchNeeds (s : Node Id) (id : Id) : Prop := s.PendingInput id ∨ (s.patchState id).isSome = true

def Node.MapHas (s : Node Id) (id : Id) : Prop := ∃ file, ∃ l ∈ s.locsOf file, l.chunkId = id

variable {s : Node Id} {rows : PatchRows Id} {id : Id}

lemma mem_allPendingPatchChunkIds (h : ReadsPatchRows s rows) : id ∈ allPendingPatchChunkIds rows ↔ s.PendingInput id := by
  unfold allPendingPatchChunkIds Node.PendingInput
  rw [List.mem_flatMap]
  constructor
  · rintro ⟨⟨token, st⟩, hr, hid⟩
    cases st with
    | pending base delta size at_ seq => exact ⟨token, base, delta, size, at_, seq, (h _ _).mp hr, by simpa using hid⟩
    | folded real => simp at hid
  · rintro ⟨token, base, delta, size, at_, seq, hrow, hid⟩
    exact ⟨_, (h _ _).mpr hrow, by simpa using hid⟩

lemma mem_allPatchTokenIds (h : ReadsPatchRows s rows) : id ∈ allPatchTokenIds rows ↔ (s.patchState id).isSome = true := by
  unfold allPatchTokenIds
  rw [List.mem_map, Option.isSome_iff_exists]
  constructor
  · rintro ⟨⟨token, st⟩, hr, rfl⟩
    exact ⟨st, (h _ _).mp hr⟩
  · rintro ⟨st, hst⟩
    exact ⟨(id, st), (h _ _).mpr hst, rfl⟩

/-! ## The question -/

/-- What its reads return, and whether its answer arrives. -/
structure PeerView (Id : Type) where
  id : NodeId
  online : Bool
  pendingRead : Except Unit (PatchRows Id)
  tokensRead : Except Unit (PatchRows Id)
  delivered : Bool

/-- The peer's pending ids and tokens, or an error. -/
def PeerView.handleGetPendingPatchChunkIds (p : PeerView Id) : Option (List Id) :=
  match p.pendingRead, p.tokensRead with
  | .ok pending, .ok tokens => some (allPendingPatchChunkIds pending ++ allPatchTokenIds tokens)
  | _, _ => none

def PeerView.answer (p : PeerView Id) : Option (List Id) :=
  if p.delivered then p.handleGetPendingPatchChunkIds else none

def PeerView.asked (p : PeerView Id) (localId : NodeId) : Bool := decide (p.id ≠ localId) && p.online

/-- The cached live set, its own table (twice), and the peers' answers. -/
structure LivenessEnv (Id : Type) where
  localId : NodeId
  cachedLive : Except Unit (List Id)
  pendingRead : Except Unit (PatchRows Id)
  tokensRead : Except Unit (PatchRows Id)
  peers : List (PeerView Id)

inductive LivenessResponse (Id : Type) where
  | chunkLiveness (live : List Id)
  | error (message : String) (code : ErrorCode)
  deriving DecidableEq, Repr

/-- A peer without an answer ends the loop. -/
def gatherPending (localId : NodeId) : List (PeerView Id) → List Id → Option (List Id)
  | [], liveSet => some liveSet
  | p :: rest, liveSet =>
    if p.asked localId then
      match p.answer with
      | some ids => gatherPending localId rest (liveSet ++ ids)
      | none => none
    else gatherPending localId rest liveSet

def LivenessEnv.localPatchIds (env : LivenessEnv Id) : List Id :=
  ((env.pendingRead.toOption.map allPendingPatchChunkIds).getD []) ++ ((env.tokensRead.toOption.map allPatchTokenIds).getD [])

def handleConfirmChunksLive [DecidableEq Id] (chunkToFile : Id → Option FileId) (env : LivenessEnv Id) (chunkIds : List Id) :
    LivenessResponse Id :=
  match env.cachedLive with
  | .error _ => .error "Failed to read local metadata" .internalError
  | .ok cachedLive =>
    match gatherPending env.localId env.peers (chunkIds.filter (fun id => (chunkToFile id).isSome) ++ env.localPatchIds) with
    | none => .chunkLiveness chunkIds
    | some liveSet => .chunkLiveness (chunkIds.filter (fun id => cachedLive.contains id || liveSet.contains id))

/-! ## Events that change the chunk map, and the reverse index -/

/-- A patch, a fold, a location stored and put into the chunk map, a file that goes. -/
inductive NodeEvent (Id : Type) where
  | patch (env : HandlerEnv Id) (req : PatchRequest Id)
  | fold (env : FoldEnv Id) (slot : Slot)
  | locate (durabilityFloor : Nat) (readable : Slot → Bool) (file : FileId) (loc : ChunkLocation Id)
  | remove (file : FileId)

variable [DecidableEq Id]

def Node.chunkMapRemove (s : Node Id) (file : FileId) : Node Id := s.setChunkMap (update s.chunkMap file none)

def NodeEvent.run (H : ChunkHash Id) (s : Node Id) : NodeEvent Id → Node Id
  | .patch env req => (s.handlePatch H env req).1
  | .fold env slot => (s.foldSlotNow H env slot).1
  | .locate floor readable file loc => ((s.putChunkLocation loc).chunkMapUpdateLocationForFile floor readable file loc).1
  | .remove file => s.chunkMapRemove file

structure IndexedNode (Id : Type) where
  node : Node Id
  chunkToFile : Id → Option FileId

/-- The occupant that goes is taken out, the location that comes is put in. -/
def indexAfterSync (isFold : Id → Bool) (gens : Id → Option Nat) (floor : Nat) (index : Id → Option FileId) (file : FileId)
    (locs : Locations Id) (loc : ChunkLocation Id) : Id → Option FileId :=
  match loc.fileOffset with
  | some _ => match lookup cidxOf locs (cidxOf loc) with
    | some old =>
      if shouldUpdate isFold gens floor old loc then update (update index old.chunkId none) loc.chunkId (some file)
      else index
    | none => update index loc.chunkId (some file)
  | none => if locs.any (sameChunk loc) then update index loc.chunkId (some file) else index

def indexAfterRemove (index : Id → Option FileId) (locs : Locations Id) : Id → Option FileId :=
  locs.foldl (fun index l => update index l.chunkId none) index

/-- `update_chunk_map_after_patch`, which patches and folds use, leaves the index. -/
def IndexedNode.step (H : ChunkHash Id) (n : IndexedNode Id) (e : NodeEvent Id) : IndexedNode Id where
  node := e.run H n.node
  chunkToFile := match e with
    | .patch .. | .fold .. => n.chunkToFile
    | .locate floor readable file loc =>
      if n.node.fileRecentlyDeleted file then n.chunkToFile
      else
        let s := match loc.fileOffset with
          | some o => n.node.backfillOccupant readable (file, o / chunkSize) loc.chunkId
          | none => n.node
        indexAfterSync s.foldResultChunkIds s.chunkGenerations floor n.chunkToFile file (n.node.locsOf file) loc
    | .remove file => indexAfterRemove n.chunkToFile (n.node.locsOf file)

end Dfs
