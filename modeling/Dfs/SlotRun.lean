import Dfs.Fold
import Dfs.PatchHandlers
import Dfs.Resolve
import Dfs.Lemmas.Accumulator

/-!
# Patches and folds of one slot on a node alone

One slot of a node without peers and I/O errors: `MultiPatch` requests, folds, caches; and what was acknowledged.
-/

namespace Dfs

variable {Id : Type}

def Leader.Alone : Leader Id → Prop
  | .self => True
  | .other answer => answer = none

structure PatchEnv.Alone (env : PatchEnv Id) : Prop where
  noFault : env.NoFault
  leader : env.leader.Alone
  peers : ∀ n id, env.peerChunk n id = none

structure HandlerEnv.Alone (env : HandlerEnv Id) : Prop where
  first : env.first.Alone
  second : env.second.Alone
  retryLeader : env.retryLeader.Alone
  gapLeader : env.gapLeader.Alone
  peerState : ∀ n id, env.peerState n id = none
  noFault : ∀ f, env.fails f = false

lemma PatchEnv.alone_quiet (node : NodeId) : (PatchEnv.quiet node : PatchEnv Id).Alone := ⟨fun _ => rfl, trivial, fun _ _ => rfl⟩

lemma HandlerEnv.alone_quiet (node : NodeId) : (HandlerEnv.quiet node : HandlerEnv Id).Alone :=
  ⟨PatchEnv.alone_quiet node, PatchEnv.alone_quiet node, trivial, trivial, fun _ _ => rfl, fun _ => rfl⟩

def FoldEnv.NoFault (env : FoldEnv Id) : Prop := env.toPatchEnv.NoFault ∧ ∀ f, env.foldFails f = false

def PatchResponse.acked : PatchResponse Id → Bool
  | .patchResult .. => true
  | _ => false

/-- On the slot, with a write sequence. Its fields fit their widths. -/
structure MultiPatch.On (req : MultiPatch Id) (slot : Slot) (seq : Nat) : Prop where
  file : req.fileId = slot.1
  idx : req.chunkIdx = some slot.2
  seq_eq : req.clientWriteSeq = some seq
  seq_lt : seq < 2 ^ 64
  patches_lt : ∀ p ∈ req.patches, p.1 < 2 ^ 64 ∧ p.2.length < 2 ^ 32

inductive SlotStep (Id : Type) where
  | patch (env : HandlerEnv Id) (req : MultiPatch Id)
  | fold (env : FoldEnv Id)
  | recache (c : CacheChange Id)

def SlotStep.seq : SlotStep Id → Option Nat
  | .patch _ req => req.clientWriteSeq
  | _ => none

def SlotStep.On (slot : Slot) : SlotStep Id → Prop
  | .patch env req => env.Alone ∧ ∃ seq, req.On slot seq
  | .fold env => env.NoFault
  | .recache _ => True

variable [DecidableEq Id]

/-- With the acknowledged ranges in order. -/
def SlotStep.run (H : ChunkHash Id) (slot : Slot) (st : Node Id × Extents) : SlotStep Id → Node Id × Extents
  | .patch env req =>
    let (s, response) := st.1.handleMultiPatch H env req
    (s, if response.acked then st.2 ++ req.patches else st.2)
  | .fold env => ((st.1.foldSlotNow H env slot).1, st.2)
  | .recache c => (st.1.recache c, st.2)

def runSteps (H : ChunkHash Id) (slot : Slot) (st : Node Id × Extents) (steps : List (SlotStep Id)) :
    Node Id × Extents :=
  steps.foldl (SlotStep.run H slot) st

/-- Entries under the identities of their bytes, rows at tokens, redirects to chunks, an existing file. -/
structure Grounded (H : ChunkHash Id) (s : Node Id) (slot : Slot) : Prop where
  addressed : Addressed H s
  rows : ∀ id st, s.patchState id = some st → ∃ delta, id = H.patchTokenIdentity delta
  folded : ∀ id real, s.patchState id = some (.folded real) → ∃ b o f, real = H.computeChunkHashAt b o f
  live : s.fileRecentlyDeleted slot.1 = false
  present : s.fileExists slot.1 = true

/-- The occupant is a chunk on disk with these bytes, with no accumulator. -/
structure OnBase (H : ChunkHash Id) (s : Node Id) (slot : Slot) (b : Bytes) : Prop where
  grounded : Grounded H s slot
  occupant : ∃ loc, s.occupant slot = some loc ∧ s.files loc.chunkId = some b
  clean : s.dirtyPatchSlots slot = none

lemma onBase_holding (H : ChunkHash Id) (slot : Slot) (b : Bytes) (node : NodeId) (seq : Option Nat) :
    OnBase H (Node.holding H slot b node seq) slot b where
  grounded := ⟨addressed_holding H slot b node seq, nofun, nofun, rfl, by simp [Node.holding]⟩
  occupant := ⟨_, occupant_holding H slot b node seq, if_pos rfl⟩
  clean := rfl

def rangePatch (chunkId : FreeId) (offset : Nat) (data : Bytes) (seq : Nat) : MultiPatch FreeId :=
  ⟨chunkId, 7, some 0, 0, [(offset, data)], some seq, none⟩

lemma rangePatch_on (chunkId : FreeId) {offset seq : Nat} {data : Bytes} (hoff : offset < 2 ^ 64) (hdata : data.length < 2 ^ 32)
    (hseq : seq < 2 ^ 64) : (rangePatch chunkId offset data seq).On (7, 0) seq :=
  ⟨rfl, rfl, rfl, hseq, fun p hp => by
    obtain rfl := List.mem_singleton.1 hp
    exact ⟨hoff, hdata⟩⟩

end Dfs
