import Dfs.Lemmas.Accumulator

/-!
# Patches arriving at a replica

Patches of one slot arrive at a replica with a base and no accumulator, each on the last token, while the caches change.
-/

namespace Dfs

open Overlay Stamped Node

variable {Id : Type} [DecidableEq Id]

/-- With what the call and the caches before it meet. The fields fit their widths. -/
structure Arrival (Id : Type) where
  seq : Nat
  patches : Extents
  chunkFileOffset : Nat
  env : PatchEnv Id
  caches : CacheChange Id
  seq_lt : seq < 2 ^ 64
  patches_lt : ∀ p ∈ patches, p.1 < 2 ^ 64 ∧ p.2.length < 2 ^ 32

def Arrival.patch (a : Arrival Id) : Nat × Extents := (a.seq, a.patches)

def Arrival.call (a : Arrival Id) (slot : Slot) (token : Id) : PatchCall Id :=
  ⟨token, slot.1, some slot.2, a.chunkFileOffset, a.patches, some a.seq, none, false⟩

def Arrival.records (a : Arrival Id) : List DeltaRecord := patchRecords a.seq a.patches

variable (H : ChunkHash Id) (slot : Slot) (st : Node Id × Id)

/-- The node and the token for the next patch. A call that fails leaves the token. -/
def arrive (a : Arrival Id) : Node Id × Id :=
  match (st.1.recache a.caches).applyPatch H a.env (a.call slot st.2) with
  | (s, .ok r) => (s, r.newChunkId)
  | (s, .error _) => (s, st.2)

def arriveAll (as : List (Arrival Id)) : Node Id × Id := as.foldl (arrive H slot) st

/-- The file of the accumulator a token stands for, if any. -/
def accumulatorFile : Option (Option Bytes) :=
  match st.1.patchState st.2 with
  | some (.pending _ delta _ _ _) => some (st.1.files delta)
  | _ => none

def accumulatorRecords : List DeltaRecord :=
  match accumulatorFile st with
  | some (some bytes) =>
    match readRecords currentShape (bytes.drop 8).length 0 (bytes.drop 8) with
    | .ok records => records
    | .error _ => []
  | _ => []

variable (base : Bytes)

/-- The accumulator replayed over the base. -/
def replay : Option Bytes :=
  match accumulatorFile st with
  | none => some base
  | some none => none
  | some (some bytes) =>
    match parseDeltaRecords bytes with
    | .ok records => some (applyRanges base records)
    | .error _ => none

def inSeqOrder (as : List (Arrival Id)) : Bytes := overlay base ((sortBy Arrival.seq as).flatMap Arrival.patches)

/-- Where a patch before with a larger write sequence covers a byte of this one, so does a record of the accumulator,
or the byte is what is there. -/
def NotOvertaken (arrived kept : List DeltaRecord) (a : Arrival Id) : Prop :=
  ∀ i v, lastAt a.patches i = some v → CoveredAbove arrived a.seq i →
    CoveredAbove kept a.seq i ∨ v = (overlay base (ranges kept)).getD i default

structure StartsAt (H : ChunkHash Id) (s : Node Id) (slot : Slot) (base : Id) (b : Bytes) : Prop where
  addressed : Addressed H s
  onDisk : s.files base = some b
  registered : s.chunkTable base ≠ none
  unpatched : s.patchState base = none
  live : s.fileRecentlyDeleted slot.1 = false

lemma startsAt_holding (b : Bytes) (node : NodeId) (seq : Option Nat) :
    StartsAt H (holding H slot b node seq) slot (H.computeChunkHashAt b (slot.2 * chunkSize) slot.1) b where
  addressed := addressed_holding H slot b node seq
  onDisk := if_pos rfl
  registered := by simp [holding, holdingLocation]
  unpatched := rfl
  live := rfl

lemma refreshSlotFromLeader_holding (b : Bytes) (node : NodeId) (seq : Option Nat) :
    (holding H slot b node seq).refreshSlotFromLeader .self slot (H.computeChunkHashAt b (slot.2 * chunkSize) slot.1) = none := by
  simp [refreshSlotFromLeader, occupant_holding, holdingLocation]

/-- After each arrival the replay is the base with the patches so far in order of their write sequences. -/
def ReplaysInSeqOrder (s : Node Id) (base : Id) (b : Bytes) (as : List (Arrival Id)) : Prop :=
  ∀ k ≤ as.length, replay (arriveAll H slot (s, base) (as.take k)) b = some (inSeqOrder b (as.take k))

def NeverOvertaken (s : Node Id) (base : Id) (b : Bytes) (as : List (Arrival Id)) : Prop :=
  ∀ k a, as[k]? = some a → NotOvertaken b ((as.take k).flatMap Arrival.records)
    (accumulatorRecords (arriveAll H slot (s, base) (as.take k))) a

end Dfs
