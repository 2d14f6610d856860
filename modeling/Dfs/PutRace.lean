import Dfs.PutMetadata

/-!
# A put and the update of a slot at the same time

`chunk_map_update` merges, reads the entry's write sequence, then inserts, and in between the entry is free. A thread
takes these steps; alone it is the call (`chunkMapUpdateSteps_alone`).
-/

namespace Dfs

variable {Id : Type} [DecidableEq Id]

inductive PutThread (Id : Type) where
  | start
  | merged (newLocs : Locations Id)
  | sequenced (newLocs : Locations Id) (writeSeq : Nat)
  | truncating
  | done
  deriving DecidableEq, Repr

variable (metadata : FileMetadata Id)

omit [DecidableEq Id] in
def truncates (entry : Option (Locations Id × Nat)) : Bool :=
  decide (metadata.size = 0) && entry.any fun e => decide (e.2 < metadata.writeSeq)

def chunkMapUpdateStep : Node Id × PutThread Id → Node Id × PutThread Id
  | (s, .start) =>
    if !metadata.chunkLocations.isEmpty then
      (s, .merged ((mergedLocations s.hasChunk metadata (s.chunkMap metadata.id)).filter (·.fileOffset.isSome)))
    else if truncates metadata (s.chunkMap metadata.id) then (s, .truncating)
    else (s, .done)
  | (s, .merged newLocs) => (s, .sequenced newLocs (max metadata.writeSeq ((s.chunkMap metadata.id).elim 0 Prod.snd)))
  | (s, .sequenced newLocs writeSeq) => (s.setChunkMap (Function.update s.chunkMap metadata.id (some (newLocs, writeSeq))), .done)
  | (s, .truncating) => (s.setChunkMap (Function.update s.chunkMap metadata.id (some ([], metadata.writeSeq))), .done)
  | (s, .done) => (s, .done)

def chunkMapUpdateSteps (n : Nat) (c : Node Id × PutThread Id) : Node Id × PutThread Id := (chunkMapUpdateStep metadata)^[n] c

variable (s : Node Id)

def Node.beforeUpdate (metadata : FileMetadata Id) (k : Nat) : Node Id := (chunkMapUpdateSteps metadata k (s, .start)).1

/-- The update comes after so many steps of the call. -/
def Node.racedUpdate (durabilityFloor : Nat) (metadata : FileMetadata Id) (loc : ChunkLocation Id) (k : Nat) : Node Id :=
  let c := chunkMapUpdateSteps metadata k (s, .start)
  (chunkMapUpdateSteps metadata 3 (c.1.syncLocation durabilityFloor metadata.id loc, c.2)).1

def Node.acceptsLocation (durabilityFloor : Nat) (file : FileId) (loc : ChunkLocation Id) : Bool :=
  (chunkMapUpdateLocationForFileSync s.foldResultChunkIds s.chunkGenerations durabilityFloor (s.chunkMap file) loc).2.isApplied

/-! ## The call alone -/

@[simp] lemma chunkMapUpdateSteps_done (n : Nat) (s : Node Id) :
    chunkMapUpdateSteps metadata n (s, .done) = (s, .done) := Function.iterate_fixed rfl n

lemma chunkMapUpdateSteps_add (m n : Nat) (c : Node Id × PutThread Id) :
    chunkMapUpdateSteps metadata (m + n) c = chunkMapUpdateSteps metadata n (chunkMapUpdateSteps metadata m c) := by
  unfold chunkMapUpdateSteps
  rw [Nat.add_comm, Function.iterate_add_apply]

lemma chunkMapUpdateSteps_alone (metadata : FileMetadata Id) :
    chunkMapUpdateSteps metadata 3 (s, .start) = (s.chunkMapUpdate metadata, .done) := by
  unfold Node.chunkMapUpdate Node.chunkMapUpdateBy
  by_cases hlocs : metadata.chunkLocations.isEmpty = true
  · have hstart : chunkMapUpdateStep metadata (s, .start)
        = if truncates metadata (s.chunkMap metadata.id) then (s, .truncating) else (s, .done) := by
      simp [chunkMapUpdateStep, hlocs]
    simp only [hlocs, Bool.not_true, Bool.false_eq_true, if_false]
    show chunkMapUpdateStep metadata (chunkMapUpdateStep metadata (chunkMapUpdateStep metadata (s, .start))) = _
    rw [hstart]
    unfold truncates
    cases hentry : s.chunkMap metadata.id with
    | none => by_cases hsize : metadata.size = 0 <;> simp [hsize, chunkMapUpdateStep]
    | some e =>
      by_cases hsize : metadata.size = 0 <;> by_cases hseq : e.2 < metadata.writeSeq <;>
        simp [hsize, hseq, chunkMapUpdateStep]
  · rw [Bool.not_eq_true] at hlocs
    simp [chunkMapUpdateSteps, chunkMapUpdateStep, hlocs]

end Dfs
