import Dfs.PutMetadata
import Dfs.Lib.Transition

/-!
# Splicing a location into the cached list

`splice_chunk_location` puts a flushed chunk's location into the cached list, sorted by file offset.
-/

namespace Dfs

variable {Id : Type}

def spliceKey (l : ChunkLocation Id) : Nat := l.fileOffset.getD u64Max

/-- With the chunk that the chunk cache drops. -/
def spliceChunkLocation [DecidableEq Id] (chunkLocations : Locations Id) (loc : ChunkLocation Id) :
    Locations Id × Option Id :=
  match loc.fileOffset with
  | none => (chunkLocations, none)
  | some offset =>
    match binarySearch spliceKey chunkLocations offset with
    | .ok pos =>
      (chunkLocations.set pos loc, (chunkLocations[pos]?.map (·.chunkId)).filter (fun oldCid => decide (oldCid ≠ loc.chunkId)))
    | .error insertPos => (chunkLocations.insertIdx insertPos loc, none)

def SortedByOffset (locs : Locations Id) : Prop := locs.Pairwise fun a b => spliceKey a ≤ spliceKey b

variable [DecidableEq Id] {locs : Locations Id} {loc : ChunkLocation Id}

lemma splice_split (h : SortedByOffset locs) {offset : Nat} (hoffset : loc.fileOffset = some offset) :
    ∃ pre replaced post, locs = pre ++ replaced ++ post ∧ (spliceChunkLocation locs loc).1 = pre ++ loc :: post ∧
      (∀ x ∈ pre, spliceKey x ≤ offset) ∧ (∀ x ∈ post, offset < spliceKey x) ∧
      (replaced = [] ∧ (∀ x ∈ pre, spliceKey x < offset) ∨ ∃ old, replaced = [old] ∧ spliceKey old = offset) := by
  unfold spliceChunkLocation
  rw [hoffset]
  rcases binarySearch_split h offset with ⟨pre, old, post, hlocs, hold, hpre, hpost, hfound⟩ |
    ⟨pre, post, hlocs, hpre, hpost, hfound⟩
  · refine ⟨pre, [old], post, by simp [hlocs], ?_, hpre, hpost, .inr ⟨old, rfl, hold⟩⟩
    simp only [hfound]
    simp [hlocs]
  refine ⟨pre, [], post, by simp [hlocs], ?_, fun x hx => (hpre x hx).le, hpost, .inl ⟨rfl, hpre⟩⟩
  simp only [hfound]
  rw [hlocs]
  exact KeyedList.insertIdx_length_append pre post loc

end Dfs
