import Dfs.ChunkMap
import Dfs.Lib.Challenge

/-! # Do the orders of arrival converge? -/

namespace Dfs

open KeyedList Challenge

variable {Id : Type} [DecidableEq Id]

def Node.syncAll (s : Node Id) (durabilityFloor : Nat) (file : FileId) (records : Locations Id) : Node Id :=
  records.foldl (fun s loc => s.syncLocation durabilityFloor file loc) s

/-- Generation, write sequence, time and chunk. -/
def Node.causalKey (s : Node Id) (loc : ChunkLocation Id) : Option Nat × Option Nat × Option Nat × Id :=
  (s.chunkGenerations loc.chunkId, loc.clientWriteSeq, loc.writtenAt, loc.chunkId)

def Node.replaces (s : Node Id) (durabilityFloor : Nat) (incoming existing : ChunkLocation Id) : Bool :=
  decide (existing.chunkId = incoming.chunkId) || s.supersedes durabilityFloor incoming existing

variable {s : Node Id} {floor : Nat}

lemma occupant_syncAll {slot : Slot} {records : Locations Id}
    (hslot : ∀ r ∈ records, slotOf r = some slot.2) : (s.syncAll floor slot.1 records).occupant slot
      = records.foldl (merged (take (s.replaces floor))) (s.occupant slot) := by
  suffices h : ∀ t : Node Id, t.foldResultChunkIds = s.foldResultChunkIds → t.chunkGenerations = s.chunkGenerations →
      (t.syncAll floor slot.1 records).occupant slot
        = records.foldl (merged (take (s.replaces floor))) (t.occupant slot) from h s rfl rfl
  induction records with
  | nil => exact fun _ _ _ => rfl
  | cons r records ih =>
    intro t hfold hgen
    have hocc : (t.syncLocation floor slot.1 r).occupant slot
        = merged (arbitrateBy t.foldResultChunkIds t.chunkGenerations floor) (t.occupant slot) r :=
      occupant_syncLocation_self floor (hslot r (by simp))
    rw [hfold, hgen] at hocc
    have hnext := ih (fun x hx => hslot x (by simp [hx])) (t.syncLocation floor slot.1 r) hfold hgen
    rw [hocc] at hnext
    exact hnext

def seqRecord (data : Bytes) (seq : Nat) : ChunkLocation FreeId :=
  ⟨.content data 0 7, [1, 2], data.length, some 0, some 0, some seq, some 7⟩

def twoGenerations : Node FreeId :=
  { Node.empty with
    chunkGenerations := fun id => if id = .content [1] 0 7 then some 1 else if id = .content [2] 0 7 then some 2 else none }

end Dfs
