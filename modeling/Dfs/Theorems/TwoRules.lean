import Dfs.Theorems.ConcurrentPut

/-!
# The two rules for a slot

A record decides about a slot by the client's sequences, then the times; a location that comes alone by `location_supersedes`.
-/

namespace Dfs

open KeyedList Node
open List hiding lookup

variable {Id : Type}

/-- Where durability or the generations decide, they decide as the sequences and times do; and so do the fold flags
and times where the sequences are the same. -/
def Node.RulesAgree (s : Node Id) (floor : Nat) (occ loc : ChunkLocation Id) : Prop :=
  let newer := !staleForMap s.hasChunk loc occ
  if s.foldResultChunkIds loc.chunkId = false ∧ loc.nodes.length < floor ∧ loc.nodes.length < occ.nodes.length then newer = false
  else
    let bySeq := loc.clientWriteSeq = occ.clientWriteSeq →
      newer = foldThenWrittenAt loc occ (s.foldResultChunkIds loc.chunkId) (s.foldResultChunkIds occ.chunkId)
    match s.chunkGenerations loc.chunkId, s.chunkGenerations occ.chunkId with
    | some g, some g' => if g ≠ g' then newer = decide (g' < g) else bySeq
    | _, _ => bySeq

lemma rulesAgree_iff_supersedes (s : Node Id) (floor : Nat) (occ loc : ChunkLocation Id) :
    s.RulesAgree floor occ loc ↔ s.supersedes floor loc occ = !staleForMap s.hasChunk loc occ := by
  unfold RulesAgree supersedes locationSupersedes
  have hguard : (!s.foldResultChunkIds loc.chunkId && decide (loc.nodes.length < floor) &&
      decide (loc.nodes.length < occ.nodes.length)) = true ↔
      s.foldResultChunkIds loc.chunkId = false ∧ loc.nodes.length < floor ∧ loc.nodes.length < occ.nodes.length := by
    simp [and_assoc]
  by_cases hfew : s.foldResultChunkIds loc.chunkId = false ∧ loc.nodes.length < floor ∧ loc.nodes.length < occ.nodes.length
  · rw [if_pos hfew, if_pos (hguard.mpr hfew), eq_comm]
  rw [if_neg hfew, if_neg (mt hguard.mp hfew)]
  cases hl : loc.clientWriteSeq <;> cases ho : occ.clientWriteSeq <;> cases s.chunkGenerations loc.chunkId <;>
    cases s.chunkGenerations occ.chunkId <;> simp [staleForMap, hl, ho] <;> grind

/-- A record and the location alone leave the same chunk in the slot exactly if the two rules agree on it. -/
theorem slot_rules_agree_iff [DecidableEq Id] (s : Node Id) (floor : Nat) (m : FileMetadata Id) {loc occ : ChunkLocation Id}
    {cidx : Nat} (hone : slotLocs m.chunkLocations cidx = [loc]) (hrange : InRange m.chunkLocations)
    (hocc : s.occupant (m.id, cidx) = some occ) (hne : occ.chunkId ≠ loc.chunkId) :
    ((s.chunkMapUpdate m).occupant (m.id, cidx)).map (·.chunkId) =
        ((s.syncLocation floor m.id loc).occupant (m.id, cidx)).map (·.chunkId) ↔ s.RulesAgree floor occ loc := by
  have hmem : loc ∈ m.chunkLocations ∧ slotOf loc = some cidx := by
    have hl : loc ∈ slotLocs m.chunkLocations cidx := by simp [hone]
    simpa [slotLocs] using hl
  obtain ⟨⟨existing, w⟩, hentry⟩ : ∃ e, s.chunkMap m.id = some e := by
    rw [← Option.isSome_iff_exists]
    cases hmap : s.chunkMap m.id with
    | none => simp [occupant_eq_lookup_locsOf, locsOf, hmap, lookup] at hocc
    | some e => rfl
  have hle : (slotLocs m.chunkLocations cidx).length ≤ 1 := by simp [hone]
  have hlookup := (occupant_of_entry hentry cidx).symm.trans hocc
  rw [occupant_syncLocation_self floor hmem.2, hocc, occupant_eq_lookup_locsOf,
    locsOf_chunkMapUpdate _ (ne_nil_of_mem hmem.1), hentry,
    merged, Option.map_some, lookup_mergedLocations _ _ hrange hle, rulesAgree_iff_supersedes]
  simp only [LeavesChunk, hone, head?_cons, hlookup, arbitrateBy, shouldUpdate, hne, decide_false, Bool.false_or]
  rw [← supersedes]
  cases s.supersedes floor loc occ <;> cases staleForMap s.hasChunk loc occ <;> simp [hne, Ne.symm hne]

def laterRecord : FileMetadata Nat := { earlierRecord with chunkLocations := [laterLocation], writeSeq := 2 }

theorem later_write_wins_both_ways : ((oneSlotNode.chunkMapUpdate laterRecord).occupant (7, 0)).map (·.chunkId) =
      ((oneSlotNode.syncLocation 0 7 laterLocation).occupant (7, 0)).map (·.chunkId) := by
  refine (slot_rules_agree_iff oneSlotNode 0 laterRecord rfl ?_ rfl (by decide)).mpr ?_
  · intro l hl o ho
    obtain rfl := List.mem_singleton.mp hl
    obtain rfl := Option.some.inj ho
    decide
  · exact (rulesAgree_iff_supersedes ..).mpr (by decide +kernel)

/-- The occupant has the later generation and the earlier sequence. -/
theorem generation_decides_one_way :
    let s := oneSlotNode.setSequences oneSlotNode.chunkSeq fun id => if id = 10 then some 2 else some 1
    ((s.chunkMapUpdate laterRecord).occupant (7, 0)).map (·.chunkId) = some 11 ∧
      ((s.syncLocation 0 7 laterLocation).occupant (7, 0)).map (·.chunkId) = some 10 := by
  decide +kernel

end Dfs
