import Dfs.SelfHeal
import Dfs.Theorems.Truncation

/-! # Does the self-heal keep every slot? -/

namespace Dfs

open KeyedList Node

variable {Id : Type} [DecidableEq Id]

/-- Each slot keeps its location, gets one that is no causal regression, or had a chunk purged and old enough. -/
def SelfHealKeeps (s : Node Id) (file : FileId) (current : Locations Id) (nowMs : Nat) (currentIsPurged : Id → Bool) :
    Prop :=
  ∀ cidx c, currentAt current cidx = some c → ∃ l, s.occupant (file, cidx) = some l ∧
    (l = c ∨ isCausalRegression c l = false ∨ (oldEnough nowMs c = true ∧ currentIsPurged c.chunkId = true))

/-- A location for every current slot; of its own chunk, the current one or no causal regression, unless purged and old enough. -/
def Covers (current fresh : Locations Id) (nowMs : Nat) (currentIsPurged : Id → Bool) : Prop :=
  ∀ cidx c, currentAt current cidx = some c → ∃ f ∈ fresh, slotOf f = some cidx ∧
    (f.chunkId = c.chunkId → f = c ∨ isCausalRegression c f = false ∨
      (oldEnough nowMs c = true ∧ currentIsPurged c.chunkId = true))

/-! ## The list from the rows is sorted -/

omit [DecidableEq Id] in
lemma fileOffset_resolveChunkLocationForInfo (s : Node Id) (l : ChunkLocation Id) :
    (s.resolveChunkLocationForInfo l).fileOffset = l.fileOffset := by
  unfold resolveChunkLocationForInfo
  dsimp only
  split
  · rfl
  split
  · unfold resolveChunkNodes
    split <;> rfl
  · rfl

variable {l : ChunkLocation Id}

section

omit [DecidableEq Id]

lemma cidxOf_congr {l' : ChunkLocation Id} (h : l.fileOffset = l'.fileOffset) : cidxOf l = cidxOf l' := by
  unfold cidxOf slotOf
  rw [h]

lemma sorted_map {l : Locations Id} {f : ChunkLocation Id → ChunkLocation Id} (h : Sorted cidxOf l)
    (hf : ∀ x ∈ l, cidxOf (f x) = cidxOf x) : Sorted cidxOf (l.map f) := by
  unfold Sorted at h ⊢
  rw [List.pairwise_map]
  refine List.Pairwise.imp_of_mem (fun {a b} ha hb hab => ?_) h
  rw [hf a ha, hf b hb]
  exact hab

lemma sorted_chunkLocationsForInfo (s : Node Id) (floor : Nat) (rows : Locations Id) (file : FileId) :
    Sorted cidxOf (s.chunkLocationsForInfo floor rows file) := by
  have hmerge : ∀ old a : ChunkLocation Id, cidxOf old = cidxOf a →
      cidxOf (laterRow s.foldResultChunkIds floor old a) = cidxOf a := by
    intro old a h
    unfold laterRow
    split
    · rfl
    · exact h
  have hempty : Sorted cidxOf ([] : Locations Id) := List.Pairwise.nil
  exact sorted_map (lookup_foldl_upsert hempty hmerge 0).1 fun x _ => cidxOf_congr (fileOffset_resolveChunkLocationForInfo s x)

end

/-! ## The merge -/

section Merge

variable {current fresh : Locations Id} {nowMs : Nat} {currentIsPurged : Id → Bool} {cidx : Nat} {c : ChunkLocation Id}

omit [DecidableEq Id] in
lemma slotOf_currentAt (h : currentAt current cidx = some c) : slotOf c = some cidx := by
  simpa using List.find?_some h

lemma slotOf_healLocation (f : ChunkLocation Id) : slotOf (healLocation current nowMs currentIsPurged f).1 = slotOf f := by
  unfold healLocation
  split
  · rfl
  rename_i cidx hf
  split
  · rfl
  rename_i c hc
  split
  · rfl
  split
  · rfl
  rw [hf]
  exact slotOf_currentAt hc

lemma healLocation_cases {f : ChunkLocation Id} (hc : currentAt current cidx = some c) (hf : slotOf f = some cidx) :
    ((healLocation current nowMs currentIsPurged f).1 = f ∧
      (f.chunkId = c.chunkId ∨ isCausalRegression c f = false ∨ (oldEnough nowMs c = true ∧ currentIsPurged c.chunkId = true))) ∨
    ((healLocation current nowMs currentIsPurged f).1 = c ∧ f.chunkId ≠ c.chunkId) := by
  unfold healLocation
  simp only [hf, hc]
  split
  · rename_i h
    exact .inl ⟨rfl, h.elim (fun he => .inl he.symm) (fun hr => .inr (.inl hr))⟩
  rename_i h
  split
  · rename_i hold
    exact .inl ⟨rfl, .inr (.inr (by simpa using hold))⟩
  · exact .inr ⟨rfl, fun he => h (.inl he.symm)⟩

lemma cidxOf_healLocation (f : ChunkLocation Id) : cidxOf (healLocation current nowMs currentIsPurged f).1 = cidxOf f := by
  unfold cidxOf
  rw [slotOf_healLocation]

lemma lookup_mergeSelfHeal (hsorted : Sorted cidxOf fresh) :
    lookup cidxOf (mergeSelfHeal current fresh nowMs currentIsPurged).1 cidx = some l ↔
      ∃ f ∈ fresh, cidxOf f = cidx ∧ (healLocation current nowMs currentIsPurged f).1 = l := by
  have hmerged : Sorted cidxOf (mergeSelfHeal current fresh nowMs currentIsPurged).1 :=
    sorted_map hsorted fun f _ => cidxOf_healLocation f
  constructor
  · intro h
    obtain ⟨f, hf, rfl⟩ := List.mem_map.mp (mem_of_lookup h)
    have hkey := key_of_lookup h
    rw [cidxOf_healLocation] at hkey
    exact ⟨f, hf, hkey, rfl⟩
  · rintro ⟨f, hf, rfl, rfl⟩
    have h := lookup_of_mem hmerged (List.mem_map_of_mem hf)
    rwa [cidxOf_healLocation] at h

omit [DecidableEq Id] in
lemma currentAt_lt (hrange : InRange current) (h : currentAt current cidx = some c) : cidx < u64Max := by
  obtain ⟨o, ho, rfl⟩ := Option.map_eq_some_iff.mp (slotOf_currentAt h)
  exact slot_lt_of_le (hrange c (List.mem_of_find?_eq_some h) o ho)

end Merge

lemma locsOf_selfHeal {s s' : Node Id} {floor nowMs : Nat} {rows : Except String (Locations Id)} {file : FileId}
    {current : Locations Id} {currentIsPurged : Id → Bool} {refused : List (Nat × Id × Id)}
    (h : s.selfHeal floor rows file current nowMs currentIsPurged = some (s', refused)) :
    s'.locsOf file = (mergeSelfHeal current (s.reDeriveChunkMap floor rows file).1 nowMs currentIsPurged).1 := by
  unfold selfHeal at h
  dsimp only at h
  split at h
  · cases h
  cases h
  simp [locsOf, commitChunkMap]

/-- The self-heal keeps every slot exactly if the list from the rows covers the current one. Offsets are machine
words. -/
theorem self_heal_keeps_iff (s : Node Id) (floor : Nat) (rows : Except String (Locations Id)) (file : FileId)
    (current : Locations Id) (nowMs : Nat) (currentIsPurged : Id → Bool) (hrange : InRange current)
    (s' : Node Id) (refused : List (Nat × Id × Id))
    (hheal : s.selfHeal floor rows file current nowMs currentIsPurged = some (s', refused)) :
    SelfHealKeeps s' file current nowMs currentIsPurged ↔
      Covers current (s.reDeriveChunkMap floor rows file).1 nowMs currentIsPurged := by
  have hsorted : Sorted cidxOf (s.reDeriveChunkMap floor rows file).1 := by
    cases rows with
    | error e => exact List.Pairwise.nil
    | ok rows => exact sorted_chunkLocationsForInfo s floor rows file
  have hoccupant : ∀ cidx l, s'.occupant (file, cidx) = some l ↔ ∃ f ∈ (s.reDeriveChunkMap floor rows file).1,
      cidxOf f = cidx ∧ (healLocation current nowMs currentIsPurged f).1 = l := by
    intro cidx l
    rw [occupant_eq_lookup_locsOf, locsOf_selfHeal hheal]
    exact lookup_mergeSelfHeal hsorted
  constructor
  · intro hkeeps cidx c hc
    obtain ⟨l, hl, hgood⟩ := hkeeps cidx c hc
    obtain ⟨f, hf, hcidx, rfl⟩ := (hoccupant cidx l).mp hl
    have hslot : slotOf f = some cidx := slotOf_of_cidxOf hcidx (currentAt_lt hrange hc)
    refine ⟨f, hf, hslot, fun hid => ?_⟩
    -- a row of the slot's own chunk is taken whatever its write sequence
    rcases healLocation_cases hc hslot with ⟨htaken, -⟩ | ⟨-, hne⟩
    · rwa [htaken] at hgood
    · exact absurd hid hne
  · intro hcovers cidx c hc
    obtain ⟨f, hf, hslot, hsame⟩ := hcovers cidx c hc
    refine ⟨_, (hoccupant cidx _).mpr ⟨f, hf, cidxOf_of_fileOffset hslot, rfl⟩, ?_⟩
    rcases healLocation_cases hc hslot with ⟨htaken, hid | hgood⟩ | ⟨hkept, -⟩
    · rw [htaken]
      exact hsame hid
    · rw [htaken]
      exact .inr hgood
    · exact .inl hkept

/-- An entry for file `7`, with a row for the first slot only. -/
def healedNode (locs : List (ChunkLocation Nat)) : Node Nat :=
  { (Node.empty : Node Nat).setChunkMap fun f => if f = 7 then some (locs, 1) else none with
    chunkTable := fun id => if id = 10 then some (slotStart 10 0) else none }

def writtenSlot (time : Nat) : ChunkLocation Nat := { slotStart 11 1 with writtenAt := some time }

def rewrittenSlot : ChunkLocation Nat := { slotStart 12 1 with clientWriteSeq := some 9 }

theorem covered_slot_kept : SelfHealKeeps
    ((healedNode [slotStart 10 0, slotStart 11 1]).commitChunkMap 7 [slotStart 10 0, rewrittenSlot] 1) 7
    [slotStart 10 0, slotStart 11 1] 1001000 (fun id => decide (id ≠ 10)) := by
  have hrange : InRange [slotStart 10 0, slotStart 11 1] := by
    intro l hl o ho
    rcases List.mem_pair.mp hl with rfl | rfl <;> obtain rfl := Option.some.inj ho <;> decide +kernel
  refine (self_heal_keeps_iff (healedNode [slotStart 10 0, slotStart 11 1]) 2 (.ok [slotStart 10 0, rewrittenSlot]) 7 _ 1001000 _
    hrange _ [] rfl).mpr ?_
  intro cidx c hc
  have hslot := slotOf_currentAt hc
  have hmem := List.mem_of_find?_eq_some hc
  rcases List.mem_pair.mp hmem with rfl | rfl
  · exact ⟨slotStart 10 0, List.mem_cons_self, hslot, fun _ => .inl rfl⟩
  · exact ⟨rewrittenSlot, List.mem_pair.mpr (.inr rfl), hslot, fun _ => .inr (.inl rfl)⟩

/-- The second slot was written a second ago and has no row yet. -/
def healedYoungSlot : Option (Node Nat × List (Nat × Nat × Nat)) :=
  (healedNode [slotStart 10 0, writtenSlot 1000000]).selfHeal 2 (.ok [slotStart 10 0]) 7 [slotStart 10 0, writtenSlot 1000000]
    1001000 (fun id => decide (id ≠ 10))

/-- The second slot is gone, too young to be called dead, and nothing is refused. -/
theorem slot_without_row_dropped : currentAt [slotStart 10 0, writtenSlot 1000000] 1 = some (writtenSlot 1000000) ∧
      oldEnough 1001000 (writtenSlot 1000000) = false ∧
      healedYoungSlot.map (·.1.chunkMap 7) = some (some ([slotStart 10 0], 1)) ∧
      healedYoungSlot.map (·.1.occupant (7, 1)) = some none ∧ healedYoungSlot.map (·.2) = some [] := by
  refine ⟨?_, ?_, ?_, ?_, ?_⟩ <;> decide +kernel

end Dfs
