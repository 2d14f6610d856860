import Dfs.ChunkMap
import Dfs.Lib.Transition

/-!
# Does the position of a slot move backwards?

A slot's position is its occupant's generation and write sequence. A record of the same chunk always replaces it
(`same_chunk_goes_back`, `position_kept_iff`).
-/

namespace Dfs

open KeyedList Option Node Function Transition

variable {Id : Type} [DecidableEq Id]

inductive SlotAction (Id : Type) where
  | update (loc : ChunkLocation Id)
  | generation (id : Id) (g : Nat)
  deriving DecidableEq, Repr

/-- A call of `chunk_map_update_location_for_file_sync` or `bump_chunk_generation`. -/
def Node.slotStep (durabilityFloor : Nat) (file : FileId) (s : Node Id) : SlotAction Id → Node Id
  | .update loc => s.syncLocation durabilityFloor file loc
  | .generation id g => s.bumpChunkGeneration id g

def GenerationsDiffer (a b : Option Nat) : Prop := ∃ g g', a = some g ∧ b = some g' ∧ g ≠ g'

/-- The write sequence by equal or unknown generations, and the generation where known. -/
structure Node.KeepsPosition (slot : Slot) (s s' : Node Id) : Prop where
  seq : ∀ x y, s.occupant slot = some x → s'.occupant slot = some y →
    ¬GenerationsDiffer (s.chunkGenerations x.chunkId) (s'.chunkGenerations y.chunkId) →
    ∀ a b, x.clientWriteSeq = some a → y.clientWriteSeq = some b → a ≤ b
  gen : ∀ x y, s.occupant slot = some x → s'.occupant slot = some y →
    ∀ g g', s.chunkGenerations x.chunkId = some g → s'.chunkGenerations y.chunkId = some g' → g ≤ g'

/-- A record of the occupant's own chunk has no older write sequence. -/
def Node.SameChunkNotOlder (slot : Slot) (s : Node Id) : SlotAction Id → Prop
  | .update loc => ∀ x, s.occupant slot = some x → x.chunkId = loc.chunkId →
    ∀ a b, x.clientWriteSeq = some a → loc.clientWriteSeq = some b → a ≤ b
  | .generation .. => True

/-- A record comes for a slot of a known generation only with a known generation. -/
def Node.KnownForKnown (slot : Slot) (s : Node Id) : SlotAction Id → Prop
  | .update loc => ∀ x, s.occupant slot = some x → (s.chunkGenerations x.chunkId).isSome = true →
    (s.chunkGenerations loc.chunkId).isSome = true
  | .generation .. => True

variable {incoming existing : ChunkLocation Id} {f f' : Bool} {gi ge : Option Nat} {g : Nat}

omit [DecidableEq Id] in
lemma seq_le_of_supersedes {floor a b : Nat} (h : locationSupersedes incoming existing f f' gi ge floor = true)
    (hgen : ¬GenerationsDiffer ge gi) (ha : existing.clientWriteSeq = some a) (hb : incoming.clientWriteSeq = some b) :
    a ≤ b := by
  have hsame : ∀ g' ∈ gi, ∀ g ∈ ge, g = g' := fun g' hg' g hg => by_contra fun hne => hgen ⟨g, g', hg, hg', hne⟩
  rcases (locationSupersedes_iff.mp h).2.2 hsame with ⟨p, hp, hlater⟩ | ⟨hseq, -⟩
  · rw [hb, mem_some] at hp
    exact hp ▸ (hlater a ha).le
  · rw [ha, hb, some.injEq] at hseq
    exact hseq.ge

section Step

variable {s : Node Id} {floor : Nat} {slot : Slot} {loc : ChunkLocation Id}

lemma occupant_update_cases {x y : ChunkLocation Id} (hslot : slotOf loc = some slot.2)
    (hx : s.occupant slot = some x) (hy : (s.syncLocation floor slot.1 loc).occupant slot = some y) :
    (y = x ∧ x.chunkId ≠ loc.chunkId) ∨ (y = loc ∧ x.chunkId = loc.chunkId) ∨
      (y = loc ∧ x.chunkId ≠ loc.chunkId ∧ s.supersedes floor loc x = true) := by
  have hocc : (s.syncLocation floor slot.1 loc).occupant slot
      = merged (arbitrateBy s.foldResultChunkIds s.chunkGenerations floor) (s.occupant slot) loc :=
    occupant_syncLocation_self floor hslot
  rw [hy, hx] at hocc
  have hres : y = arbitrateBy s.foldResultChunkIds s.chunkGenerations floor x loc := some.inj hocc
  unfold arbitrateBy at hres
  by_cases hid : x.chunkId = loc.chunkId
  · rw [if_pos (by simp [shouldUpdate, hid])] at hres
    exact .inr (.inl ⟨hres, hid⟩)
  split at hres
  · rename_i hshould
    refine .inr (.inr ⟨hres, hid, ?_⟩)
    simpa [shouldUpdate, hid, supersedes] using hshould
  · exact .inl ⟨hres, hid⟩

lemma keepsPosition_update_iff (hslot : slotOf loc = some slot.2) :
    s.KeepsPosition slot (s.syncLocation floor slot.1 loc) ↔ s.SameChunkNotOlder slot (.update loc) := by
  have hgens : (s.syncLocation floor slot.1 loc).chunkGenerations = s.chunkGenerations := rfl
  constructor
  · intro hkeep x hx hid a b ha hb
    have hocc : (s.syncLocation floor slot.1 loc).occupant slot = some loc := by
      have h : (s.syncLocation floor slot.1 loc).occupant slot
          = merged (arbitrateBy s.foldResultChunkIds s.chunkGenerations floor) (s.occupant slot) loc :=
        occupant_syncLocation_self floor hslot
      rw [h, hx, merged, arbitrateBy, if_pos (by simp [shouldUpdate, hid])]
    refine hkeep.seq x loc hx hocc ?_ a b ha hb
    rintro ⟨g, g', hg, hg', hne⟩
    rw [hgens, ← hid, hg, some.injEq] at hg'
    exact hne hg'
  · intro hsame
    constructor
    · intro x y hx hy hdiffer a b ha hb
      rw [hgens] at hdiffer
      rcases occupant_update_cases hslot hx hy with ⟨rfl, -⟩ | ⟨rfl, hid⟩ | ⟨rfl, -, hsup⟩
      · rw [ha, some.injEq] at hb
        omega
      · exact hsame x hx hid a b ha hb
      · exact seq_le_of_supersedes hsup hdiffer ha hb
    · intro x y hx hy g g' hg hg'
      rw [hgens] at hg'
      rcases occupant_update_cases hslot hx hy with ⟨rfl, -⟩ | ⟨rfl, hid⟩ | ⟨rfl, -, hsup⟩
      · rw [hg, some.injEq] at hg'
        omega
      · rw [← hid, hg, some.injEq] at hg'
        omega
      · exact (locationSupersedes_iff.mp hsup).2.1 g' hg' g hg

lemma keepsPosition_generation (s : Node Id) (slot : Slot) (id : Id) (g : Nat) :
    s.KeepsPosition slot (s.bumpChunkGeneration id g) := by
  have hocc : (s.bumpChunkGeneration id g).occupant slot = s.occupant slot := occupant_congr rfl slot
  constructor
  · intro x y hx hy _ a b ha hb
    rw [hocc, hx, some.injEq] at hy
    rw [← hy, ha, some.injEq] at hb
    omega
  · intro x y hx hy g₁ g₂ h₁ h₂
    rw [hocc, hx, some.injEq] at hy
    subst hy
    by_cases hid : x.chunkId = id
    · subst hid
      simp only [bumpChunkGeneration_chunkGenerations, update_self, some.injEq, h₁, getD_some] at h₂
      omega
    simp only [bumpChunkGeneration_chunkGenerations, update_of_ne hid, h₁, some.injEq] at h₂
    omega

end Step

/-- A known generation stays known and does not go down. -/
def Node.AtLeast (slot : Slot) (g : Nat) (s : Node Id) : Prop :=
  ∃ x g', s.occupant slot = some x ∧ s.chunkGenerations x.chunkId = some g' ∧ g ≤ g'

lemma Node.AtLeast.step {s : Node Id} {floor : Nat} {slot : Slot} {a : SlotAction Id} (h : s.AtLeast slot g)
    (hslot : ∀ loc, a = .update loc → slotOf loc = some slot.2) (hok : s.KnownForKnown slot a) :
    (s.slotStep floor slot.1 a).AtLeast slot g := by
  obtain ⟨x, g', hx, hg', hle⟩ := h
  cases a with
  | update loc =>
    have hloc := hslot loc rfl
    have hocc : ∃ y, (s.syncLocation floor slot.1 loc).occupant slot = some y := by
      rw [show (s.syncLocation floor slot.1 loc).occupant slot
        = merged (arbitrateBy s.foldResultChunkIds s.chunkGenerations floor) (s.occupant slot) loc from
        occupant_syncLocation_self floor hloc, hx]
      exact ⟨_, rfl⟩
    obtain ⟨y, hy⟩ := hocc
    rcases occupant_update_cases hloc hx hy with ⟨rfl, -⟩ | ⟨rfl, hid⟩ | ⟨rfl, -, hsup⟩
    · exact ⟨y, g', hy, hg', hle⟩
    · exact ⟨y, g', hy, by rw [← hid]; exact hg', hle⟩
    obtain ⟨g'', hg''⟩ := isSome_iff_exists.mp (hok x hx (by rw [hg']; rfl))
    exact ⟨y, g'', hy, hg'', hle.trans ((locationSupersedes_iff.mp hsup).2.1 g'' hg'' g' hg')⟩
  | generation id n =>
    have hocc : (s.bumpChunkGeneration id n).occupant slot = some x := (occupant_congr rfl slot).trans hx
    obtain ⟨g'', hg''⟩ : ∃ g'', (s.bumpChunkGeneration id n).chunkGenerations x.chunkId = some g'' := by
      by_cases hid : x.chunkId = id
      · exact ⟨_, by rw [bumpChunkGeneration_chunkGenerations, hid, update_self]⟩
      · exact ⟨g', by rw [bumpChunkGeneration_chunkGenerations, update_of_ne hid, hg']⟩
    exact ⟨x, g'', hocc, hg'', hle.trans ((keepsPosition_generation s slot id n).gen x x hx hocc g' g'' hg' hg'')⟩

/-- Positions are kept exactly if records of the occupant's own chunk have no older write sequence; and a known
generation never drops if records for it have one. -/
theorem position_kept_iff (s : Node Id) (floor : Nat) (slot : Slot) (actions : List (SlotAction Id))
    (hslot : ∀ loc, .update loc ∈ actions → slotOf loc = some slot.2) :
    (Transition.Meets (Node.slotStep floor slot.1) (fun s a => s.KeepsPosition slot (s.slotStep floor slot.1 a)) s actions ↔
      Transition.Meets (Node.slotStep floor slot.1) (Node.SameChunkNotOlder slot) s actions) ∧
    (Transition.Meets (Node.slotStep floor slot.1) (Node.KnownForKnown slot) s actions →
      ∀ l₁ l₂, actions = l₁ ++ l₂ → ∀ x y g g', (Transition.run (Node.slotStep floor slot.1) s l₁).occupant slot = some x →
        (Transition.run (Node.slotStep floor slot.1) s actions).occupant slot = some y →
        (Transition.run (Node.slotStep floor slot.1) s l₁).chunkGenerations x.chunkId = some g →
        (Transition.run (Node.slotStep floor slot.1) s actions).chunkGenerations y.chunkId = some g' → g ≤ g') := by
  constructor
  · refine meets_congr fun t a ha => ?_
    cases a with
    | update loc => exact keepsPosition_update_iff (hslot loc ha)
    | generation id g => exact iff_of_true (keepsPosition_generation t slot id g) trivial
  · rintro hok l₁ l₂ rfl x y g g' hx hy hg hg'
    have hok₂ := (meets_append.mp hok).2
    rw [run_append] at hy hg'
    have hstart : (Transition.run (slotStep floor slot.1) s l₁).AtLeast slot g := ⟨x, g, hx, hg, le_rfl⟩
    generalize Transition.run (slotStep floor slot.1) s l₁ = t at hok₂ hy hg' hstart
    -- every action of the second part is one of the run, so it is on the slot
    have hend : (Transition.run (slotStep floor slot.1) t l₂).AtLeast slot g := by
      have hslot₂ : ∀ loc, .update loc ∈ l₂ → slotOf loc = some slot.2 :=
        fun loc h => hslot loc (List.mem_append_right l₁ h)
      clear hy hg' hok hslot
      induction l₂ generalizing t with
      | nil => exact hstart
      | cons a l ih =>
        refine ih _ hok₂.2 (hstart.step ?_ hok₂.1) (fun loc h => hslot₂ loc (List.mem_cons_of_mem a h))
        rintro loc rfl
        exact hslot₂ loc (by simp)
    obtain ⟨z, g'', hz, hg'', hle⟩ := hend
    rw [hy, some.injEq] at hz
    subst hz
    rw [hg', some.injEq] at hg''
    omega

def slotRecord (data : Bytes) (seq : Nat) : ChunkLocation FreeId :=
  ⟨.content data 0 7, [1, 2], data.length, some 0, some 0, some seq, some 7⟩

theorem rising_records_keep : Transition.Meets (Node.slotStep 2 7)
    (fun s a => s.KeepsPosition (7, 0) (s.slotStep 2 7 a)) (Node.empty : Node FreeId)
    [.update (slotRecord [1] 3), .update (slotRecord [2] 5)] := by
  refine (position_kept_iff empty 2 (7, 0) _ ?_).1.mpr ⟨fun x hx => ?_, fun x hx hid => ?_, trivial⟩
  · intro loc hloc
    rcases List.mem_cons.mp hloc with h | h
    · cases h
      rfl
    cases List.mem_singleton.mp h
    rfl
  · cases hx
  · have hfirst : (slotStep 2 7 (empty : Node FreeId) (.update (slotRecord [1] 3))).occupant (7, 0)
        = some (slotRecord [1] 3) := by decide +kernel
    rw [hfirst, some.injEq] at hx
    subst hx
    exact absurd hid (by decide)

theorem same_chunk_goes_back :
    ((Transition.run (Node.slotStep 2 7) (Node.empty : Node FreeId) [.update (slotRecord [1] 5)]).occupant (7, 0)).map
        (·.clientWriteSeq) = some (some 5) ∧
      ((Transition.run (Node.slotStep 2 7) (Node.empty : Node FreeId)
        [.update (slotRecord [1] 5), .update (slotRecord [1] 3)]).occupant (7, 0)).map (·.clientWriteSeq) = some (some 3) := by
  decide +kernel

end Dfs
