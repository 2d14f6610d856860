import Dfs.Register
import Dfs.Lib.Transition

/-! # Does a restart give every slot back? -/

namespace Dfs

open KeyedList Function Option Node Transition FreeId

variable {Id : Type} [DecidableEq Id]

/-- With the generation that came, and is the chunk known as a fold's result by then. -/
structure StoredUpdate (Id : Type) where
  file : FileId
  loc : ChunkLocation Id
  generation : Option Nat
  foldResult : Bool

def Node.prepareUpdate (env : RegisterEnv Id) (s : Node Id) (u : StoredUpdate Id) : Node Id :=
  Node.recordGeneration { s with
    foldResultChunkIds :=
      if u.foldResult then update s.foldResultChunkIds u.loc.chunkId true else s.foldResultChunkIds }
    env u.loc (some u.file) u.generation

def Node.storeUpdate (env : RegisterEnv Id) (s : Node Id) (u : StoredUpdate Id) : Node Id :=
  ((s.prepareUpdate env u).putChunkLocation u.loc).syncLocation env.durabilityFloor u.file u.loc

/-- Its location names its place; if it wins it is ahead of the slot's other rows, else the occupant is ahead of it. -/
def StoredUpdate.KeepsOrder (env : RegisterEnv Id) (place : Id → Slot) (isFold : Id → Bool) (s : Node Id) (u : StoredUpdate Id) :
    Prop :=
  AtPlace place u.loc ∧ u.file = (place u.loc.chunkId).1 ∧
    ∀ occ, s.occupant (place u.loc.chunkId) = some occ →
      if shouldUpdate (s.prepareUpdate env u).foldResultChunkIds (s.prepareUpdate env u).chunkGenerations
        env.durabilityFloor occ u.loc
      then ∀ id row, s.chunkTable id = some row → place id = place u.loc.chunkId → id ≠ u.loc.chunkId →
        Ahead isFold env.durabilityFloor u.loc row
      else Ahead isFold env.durabilityFloor occ u.loc

/-- Every row is at its place, and the occupant of a slot is a row ahead of the others. -/
structure Node.Mirrored (s : Node Id) (place : Id → Slot) (isFold : Id → Bool) (floor : Nat) : Prop where
  placed : s.Placed place
  rowId : ∀ id row, s.chunkTable id = some row → row.chunkId = id ∧ AtPlace place row
  occRow : ∀ slot occ, s.occupant slot = some occ → s.chunkTable occ.chunkId = some occ
  covered : ∀ id row, s.chunkTable id = some row → ∃ occ, s.occupant (place id) = some occ
  ahead : ∀ id row occ, s.chunkTable id = some row → s.occupant (place id) = some occ → id ≠ occ.chunkId →
    Ahead isFold floor occ row

/-! ## The run keeps the tables a mirror -/

variable {id : Id} {slot : Slot}

section Run

variable {env : RegisterEnv Id} {place : Id → Slot} {isFold : Id → Bool}

lemma prepareUpdate_frame (env : RegisterEnv Id) (s : Node Id) (u : StoredUpdate Id) :
    (s.prepareUpdate env u).chunkMap = s.chunkMap ∧ (s.prepareUpdate env u).chunkTable = s.chunkTable := by
  unfold prepareUpdate
  obtain ⟨seqs, gens, heq⟩ := recordGeneration_eq _ env u.loc (some u.file) u.generation
  rw [heq]
  exact ⟨rfl, rfl⟩

variable {u : StoredUpdate Id} {s : Node Id}

lemma occupant_storeUpdate (env : RegisterEnv Id) (hs : s.Placed place) (hu : AtPlace place u.loc)
    (hfile : u.file = (place u.loc.chunkId).1) (slot : Slot) : (s.storeUpdate env u).occupant slot =
      if place u.loc.chunkId = slot then
        merged (arbitrateBy (s.prepareUpdate env u).foldResultChunkIds (s.prepareUpdate env u).chunkGenerations
          env.durabilityFloor) (s.occupant slot) u.loc else s.occupant slot := by
  obtain ⟨hmap, -⟩ := prepareUpdate_frame env s u
  have hput : ((s.prepareUpdate env u).putChunkLocation u.loc).chunkMap = s.chunkMap := hmap
  unfold storeUpdate
  rw [hfile]
  split
  · rename_i hslot
    subst hslot
    refine (occupant_syncLocation_self env.durabilityFloor hu.2).trans ?_
    rw [occupant_congr hput]
    rfl
  rename_i hslot
  rw [occupant_syncLocation_of_ne env.durabilityFloor ((hs.congr hput).sorted _) hu.2 hslot, occupant_congr hput]

lemma chunkTable_storeUpdate (env : RegisterEnv Id) (s : Node Id) (u : StoredUpdate Id) :
    (s.storeUpdate env u).chunkTable = update s.chunkTable u.loc.chunkId (some u.loc) := by
  rw [← (prepareUpdate_frame env s u).2]
  rfl

lemma Node.Mirrored.slot_storeUpdate (hs : s.Mirrored place isFold env.durabilityFloor) (hu : u.KeepsOrder env place isFold s) :
    ((s.storeUpdate env u).occupant (place u.loc.chunkId) = some u.loc ∧
        ∀ id row, s.chunkTable id = some row → place id = place u.loc.chunkId → id ≠ u.loc.chunkId →
          Ahead isFold env.durabilityFloor u.loc row) ∨
      ∃ occ, s.occupant (place u.loc.chunkId) = some occ ∧ (s.storeUpdate env u).occupant (place u.loc.chunkId) = some occ ∧
        occ.chunkId ≠ u.loc.chunkId ∧ Ahead isFold env.durabilityFloor occ u.loc := by
  obtain ⟨hat, hfile, horder⟩ := hu
  have hslot := occupant_storeUpdate env hs.placed hat hfile (place u.loc.chunkId)
  rw [if_pos rfl] at hslot
  cases hold : s.occupant (place u.loc.chunkId) with
  | none =>
    refine .inl ⟨by rw [hslot, hold]; rfl, fun id row hrow hid _ => ?_⟩
    obtain ⟨occ, hcov⟩ := hs.covered id row hrow
    rw [hid, hold] at hcov
    cases hcov
  | some occ =>
    have hcase := horder occ hold
    rw [hold, merged, arbitrateBy] at hslot
    split at hcase
    · rename_i hwin
      rw [if_pos hwin] at hslot
      exact .inl ⟨hslot, hcase⟩
    rename_i hwin
    rw [if_neg hwin] at hslot
    refine .inr ⟨occ, rfl, hslot, fun hid => hwin ?_, hcase⟩
    simp [shouldUpdate, hid]

lemma row_storeUpdate_cases {row : ChunkLocation Id} (h : (s.storeUpdate env u).chunkTable id = some row) :
    (id = u.loc.chunkId ∧ row = u.loc) ∨ (id ≠ u.loc.chunkId ∧ s.chunkTable id = some row) := by
  rw [chunkTable_storeUpdate] at h
  by_cases hid : id = u.loc.chunkId
  · subst hid
    rw [update_self, some.injEq] at h
    exact .inl ⟨rfl, h.symm⟩
  rw [update_of_ne hid] at h
  exact .inr ⟨hid, h⟩

lemma Node.Mirrored.occupant_cases (hs : s.Mirrored place isFold env.durabilityFloor) (hu : u.KeepsOrder env place isFold s)
    {occ : ChunkLocation Id} (h : (s.storeUpdate env u).occupant slot = some occ) : (occ = u.loc ∧ slot = place u.loc.chunkId ∧
      ∀ id row, s.chunkTable id = some row → place id = place u.loc.chunkId → id ≠ u.loc.chunkId →
        Ahead isFold env.durabilityFloor u.loc row) ∨ (s.occupant slot = some occ ∧ occ.chunkId ≠ u.loc.chunkId ∧
      (slot = place u.loc.chunkId → Ahead isFold env.durabilityFloor occ u.loc)) := by
  by_cases hslot : place u.loc.chunkId = slot
  · subst hslot
    rcases hs.slot_storeUpdate hu with ⟨hnew, hahead⟩ | ⟨occ', hold, hkept, hne, hahead⟩
    · rw [hnew, some.injEq] at h
      exact .inl ⟨h.symm, rfl, hahead⟩
    rw [hkept, some.injEq] at h
    subst h
    exact .inr ⟨hold, hne, fun _ => hahead⟩
  · rw [occupant_storeUpdate env hs.placed hu.1 hu.2.1, if_neg hslot] at h
    refine .inr ⟨h, fun hid => hslot ?_, fun heq => absurd heq.symm hslot⟩
    rw [← hid, hs.placed.occupant h]

lemma Node.Mirrored.storeUpdate (hs : s.Mirrored place isFold env.durabilityFloor) (hu : u.KeepsOrder env place isFold s) :
    (s.storeUpdate env u).Mirrored place isFold env.durabilityFloor := by
  have hplaced : (s.storeUpdate env u).Placed place := by
    unfold Node.storeUpdate
    rw [hu.2.1]
    refine Placed.syncLocation ?_ env.durabilityFloor hu.1
    exact hs.placed.congr (prepareUpdate_frame env s u).1
  refine ⟨hplaced, fun id row hrow => ?_, fun slot occ h => ?_, fun id row hrow => ?_, fun id row occ hrow h hne => ?_⟩
  · rcases row_storeUpdate_cases hrow with ⟨rfl, rfl⟩ | ⟨-, hold⟩
    · exact ⟨rfl, hu.1⟩
    · exact hs.rowId id row hold
  · rw [chunkTable_storeUpdate]
    rcases hs.occupant_cases hu h with ⟨rfl, -, -⟩ | ⟨hold, hid, -⟩
    · exact update_self ..
    rw [update_of_ne hid]
    exact hs.occRow slot occ hold
  · -- the update's slot has an occupant, another one keeps its own
    rw [occupant_storeUpdate env hs.placed hu.1 hu.2.1]
    split
    · cases s.occupant (place id) <;> exact ⟨_, rfl⟩
    rename_i hslot
    rcases row_storeUpdate_cases hrow with ⟨rfl, -⟩ | ⟨-, hold⟩
    · exact absurd rfl hslot
    · exact hs.covered id row hold
  rcases row_storeUpdate_cases hrow with ⟨rfl, rfl⟩ | ⟨hid, hrow⟩
  · rcases hs.occupant_cases hu h with ⟨rfl, -, -⟩ | ⟨-, -, hahead⟩
    · exact absurd rfl hne
    · exact hahead rfl
  rcases hs.occupant_cases hu h with ⟨rfl, hslot, hahead⟩ | ⟨hold, -, -⟩
  · exact hahead id row hrow hslot hid
  · exact hs.ahead id row occ hrow hold hne

end Run

/-! ## Start-up finds the same occupants -/

section StartUp

variable {place : Id → Slot} {s : Node Id} {scan : TableScan Id} {key : Id → Nat}

omit [DecidableEq Id] in
lemma onSlot_of_atPlace {loc : ChunkLocation Id} (h : AtPlace place loc) : onSlot slot loc = true ↔ place loc.chunkId = slot := by
  obtain ⟨hfile, hidx⟩ := h
  simp only [onSlot, hfile, hidx, Bool.and_eq_true, decide_eq_true_eq, some.injEq]
  exact ⟨fun h => Prod.ext h.1 h.2, fun h => by simp [h]⟩

lemma arbitrate_ahead {isFold : Id → Bool} {floor : Nat} {a b : ChunkLocation Id} (h : Ahead isFold floor a b)
    (hne : b.chunkId ≠ a.chunkId) : arbitrate isFold floor b a = a ∧ arbitrate isFold floor a b = a := by
  simp [arbitrate, h.1, h.2, Ne.symm hne]

lemma Node.Mirrored.occupant_restart {rf : Nat} (hs : s.Mirrored place scan.isFold (writeQuorum rf)) (hreads : scan.Reads key s)
    (slot : Slot) : (s.restart rf scan).occupant slot = s.occupant slot := by
  have hnodup : scan.rows.Pairwise (fun a b => a.chunkId ≠ b.chunkId) :=
    hreads.sorted.imp (fun {a b} hlt hid => by rw [hid] at hlt; exact lt_irrefl _ hlt)
  have hmem (r : ChunkLocation Id) (hr : r ∈ scan.rows.filter (onSlot slot)) :
      s.chunkTable r.chunkId = some r ∧ place r.chunkId = slot := by
    obtain ⟨hrow, hon⟩ := List.mem_filter.mp hr
    have htab := (hreads.rows r).mp hrow
    exact ⟨htab, (onSlot_of_atPlace (hs.rowId _ r htab).2).mp hon⟩
  rw [Dfs.occupant_restart s rf hnodup slot]
  cases hocc : s.occupant slot with
  | none =>
    have hnil : scan.rows.filter (onSlot slot) = [] := by
      refine List.eq_nil_iff_forall_not_mem.mpr (fun r hr => ?_)
      obtain ⟨htab, hplace⟩ := hmem r hr
      obtain ⟨occ, hcov⟩ := hs.covered _ r htab
      rw [hplace, hocc] at hcov
      cases hcov
    rw [hnil]
    rfl
  | some occ =>
    have hrow := hs.occRow slot occ hocc
    have hwin : ∀ r ∈ scan.rows.filter (onSlot slot), arbitrate scan.isFold (writeQuorum rf) r occ = occ ∧
        arbitrate scan.isFold (writeQuorum rf) occ r = occ := by
      intro r hr
      obtain ⟨htab, hplace⟩ := hmem r hr
      by_cases hid : r.chunkId = occ.chunkId
      · rw [hid, hrow, some.injEq] at htab
        subst htab
        simp [arbitrate]
      · exact arbitrate_ahead (hs.ahead _ r occ htab (hplace ▸ hocc) hid) hid
    have hocc : occ ∈ scan.rows.filter (onSlot slot) :=
      List.mem_filter.mpr ⟨(hreads.rows occ).mpr hrow, (onSlot_of_atPlace (hs.rowId _ occ hrow).2).mpr (hs.placed.occupant hocc)⟩
    obtain ⟨pre, post, hrows⟩ := List.append_of_mem hocc
    rw [hrows] at hwin ⊢
    exact foldl_merged_champion (arbitrate_cases _ _) (fun r hr => (hwin r (by simp [hr])).1) fun r hr =>
      (hwin r (by simp [hr])).2

lemma backfillGenerations_gens {seqs : List (Slot × Nat)} {n : Nat} :
    ∀ {s : Node Id}, (∀ r ∈ seqs, (s.occupant r.1).map (·.chunkId) = some id → r.2 = n) →
      (s.chunkGenerations id = none ∨ s.chunkGenerations id = some n) →
      ((∃ r ∈ seqs, (s.occupant r.1).map (·.chunkId) = some id) ∨ s.chunkGenerations id = some n) →
      (s.backfillGenerations seqs).chunkGenerations id = some n := by
  induction seqs with
  | nil =>
    intro s _ _ h
    exact h.resolve_left (by simp)
  | cons r seqs ih =>
    intro s hall h0 h
    have hrest := fun r' (hr' : r' ∈ seqs) => hall r' (List.mem_cons_of_mem _ hr')
    unfold backfillGenerations
    rw [List.foldl_cons]
    cases hocc : s.occupant r.1 with
    | none =>
      refine ih hrest h0 ?_
      rcases h with ⟨r', hr', hid⟩ | h
      · rcases List.mem_cons.mp hr' with rfl | hr'
        · simp [hocc] at hid
        · exact .inl ⟨r', hr', hid⟩
      · exact .inr h
    | some loc =>
      dsimp only
      by_cases hid : loc.chunkId = id
      · have hn : r.2 = n := hall r (by simp) (by simp [hocc, hid])
        have hgen : (s.bumpChunkGeneration loc.chunkId r.2).chunkGenerations id = some n := by
          rcases h0 with h0 | h0 <;> simp [hid, h0, hn]
        exact ih hrest (.inr hgen) (.inr hgen)
      have hgen : (s.bumpChunkGeneration loc.chunkId r.2).chunkGenerations id = s.chunkGenerations id := by
        simp [update_of_ne (Ne.symm hid)]
      refine ih hrest (by rw [hgen]; exact h0) ?_
      rw [hgen]
      rcases h with ⟨r', hr', hid'⟩ | h
      · rcases List.mem_cons.mp hr' with rfl | hr'
        · simp [hocc, hid] at hid'
        · exact .inl ⟨r', hr', hid'⟩
      · exact .inr h

end StartUp

structure Node.Unwritten (s : Node Id) : Prop where
  chunkMap : ∀ f, s.chunkMap f = none
  chunkTable : ∀ id, s.chunkTable id = none

/-- **A restart gives every slot back**: its occupant, credited with the slot's stored generation. -/
theorem restart_keeps_slots (env : RegisterEnv Id) (place : Id → Slot) (key : Id → Nat) (s : Node Id) (scan : TableScan Id)
    (updates : List (StoredUpdate Id)) (hs : s.Unwritten)
    (hmeets : Transition.Meets (Node.storeUpdate env) (fun s u => u.KeepsOrder env place scan.isFold s) s updates)
    (hreads : scan.Reads key (Transition.run (Node.storeUpdate env) s updates))
    (hseqs : ∀ slot n, (slot, n) ∈ scan.seqs ↔ (Transition.run (Node.storeUpdate env) s updates).chunkSeq slot = some n)
    (slot : Slot) :
    (((Transition.run (Node.storeUpdate env) s updates).restart env.replicationFactor scan).occupant slot).map (·.chunkId)
        = ((Transition.run (Node.storeUpdate env) s updates).occupant slot).map (·.chunkId) ∧
      ∀ occ n, (Transition.run (Node.storeUpdate env) s updates).occupant slot = some occ →
        (Transition.run (Node.storeUpdate env) s updates).chunkSeq slot = some n →
        ((Transition.run (Node.storeUpdate env) s updates).restart env.replicationFactor scan).chunkGenerations occ.chunkId
          = some n := by
  have hlocs (f : FileId) : s.locsOf f = [] := locsOf_of_entry (hs.chunkMap f)
  have hinit : s.Mirrored place scan.isFold env.durabilityFloor := by
    refine ⟨⟨fun f => ?_, fun f l hl => ?_⟩, fun id row h => ?_, fun slot occ h => ?_, fun id row h => ?_, fun id row occ h => ?_⟩
    · rw [hlocs]
      exact List.Pairwise.nil
    · rw [hlocs] at hl
      cases hl
    · rw [hs.chunkTable] at h
      cases h
    · rw [occupant_eq_lookup_locsOf, hlocs] at h
      cases h
    · rw [hs.chunkTable] at h
      cases h
    · rw [hs.chunkTable] at h
      cases h
  have hstep : ∀ s u, Mirrored s place scan.isFold env.durabilityFloor → StoredUpdate.KeepsOrder env place scan.isFold s u →
      (s.storeUpdate env u).Mirrored place scan.isFold env.durabilityFloor :=
    fun s u hs hu => hs.storeUpdate hu
  have hrun := invariant_run hstep hinit hmeets
  generalize run (storeUpdate env) s updates = t at hrun hreads hseqs ⊢
  have hsame := fun slot => hrun.occupant_restart hreads slot
  refine ⟨by rw [hsame slot], fun occ n hocc hn => ?_⟩
  have hmap (slot : Slot) : (occupant { t.durable with
      foldResultChunkIds := scan.isFold
      chunkMap := rebuildChunkMap scan (writeQuorum env.replicationFactor) } slot) = t.occupant slot := by
    obtain ⟨gens, heq⟩ := restart_eq t env.replicationFactor scan
    rw [← hsame slot, heq]
    rfl
  unfold restart
  refine backfillGenerations_gens (fun r hr hid => ?_) (.inl rfl) (.inl ⟨(slot, n), (hseqs slot n).mpr hn, ?_⟩)
  · rw [hmap] at hid
    obtain ⟨occ', hocc', hid⟩ := map_eq_some_iff.mp hid
    have hslot : r.1 = slot := by rw [← hrun.placed.occupant hocc', hid, hrun.placed.occupant hocc]
    have hr' := (hseqs r.1 r.2).mp hr
    rw [hslot, hn, some.injEq] at hr'
    exact hr'.symm
  · rw [hmap, hocc]
    rfl

/-! ## Two writes of one slot -/

/-- File 7's byte on two nodes: timestamp, write sequence and generation. -/
def storedByte (b : UInt8) (writtenAt seq generation : Nat) : StoredUpdate FreeId where
  file := 7
  loc := ⟨.content [b] 0 7, [1, 2], 1, some 0, some writtenAt, some seq, some 7⟩
  generation := some generation
  foldResult := false

def twoBytesScan (s : Node FreeId) : TableScan FreeId :=
  s.scan [.content [1] 0 7, .content [2] 0 7] [((7, 0), 2)] (fun _ => 0)

def twoBytes (first second : StoredUpdate FreeId) : Node FreeId :=
  Transition.run (Node.storeUpdate calmRegister) Node.empty [first, second]

theorem later_write_survives_restart :
    let s := twoBytes (storedByte 1 10 5 1) (storedByte 2 11 6 2)
    ((s.restart 3 (twoBytesScan s)).occupant (7, 0)).map (·.chunkId) = some (.content [2] 0 7) ∧
      (s.restart 3 (twoBytesScan s)).chunkGenerations (.content [2] 0 7) = some 2 := by
  intro s
  have htable : s.chunkTable = update (update (fun _ => none) (.content [1] 0 7) (some (storedByte 1 10 5 1).loc))
      (.content [2] 0 7) (some (storedByte 2 11 6 2).loc) := by
    refine (chunkTable_storeUpdate _ _ _).trans ?_
    rw [chunkTable_storeUpdate]
    rfl
  have hrow (id : FreeId) (loc : ChunkLocation FreeId) (h : s.chunkTable id = some loc) :
      loc.chunkId = id ∧ id ∈ [content [1] 0 7, content [2] 0 7] := by
    rw [htable] at h
    by_cases h2 : id = .content [2] 0 7
    · subst h2
      rw [update_self, some.injEq] at h
      subst h
      exact ⟨rfl, by simp⟩
    by_cases h1 : id = .content [1] 0 7
    · subst h1
      rw [update_of_ne (by decide), update_self, some.injEq] at h
      subst h
      exact ⟨rfl, by simp⟩
    rw [update_of_ne h2, update_of_ne h1] at h
    cases h
  have hseq : s.chunkSeq = update (update (fun _ => none) (7, 0) (some 1)) (7, 0) (some 2) := rfl
  have hmeets : Meets (storeUpdate calmRegister) (fun t u => u.KeepsOrder calmRegister place (twoBytesScan s).isFold t) empty
      [storedByte 1 10 5 1, storedByte 2 11 6 2] := by
    refine ⟨⟨⟨rfl, rfl⟩, rfl, fun occ h => by cases h⟩, ⟨⟨rfl, rfl⟩, rfl, fun occ h => ?_⟩, trivial⟩
    have hocc : occ = (storedByte 1 10 5 1).loc := by
      have : (empty.storeUpdate calmRegister (storedByte 1 10 5 1)).occupant (7, 0) = some (storedByte 1 10 5 1).loc := by
        decide +kernel
      exact some.inj (h.symm.trans this)
    subst hocc
    rw [if_pos (by decide +kernel)]
    intro id row hid _ _
    have hrow' : row = (storedByte 1 10 5 1).loc := by
      rw [chunkTable_storeUpdate] at hid
      by_cases h1 : id = (storedByte 1 10 5 1).loc.chunkId
      · subst h1
        exact (some.inj hid).symm
      rw [update_of_ne h1] at hid
      cases hid
    subst hrow'
    constructor <;> decide +kernel
  have hkeep := restart_keeps_slots calmRegister place (fun id => if id = .content [1] 0 7 then 0 else 1) empty
    (twoBytesScan s) [storedByte 1 10 5 1, storedByte 2 11 6 2] ⟨fun _ => rfl, fun _ => rfl⟩ hmeets
    (reads_scan (by decide) hrow (fun id st h => by cases h) _ _) (fun slot n => ?_) (7, 0)
  · have hocc : s.occupant (7, 0) = some (storedByte 2 11 6 2).loc := by decide +kernel
    refine ⟨hkeep.1.trans ?_, hkeep.2 (storedByte 2 11 6 2).loc 2 hocc rfl⟩
    exact congrArg (Option.map (·.chunkId)) hocc
  · show (slot, n) ∈ [((7, 0), 2)] ↔ s.chunkSeq slot = some n
    rw [hseq]
    by_cases hslot : slot = (7, 0)
    · subst hslot
      simp [eq_comm]
    · simp [hslot]

/-- Two generations of one write sequence, the second with a clock behind: the first comes back, with the second's generation. -/
theorem restart_reverts_slot :
    let s := twoBytes (storedByte 1 10 5 1) (storedByte 2 9 5 2)
    (s.occupant (7, 0)).map (·.chunkId) = some (.content [2] 0 7) ∧
      ((s.restart 3 (twoBytesScan s)).occupant (7, 0)).map (·.chunkId) = some (.content [1] 0 7) ∧
      (s.restart 3 (twoBytesScan s)).chunkGenerations (.content [1] 0 7) = some 2 ∧ s.chunkSeq (7, 0) = some 2 := by
  decide +kernel

end Dfs
