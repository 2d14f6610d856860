import Dfs.Node
import Dfs.Lib.KeyedList

/-!
# Restarting a node

`restart` rebuilds the maps from the tables: fold results, the chunk map, with rows competing by
`location_supersedes`, and generations.
-/

namespace Dfs

open KeyedList Node
open List hiding lookup

variable {Id : Type}

/-! ## Which of two locations of a slot wins -/

/-- A fold's result beats a client's write; else the later one wins. -/
def foldThenWrittenAt (incoming existing : ChunkLocation Id) (incomingIsFold existingIsFold : Bool) : Bool :=
  match incomingIsFold, existingIsFold with
  | true, false => true
  | false, true => false
  | _, _ => decide (existing.writtenAt.getD 0 ≤ incoming.writtenAt.getD 0)

/-- Does the incoming location describe a newer write? -/
def locationSupersedes (incoming existing : ChunkLocation Id) (incomingIsFold existingIsFold : Bool)
    (incomingGen existingGen : Option Nat) (durabilityFloor : Nat) : Bool :=
  if !incomingIsFold && decide (incoming.nodes.length < durabilityFloor) &&
      decide (incoming.nodes.length < existing.nodes.length) then false
  else
    let bySeq := match incoming.clientWriteSeq, existing.clientWriteSeq with
      | some inc, some ext =>
        if inc ≠ ext then decide (ext ≤ inc) else foldThenWrittenAt incoming existing incomingIsFold existingIsFold
      | some _, none => true
      | none, some _ => false
      | none, none => foldThenWrittenAt incoming existing incomingIsFold existingIsFold
    match incomingGen, existingGen with
    | some inc, some ext => if inc ≠ ext then decide (ext < inc) else bySeq
    | _, _ => bySeq

lemma foldThenWrittenAt_iff {x y : ChunkLocation Id} {f f' : Bool} : foldThenWrittenAt x y f f' = true ↔
    f = true ∧ f' = false ∨ f = f' ∧ y.writtenAt.getD 0 ≤ x.writtenAt.getD 0 := by
  cases f <;> cases f' <;> simp [foldThenWrittenAt]

/-- On enough nodes, of no older generation, and of a later write where the generations do not decide. -/
theorem locationSupersedes_iff {x y : ChunkLocation Id} {f f' : Bool} {g g' : Option Nat} {floor : Nat} :
    locationSupersedes x y f f' g g' floor = true ↔
      (f = true ∨ floor ≤ x.nodes.length ∨ y.nodes.length ≤ x.nodes.length) ∧ (∀ a ∈ g, ∀ b ∈ g', b ≤ a) ∧
        ((∀ a ∈ g, ∀ b ∈ g', b = a) → (∃ p ∈ x.clientWriteSeq, ∀ q ∈ y.clientWriteSeq, q < p) ∨
          x.clientWriteSeq = y.clientWriteSeq ∧ foldThenWrittenAt x y f f' = true) := by
  have hguard : (!f && decide (x.nodes.length < floor) && decide (x.nodes.length < y.nodes.length)) = true ↔
      ¬(f = true ∨ floor ≤ x.nodes.length ∨ y.nodes.length ≤ x.nodes.length) := by
    simp [and_assoc]
  unfold locationSupersedes
  by_cases hnodes : f = true ∨ floor ≤ x.nodes.length ∨ y.nodes.length ≤ x.nodes.length
  · rw [if_neg fun h => hguard.mp h hnodes, and_iff_right hnodes]
    cases hx : x.clientWriteSeq <;> cases hy : y.clientWriteSeq <;> cases g <;> cases g' <;> simp <;> grind
  · rw [if_pos (hguard.mpr hnodes)]
    simp [hnodes]

/-- It supersedes the other without generations, and not the other way round. -/
def Ahead (isFold : Id → Bool) (floor : Nat) (a b : ChunkLocation Id) : Prop :=
  locationSupersedes a b (isFold a.chunkId) (isFold b.chunkId) none none floor = true ∧
    locationSupersedes b a (isFold b.chunkId) (isFold a.chunkId) none none floor = false

variable [DecidableEq Id]

/-- Start-up passes no generations. -/
def arbitrate (isFold : Id → Bool) (durabilityFloor : Nat) (existing incoming : ChunkLocation Id) : ChunkLocation Id :=
  if existing.chunkId = incoming.chunkId ∨ locationSupersedes incoming existing (isFold incoming.chunkId)
      (isFold existing.chunkId) none none durabilityFloor = true then incoming
  else existing

/-- A location with an offset competes for its index; one without replaces an entry of its identity. -/
def chunkMapUpdateLocationForFile (isFold : Id → Bool) (durabilityFloor : Nat)
    (entry : Option (Locations Id × Nat)) (loc : ChunkLocation Id) : Locations Id × Nat :=
  let (locs, w) := entry.getD ([], loc.clientWriteSeq.getD 0)
  match loc.fileOffset with
  | some _ => (upsert cidxOf (arbitrate isFold durabilityFloor) locs loc, w)
  | none => (updateFirst (sameChunk loc) (fun _ => loc) locs, w)

/-! ## Start-up -/

def onSlot (slot : Slot) (loc : ChunkLocation Id) : Bool :=
  decide (loc.fileId = some slot.1) && decide (slotOf loc = some slot.2)

/-- The rows of the tables in the order of their keys, and each file's write sequence. -/
structure TableScan (Id : Type) where
  rows : Locations Id
  states : List (Id × PatchState Id)
  seqs : List (Slot × Nat)
  fileWriteSeq : FileId → Nat

def TableScan.isFold (scan : TableScan Id) (id : Id) : Bool := scan.states.any (fun r => decide (r.2 = .folded id))

/-- A row without a file is skipped. -/
def rebuildRow (isFold : Id → Bool) (durabilityFloor : Nat) (fileWriteSeq : FileId → Nat)
    (map : FileId → Option (Locations Id × Nat)) (loc : ChunkLocation Id) :
    FileId → Option (Locations Id × Nat) :=
  match loc.fileId with
  | none => map
  | some file =>
    let (locs, w) := chunkMapUpdateLocationForFile isFold durabilityFloor (map file) loc
    Function.update map file (some (locs, max w (fileWriteSeq file)))

def rebuildChunkMap (scan : TableScan Id) (durabilityFloor : Nat) : FileId → Option (Locations Id × Nat) :=
  scan.rows.foldl (rebuildRow scan.isFold durabilityFloor scan.fileWriteSeq) (fun _ => none)

variable (s : Node Id)

/-- The occupant of a slot gets the slot's recorded sequence. -/
def Node.backfillGenerations (seqs : List (Slot × Nat)) : Node Id :=
  seqs.foldl (fun s r => match s.occupant r.1 with
    | some loc => s.bumpChunkGeneration loc.chunkId r.2
    | none => s) s

@[simps] def Node.durable : Node Id :=
  { Node.empty with
    files := s.files, chunkTable := s.chunkTable, patchState := s.patchState, patchStateSlot := s.patchStateSlot
    chunkSeq := s.chunkSeq, tombstoned := s.tombstoned, fileExists := s.fileExists }

variable (replicationFactor : Nat)

def Node.restart (scan : TableScan Id) : Node Id :=
  Node.backfillGenerations { s.durable with
    foldResultChunkIds := scan.isFold
    chunkMap := rebuildChunkMap scan (writeQuorum replicationFactor) } scan.seqs

/-- Unless the slot or the token is known already. -/
def Node.resume (slot : Slot) (token : Id) (foldFailures : Nat) : Node Id :=
  { s with
    dirtyPatchSlots := Function.update s.dirtyPatchSlots slot
      ((s.dirtyPatchSlots slot).or (some ⟨token, (slot.1, 0, []), false, false, foldFailures, none, none⟩))
    pendingPatchIds := Function.update s.pendingPatchIds token ((s.pendingPatchIds token).or (some slot)) }

def Node.startUp (scan : TableScan Id) (pending : List (Slot × Id × Nat)) : Node Id :=
  pending.foldl (fun s r => s.resume r.1 r.2.1 r.2.2) (s.restart replicationFactor scan)

/-- Every row and no other, the locations in the order of their keys. The sequences only matter to the generations. -/
structure TableScan.Reads (scan : TableScan Id) (key : Id → Nat) (s : Node Id) : Prop where
  rows : ∀ loc, loc ∈ scan.rows ↔ s.chunkTable loc.chunkId = some loc
  sorted : scan.rows.Pairwise (fun a b => key a.chunkId < key b.chunkId)
  states : ∀ id st, (id, st) ∈ scan.states ↔ s.patchState id = some st

def Node.scan (ids : List Id) (seqs : List (Slot × Nat)) (fileWriteSeq : FileId → Nat) : TableScan Id where
  rows := ids.filterMap s.chunkTable
  states := ids.filterMap (fun id => (s.patchState id).map (fun st => (id, st)))
  seqs := seqs
  fileWriteSeq := fileWriteSeq

omit [DecidableEq Id] in
lemma reads_scan {s : Node Id} {ids : List Id} {key : Id → Nat} (hsorted : ids.Pairwise (fun a b => key a < key b))
    (hrows : ∀ id loc, s.chunkTable id = some loc → loc.chunkId = id ∧ id ∈ ids)
    (hstates : ∀ id st, s.patchState id = some st → id ∈ ids) (seqs : List (Slot × Nat)) (fileWriteSeq : FileId → Nat) :
    (s.scan ids seqs fileWriteSeq).Reads key s where
  rows loc := by
    simp only [scan, mem_filterMap]
    constructor
    · rintro ⟨id, -, hloc⟩
      rw [(hrows id loc hloc).1, hloc]
    · intro hloc
      exact ⟨loc.chunkId, (hrows _ _ hloc).2, hloc⟩
  sorted := by
    refine List.Pairwise.filterMap _ (fun a a' hlt b hb b' hb' => ?_) hsorted
    rw [(hrows a b hb).1, (hrows a' b' hb').1]
    exact hlt
  states id st := by
    simp only [scan, mem_filterMap, Option.map_eq_some_iff, Prod.mk.injEq]
    constructor
    · rintro ⟨id', -, st', hst, rfl, rfl⟩
      exact hst
    · intro hst
      exact ⟨id, hstates id st hst, st, hst, rfl, rfl⟩

/-! ## What start-up rebuilds -/

omit [DecidableEq Id] in
lemma occupant_eq_lookup (slot : Slot) : s.occupant slot = lookup cidxOf ((s.chunkMap slot.1).elim [] Prod.fst) slot.2 := by
  unfold occupant lookup position
  cases s.chunkMap slot.1 with
  | none => rfl
  | some e =>
    dsimp only [slotPosition, Option.elim_some]
    generalize hat : e.1[(e.1.takeWhile (fun l => decide (cidxOf l < slot.2))).length]? = found
    cases found with
    | none => rfl
    | some l =>
      by_cases hl : cidxOf l = slot.2
      · simp [Option.filter, hl, hat]
      · simp [Option.filter, hl]

lemma cidxOf_arbitrate {isFold : Id → Bool} {floor : Nat} {old loc : ChunkLocation Id} (h : cidxOf old = cidxOf loc) :
    cidxOf (arbitrate isFold floor old loc) = cidxOf loc := by
  unfold arbitrate
  split
  · rfl
  · exact h

lemma arbitrate_cases (isFold : Id → Bool) (floor : Nat) (old loc : ChunkLocation Id) :
    arbitrate isFold floor old loc = old ∨ arbitrate isFold floor old loc = loc := by
  unfold arbitrate
  split
  · exact .inr rfl
  · exact .inl rfl

def placedIn (file : FileId) (loc : ChunkLocation Id) : Bool := decide (loc.fileId = some file) && loc.fileOffset.isSome

variable (isFold : Id → Bool) (floor : Nat) (fileWriteSeq : FileId → Nat)

lemma rebuildRow_locs {map : FileId → Option (Locations Id × Nat)} {loc : ChunkLocation Id} {file : FileId}
    (hnew : ∀ l ∈ (map file).elim [] Prod.fst, l.chunkId ≠ loc.chunkId) :
    ((rebuildRow isFold floor fileWriteSeq map loc) file).elim [] Prod.fst
      = if placedIn file loc then upsert cidxOf (arbitrate isFold floor) ((map file).elim [] Prod.fst) loc
        else (map file).elim [] Prod.fst := by
  have hlocs : ∀ d, ((map file).getD ([], d)).1 = (map file).elim [] Prod.fst := fun d => by cases map file <;> rfl
  unfold rebuildRow placedIn
  cases hfile : loc.fileId with
  | none => simp
  | some f =>
    by_cases hf : f = file
    · subst hf
      dsimp only
      rw [Function.update_self]
      unfold chunkMapUpdateLocationForFile
      dsimp only
      rw [hlocs]
      cases hoff : loc.fileOffset with
      | some o => simp
      | none => simpa using updateFirst_of_none (fun l hl => by simpa using hnew l hl)
    · dsimp only
      rw [Function.update_of_ne (Ne.symm hf)]
      simp [hf]

variable (rows : Locations Id)

lemma foldl_rebuildRow_locs (file : FileId) : ∀ map : FileId → Option (Locations Id × Nat),
      (rows.Pairwise (fun a b => a.chunkId ≠ b.chunkId)) →
        (∀ l ∈ (map file).elim [] Prod.fst, ∀ r ∈ rows, l.chunkId ≠ r.chunkId) →
      ((rows.foldl (rebuildRow isFold floor fileWriteSeq) map) file).elim [] Prod.fst
        = (rows.filter (placedIn file)).foldl (upsert cidxOf (arbitrate isFold floor)) ((map file).elim [] Prod.fst) := by
  induction rows with
  | nil =>
    intro map _ _
    rfl
  | cons loc rows ih =>
    intro map hnodup hnew
    obtain ⟨hloc, hrows⟩ := pairwise_cons.1 hnodup
    have hone := rebuildRow_locs isFold floor fileWriteSeq (fun l hl => hnew l hl loc (by simp))
    -- the entries of the list are still rows that were scanned before
    have hnew' : ∀ l ∈ ((rebuildRow isFold floor fileWriteSeq map loc) file).elim [] Prod.fst, ∀ r ∈ rows,
        l.chunkId ≠ r.chunkId := by
      intro l hl r hr
      rw [hone] at hl
      have hold := fun l hl => hnew l hl r (mem_cons_of_mem _ hr)
      split at hl
      · rcases mem_upsert hl with hl | rfl | ⟨old, hold', rfl⟩
        · exact hold l hl
        · exact hloc r hr
        rcases arbitrate_cases isFold floor old loc with h | h <;> rw [h]
        · exact hold old hold'
        · exact hloc r hr
      · exact hold l hl
    rw [foldl_cons, ih _ hrows hnew', hone]
    by_cases hp : placedIn file loc = true
    · rw [if_pos hp, filter_cons_of_pos hp, foldl_cons]
    · rw [if_neg hp, filter_cons_of_neg hp]

omit [DecidableEq Id] in
lemma filter_placedIn (slot : Slot) :
    (rows.filter (placedIn slot.1)).filter (fun l => cidxOf l = slot.2) = rows.filter (onSlot slot) := by
  rw [filter_filter]
  refine filter_congr (fun l _ => ?_)
  unfold placedIn onSlot cidxOf slotOf
  cases l.fileOffset <;> simp [Bool.and_comm]

lemma backfillGenerations_eq (seqs : List (Slot × Nat)) :
    ∀ s : Node Id, ∃ generations, s.backfillGenerations seqs = s.setSequences s.chunkSeq generations := by
  induction seqs with
  | nil =>
    intro s
    exact ⟨s.chunkGenerations, rfl⟩
  | cons r seqs ih =>
    intro s
    have hrow : ∃ generations, (match s.occupant r.1 with
        | some loc => s.bumpChunkGeneration loc.chunkId r.2
        | none => s) = s.setSequences s.chunkSeq generations := by
      split <;> exact ⟨_, rfl⟩
    obtain ⟨generations, hrow⟩ := hrow
    obtain ⟨generations', hseqs⟩ := ih (s.setSequences s.chunkSeq generations)
    refine ⟨generations', ?_⟩
    rw [backfillGenerations, foldl_cons, hrow]
    exact hseqs

lemma restart_eq (scan : TableScan Id) : ∃ generations, s.restart replicationFactor scan = { s.durable with
          foldResultChunkIds := scan.isFold
          chunkMap := rebuildChunkMap scan (writeQuorum replicationFactor)
          chunkGenerations := generations } := by
  obtain ⟨generations, hback⟩ := backfillGenerations_eq scan.seqs { s.durable with
    foldResultChunkIds := scan.isFold
    chunkMap := rebuildChunkMap scan (writeQuorum replicationFactor) }
  exact ⟨generations, hback⟩

lemma occupant_restart {scan : TableScan Id} (hnodup : scan.rows.Pairwise (fun a b => a.chunkId ≠ b.chunkId)) (slot : Slot) :
    (s.restart replicationFactor scan).occupant slot
      = (scan.rows.filter (onSlot slot)).foldl (merged (arbitrate scan.isFold (writeQuorum replicationFactor))) none := by
  obtain ⟨generations, hrestart⟩ := restart_eq s replicationFactor scan
  have hlocs := foldl_rebuildRow_locs scan.isFold (writeQuorum replicationFactor) scan.fileWriteSeq scan.rows slot.1
    (fun _ => none) hnodup (by simp)
  rw [hrestart, occupant_eq_lookup]
  calc lookup cidxOf ((rebuildChunkMap scan (writeQuorum replicationFactor) slot.1).elim [] Prod.fst) slot.2
      = lookup cidxOf ((scan.rows.filter (placedIn slot.1)).foldl
          (upsert cidxOf (arbitrate scan.isFold (writeQuorum replicationFactor))) []) slot.2 :=
        congrArg (lookup cidxOf · slot.2) hlocs
    _ = _ := by
      rw [(lookup_foldl_upsert List.Pairwise.nil (fun _ _ => cidxOf_arbitrate) slot.2).2, filter_placedIn]
      rfl

end Dfs
