import Dfs.FoldAnnounce
import Dfs.Theorems.SlotContest

/-!
# Do the announcements of a fold commute?

Only the location brings the new chunk's generation, so the orders can differ (`older_fold_takes_slot`). A slot's
`Contest` decides; the handlers act on it alone.
-/

namespace Dfs

open Option Node Function

variable {Id : Type}

/-! ## The contest for a slot -/

/-- The occupant and the records of one chunk, are they fold results, their generations, and the slot's sequence. -/
structure Contest (Id : Type) where
  occupant : Option (ChunkLocation Id)
  rivalIsFold : Bool
  rivalGen : Option Nat
  isFold : Bool
  gen : Option Nat
  seq : Option Nat

namespace Contest

variable [DecidableEq Id] (c : Contest Id) (env : RegisterEnv Id) (slot : Slot)

def backfilledGen : Option Nat := c.rivalGen.or (if env.seqReadable slot then c.seq else none)

def wins (record : ChunkLocation Id) : Bool := match c.occupant with
  | none => true
  | some x => decide (x.chunkId = record.chunkId) ||
    locationSupersedes record x c.isFold c.rivalIsFold c.gen (c.backfilledGen env slot) env.durabilityFloor

def backfill : Contest Id := { c with rivalGen := c.backfilledGen env slot }

def offer (record : ChunkLocation Id) : Contest Id :=
  if c.wins env slot record then { c with occupant := some record, rivalIsFold := false, rivalGen := none }
  else c.backfill env slot

def fold : Contest Id := { c with isFold := true }

def recorded (g : Nat) : Contest Id :=
  { c with
    gen := some (max (max g (c.gen.getD 0)) (if env.seqWritable then c.seq.getD 0 else 0))
    seq := if env.seqWritable = true ∧ c.seq.getD 0 < g then some g else c.seq }

def offer? (record : Option (ChunkLocation Id)) : Contest Id := record.elim c (c.offer env slot)

end Contest

variable [DecidableEq Id]

def Node.contest (s : Node Id) (slot : Slot) (id : Id) : Contest Id where
  occupant := s.occupant slot
  rivalIsFold := (s.occupant slot).any fun x => decide (x.chunkId ≠ id) && s.foldResultChunkIds x.chunkId
  rivalGen := (s.occupant slot).bind fun x => if x.chunkId = id then none else s.chunkGenerations x.chunkId
  isFold := s.foldResultChunkIds id
  gen := s.chunkGenerations id
  seq := s.chunkSeq slot

variable (H : ChunkHash Id) (s : Node Id) (env : RegisterEnv Id)

/-- The record that the first announcement stores, if it gets so far. -/
def Node.registered (loc : ChunkLocation Id) : Option (ChunkLocation Id) :=
  if s.isSupersededTokenLocation H env loc then none
  else match env.rowWrite with
    | .ok _ => mergeReplicatedChunkLocation loc (s.readRow env loc.chunkId) env.replicationFactor env.nowMs
    | .error _ => none

/-- The node after the announcement of the location. -/
def Node.afterLocation (r : FoldResult Id) : Node Id :=
  (s.handleReplicateChunkLocation H env r.location (some r.slot.1) (some r.generation)).1

/-- The node after the announcement of a fold that it can record. -/
def Node.afterFold (r : FoldResult Id) : Node Id :=
  (s.handleReplicatePatchFold env (.ok ()) r.publicToken r.location.chunkId r.slot (some r.location)).1

abbrev Node.foldRecorded (r : FoldResult Id) : Node Id := s.recordFold r.publicToken r.location.chunkId

/-! ## The handlers act on the contest -/

variable {record x : ChunkLocation Id} {r : FoldResult Id}

open Contest

section Handlers

variable {s : Node Id} {env : RegisterEnv Id} {slot : Slot} {id : Id} {s' : Node Id}

lemma contest_congr (hmap : s'.chunkMap = s.chunkMap) (hfold : s'.foldResultChunkIds = s.foldResultChunkIds)
    (hgen : s'.chunkGenerations = s.chunkGenerations) (hseq : s'.chunkSeq = s.chunkSeq) :
    s'.contest slot id = s.contest slot id := by
  unfold contest
  rw [occupant_congr hmap, hfold, hgen, hseq]

lemma contest_recordFold (token : Id) : (s.recordFold token id).contest slot id = (s.contest slot id).fold := by
  have hocc : (s.recordFold token id).occupant slot = s.occupant slot := occupant_congr rfl slot
  unfold contest fold
  rw [hocc]
  congr 1
  · cases s.occupant slot with
    | none => rfl
    | some x =>
      by_cases hx : x.chunkId = id
      · simp [hx]
      · simp [hx, recordFold]
  · simp [recordFold]

lemma wins_contest (hocc : s.occupant slot = some x) :
    (s.contest slot record.chunkId).wins env slot record = s.wins env slot x record := by
  unfold Contest.wins Node.wins
  simp only [contest, hocc]
  by_cases hx : x.chunkId = record.chunkId
  · simp [hx]
  simp [hx, backfilledGen, credited, readChunkSeq]

lemma contest_update (hfile : s.fileRecentlyDeleted slot.1 = false) (hidx : slotOf record = some slot.2) :
    (s.chunkMapUpdateLocationForFile env.durabilityFloor env.seqReadable slot.1 record).1.contest slot record.chunkId
      = (s.contest slot record.chunkId).offer env slot record := by
  have hocc := occupant_chunkMapUpdateLocationForFile env.durabilityFloor env.seqReadable hfile hidx
  rw [chunkMapUpdateLocationForFile_eq env.durabilityFloor env.seqReadable hfile hidx] at hocc ⊢
  generalize hnode : (s.setSequences s.chunkSeq (s.backfilled env.seqReadable (slot.1, slot.2) record.chunkId)).syncLocation
    env.durabilityFloor slot.1 record = s' at hocc ⊢
  have hfold : s'.foldResultChunkIds = s.foldResultChunkIds := by rw [← hnode]; rfl
  have hgen : s'.chunkGenerations = s.backfilled env.seqReadable slot record.chunkId := by rw [← hnode]; rfl
  have hseq : s'.chunkSeq = s.chunkSeq := by rw [← hnode]; rfl
  have hself : s.backfilled env.seqReadable slot record.chunkId record.chunkId = s.chunkGenerations record.chunkId :=
    backfilled_incoming s env.seqReadable slot record.chunkId
  cases hx : s.occupant slot with
  | none =>
    rw [hx] at hocc
    have hocc' : s'.occupant slot = some record := hocc
    simp [offer, Contest.wins, contest, hocc', hx, hfold, hgen, hseq, hself]
  | some x =>
    rw [hx] at hocc
    have hocc' : s'.occupant slot = some (if s.wins env slot x record then record else x) :=
      hocc.trans (congrArg some (arbitrateBy_backfilled env hx record))
    unfold offer
    rw [wins_contest hx]
    by_cases hwins : s.wins env slot x record = true
    · rw [if_pos hwins] at hocc' ⊢
      simp [contest, hocc', hfold, hgen, hseq, hself]
    rw [if_neg hwins] at hocc' ⊢
    have hne : x.chunkId ≠ record.chunkId := by
      intro he
      exact hwins (by simp [Node.wins, he])
    have hback : s.backfilled env.seqReadable slot record.chunkId x.chunkId
        = (s.chunkGenerations x.chunkId).or (s.readChunkSeq env.seqReadable slot) := backfilled_occupant env.seqReadable hx hne
    simp [contest, backfill, backfilledGen, hocc', hx, hne, hfold, hgen, hseq, hself, hback, readChunkSeq]

variable {loc : ChunkLocation Id} {g : Nat}

lemma recordGeneration_spec (htomb : s.tombstoned slot.1 = false) (hidx : slotOf loc = some slot.2) :
    (s.recordGeneration env loc (some slot.1) (some g)).chunkGenerations loc.chunkId
        = ((s.contest slot loc.chunkId).recorded env g).gen ∧
      (s.recordGeneration env loc (some slot.1) (some g)).chunkSeq slot = ((s.contest slot loc.chunkId).recorded env g).seq ∧
      ∀ id, id ≠ loc.chunkId → (s.recordGeneration env loc (some slot.1) (some g)).chunkGenerations id =
        s.chunkGenerations id := by
  obtain ⟨o, ho, hslot⟩ := map_eq_some_iff.mp hidx
  have hpair : (slot.1, o / chunkSize) = slot := Prod.ext rfl hslot
  have hbump : max g ((s.chunkGenerations loc.chunkId).getD g) = max g ((s.chunkGenerations loc.chunkId).getD 0) := by
    cases s.chunkGenerations loc.chunkId <;> simp
  unfold recordGeneration recorded
  simp only [ho, hpair, putChunkSeq, contest]
  by_cases hw : env.seqWritable = true
  · simp only [hw, if_true, true_and, bumpChunkGeneration_chunkSeq, bumpChunkGeneration_tombstoned, htomb, and_true]
    -- the sequence of the slot is below the generation, above it, or the same
    by_cases hlt : (s.chunkSeq slot).getD 0 < g
    · have heff : ¬g < max g ((s.chunkSeq slot).getD 0) := by omega
      have hmax : max (max g ((s.chunkGenerations loc.chunkId).getD 0)) ((s.chunkSeq slot).getD 0)
          = max g ((s.chunkGenerations loc.chunkId).getD 0) := by omega
      simp only [hlt, if_true, if_neg heff, hmax]
      exact ⟨by simp [hbump], by simp, fun id hid => by simp [hid]⟩
    simp only [hlt, if_false]
    split
    · have hmax : max g ((s.chunkSeq slot).getD 0) = (s.chunkSeq slot).getD 0 := by omega
      refine ⟨?_, rfl, fun id hid => by simp [hid]⟩
      simp [hbump, hmax, Nat.max_comm]
    have hmax : max (max g ((s.chunkGenerations loc.chunkId).getD 0)) ((s.chunkSeq slot).getD 0)
        = max g ((s.chunkGenerations loc.chunkId).getD 0) := by omega
    rw [hmax]
    exact ⟨by simp [hbump], rfl, fun id hid => by simp [hid]⟩
  · simp only [hw, Bool.false_eq_true, if_false, false_and, Nat.max_zero]
    exact ⟨by simp [hbump], rfl, fun id hid => by simp [hid]⟩

lemma contest_recordGeneration (hfile : s.fileRecentlyDeleted slot.1 = false)
    (hidx : slotOf loc = some slot.2) :
    (s.recordGeneration env loc (some slot.1) (some g)).contest slot loc.chunkId =
      (s.contest slot loc.chunkId).recorded env g := by
  have htomb : s.tombstoned slot.1 = false := (Bool.or_eq_false_iff.mp hfile).2
  obtain ⟨hgen, hseq, hother⟩ := recordGeneration_spec htomb hidx
  obtain ⟨seqs, gens, heq⟩ := recordGeneration_eq s env loc (some slot.1) (some g)
  have hocc : (s.recordGeneration env loc (some slot.1) (some g)).occupant slot = s.occupant slot :=
    occupant_congr (by rw [heq]; rfl) slot
  have hfold : (s.recordGeneration env loc (some slot.1) (some g)).foldResultChunkIds = s.foldResultChunkIds := by
    rw [heq]
    rfl
  unfold contest at hgen hseq ⊢
  rw [hocc, hfold, hgen, hseq]
  unfold recorded
  congr 1
  cases s.occupant slot with
  | none => rfl
  | some x =>
    by_cases hx : x.chunkId = loc.chunkId
    · simp [hx]
    · simp [hx, hother _ hx]

structure AnnounceFrame (s s' : Node Id) : Prop where
  patchState : s'.patchState = s.patchState
  patchStateSlot : s'.patchStateSlot = s.patchStateSlot
  pendingPatchIds : s'.pendingPatchIds = s.pendingPatchIds
  retiredChunkAliases : s'.retiredChunkAliases = s.retiredChunkAliases
  deleted : ∀ f, s'.fileRecentlyDeleted f = s.fileRecentlyDeleted f

omit [DecidableEq Id] in
lemma AnnounceFrame.refl (s : Node Id) : AnnounceFrame s s := ⟨rfl, rfl, rfl, rfl, fun _ => rfl⟩

omit [DecidableEq Id] in
lemma AnnounceFrame.trans {s'' : Node Id} (h : AnnounceFrame s s') (h' : AnnounceFrame s' s'') : AnnounceFrame s s'' :=
  ⟨h'.1.trans h.1, h'.2.trans h.2, h'.3.trans h.3, h'.4.trans h.4, fun f => (h'.5 f).trans (h.5 f)⟩

lemma announceFrame_recordGeneration (s : Node Id) (env : RegisterEnv Id) (loc : ChunkLocation Id) (file : Option FileId)
    (g : Option Nat) : AnnounceFrame s (s.recordGeneration env loc file g) := by
  obtain ⟨seqs, gens, heq⟩ := recordGeneration_eq s env loc file g
  rw [heq]
  exact ⟨rfl, rfl, rfl, rfl, fun _ => rfl⟩

lemma announceFrame_update (s : Node Id) (floor : Nat) (readable : Slot → Bool) (file : FileId) (loc : ChunkLocation Id) :
    AnnounceFrame s (s.chunkMapUpdateLocationForFile floor readable file loc).1 ∧
      (s.chunkMapUpdateLocationForFile floor readable file loc).1.chunkTable = s.chunkTable := by
  unfold Node.chunkMapUpdateLocationForFile
  split
  · exact ⟨.refl s, rfl⟩
  cases loc.fileOffset with
  | none => exact ⟨⟨rfl, rfl, rfl, rfl, fun _ => rfl⟩, rfl⟩
  | some o =>
    dsimp only
    rw [backfillOccupant_eq]
    exact ⟨⟨rfl, rfl, rfl, rfl, fun _ => rfl⟩, rfl⟩

variable (H : ChunkHash Id)

lemma handleReplicateChunkLocation_eq (s : Node Id) (env : RegisterEnv Id) (loc : ChunkLocation Id)
    (file : FileId) (g : Option Nat) : (s.handleReplicateChunkLocation H env loc (some file) g).1
      = (s.registered H env loc).elim (s.recordGeneration env loc (some file) g) fun m =>
        (((s.recordGeneration env loc (some file) g).putChunkLocation m).chunkMapUpdateLocationForFile env.durabilityFloor
          env.seqReadable file m).1 := by
  obtain ⟨seqs, gens, heq⟩ := recordGeneration_eq s env loc (some file) g
  have hreg : (s.recordGeneration env loc (some file) g).registered H env loc = s.registered H env loc := by
    rw [heq]
    rfl
  rw [← hreg]
  unfold handleReplicateChunkLocation registered
  generalize s.recordGeneration env loc (some file) g = view
  dsimp only
  split
  · rfl
  cases env.rowWrite with
  | error e =>
    cases mergeReplicatedChunkLocation loc (view.readRow env loc.chunkId) env.replicationFactor env.nowMs <;> rfl
  | ok _ =>
    cases mergeReplicatedChunkLocation loc (view.readRow env loc.chunkId) env.replicationFactor env.nowMs <;> rfl

lemma registered_some {H : ChunkHash Id} {m : ChunkLocation Id} (h : s.registered H env loc = some m) {idx : Nat}
    (hidx : slotOf loc = some idx) :
    m.chunkId = loc.chunkId ∧ slotOf m = some idx := by
  unfold registered at h
  split at h
  · cases h
  split at h
  · obtain ⟨hid, hoff⟩ := mergeReplicatedChunkLocation_some h
    refine ⟨hid, ?_⟩
    rw [slotOf, hoff (isSome_of_slotOf hidx)]
    exact hidx
  · cases h

lemma registered_congr (loc : ChunkLocation Id) (hrow : s'.patchState = s.patchState)
    (hslot : s'.patchStateSlot = s.patchStateSlot) (htable : s'.chunkTable = s.chunkTable) :
    s'.registered H env loc = s.registered H env loc := by
  unfold registered isSupersededTokenLocation readRow
  rw [hrow, hslot, htable]

lemma announceFrame_location (s : Node Id) (env : RegisterEnv Id) (r : FoldResult Id) :
    AnnounceFrame s (s.afterLocation H env r) := by
  unfold afterLocation
  rw [handleReplicateChunkLocation_eq]
  have hrec := announceFrame_recordGeneration s env r.location (some r.slot.1) (some r.generation)
  cases s.registered H env r.location with
  | none => exact hrec
  | some m =>
    generalize s.recordGeneration env r.location (some r.slot.1) (some r.generation) = view at hrec ⊢
    have hput : AnnounceFrame view (view.putChunkLocation m) := ⟨rfl, rfl, rfl, rfl, fun _ => rfl⟩
    exact hrec.trans (hput.trans (announceFrame_update _ _ _ _ _).1)

lemma contest_location (s : Node Id) (env : RegisterEnv Id) (r : FoldResult Id) (hfile : s.fileRecentlyDeleted r.slot.1 = false) :
    (s.afterLocation H env r).contest r.slot r.location.chunkId
      = ((s.contest r.slot r.location.chunkId).recorded env r.generation).offer? env r.slot (s.registered H env r.location) := by
  unfold afterLocation
  rw [handleReplicateChunkLocation_eq, ← contest_recordGeneration hfile r.offset]
  cases hreg : s.registered H env r.location with
  | none => rfl
  | some m =>
    obtain ⟨hid, hidx⟩ := registered_some hreg r.offset
    have hdel := (announceFrame_recordGeneration s env r.location (some r.slot.1) (some r.generation)).deleted r.slot.1
    rw [hfile] at hdel
    generalize s.recordGeneration env r.location (some r.slot.1) (some r.generation) = view at hdel ⊢
    have hupd := @contest_update _ _ m (view.putChunkLocation m) env r.slot hdel hidx
    rw [hid] at hupd
    exact hupd.trans (congrArg (fun c => offer c env r.slot m) (contest_congr rfl rfl rfl rfl))

lemma afterFold_eq (s : Node Id) (env : RegisterEnv Id) (r : FoldResult Id) : s.afterFold env r =
    { ((s.foldRecorded r).chunkMapUpdateLocationForFile env.durabilityFloor env.seqReadable r.slot.1 r.location).1 with
      pendingPatchIds := update s.pendingPatchIds r.publicToken (some r.slot) } := by
  have hpend := (announceFrame_update (s.foldRecorded r) env.durabilityFloor env.seqReadable r.slot.1
    r.location).1.pendingPatchIds
  unfold afterFold handleReplicatePatchFold
  simp only [some_or, isSome_of_slotOf r.offset, if_true, hpend]
  rfl

lemma contest_patchFold (s : Node Id) (env : RegisterEnv Id) (r : FoldResult Id)
    (hfile : s.fileRecentlyDeleted r.slot.1 = false) : (s.afterFold env r).contest r.slot r.location.chunkId =
      (s.contest r.slot r.location.chunkId).fold.offer env r.slot r.location := by
  rw [afterFold_eq, ← contest_recordFold r.publicToken]
  have hdel : (s.foldRecorded r).fileRecentlyDeleted r.slot.1 = false := hfile
  exact (contest_congr rfl rfl rfl rfl).trans (contest_update hdel r.offset)

end Handlers

/-! ## The two orders -/

section Orders

variable (c : Contest Id) (env : RegisterEnv Id) (slot : Slot) (g : Nat) (loc : ChunkLocation Id)
  (stored : Option (ChunkLocation Id))

/-- By the stored record, or as a fold result with its generation. -/
def Contest.TakesLocationFirst : Prop :=
  (∃ m, stored = some m ∧ (c.recorded env g).wins env slot m = true) ∨ (c.recorded env g).fold.wins env slot loc = true

/-- As a fold result without its generation, or then by the stored record. -/
def Contest.TakesFoldFirst : Prop :=
  c.fold.wins env slot loc = true ∨ ∃ m, stored = some m ∧ ((c.fold.backfill env slot).recorded env g).wins env slot m = true

variable {c env slot g loc stored}

lemma Contest.occupant_offer (record : ChunkLocation Id) :
    (c.offer env slot record).occupant = if c.wins env slot record then some record else c.occupant := by
  unfold offer
  split <;> rfl

lemma Contest.wins_of_occupant (hocc : c.occupant = some x) (hid : x.chunkId = record.chunkId) :
    c.wins env slot record = true := by
  simp [Contest.wins, hocc, hid]

lemma Contest.occupant_of_not_wins (h : c.wins env slot record ≠ true) :
    ∃ x, c.occupant = some x ∧ x.chunkId ≠ record.chunkId := by
  cases hocc : c.occupant with
  | none =>
    simp [Contest.wins, hocc] at h
  | some x =>
    exact ⟨x, rfl, fun hid => h (c.wins_of_occupant hocc hid)⟩

lemma Contest.wins_backfill (record : ChunkLocation Id) :
    (c.backfill env slot).wins env slot record = c.wins env slot record := by
  have hgen : (c.backfill env slot).backfilledGen env slot = c.backfilledGen env slot := by
    unfold backfill backfilledGen
    cases c.rivalGen <;> simp
  unfold Contest.wins
  rw [hgen]
  rfl

section

variable (hstored : ∀ m, stored = some m → m.chunkId = loc.chunkId)

include hstored

lemma Contest.occupant_locationFirst : (c.TakesLocationFirst env slot g loc stored →
      ((((c.recorded env g).offer? env slot stored).fold).offer env slot loc).occupant = some loc) ∧
    (¬c.TakesLocationFirst env slot g loc stored →
      ((((c.recorded env g).offer? env slot stored).fold).offer env slot loc).occupant = c.occupant) := by
  unfold TakesLocationFirst
  rw [occupant_offer]
  cases hs : stored with
  | none =>
    constructor
    · rintro (⟨m, hm, -⟩ | hwins)
      · cases hm
      · exact if_pos hwins
    · intro hnot
      exact if_neg fun hwins => hnot (.inr hwins)
  | some m =>
    have hid := hstored m hs
    by_cases hm : (c.recorded env g).wins env slot m = true
    · -- the stored record took the slot, and the fold's own location replaces it
      have hocc : (((c.recorded env g).offer? env slot (some m)).fold).occupant = some m := by
        show ((c.recorded env g).offer env slot m).occupant = some m
        rw [occupant_offer, if_pos hm]
      exact ⟨fun _ => if_pos (wins_of_occupant hocc hid), fun hnot => absurd (.inl ⟨m, rfl, hm⟩) hnot⟩
    have hfold : ((c.recorded env g).offer? env slot (some m)).fold = ((c.recorded env g).fold).backfill env slot := by
      show ((c.recorded env g).offer env slot m).fold = _
      unfold offer
      rw [if_neg hm]
      rfl
    rw [hfold, wins_backfill]
    constructor
    · rintro (⟨m', hm', hwins⟩ | hwins)
      · cases hm'
        exact absurd hwins hm
      · exact if_pos hwins
    · intro hnot
      exact if_neg fun hwins => hnot (.inr hwins)

lemma Contest.occupant_foldFirst : (c.TakesFoldFirst env slot g loc stored →
      ((((c.fold).offer env slot loc).recorded env g).offer? env slot stored).occupant = some (stored.getD loc)) ∧
    (¬c.TakesFoldFirst env slot g loc stored →
      ((((c.fold).offer env slot loc).recorded env g).offer? env slot stored).occupant = c.occupant) := by
  unfold TakesFoldFirst
  by_cases hfold : c.fold.wins env slot loc = true
  · have hocc : (((c.fold).offer env slot loc).recorded env g).occupant = some loc := by
      show ((c.fold).offer env slot loc).occupant = some loc
      rw [occupant_offer, if_pos hfold]
    refine ⟨fun _ => ?_, fun hnot => absurd (.inl hfold) hnot⟩
    cases hs : stored with
    | none => exact hocc
    | some m =>
      show ((((c.fold).offer env slot loc).recorded env g).offer env slot m).occupant = some m
      rw [occupant_offer, if_pos (wins_of_occupant hocc (hstored m hs).symm)]
  · have hback : (c.fold).offer env slot loc = c.fold.backfill env slot := by
      unfold offer
      rw [if_neg hfold]
    rw [hback]
    cases hs : stored with
    | none =>
      refine ⟨?_, fun _ => rfl⟩
      rintro (hwins | ⟨m, hm, -⟩)
      · exact absurd hwins hfold
      · cases hm
    | some m =>
      show (_ → (((c.fold.backfill env slot).recorded env g).offer env slot m).occupant = some m) ∧
        (_ → (((c.fold.backfill env slot).recorded env g).offer env slot m).occupant = c.occupant)
      rw [occupant_offer]
      constructor
      · rintro (hwins | ⟨m', hm', hwins⟩)
        · exact absurd hwins hfold
        cases hm'
        exact if_pos hwins
      · intro hnot
        exact if_neg fun hwins => hnot (.inr ⟨m, rfl, hwins⟩)

lemma Contest.orders_same_iff {stored' : Option (ChunkLocation Id)} (hstored' : ∀ m, stored' = some m → m.chunkId = loc.chunkId) :
    (((((c.recorded env g).offer? env slot stored).fold).offer env slot loc).occupant
        = ((((c.fold).offer env slot loc).recorded env g).offer? env slot stored').occupant ↔
      (c.TakesLocationFirst env slot g loc stored ↔ c.TakesFoldFirst env slot g loc stored') ∧
        (c.TakesLocationFirst env slot g loc stored → ∀ m, stored' = some m → m = loc)) ∧
    (((((c.recorded env g).offer? env slot stored).fold).offer env slot loc).occupant.map (·.chunkId)
        = ((((c.fold).offer env slot loc).recorded env g).offer? env slot stored').occupant.map (·.chunkId) ↔
      (c.TakesLocationFirst env slot g loc stored ↔ c.TakesFoldFirst env slot g loc stored')) := by
  obtain ⟨htaken, hkept⟩ := @occupant_locationFirst _ _ c env slot g loc stored hstored
  obtain ⟨htaken', hkept'⟩ := @occupant_foldFirst _ _ c env slot g loc stored' hstored'
  have hid : (stored'.getD loc).chunkId = loc.chunkId := by
    cases hs : stored' with
    | none => rfl
    | some m => exact hstored' m hs
  by_cases h1 : c.TakesLocationFirst env slot g loc stored <;> by_cases h2 : c.TakesFoldFirst env slot g loc stored'
  · rw [htaken h1, htaken' h2]
    simp only [h1, h2, true_and, true_imp_iff, map_some, hid, some.injEq]
    refine ⟨⟨?_, ?_⟩, trivial⟩
    · rintro heq m rfl
      exact heq.symm
    · intro hall
      cases hs : stored' with
      | none => rfl
      | some m => exact (hall m hs).symm
  · -- only the location's order takes the slot: the other keeps an occupant of another chunk
    obtain ⟨x, hx, hne⟩ := occupant_of_not_wins fun h => h2 (.inl h)
    have hocc : c.occupant = some x := hx
    rw [htaken h1, hkept' h2, hocc]
    simp only [h1, h2, iff_false, not_true, false_and, map_some, some.injEq]
    exact ⟨fun heq => hne (heq ▸ rfl), fun heq => hne heq.symm⟩
  · obtain ⟨x, hx, hne⟩ := occupant_of_not_wins fun h => h1 (.inr h)
    have hocc : c.occupant = some x := hx
    rw [hkept h1, htaken' h2, hocc]
    simp only [h1, h2, iff_true, false_and, map_some, some.injEq, hid, iff_false]
    exact ⟨fun heq => hne (heq ▸ hid), hne⟩
  · rw [hkept h1, hkept' h2]
    simp [h1, h2]

end

end Orders

/-- The same occupant, token's row and aliases. -/
def SameForFold (r : FoldResult Id) (s s' : Node Id) : Prop :=
  s.occupant r.slot = s'.occupant r.slot ∧ s.patchState r.publicToken = s'.patchState r.publicToken ∧
    s.pendingPatchIds r.publicToken = s'.pendingPatchIds r.publicToken ∧
    s.retiredChunkAliases r.publicToken = s'.retiredChunkAliases r.publicToken

/-- With the generation and sequence recorded the chunk takes the slot exactly if it does without, or then with them. -/
def Node.FoldAgrees (r : FoldResult Id) : Prop :=
  (s.contest r.slot r.location.chunkId).TakesLocationFirst env r.slot r.generation r.location (s.registered H env r.location) ↔
    (s.contest r.slot r.location.chunkId).TakesFoldFirst env r.slot r.generation r.location
      ((s.foldRecorded r).registered H env r.location)

lemma aliases_commute (foldWrite : Except String Unit) (r : FoldResult Id) :
    (s.locationThenFold H env foldWrite r).patchState r.publicToken =
      (s.foldThenLocation H env foldWrite r).patchState r.publicToken ∧
      (s.locationThenFold H env foldWrite r).pendingPatchIds r.publicToken
        = (s.foldThenLocation H env foldWrite r).pendingPatchIds r.publicToken ∧
      (s.locationThenFold H env foldWrite r).retiredChunkAliases r.publicToken
        = (s.foldThenLocation H env foldWrite r).retiredChunkAliases r.publicToken := by
  cases foldWrite with
  | error e => exact ⟨rfl, rfl, rfl⟩
  | ok _ =>
    have hfold (t : Node Id) : (t.afterFold env r).patchState r.publicToken = some (.folded r.location.chunkId) ∧
        (t.afterFold env r).pendingPatchIds r.publicToken = some r.slot ∧
        (t.afterFold env r).retiredChunkAliases = t.retiredChunkAliases := by
      rw [afterFold_eq]
      have hframe := (announceFrame_update (t.foldRecorded r) env.durabilityFloor env.seqReadable r.slot.1 r.location).1
      exact ⟨(congrFun hframe.patchState _).trans (update_self ..), update_self .., hframe.retiredChunkAliases⟩
    have hloc (t : Node Id) := announceFrame_location H t env r
    have hboth := hfold (s.afterLocation H env r)
    refine ⟨hboth.1.trans ?_, hboth.2.1.trans ?_, (congrFun hboth.2.2 _).trans ?_⟩
    · exact ((congrFun (hloc _).patchState _).trans (hfold s).1).symm
    · exact ((congrFun (hloc _).pendingPatchIds _).trans (hfold s).2.1).symm
    · rw [(hloc s).retiredChunkAliases, ← (hfold s).2.2]
      exact (congrFun (hloc _).retiredChunkAliases _).symm

lemma occupants_deleted {s : Node Id} (hfile : s.fileRecentlyDeleted r.slot.1 = true) :
    (s.locationThenFold H env (.ok ()) r).occupant r.slot = s.occupant r.slot ∧
      (s.foldThenLocation H env (.ok ()) r).occupant r.slot = s.occupant r.slot := by
  have hupdate (t : Node Id) (record : ChunkLocation Id) (ht : t.fileRecentlyDeleted r.slot.1 = true) :
      (t.chunkMapUpdateLocationForFile env.durabilityFloor env.seqReadable r.slot.1 record).1 = t := by
    unfold Node.chunkMapUpdateLocationForFile
    rw [if_pos ht]
  have hloc (t : Node Id) (ht : t.fileRecentlyDeleted r.slot.1 = true) : (t.afterLocation H env r).chunkMap = t.chunkMap := by
    obtain ⟨seqs, gens, heq⟩ := recordGeneration_eq t env r.location (some r.slot.1) (some r.generation)
    unfold afterLocation
    rw [handleReplicateChunkLocation_eq, heq]
    cases t.registered H env r.location with
    | none => rfl
    | some m =>
      dsimp only [elim_some]
      rw [hupdate ((t.setSequences seqs gens).putChunkLocation m) m ht]
      rfl
  have hfold (t : Node Id) (ht : t.fileRecentlyDeleted r.slot.1 = true) : (t.afterFold env r).chunkMap = t.chunkMap ∧
      (t.afterFold env r).fileRecentlyDeleted r.slot.1 = true := by
    rw [afterFold_eq, hupdate (t.foldRecorded r) _ ht]
    exact ⟨rfl, ht⟩
  constructor
  · have hdel := ((announceFrame_location H s env r).deleted r.slot.1).trans hfile
    exact (occupant_congr (hfold _ hdel).1 r.slot).trans (occupant_congr (hloc s hfile) r.slot)
  · obtain ⟨hmap, hdel⟩ := hfold s hfile
    exact (occupant_congr (hloc _ hdel) r.slot).trans (occupant_congr hmap r.slot)

lemma occupants_live {s : Node Id} (hfile : s.fileRecentlyDeleted r.slot.1 = false) :
    (s.locationThenFold H env (.ok ()) r).occupant r.slot
        = (((((s.contest r.slot r.location.chunkId).recorded env r.generation).offer? env r.slot
          (s.registered H env r.location)).fold).offer env r.slot r.location).occupant ∧
      (s.foldThenLocation H env (.ok ()) r).occupant r.slot
        = (((((s.contest r.slot r.location.chunkId).fold).offer env r.slot r.location).recorded env r.generation).offer?
          env r.slot
          ((s.foldRecorded r).registered H env r.location)).occupant := by
  constructor
  · have hcontest := contest_patchFold _ env r (((announceFrame_location H s env r).deleted r.slot.1).trans hfile)
    rw [contest_location H s env r hfile] at hcontest
    exact congrArg Contest.occupant hcontest
  · obtain ⟨hframe, htable⟩ := announceFrame_update (s.foldRecorded r) env.durabilityFloor env.seqReadable r.slot.1 r.location
    have hnode := afterFold_eq s env r
    have hdel : (s.afterFold env r).fileRecentlyDeleted r.slot.1 = false := by
      rw [hnode]
      exact (hframe.deleted r.slot.1).trans hfile
    have hreg : (s.afterFold env r).registered H env r.location = (s.foldRecorded r).registered H env r.location := by
      rw [hnode]
      exact registered_congr H r.location hframe.patchState hframe.patchStateSlot htable
    have hcontest := contest_location H _ env r hdel
    rw [hreg, contest_patchFold s env r hfile] at hcontest
    exact congrArg Contest.occupant hcontest

/-- A later token has slot 0 of file 7: generation 9, write sequence 5. -/
def laterToken : ChunkLocation FreeId := ⟨.token (.content [2] 0 7), [1, 2], 4, some 0, some 50, some 5, some 7⟩

/-- A fold of earlier patches: generation 8, write sequence 5. -/
def olderFold : FoldResult FreeId where
  publicToken := .token (.content [1] 0 7)
  slot := (7, 0)
  location := ⟨.content [9, 9] 0 7, [1, 2], 2, some 0, some 60, some 5, some 7⟩
  generation := 8
  offset := rfl

def laterTokenNode : Node FreeId :=
  { Node.empty with
    chunkMap := fun f => if f = 7 then some ([laterToken], 0) else none
    chunkGenerations := fun id => if id = laterToken.chunkId then some 9 else none }

end Dfs
