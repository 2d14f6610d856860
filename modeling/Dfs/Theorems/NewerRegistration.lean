import Dfs.Theorems.SlotContest
import Mathlib.Data.List.Nodup
import Mathlib.Data.List.Perm.Subperm

/-!
# Is a newer registration kept?

The row that the table has for the identity can drop the registration or lower its rank
(`returned_identity_is_dropped`); the exact condition is `newer_registration_kept_iff`.
-/

namespace Dfs

open KeyedList Option Node FreeId

variable {Id : Type} [DecidableEq Id]

/-- The occupant is of its identity, or supersedes it in the eyes of `view`. -/
def Node.KeepsRegistration (s view : Node Id) (floor : Nat) (slot : Slot) (loc : ChunkLocation Id) : Prop :=
  ∃ o, s.occupant slot = some o ∧ (o.chunkId = loc.chunkId ∨ view.supersedes floor o loc = true)

section Newer

variable (s : Node Id) (env : RegisterEnv Id) (slot : Slot) (occ : ChunkLocation Id)

/-- What may stop a location that supersedes the occupant once its row has given it its nodes, stamp and sequence: the
row's nodes are too few, the credited generation is later, or the row's stamp loses a tie. -/
structure Node.StaysNewer (loc : ChunkLocation Id) (row : Option (ChunkLocation Id)) (count : Nat) : Prop where
  nodes : s.foldResultChunkIds loc.chunkId = true ∨ env.durabilityFloor ≤ count ∨ occ.nodes.length ≤ count
  generation : ∀ g ∈ s.chunkGenerations loc.chunkId, ∀ g' ∈ s.credited env slot occ.chunkId, g' ≤ g
  stamp : (∀ g ∈ s.chunkGenerations loc.chunkId, ∀ g' ∈ s.credited env slot occ.chunkId, g' = g) →
    loc.clientWriteSeq.or (row.bind (·.clientWriteSeq)) = occ.clientWriteSeq →
    s.foldResultChunkIds loc.chunkId = s.foldResultChunkIds occ.chunkId →
    ∀ w ∈ row.bind (·.writtenAt), occ.writtenAt.getD 0 ≤ w

variable {s env slot occ} {loc m : ChunkLocation Id}

/-- The merged record wins exactly if nothing it has from the row undoes that the location is newer. -/
theorem wins_iff_staysNewer (row : Option (ChunkLocation Id))
    (hsup : s.supersedes env.durabilityFloor loc occ = true) (hid : m.chunkId = loc.chunkId)
    (hseq : m.clientWriteSeq = loc.clientWriteSeq.or (row.bind (·.clientWriteSeq)))
    (hrow : ∀ w ∈ row.bind (·.writtenAt), m.writtenAt = some w)
    (hnone : row.bind (·.writtenAt) = none → loc.writtenAt.getD 0 ≤ m.writtenAt.getD 0) :
    s.wins env slot occ m = true ↔ occ.chunkId = loc.chunkId ∨ s.StaysNewer env slot occ loc row m.nodes.length := by
  unfold wins
  rw [Bool.or_eq_true, decide_eq_true_iff, hid, locationSupersedes_iff]
  refine or_congr_right ⟨fun h => ⟨h.1, h.2.1, fun hsame heq hfold w hw => ?_⟩,
    fun h => ⟨h.nodes, h.generation, fun hsame => ?_⟩⟩
  · rw [← hseq] at heq
    rcases h.2.2 hsame with ⟨p, hp, hlt⟩ | ⟨-, htie⟩
    · exact absurd (hlt p (heq ▸ hp)) (lt_irrefl p)
    · rcases foldThenWrittenAt_iff.mp htie with ⟨h, h'⟩ | ⟨-, hle⟩
      · rw [h, h'] at hfold
        cases hfold
      · rwa [hrow w hw, getD_some] at hle
  · -- the generations known to the table are among the credited ones
    have hraw : ∀ g ∈ s.chunkGenerations loc.chunkId, ∀ g' ∈ s.chunkGenerations occ.chunkId, g' = g :=
      fun g hg g' hg' => hsame g hg g' (by rw [credited, mem_def.mp hg', some_or]; rfl)
    rw [hseq]
    rcases (locationSupersedes_iff.mp hsup).2.2 hraw with ⟨p, hp, hlt⟩ | ⟨heq, htie⟩
    · exact .inl ⟨p, by rw [mem_def.mp hp, some_or]; rfl, hlt⟩
    by_cases hor : loc.clientWriteSeq.or (row.bind (·.clientWriteSeq)) = occ.clientWriteSeq
    · refine .inr ⟨hor, foldThenWrittenAt_iff.mpr ?_⟩
      refine (foldThenWrittenAt_iff.mp htie).imp_right fun hold => ⟨hold.1, ?_⟩
      cases hw : row.bind (·.writtenAt) with
      | none => exact hold.2.trans (hnone hw)
      | some w => rw [hrow w hw, getD_some]; exact h.stamp hsame hor hold.1 w hw
    · rw [← heq] at hor ⊢
      cases hl : loc.clientWriteSeq with
      | some p => simp [hl] at hor
      | none =>
        rw [hl, none_or] at hor
        obtain ⟨p, hp⟩ := ne_none_iff_exists'.mp hor
        exact .inl ⟨p, hp, by simp⟩

end Newer

/-! ## One location -/

section Single

variable (H : ChunkHash Id) (s : Node Id) (env : RegisterEnv Id) (loc : ChunkLocation Id)

/-- How many nodes the location has after the merge with its row. -/
def Node.mergedCount : Nat := match s.readRow env loc.chunkId with
  | none => loc.nodes.length
  | some row =>
    if loc.nodes.length < env.replicationFactor then (unionNodes row.nodes loc.nodes).length
    else if row.writtenAt.getD 0 ≤ loc.writtenAt.getD env.nowMs then loc.nodes.length else row.nodes.length

/-- It is not taken for a retired token, and has not too few nodes for a row that has enough. -/
def Node.Registers : Prop :=
  s.isSupersededTokenLocation H env loc = false ∧ ∀ row ∈ s.readRow env loc.chunkId,
    ¬(loc.nodes.length < env.replicationFactor ∧ env.replicationFactor ≤ row.nodes.length)

variable {H s env loc} {file : FileId}

lemma registers_iff {slot : Slot} {occ : ChunkLocation Id} (hsup : s.supersedes env.durabilityFloor loc occ = true) :
    (s.isSupersededTokenLocation H env loc = false ∧
      ∃ m, mergeReplicatedChunkLocation loc (s.readRow env loc.chunkId) env.replicationFactor env.nowMs = some m ∧
        s.wins env slot occ m = true) ↔
      s.Registers H env loc ∧ (occ.chunkId = loc.chunkId ∨
        s.StaysNewer env slot occ loc (s.readRow env loc.chunkId) (s.mergedCount env loc)) := by
  unfold Registers mergedCount
  rw [and_assoc]
  refine and_congr_right fun _ => ?_
  cases s.readRow env loc.chunkId with
  | none =>
    have hwins : s.wins env slot occ loc = true ↔ _ := wins_iff_staysNewer none hsup rfl (by simp) (by simp) (by simp)
    simpa [mergeReplicatedChunkLocation] using hwins
  | some row =>
    rw [mergeReplicatedChunkLocation_row]
    split
    · rename_i hdrop
      simp [hdrop]
    rename_i hkeep
    simp only [some.injEq, exists_eq_left', mem_some, forall_eq', hkeep, not_false_eq_true, true_and]
    refine (wins_iff_staysNewer (some row) hsup ?_ ?_ ?_ ?_).trans ?_
    · rfl
    · rfl
    · intro w hw
      rw [show row.writtenAt = some w from hw, some_or]
    · intro hnone
      rw [show row.writtenAt = none from hnone]
      cases loc.writtenAt <;> simp
    · simp only [apply_ite List.length]

lemma occupant_handleReplicateChunkLocation {idx : Nat} {occ : ChunkLocation Id} {generation : Option Nat}
    (hfile : s.fileRecentlyDeleted file = false) (hidx : slotOf loc = some idx)
    (hocc : s.occupant (file, idx) = some occ) (hok : (s.handleReplicateChunkLocation H env loc (some file) generation).2 = .ok)
    (hsup : (s.recordGeneration env loc (some file) generation).supersedes env.durabilityFloor loc occ = true) :
    let view := s.recordGeneration env loc (some file) generation
    let taken := view.Registers H env loc ∧ (occ.chunkId = loc.chunkId ∨
      view.StaysNewer env (file, idx) occ loc (view.readRow env loc.chunkId) (view.mergedCount env loc))
    ∃ o, (s.handleReplicateChunkLocation H env loc (some file) generation).1.occupant (file, idx) = some o ∧
      ((o = occ ∧ ¬taken) ∨ (o.chunkId = loc.chunkId ∧ taken)) := by
  obtain ⟨seqs, gens, heq⟩ := recordGeneration_eq s env loc (some file) generation
  have hview : (s.recordGeneration env loc (some file) generation).occupant (file, idx) = some occ := by
    rw [heq]
    exact hocc
  have hdel : (s.recordGeneration env loc (some file) generation).fileRecentlyDeleted file = false := by
    rw [heq]
    exact hfile
  unfold handleReplicateChunkLocation at hok ⊢
  generalize s.recordGeneration env loc (some file) generation = view at hview hdel hok hsup ⊢
  dsimp only at hok ⊢
  rw [← registers_iff hsup]
  split
  · rename_i htoken
    exact ⟨occ, hview, .inl ⟨rfl, fun h => by simp [h.1] at htoken⟩⟩
  rename_i htoken
  rw [if_neg htoken] at hok
  cases hm : mergeReplicatedChunkLocation loc (view.readRow env loc.chunkId) env.replicationFactor env.nowMs with
  | none => exact ⟨occ, hview, .inl ⟨rfl, by simp⟩⟩
  | some m =>
    rw [hm] at hok
    dsimp only at hok ⊢
    cases hw : env.rowWrite with
    | error e =>
      rw [hw] at hok
      cases hok
    | ok _ =>
      obtain ⟨hid, hoff⟩ := mergeReplicatedChunkLocation_some hm
      have hmidx : slotOf m = some idx := by
        rw [slotOf, hoff (isSome_of_slotOf hidx)]
        exact hidx
      have hput : (view.putChunkLocation m).occupant (file, idx) = some occ := hview
      have hres := occupant_chunkMapUpdateLocationForFile env.durabilityFloor env.seqReadable
        (show (view.putChunkLocation m).fileRecentlyDeleted file = false from hdel) hmidx
      rw [hput, merged, arbitrateBy_backfilled env hput] at hres
      refine ⟨view.contend env (file, idx) occ m, hres, ?_⟩
      simp only [some.injEq, exists_eq_left', htoken, true_and]
      unfold contend
      by_cases h : view.wins env (file, idx) occ m = true
      · exact .inr ⟨by rw [if_pos h, hid], h⟩
      · exact .inl ⟨if_neg h, h⟩

end Single

/-! ## A batch -/

section Batch

variable {s : Node Id} {env : RegisterEnv Id} {place : Id → Slot} {slot : Slot} {x y occ : ChunkLocation Id}

section Stored

variable (s : Node Id) (env : RegisterEnv Id) (loc : ChunkLocation Id)

/-- Is the location of an existing file, and has its row too few nodes? -/
def Node.stores : Bool :=
  s.isLiveLocation env loc && decide (((s.readRow env loc.chunkId).elim [] (·.nodes)).length < env.replicationFactor)

/-- What is stored of it: the row's nodes too while they are too few, the row's stamp, and its sequence if the
location has none. -/
def Node.stored : ChunkLocation Id :=
  let row := s.readRow env loc.chunkId
  { loc with
    nodes :=
      if loc.nodes.length < env.replicationFactor then unionNodes (row.elim [] (·.nodes)) loc.nodes else loc.nodes
    fileOffset := loc.fileOffset.or (row.bind (·.fileOffset))
    writtenAt := (row.bind (·.writtenAt)).or loc.writtenAt
    clientWriteSeq := loc.clientWriteSeq.or (row.bind (·.clientWriteSeq))
    fileId := loc.fileId.or (row.bind (·.fileId)) }

variable {loc}

omit [DecidableEq Id] in
lemma mergeBatchLocation_row : mergeBatchLocation loc (s.readRow env loc.chunkId) env.replicationFactor =
    if ((s.readRow env loc.chunkId).elim [] (·.nodes)).length < env.replicationFactor then some (s.stored env loc) else none := by
  unfold mergeBatchLocation stored
  cases s.readRow env loc.chunkId <;> simp <;> grind

omit [DecidableEq Id] in
lemma atPlace_mergeBatchLocation {existing : Option (ChunkLocation Id)} {rf : Nat} {m : ChunkLocation Id}
    (hloc : AtPlace place loc)
    (h : mergeBatchLocation loc existing rf = some m) : AtPlace place m ∧ m.chunkId = loc.chunkId := by
  obtain ⟨nodes, -, rfl⟩ := map_eq_some_iff.mp h
  obtain ⟨o, ho, hidx⟩ := map_eq_some_iff.mp hloc.2
  refine ⟨⟨?_, ?_⟩, rfl⟩
  · rw [hloc.1, some_or]
  · rw [slotOf, ho, some_or, map_some, hidx]

end Stored

/-- Where no two of a batch's locations for the slot are of one identity, each is stored over its row. -/
theorem pending_spec (env : RegisterEnv Id) {batch : Locations Id} (hplaces : ∀ l ∈ batch, AtPlace place l)
    (hids : batch.Pairwise fun a b => place a.chunkId = slot → place b.chunkId = slot → a.chunkId ≠ b.chunkId) :
    ((batch.foldl (s.pendingStep env) []).map (·.chunkId)).Nodup ∧ (∀ r ∈ batch.foldl (s.pendingStep env) [], AtPlace place r) ∧
      ∀ r, r ∈ batch.foldl (s.pendingStep env) [] ∧ place r.chunkId = slot ↔
        ∃ l ∈ batch, place l.chunkId = slot ∧ s.stores env l = true ∧ r = s.stored env l := by
  induction batch using List.reverseRecOn with
  | nil => simp
  | append_singleton batch loc ih =>
    obtain ⟨hids, -, hnew⟩ := List.pairwise_append.mp hids
    obtain ⟨hnodup, hat, hstored⟩ := ih (fun l hl => hplaces l (by simp [hl])) hids
    have hloc := hplaces loc (by simp)
    rw [List.foldl_append, List.foldl_cons, List.foldl_nil]
    generalize batch.foldl (s.pendingStep env) [] = pending at hnodup hat hstored ⊢
    have hmore (r : ChunkLocation Id) : (∃ l ∈ batch ++ [loc], place l.chunkId = slot ∧ s.stores env l = true ∧
      r = s.stored env l) ↔
        (r ∈ pending ∧ place r.chunkId = slot) ∨ place loc.chunkId = slot ∧ s.stores env loc = true ∧ r = s.stored env loc := by
      simp [hstored, or_and_right, exists_or]
    simp only [hmore]
    unfold pendingStep
    cases hlive : s.isLiveLocation env loc with
    | false => exact ⟨hnodup, hat, by simp [stores, hlive]⟩
    | true =>
      rw [if_pos rfl]
      have hexisting : place loc.chunkId = slot → pending.find? (fun p => decide (p.chunkId = loc.chunkId)) = none := by
        refine fun hslot => List.find?_eq_none.mpr fun r hr hid => ?_
        have hid : r.chunkId = loc.chunkId := of_decide_eq_true hid
        obtain ⟨l, hl, hls, -, rfl⟩ := (hstored r).mp ⟨hr, hid ▸ hslot⟩
        exact hnew l hl loc (by simp) hls hslot hid
      split
      · rename_i m hm
        obtain ⟨hplace, hid⟩ := atPlace_mergeBatchLocation hloc hm
        obtain ⟨hnodup', hmem⟩ := pendingInsert_spec hnodup m
        refine ⟨hnodup', by grind, fun r => ?_⟩
        rw [hmem]
        by_cases hslot : place loc.chunkId = slot
        · have hfind := List.find?_eq_none.mp (hexisting hslot)
          rw [hexisting hslot, none_or, mergeBatchLocation_row] at hm
          split at hm
          · rename_i hfew
            cases hm
            have hst : s.stores env loc = true := by simp [stores, hlive, hfew]
            grind
          · cases hm
        · grind
      · rename_i hm
        refine ⟨hnodup, hat, fun r => ?_⟩
        by_cases hslot : place loc.chunkId = slot
        · rw [hexisting hslot, none_or, mergeBatchLocation_row] at hm
          have hmany : ¬((s.readRow env loc.chunkId).elim [] (·.nodes)).length < env.replicationFactor := fun hfew => by
            rw [if_pos hfew] at hm
            cases hm
          simp [stores, hmany]
        · simp [hslot]

/-- Rivals, each of whom names its nodes once. -/
def Node.RivalReports (s : Node Id) (env : RegisterEnv Id) (slot : Slot) (a b : ChunkLocation Id) : Prop :=
  s.Rivals env slot a b ∧ a.nodes.Nodup ∧ b.nodes.Nodup

/-- The batch's locations of the slot are rivals. -/
def Node.RivalBatch (s : Node Id) (env : RegisterEnv Id) (place : Id → Slot) (slot : Slot) (batch : Locations Id) : Prop :=
  batch.Pairwise fun a b => place a.chunkId = slot → place b.chunkId = slot → s.RivalReports env slot a b

omit [DecidableEq Id] in
lemma Node.RivalBatch.reports {batch : Locations Id} (h : s.RivalBatch env place slot batch) (hx : x ∈ batch) (hy : y ∈ batch)
    (hxs : place x.chunkId = slot) (hys : place y.chunkId = slot) (hne : x ≠ y) : s.RivalReports env slot x y := by
  have : Std.Symm fun a b => place a.chunkId = slot → place b.chunkId = slot → s.RivalReports env slot a b :=
    ⟨fun a b h hb ha => ⟨(h ha hb).1.symm, (h ha hb).2.symm⟩⟩
  exact h.forall hx hy hne hxs hys

omit [DecidableEq Id] in
lemma stored_seq {l : ChunkLocation Id} {p : Nat} (h : l.clientWriteSeq = some p) : (s.stored env l).clientWriteSeq = some p := by
  simp [Node.stored, h]

omit [DecidableEq Id] in
lemma Node.RivalReports.stored (h : s.RivalReports env slot x y) : s.Rivals env slot (s.stored env x) (s.stored env y) := by
  have hnodes {l : ChunkLocation Id} (hd : l.nodes.Nodup) (hl : env.durabilityFloor ≤ l.nodes.length) :
      env.durabilityFloor ≤ (s.stored env l).nodes.length := by
    refine hl.trans ?_
    dsimp only [Node.stored]
    split
    · exact (hd.subperm (unionNodes_spec _ _).2).length_le
    · exact le_rfl
  exact h.1.congr rfl rfl (fun p => stored_seq) (fun p => stored_seq) ⟨hnodes h.2.1 h.1.nodes.1, hnodes h.2.2 h.1.nodes.2⟩

/-- What a batch leaves in a slot: the occupant where nothing that is stored takes the slot from it, or else the latest. -/
theorem occupant_handleReplicateChunkLocations {batch : Locations Id} {wantReceipts : Bool} (hs : s.Placed place)
    (halive : s.fileRecentlyDeleted slot.1 = false) (hocc : s.occupant slot = some occ) (hplaces : ∀ l ∈ batch, AtPlace place l)
    (hrivals : s.RivalBatch env place slot batch)
    (hok : (s.handleReplicateChunkLocations env batch wantReceipts).2 = .ok) :
    ((s.handleReplicateChunkLocations env batch wantReceipts).1.occupant slot = some occ ∧
      ∀ l ∈ batch, place l.chunkId = slot → s.stores env l = true → s.wins env slot occ (s.stored env l) = false) ∨
    ∃ l ∈ batch, place l.chunkId = slot ∧ s.stores env l = true ∧
      (s.handleReplicateChunkLocations env batch wantReceipts).1.occupant slot = some (s.stored env l) ∧
      s.wins env slot occ (s.stored env l) = true ∧ ∀ l' ∈ batch, place l'.chunkId = slot → s.stores env l' = true →
        ∀ p' ∈ l'.clientWriteSeq, ∀ p ∈ l.clientWriteSeq, p' ≤ p := by
  obtain ⟨hnodup, hat, hstored⟩ := @pending_spec _ _ s place slot env batch hplaces (hrivals.imp fun h ha hb => (h ha hb).1.ids)
  have hperm := env.arrange_perm (batch.foldl (s.pendingStep env) [])
  have hmem (r : ChunkLocation Id) : r ∈ (s.toCommit env batch).filter (fun r => place r.chunkId = slot) ↔
      ∃ l ∈ batch, place l.chunkId = slot ∧ s.stores env l = true ∧ r = s.stored env l := by
    rw [List.mem_filter, decide_eq_true_iff, ← hstored]
    exact and_congr_left fun _ => hperm.mem_iff
  have hrival {l l' : ChunkLocation Id} (hl : l ∈ batch) (hls : place l.chunkId = slot) (hl' : l' ∈ batch)
      (hls' : place l'.chunkId = slot) (hne : s.stored env l ≠ s.stored env l') :
      s.Rivals env slot (s.stored env l) (s.stored env l') :=
    (hrivals.reports hl hl' hls hls' fun h => hne (h ▸ rfl)).stored
  have hpair : ((s.toCommit env batch).filter fun r => place r.chunkId = slot).Pairwise (s.Rivals env slot) := by
    refine (((hperm.nodup_iff).mpr hnodup.of_map).filter _).pairwise_of_forall_ne fun a ha b hb hne => ?_
    obtain ⟨l, hl, hls, -, rfl⟩ := (hmem a).mp ha
    obtain ⟨l', hl', hls', -, rfl⟩ := (hmem b).mp hb
    exact hrival hl hls hl' hls' hne
  have hfinal : (s.handleReplicateChunkLocations env batch wantReceipts).1.occupant slot =
      (((s.toCommit env batch).foldl putChunkLocation s).commitEach env (s.toCommit env batch)).occupant slot := by
    rw [← commitAll_fst]
    unfold handleReplicateChunkLocations at hok ⊢
    dsimp only at hok ⊢
    cases hw : env.rowWrite with
    | error e =>
      rw [hw] at hok
      cases hok
    | ok _ =>
      dsimp only
      split <;> rfl
  have hwinner := winner_commitEach hs halive (fun r hr => hat r (hperm.mem_iff.mp hr)) hpair
  rw [← toCommit, ← hfinal] at hwinner
  rcases hwinner with ⟨hnil, hleft⟩ | ⟨a, ha, hleft, hlatest⟩ <;> rw [hocc] at hleft
  · refine .inl ⟨hleft, fun l hl hls hst => ?_⟩
    have hnone := (hmem _).mpr ⟨l, hl, hls, hst, rfl⟩
    rw [hnil] at hnone
    cases hnone
  obtain ⟨l, hl, hls, hst, rfl⟩ := (hmem a).mp ha
  rw [merged, contend] at hleft
  by_cases hwins : s.wins env slot occ (s.stored env l) = true
  · rw [if_pos hwins] at hleft
    refine .inr ⟨l, hl, hls, hst, hleft, hwins, fun l' hl' hls' hst' p' hp' p hp => ?_⟩
    rcases hlatest _ ((hmem _).mpr ⟨l', hl', hls', hst', rfl⟩) with hsame | ⟨a, b, ha, hb, hlt⟩
    · exact (some.inj ((stored_seq hp').symm.trans (hsame ▸ stored_seq hp))).le
    · rw [stored_seq hp', some.injEq] at ha
      rw [stored_seq hp, some.injEq] at hb
      omega
  · rw [if_neg hwins] at hleft
    refine .inl ⟨hleft, fun l' hl' hls' hst' => Bool.not_eq_true _ ▸ fun hwins' => ?_⟩
    rcases hlatest _ ((hmem _).mpr ⟨l', hl', hls', hst', rfl⟩) with hsame | ⟨a, b, ha, hb, hlt⟩
    · exact hwins (hsame ▸ hwins')
    · have hne : s.stored env l' ≠ s.stored env l := fun h => by
        rw [h, hb, some.injEq] at ha
        omega
      exact hwins (((hrival hl' hls' hl hls hne).wins ha hb hlt).2.2 occ hocc hwins')

lemma batch_keeps_iff {batch : Locations Id} {wantReceipts : Bool} {loc : ChunkLocation Id} (hs : s.Placed place)
    (halive : s.fileRecentlyDeleted slot.1 = false) (hocc : s.occupant slot = some occ) (hmem : loc ∈ batch)
    (hplaces : ∀ l ∈ batch, AtPlace place l) (hloc : place loc.chunkId = slot) (hrivals : s.RivalBatch env place slot batch)
    (hsup : s.supersedes env.durabilityFloor loc occ = true)
    (hok : (s.handleReplicateChunkLocations env batch wantReceipts).2 = .ok) :
    (s.handleReplicateChunkLocations env batch wantReceipts).1.KeepsRegistration s env.durabilityFloor slot loc ↔
      (∃ l ∈ batch, place l.chunkId = slot ∧ s.stores env l = true ∧ ∃ q ∈ loc.clientWriteSeq, ∃ p ∈ l.clientWriteSeq, q < p) ∨
      s.stores env loc = true ∧ s.wins env slot occ (s.stored env loc) = true ∨ s.supersedes env.durabilityFloor occ loc = true ∨
      occ.chunkId = loc.chunkId ∧ ∀ l ∈ batch, place l.chunkId = slot → s.stores env l = true →
        s.wins env slot occ (s.stored env l) = false := by
  have hrival {l : ChunkLocation Id} (hl : l ∈ batch) (hls : place l.chunkId = slot) (hne : l ≠ loc) :
      s.RivalReports env slot l loc := hrivals.reports hl hmem hls hloc hne
  -- a later location than the registration takes the slot from the occupant, and supersedes the registration
  have hlater {l : ChunkLocation Id} {p q : Nat} (h : s.RivalReports env slot l loc) (hp : l.clientWriteSeq = some p)
      (hq : loc.clientWriteSeq = some q) (hlt : q < p) : s.wins env slot occ (s.stored env l) = true ∧
        s.supersedes env.durabilityFloor (s.stored env l) loc = true := by
    refine ⟨wins_of_later h.stored.generations.1 h.stored.nodes.1 (stored_seq hp) fun p' hp' => ?_, ?_⟩
    · rcases (locationSupersedes_iff.mp hsup).2.2 (by simp [h.1.generations.2.1]) with ⟨q', hq', hall⟩ | ⟨heq, -⟩
      · rw [hq, mem_some] at hq'
        exact (hall p' hp').trans (hq' ▸ hlt)
      · rw [← heq, hq, mem_some] at hp'
        exact hp' ▸ hlt
    · rw [supersedes, h.stored.generations.1]
      exact locationSupersedes_iff.mpr ⟨.inr (.inl h.stored.nodes.1), by simp,
        fun _ => .inl ⟨p, stored_seq hp, by simpa [hq] using hlt⟩⟩
  unfold KeepsRegistration
  rcases occupant_handleReplicateChunkLocations hs halive hocc hplaces hrivals hok with
    ⟨hleft, hlose⟩ | ⟨l, hl, hls, hst, hleft, hwins, hmax⟩ <;> simp only [hleft, some.injEq, exists_eq_left']
  · constructor
    · rintro (h | h)
      · exact .inr (.inr (.inr ⟨h, hlose⟩))
      · exact .inr (.inr (.inl h))
    · rintro (⟨l, hl, hls, hst, q, hq, p, hp, hlt⟩ | ⟨hst, hwins⟩ | h | h)
      · have hne : l ≠ loc := by
          rintro rfl
          rw [mem_def.mp hp, mem_some] at hq
          omega
        have hlost := hlose l hl hls hst
        rw [(hlater (hrival hl hls hne) hp hq hlt).1] at hlost
        cases hlost
      · have hlost := hlose loc hmem hloc hst
        rw [hwins] at hlost
        cases hlost
      · exact .inr h
      · exact .inl h.1
  · by_cases hne : l = loc
    · subst hne
      exact iff_of_true (.inl rfl) (.inr (.inl ⟨hst, hwins⟩))
    have hreports := hrival hl hls hne
    obtain ⟨p, q, hp, hq, hpq⟩ := hreports.1.seqs
    by_cases hlt : q < p
    · exact iff_of_true (.inr (hlater hreports hp hq hlt).2) (.inl ⟨l, hl, hls, hst, q, hq, p, hp, hlt⟩)
    -- what is left is older than the registration
    refine iff_of_false ?_ ?_
    · rintro (hid | hnewer)
      · exact hreports.1.ids hid
      rcases (locationSupersedes_iff.mp hnewer).2.2 (by simp [hreports.stored.generations.1]) with ⟨p', hp', hall⟩ | ⟨heq, -⟩
      · rw [stored_seq hp, mem_some] at hp'
        exact hlt (hp' ▸ hall q hq)
      · rw [stored_seq hp, hq, some.injEq] at heq
        exact hpq heq
    · rintro (⟨l', hl', hls', hst', q', hq', p', hp', hlt'⟩ | ⟨hst', -⟩ | h | h)
      · rw [hq, mem_some] at hq'
        exact absurd (hmax l' hl' hls' hst' p' hp' p hp) (by omega)
      · exact absurd (hmax loc hmem hloc hst' q hq p hp) (by omega)
      · obtain ⟨r, hr, hle⟩ : ∃ r, occ.clientWriteSeq = some r ∧ q ≤ r := by
          rcases (locationSupersedes_iff.mp h).2.2 (by simp [hreports.1.generations.2.1]) with ⟨r, hr, hall⟩ | ⟨heq, -⟩
          · exact ⟨r, hr, (hall q hq).le⟩
          · exact ⟨q, heq.trans hq, le_rfl⟩
        obtain ⟨p', hp', hle'⟩ := seq_le_of_wins hreports.stored.generations.1
          (fun hid => (hreports.stored.own occ hocc r hr).1 hid.symm) hr hwins
        rw [stored_seq hp, mem_some] at hp'
        omega
      · rw [h.2 l hl hls hst] at hwins
        cases hwins

end Batch

def byteWrite (b : UInt8) (nodes : List NodeId) (seq : Nat) : ChunkLocation FreeId :=
  ⟨.content [b] 0 7, nodes, 1, some 0, some seq, some seq, some 7⟩

/-- File 7 holds the byte 2 of sequence 5; the table may have a row of the byte before. -/
def rewrittenByte (row : Option (ChunkLocation FreeId)) : Node FreeId :=
  { Node.empty with
    chunkTable := fun id => if id = .content [1] 0 7 then row else none
    fileExists := fun f => decide (f = 7)
    chunkMap := fun f => if f = 7 then some ([byteWrite 2 [1, 2] 5], 5) else none }

lemma rewrittenByte_placed (row : Option (ChunkLocation FreeId)) : (rewrittenByte row).Placed place where
  sorted file := by
    unfold locsOf rewrittenByte
    dsimp only
    split <;> simp [Sorted]
  place_eq file l hl := by
    unfold locsOf rewrittenByte at hl
    dsimp only at hl
    split at hl
    · rename_i hf
      simp only [elim_some, List.mem_singleton] at hl
      subst hl hf
      rfl
    · simp at hl

end Dfs
