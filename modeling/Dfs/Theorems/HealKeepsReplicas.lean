import Dfs.Healing

/-!
# What a heal does to the routing record

A record misses a confirmed holder that left the registry, and a target that confirmed before the source lost the chunk
(`heal_keeps_replicas_iff`).
-/

namespace Dfs

open List HealEnv PushOutcome

variable {Id : Type}

/-! ## The loop over the targets -/

variable (pushes : List (NodeId × PushOutcome))

def madePushes : List (NodeId × PushOutcome) := pushes.takeWhile (fun p => decide (p.2 ≠ .notFound))

def confirmedTargets : List NodeId := ((madePushes pushes).filter (·.2.confirms)).map (·.1)

def SourceLost : Prop := ∃ p ∈ pushes, p.2 = .notFound

instance (pushes : List (NodeId × PushOutcome)) : Decidable (SourceLost pushes) :=
  inferInstanceAs (Decidable (∃ p ∈ pushes, p.2 = .notFound))

lemma sourceLost_cons (p : NodeId × PushOutcome) (rest : List (NodeId × PushOutcome)) :
    SourceLost (p :: rest) ↔ p.2 = .notFound ∨ SourceLost rest := by
  simp [SourceLost]

lemma confirmedTargets_cons (target : NodeId) {outcome : PushOutcome} (rest : List (NodeId × PushOutcome))
    (h : outcome ≠ .notFound) :
    confirmedTargets ((target, outcome) :: rest) = (if outcome.confirms then [target] else []) ++ confirmedTargets rest := by
  unfold confirmedTargets madePushes
  rw [takeWhile_cons, if_pos (by simpa using h), filter_cons]
  by_cases hc : outcome.confirms = true
  · simp [hc]
  · simp [hc]

lemma pushLoop_eq (replicated : List NodeId) : pushLoop pushes replicated =
      if SourceLost pushes then .sourceLost (replicated ++ confirmedTargets pushes)
      else .finished (replicated ++ confirmedTargets pushes) := by
  induction pushes generalizing replicated with
  | nil => simp [pushLoop, SourceLost, confirmedTargets, madePushes]
  | cons p rest ih =>
    obtain ⟨target, outcome⟩ := p
    cases outcome with
    | notFound => simp [pushLoop, sourceLost_cons, confirmedTargets, madePushes]
    | ok verify =>
      rw [confirmedTargets_cons _ _ (by simp)]
      by_cases hv : verify.holds = true
      · simp [pushLoop, sourceLost_cons, confirms, hv, ih]
      · simp [pushLoop, sourceLost_cons, confirms, hv, ih]
    | unregistered | other | failed =>
      rw [confirmedTargets_cons _ _ (by simp)]
      simp [pushLoop, sourceLost_cons, confirms, ih]

/-! ## The holders -/

variable {n : NodeId}

section Holders

variable (env : HealEnv Id) (confirmed : List NodeId)

def HealEnv.healPushes : List (NodeId × PushOutcome) := env.pushes (env.targets (env.alive confirmed))

/-- The scan confirmed the node, or it is this one with the chunk stored. -/
def HealEnv.Holder (n : NodeId) : Prop := n ∈ confirmed ∨ n = env.localId ∧ env.hasChunk = true

def HealEnv.ReportedMissing (n : NodeId) : Prop :=
  SourceLost (env.healPushes confirmed) ∧ env.sourceId (env.alive confirmed) = some n

def HealEnv.KnownHolder (n : NodeId) : Prop :=
  (env.Holder confirmed n ∧ ¬env.ReportedMissing confirmed n) ∨ n ∈ confirmedTargets (env.healPushes confirmed)

variable {env confirmed}

lemma HealEnv.mem_alive : n ∈ env.alive confirmed ↔ env.Holder confirmed n ∧ env.registered n = true := by
  unfold alive HealEnv.Holder localAddedViaFallback
  dsimp only
  split
  · rename_i h
    simp only [Bool.and_eq_true, Bool.not_eq_true', contains_eq_mem, decide_eq_false_iff_not] at h
    simp only [mem_append, List.mem_filter, List.mem_singleton]
    grind
  rename_i h
  simp only [Bool.and_eq_true, Bool.not_eq_true', contains_eq_mem, decide_eq_false_iff_not] at h
  simp only [List.mem_filter] at h ⊢
  grind

variable {alive : List NodeId}

lemma HealEnv.not_mem_alive_of_mem_targets (h : n ∈ env.targets alive) : n ∉ alive := by
  have hmem := mem_of_mem_take h
  simpa using (List.mem_filter.mp hmem).2

lemma HealEnv.mem_targets_of_confirmed {targets : List NodeId} (h : n ∈ confirmedTargets (env.pushes targets)) : n ∈ targets := by
  obtain ⟨p, hp, rfl⟩ := mem_map.mp h
  have hmade := (List.mem_filter.mp hp).1
  obtain ⟨t, ht, rfl⟩ := mem_map.mp ((takeWhile_sublist _).subset hmade)
  exact fst_mem_of_mem_zipIdx ht

lemma HealEnv.sourceId_isSome (h : alive ≠ []) : ∃ n, env.sourceId alive = some n := by
  have hne : env.preferredSources alive ≠ [] := by
    unfold preferredSources
    dsimp only
    split
    · exact h
    rename_i hr
    simpa using hr
  obtain ⟨a, l, ha⟩ := exists_cons_of_ne_nil hne
  unfold sourceId
  rw [ha]
  cases h : (a :: l).find? env.permit <;> simp

/-! ## What the heal returns -/

variable (env confirmed)

/-- An own copy is written down, the source lost the chunk, or a target confirmed and the commit goes ahead. -/
def HealEnv.Changes : Prop :=
  env.alive confirmed ≠ [] ∧
    ((env.needed (env.alive confirmed) = 0 ∧
        env.localAddedViaFallback (confirmed.filter env.registered) = true ∧ env.cancelled = false) ∨
      SourceLost (env.healPushes confirmed) ∨
      (confirmedTargets (env.healPushes confirmed) ≠ [] ∧ env.cancelled = false ∧ env.sourceCheck.holds = true))

def HealOutcome.LeavesRecord (o : HealOutcome Id) : Prop := o.locationPut = none ∧ o.locationDelete = none

/-- Nothing and it does not change the record, or the record is deleted as all its nodes are missing, or written. -/
inductive HealEnv.HealResult (chunkId : Id) : Except HealError (Option (HealOutcome Id)) → Prop
  | failed {e : HealError} (hnot : ¬env.Changes confirmed) : HealResult chunkId (.error e)
  | idle (hnot : ¬env.Changes confirmed) : HealResult chunkId (.ok none)
  | kept {o : HealOutcome Id} (ho : o.LeavesRecord) (hnot : ¬env.Changes confirmed) : HealResult chunkId (.ok (some o))
  | deleted {o : HealOutcome Id} (hput : o.locationPut = none) (hdel : o.locationDelete = some chunkId)
      (hch : env.Changes confirmed) (hall : ∀ n ∈ env.alive confirmed, env.ReportedMissing confirmed n) :
      HealResult chunkId (.ok (some o))
  | written {o : HealOutcome Id} {loc : ChunkLocation Id} (hput : o.locationPut = some loc) (hdel : o.locationDelete = none)
      (hch : env.Changes confirmed)
      (hnodes : ∀ n, n ∈ loc.nodes ↔ (n ∈ env.alive confirmed ∧ ¬env.ReportedMissing confirmed n) ∨
        (¬SourceLost (env.healPushes confirmed) ∧ n ∈ confirmedTargets (env.healPushes confirmed))) :
      HealResult chunkId (.ok (some o))

variable {env confirmed}

lemma HealEnv.healPushes_of_targets_nil (h : env.targets (env.alive confirmed) = []) : env.healPushes confirmed = [] := by
  unfold healPushes
  rw [h]
  rfl

lemma HealEnv.not_changes_of_pushes_nil (h : env.healPushes confirmed = [])
    (hr : env.needed (env.alive confirmed) = 0 → env.localAddedViaFallback (confirmed.filter env.registered) = true →
      env.cancelled = false → False) : ¬env.Changes confirmed := by
  rintro ⟨-, ⟨h0, hf, hc⟩ | hl | ⟨hne, -⟩⟩
  · exact hr h0 hf hc
  · simp [h, SourceLost] at hl
  · simp [h, confirmedTargets, madePushes] at hne

lemma HealEnv.targets_of_needed_zero (h : env.needed alive = 0) : env.targets alive = [] := by
  unfold targets
  rw [h, take_zero]

lemma HealEnv.not_reportedMissing_of_not_lost (h : ¬SourceLost (env.healPushes confirmed)) :
    ¬env.ReportedMissing confirmed n := fun hm => h hm.1

variable (chunkId : Id) (location : ChunkLocation Id)

lemma HealEnv.reconcile_result (hne : env.alive confirmed ≠ []) (h0 : env.needed (env.alive confirmed) = 0) :
    env.HealResult confirmed chunkId (.ok (some (env.reconcile chunkId location
      (env.localAddedViaFallback (confirmed.filter env.registered)) (env.alive confirmed)))) := by
  have hnil := env.healPushes_of_targets_nil (targets_of_needed_zero h0)
  have hlost : ¬SourceLost (env.healPushes confirmed) := by simp [hnil, SourceLost]
  unfold reconcile
  split
  · rename_i hc
    simp only [Bool.and_eq_true, Bool.not_eq_true'] at hc
    refine .written rfl rfl ⟨hne, .inl ⟨h0, hc.1, hc.2⟩⟩ (fun n => ?_)
    simp [updatedLocation, not_reportedMissing_of_not_lost hlost, hnil, confirmedTargets, madePushes]
  rename_i hc
  refine .kept ⟨rfl, rfl⟩ (not_changes_of_pushes_nil hnil (fun _ hf hn => hc ?_))
  simp [hf, hn]

lemma HealEnv.sourceLost_result {source : NodeId} (hne : env.alive confirmed ≠ [])
    (hs : env.sourceId (env.alive confirmed) = some source) (hlost : SourceLost (env.healPushes confirmed)) :
    env.HealResult confirmed chunkId (.ok (some (sourceLostOutcome chunkId location (env.alive confirmed) source))) := by
  have hmiss (n : NodeId) : env.ReportedMissing confirmed n ↔ n = source := by
    unfold ReportedMissing
    rw [hs, Option.some.injEq]
    exact ⟨fun h => h.2.symm, fun h => ⟨hlost, h.symm⟩⟩
  unfold sourceLostOutcome
  dsimp only
  split
  · rename_i hnil
    rw [List.isEmpty_iff, filter_eq_nil_iff] at hnil
    exact .deleted rfl rfl ⟨hne, .inr (.inl hlost)⟩ (fun n hn => (hmiss n).mpr (by simpa using hnil n hn))
  refine .written rfl rfl ⟨hne, .inr (.inl hlost)⟩ (fun n => ?_)
  simp [hmiss, hlost]

lemma HealEnv.commit_result (source : NodeId) (targets : List NodeId) (hne : env.alive confirmed ≠ [])
    (h0 : env.needed (env.alive confirmed) ≠ 0) (hlost : ¬SourceLost (env.healPushes confirmed)) :
    env.HealResult confirmed chunkId (env.commit chunkId location (env.alive confirmed) source targets
      (confirmedTargets (env.healPushes confirmed))) := by
  have hnot (h : confirmedTargets (env.healPushes confirmed) ≠ [] → env.cancelled = false → env.sourceCheck.holds = true →
    False) :
      ¬env.Changes confirmed := by
    rintro ⟨-, ⟨hz, -⟩ | hl | ⟨hc, hcan, hsrc⟩⟩
    · exact h0 hz
    · exact hlost hl
    · exact h hc hcan hsrc
  unfold commit
  split
  · rename_i hnil
    exact .failed (hnot (fun hc => absurd (isEmpty_iff.mp hnil) hc))
  rename_i hcons
  split
  · rename_i hcan
    exact .kept ⟨rfl, rfl⟩ (hnot (fun _ h => by simp [hcan] at h))
  rename_i hcan
  split
  · rename_i hsrc
    refine .written rfl rfl ⟨hne, .inr (.inr ⟨by simpa using hcons, by simpa using hcan, hsrc⟩)⟩ (fun n => ?_)
    simp [updatedLocation, not_reportedMissing_of_not_lost hlost, hlost]
  rename_i hsrc
  exact .kept ⟨rfl, rfl⟩ (hnot (fun _ _ h => hsrc h))

lemma HealEnv.heal_result (env : HealEnv Id) (chunkId : Id) (location : ChunkLocation Id) (confirmed : List NodeId) :
    env.HealResult confirmed chunkId (env.heal chunkId location confirmed) := by
  unfold heal
  dsimp only
  split
  · rename_i hnil
    exact .failed (fun h => h.1 (isEmpty_iff.mp hnil))
  rename_i hne
  rw [List.isEmpty_iff] at hne
  split
  · rename_i h0
    exact reconcile_result chunkId location hne h0
  rename_i h0
  split
  · rename_i ht
    rw [List.isEmpty_iff] at ht
    exact .idle (not_changes_of_pushes_nil (env.healPushes_of_targets_nil ht) (fun h _ _ => h0 h))
  obtain ⟨source, hs⟩ : ∃ n, env.sourceId (env.alive confirmed) = some n := sourceId_isSome hne
  rw [hs]
  dsimp only
  rw [pushLoop_eq]
  by_cases hlost : SourceLost (env.pushes (env.targets (env.alive confirmed)))
  · rw [if_pos hlost]
    exact sourceLost_result chunkId location hne hs hlost
  rw [if_neg hlost]
  exact commit_result chunkId location source _ hne h0 hlost

end Holders

/-! ## No confirmed replica is lost -/

section Kept

variable [DecidableEq Id] (H : ChunkHash Id)

def HealEnv.FileExists (env : HealEnv Id) : Prop :=
  ∃ location file, env.location = .ok (some location) ∧ location.fileId = some file ∧
    (env.fileExistsById file).toOption.getD true = true

/-- A written record has every known holder, and one of an existing file's chunk is deleted only if there is none. -/
structure HealEnv.KeepsReplicas (env : HealEnv Id) (chunkId : Id) (confirmed : List NodeId) : Prop where
  put : ∀ o loc, doHealChunkInner H env chunkId confirmed = .ok (some o) → o.locationPut = some loc →
    ∀ n, env.KnownHolder confirmed n → n ∈ loc.nodes
  delete : ∀ o id, doHealChunkInner H env chunkId confirmed = .ok (some o) → o.locationDelete = some id → env.FileExists →
    ∀ n, ¬env.KnownHolder confirmed n

/-- A confirmed holder is registered (or a target), or reported missing, and the source is not lost after a confirmation. -/
def HealEnv.CountsHolders (env : HealEnv Id) (chunkId : Id) (confirmed : List NodeId) : Prop :=
  (∃ location, env.guards H chunkId = .ok location) → env.Changes confirmed →
    (∀ n, env.Holder confirmed n → ¬env.ReportedMissing confirmed n →
      env.registered n = true ∨ n ∈ confirmedTargets (env.healPushes confirmed)) ∧
    (SourceLost (env.healPushes confirmed) → confirmedTargets (env.healPushes confirmed) = [])

variable {H} {env : HealEnv Id} {chunkId : Id} {confirmed : List NodeId}

lemma HealEnv.guards_ok {location : ChunkLocation Id} (h : env.guards H chunkId = .ok location) : env.FileExists := by
  unfold guards at h
  split at h
  · cases h
  split at h
  · cases h
  split at h
  · cases h
  · cases h
  rename_i l hl
  split at h
  · cases h
  rename_i file hf
  split at h
  · cases h
  rename_i hex
  exact ⟨l, file, hl, hf, by simpa using hex⟩

lemma HealEnv.guards_error {o : HealOutcome Id} (h : env.guards H chunkId = .error (.ok (some o))) :
    o.locationPut = none ∧ (o.locationDelete = none ∨ ¬env.FileExists) := by
  unfold guards at h
  split at h
  · cases h
    exact ⟨rfl, .inl rfl⟩
  split at h
  · cases h
    exact ⟨rfl, .inl rfl⟩
  split at h
  · cases h
  · cases h
  rename_i l hl
  split at h
  · cases h
    exact ⟨rfl, .inl rfl⟩
  rename_i file hf
  split at h
  · rename_i hex
    cases h
    refine ⟨rfl, .inr ?_⟩
    rintro ⟨l', file', hl', hf', hex'⟩
    rw [hl, Except.ok.injEq, Option.some.injEq] at hl'
    subst hl'
    rw [hf, Option.some.injEq] at hf'
    subst hf'
    rw [hex] at hex'
    cases hex'
  · split at h
    · cases h
      exact ⟨rfl, .inl rfl⟩
    · cases h

omit [DecidableEq Id] in
lemma HealEnv.knownHolder_written
    (hreg : ∀ n, env.Holder confirmed n → ¬env.ReportedMissing confirmed n → env.registered n = true ∨
    n ∈ confirmedTargets (env.healPushes confirmed))
    (hlast : SourceLost (env.healPushes confirmed) → confirmedTargets (env.healPushes confirmed) = [])
    (hn : env.KnownHolder confirmed n) : (n ∈ env.alive confirmed ∧ ¬env.ReportedMissing confirmed n) ∨
      (¬SourceLost (env.healPushes confirmed) ∧ n ∈ confirmedTargets (env.healPushes confirmed)) := by
  have htarget (ht : n ∈ confirmedTargets (env.healPushes confirmed)) : ¬SourceLost (env.healPushes confirmed) := by
    intro hl
    rw [hlast hl] at ht
    cases ht
  rcases hn with ⟨hh, hm⟩ | ht
  · rcases hreg n hh hm with hr | ht
    · exact .inl ⟨mem_alive.mpr ⟨hh, hr⟩, hm⟩
    · exact .inr ⟨htarget ht, ht⟩
  · exact .inr ⟨htarget ht, ht⟩

/-- **A heal loses no confirmed replica** exactly when, where it changes the record, it counts every holder. -/
theorem heal_keeps_replicas_iff (H : ChunkHash Id) (env : HealEnv Id) (chunkId : Id) (confirmed : List NodeId) :
    env.KeepsReplicas H chunkId confirmed ↔ env.CountsHolders H chunkId confirmed := by
  constructor
  · rintro hkeep ⟨location, hg⟩ hch
    have hres := env.heal_result chunkId location confirmed
    have heq : doHealChunkInner H env chunkId confirmed = env.heal chunkId location confirmed := by
      rw [doHealChunkInner, hg]
    generalize env.heal chunkId location confirmed = r at hres heq
    cases hres with
    | failed hnot | idle hnot | kept _ hnot => exact absurd hch hnot
    | deleted _ hdel =>
      have hnone := hkeep.delete _ _ heq hdel (guards_ok hg)
      refine ⟨fun n hh hm => absurd (.inl ⟨hh, hm⟩) (hnone n), fun _ => ?_⟩
      exact eq_nil_iff_forall_not_mem.mpr (fun n hn => hnone n (.inr hn))
    | written hput _ _ hnodes =>
      refine ⟨fun n hh hm => ?_, fun hl => eq_nil_iff_forall_not_mem.mpr (fun n hn => ?_)⟩
      · rcases (hnodes n).mp (hkeep.put _ _ heq hput n (.inl ⟨hh, hm⟩)) with ⟨ha, -⟩ | ⟨-, ht⟩
        · exact .inl (mem_alive.mp ha).2
        · exact .inr ht
      · rcases (hnodes n).mp (hkeep.put _ _ heq hput n (.inr hn)) with ⟨ha, -⟩ | ⟨hnl, -⟩
        · exact not_mem_alive_of_mem_targets (mem_targets_of_confirmed hn) ha
        · exact hnl hl
  · intro hcounts
    cases hg : env.guards H chunkId with
    | error result =>
      have heq : doHealChunkInner H env chunkId confirmed = result := by rw [doHealChunkInner, hg]
      constructor
      · intro o loc ho hput
        rw [heq] at ho
        subst ho
        simp [(guards_error hg).1] at hput
      · intro o id ho hdel hex
        rw [heq] at ho
        subst ho
        rcases (guards_error hg).2 with hnone | hnot
        · simp [hnone] at hdel
        · exact absurd hex hnot
    | ok location =>
      have hres := env.heal_result chunkId location confirmed
      have heq : doHealChunkInner H env chunkId confirmed = env.heal chunkId location confirmed := by
        rw [doHealChunkInner, hg]
      have hcount := hcounts ⟨location, hg⟩
      constructor
      · intro o loc ho hput n hn
        rw [← heq, ho] at hres
        cases hres with
        | kept hk => simp [hk.1] at hput
        | deleted hp => simp [hp] at hput
        | written hp _ hch hnodes =>
          rw [hp, Option.some.injEq] at hput
          subst hput
          obtain ⟨hreg, hlast⟩ := hcount hch
          exact (hnodes n).mpr (knownHolder_written hreg hlast hn)
      · intro o id ho hdel _ n hn
        rw [← heq, ho] at hres
        cases hres with
        | kept hk => simp [hk.2] at hdel
        | written _ hd => simp [hd] at hdel
        | deleted _ _ hch hall =>
          obtain ⟨hreg, hlast⟩ := hcount hch
          rcases knownHolder_written hreg hlast hn with ⟨ha, hm⟩ | ⟨hnl, -⟩
          · exact hm (hall n ha)
          obtain ⟨m, hm⟩ := exists_mem_of_ne_nil _ hch.1
          exact hnl (hall m hm).1

end Kept

/-- One holder, three copies wanted; node 2 confirms, and then the source has lost the chunk. -/
def losingSource : HealEnv FreeId where
  localId := 0
  replicationFactor := 3
  patchState := .ok none
  location := .ok (some ⟨.content [1] 0 7, [1], 1, some 0, some 0, some 1, some 7⟩)
  fileExistsById _ := .ok true
  getFile _ := .ok none
  allNodesOnline := []
  timeSinceBecameLeader := none
  registered _ := true
  hasChunk := false
  cancelled := false
  capacityAwareNodes _ := [1, 2, 3]
  permit _ := true
  push
    | 0 => .ok (.boolVec [true])
    | _ => .notFound
  sourceCheck := .boolVec [true]
  pushFailures := 0
  nowMs := 5

/-- The record is deleted although node 2 has just confirmed the chunk. -/
theorem lost_source_forgets_confirmed_target : ¬losingSource.KeepsReplicas freeHash (.content [1] 0 7) [1] := by
  intro h
  have hres : doHealChunkInner freeHash losingSource (.content [1] 0 7) [1] =
      .ok (some ⟨.content [1] 0 7, none, some (.content [1] 0 7), true, false⟩) := rfl
  have hex : losingSource.FileExists := ⟨_, 7, rfl, rfl, rfl⟩
  have htarget : 2 ∈ confirmedTargets (losingSource.healPushes [1]) := by decide
  exact h.delete _ _ hres rfl hex 2 (.inr htarget)

end Dfs
