import Dfs.Client.Flush

/-!
# What a flush does

How a flush can go, told by what it is given: patch taken (`PatchSent`), fresh write (`FreshFrom`), or failure before;
and what each leaves of chunk and slot.
-/

namespace Dfs

open Overlay Client ChunkSlot FlushEnv

variable {Id : Type}

/-! ## The ways of a flush -/

def FlushEnv.takesPatch (env : FlushEnv Id) : Bool :=
  env.patch.toBool || ((env.singleChunkLocation.bind id).isSome && env.retry.toBool)

/-- There is a cached location to patch, and the patch is taken. -/
structure Client.PatchSent (c : Client Id) (env : FlushEnv Id) (v : FlushView) : Prop where
  needs : v.needsPatch = true
  location : (c.cached.bind (·.location)).isSome = true
  takes : env.takesPatch = true

/-- Both attempts failed, and every replica did or the slot too often. -/
structure Client.GivesUpPatch (c : Client Id) (env : FlushEnv Id) (v : FlushView) (old loc : SlotLocation Id) : Prop where
  needs : v.needsPatch = true
  location : ∃ cached, c.oldLocation env = some cached ∧ c.refreshed env cached = old
  first : env.patch.toBool = false
  leader : env.singleChunkLocation = some (some loc)
  retry : ∃ e, env.retry = .error e ∧ (e = .allReplicasFailed ∨ maxPatchFailures ≤ c.shard.slot.consecutivePatchFailures + 1)

variable [DecidableEq Id]

/-- With the slot alone or over a base that was found. -/
inductive Client.FreshFrom (c : Client Id) (env : FlushEnv Id) (v : FlushView) : Option Bytes → Prop
  | unpatched (h : v.needsPatch = false ∨ c.cached.bind (·.location) = none) : c.FreshFrom env v none
  | replacement {old loc : SlotLocation Id} (h : c.GivesUpPatch env v old loc) (full : v.isFullReplacement = true) :
    c.FreshFrom env v none
  | reconstructed {old loc : SlotLocation Id} (h : c.GivesUpPatch env v old loc) (full : v.isFullReplacement = false) {id : Id}
    {base : Bytes} (found : (c.reconstructionBase env [old.chunkId, loc.chunkId]).2 = some (id, base)) :
    c.FreshFrom env v (some base)

structure Client.BaseLost (c : Client Id) (env : FlushEnv Id) (v : FlushView) : Prop where
  lost : ∃ old loc, c.GivesUpPatch env v old loc ∧ (c.reconstructionBase env [old.chunkId, loc.chunkId]).2 = none
  full : v.isFullReplacement = false

def FlushView.freshData (v : FlushView) : Option Bytes → Bytes
  | none => v.slotData
  | some base => applyReconstruction base v.slotData v.dirtyRanges

/-! ## The attempt to patch -/

/-- All but the count of failures, whose file is cached, and the expected file. -/
structure Client.Alike (c c' : Client Id) : Prop where
  slot : ∃ n, c'.shard.slot = { c.shard.slot with consecutivePatchFailures := n }
  cached : c'.cached.map (·.id) = c.cached.map (·.id)
  expected : c'.expectedFileId = c.expectedFileId

section

omit [DecidableEq Id]

lemma Client.Alike.refl (c : Client Id) : c.Alike c := ⟨⟨_, rfl⟩, rfl, rfl⟩

lemma Client.Alike.trans {c c' c'' : Client Id} (h : c.Alike c') (h' : c'.Alike c'') : c.Alike c'' := by
  obtain ⟨n, hn⟩ := h.slot
  obtain ⟨m, hm⟩ := h'.slot
  exact ⟨⟨m, by rw [hm, hn]⟩, h'.cached.trans h.cached, h'.expected.trans h.expected⟩

lemma alike_setCachedLocation (c : Client Id) (loc : SlotLocation Id) : c.Alike (c.setCachedLocation loc) := by
  refine ⟨⟨_, rfl⟩, ?_, rfl⟩
  simp [setCachedLocation, Function.comp_def]

end

lemma alike_recache (c : Client Id) (patch : Bytes → Bytes) (old : SlotLocation Id) (new : Id) (remove : Bool) :
    c.Alike (c.recache patch old new remove) ∧ (c.recache patch old new remove).server = c.server := by
  unfold recache
  split
  · exact ⟨.refl c, rfl⟩
  split
  · exact ⟨⟨⟨_, rfl⟩, rfl, rfl⟩, rfl⟩
  · exact ⟨.refl c, rfl⟩

lemma alike_reconstructionBase (c : Client Id) (env : FlushEnv Id) (ids : List Id) :
    c.Alike (c.reconstructionBase env ids).1 ∧ (c.reconstructionBase env ids).1.server = c.server := by
  unfold reconstructionBase
  split
  · exact ⟨.refl c, rfl⟩
  split
  · split
    · exact ⟨.refl c, rfl⟩
    · exact ⟨alike_setCachedLocation c _, rfl⟩
  · exact ⟨.refl c, rfl⟩

inductive Client.Attempted (c : Client Id) (env : FlushEnv Id) (v : FlushView) : Client Id × PatchAttempt Id → Prop
  | done {c' : Client Id} {loc : SlotLocation Id} (sent : c.PatchSent env v) (alike : c.Alike c')
    (server : c'.server = some (overlay (c.server.getD []) v.patches)) : c.Attempted env v (c', .done loc)
  | fresh {c' : Client Id} {base : Option Bytes} (fresh : c.FreshFrom env v base) (alike : c.Alike c')
    (server : c'.server = c.server) : c.Attempted env v (c', .fresh (v.freshData base))
  | lost {c' : Client Id} {e : FlushError} (lost : c.BaseLost env v) (server : c'.server = c.server)
    (slot : ∃ n, c'.shard.slot = ({ c.shard.slot with consecutivePatchFailures := n } : ChunkSlot Id).failTerminally env) :
    c.Attempted env v (c', .failed e)
  | refused {c' : Client Id} {e : FlushError} (sent : ¬c.PatchSent env v) (fresh : ∀ base, ¬c.FreshFrom env v base)
    (lost : ¬c.BaseLost env v) (server : c'.server = c.server)
    (slot : ∃ n, c'.shard.slot = { c.shard.slot with consecutivePatchFailures := n, flushing := false }) :
    c.Attempted env v (c', .failed e)

lemma reconstructionBase_snd (c : Client Id) (env : FlushEnv Id) (ids : List Id) :
    (c.reconstructionBase env ids).2 = (c.selectReconstructionBase env ids).or (match env.revalidateChunkSlot with
      | some (some loc) => if loc.chunkId ∈ ids then none else c.selectReconstructionBase env [loc.chunkId]
      | _ => none) := by
  unfold reconstructionBase
  cases hbase : c.selectReconstructionBase env ids with
  | some base => rfl
  | none =>
    rw [Option.none_or]
    rcases env.revalidateChunkSlot with _ | _ | loc
    · rfl
    · rfl
    dsimp only
    split
    · rfl
    · rfl

lemma reconstructionBase_congr {c c' : Client Id} (h : c'.chunkCache = c.chunkCache) (env : FlushEnv Id) (ids : List Id) :
    (c'.reconstructionBase env ids).2 = (c.reconstructionBase env ids).2 := by
  simp only [reconstructionBase_snd, selectReconstructionBase, h]

variable {old loc : SlotLocation Id} {base : Option Bytes}

section

omit [DecidableEq Id]

lemma Client.GivesUpPatch.takesPatch {c : Client Id} {env : FlushEnv Id} {v : FlushView} (h : c.GivesUpPatch env v old loc) :
    env.takesPatch = false := by
  obtain ⟨e, he, -⟩ := h.retry
  rw [FlushEnv.takesPatch, h.first, he]
  simp [Except.toBool]

lemma Client.GivesUpPatch.cached {c : Client Id} {env : FlushEnv Id} {v : FlushView} (h : c.GivesUpPatch env v old loc) :
    (c.cached.bind (·.location)).isSome = true := by
  obtain ⟨cached, hcached, -⟩ := h.location
  have := congrArg Option.isSome hcached
  rwa [oldLocation, Option.isSome_map] at this

lemma Client.GivesUpPatch.unique {c : Client Id} {env : FlushEnv Id} {v : FlushView} {old' loc' : SlotLocation Id}
    (h : c.GivesUpPatch env v old loc) (h' : c.GivesUpPatch env v old' loc') : old' = old ∧ loc' = loc := by
  obtain ⟨cached, hcached, rfl⟩ := h.location
  obtain ⟨cached', hcached', rfl⟩ := h'.location
  have hloc := h.leader.symm.trans h'.leader
  have hcached := hcached.symm.trans hcached'
  simp only [Option.some.injEq] at hloc hcached
  exact ⟨by rw [hcached], hloc.symm⟩

lemma Client.PatchSent.not_givesUp {c : Client Id} {env : FlushEnv Id} {v : FlushView} (h : c.PatchSent env v) :
    ¬c.GivesUpPatch env v old loc := by
  intro hgives
  have := h.takes
  rw [hgives.takesPatch] at this
  cases this

end

lemma Client.FreshFrom.cases {c : Client Id} {env : FlushEnv Id} {v : FlushView} (h : c.FreshFrom env v base) :
    (v.needsPatch = false ∨ c.cached.bind (·.location) = none) ∨ ∃ old loc, c.GivesUpPatch env v old loc := by
  cases h with
  | unpatched h => exact .inl h
  | replacement h full => exact .inr ⟨_, _, h⟩
  | reconstructed h full found => exact .inr ⟨_, _, h⟩

lemma Client.PatchSent.not_freshFrom {c : Client Id} {env : FlushEnv Id} {v : FlushView} (h : c.PatchSent env v)
    (base : Option Bytes) : ¬c.FreshFrom env v base := by
  intro hfresh
  rcases hfresh.cases with (hneeds | hnone) | ⟨old, loc, hgives⟩
  · rw [h.needs] at hneeds
    cases hneeds
  · have := h.location
    rw [hnone] at this
    cases this
  · exact h.not_givesUp hgives

lemma Client.BaseLost.not_freshFrom {c : Client Id} {env : FlushEnv Id} {v : FlushView} (h : c.BaseLost env v)
    (base : Option Bytes) : ¬c.FreshFrom env v base := by
  obtain ⟨old, loc, hgives, hnone⟩ := h.lost
  intro hfresh
  cases hfresh with
  | unpatched hun =>
    rcases hun with hneeds | hcached
    · rw [hgives.needs] at hneeds
      cases hneeds
    have := hgives.cached
    rw [hcached] at this
    cases this
  | replacement _ full =>
    rw [h.full] at full
    cases full
  | reconstructed h' _ found =>
    obtain ⟨rfl, rfl⟩ := hgives.unique h'
    rw [hnone] at found
    cases found

lemma Client.FreshFrom.unique {c : Client Id} {env : FlushEnv Id} {v : FlushView} {base' : Option Bytes}
    (h : c.FreshFrom env v base) (h' : c.FreshFrom env v base') : base' = base := by
  have hexcl : ∀ {old loc : SlotLocation Id}, c.GivesUpPatch env v old loc →
      ¬(v.needsPatch = false ∨ c.cached.bind (·.location) = none) := by
    rintro old loc hgives (hneeds | hnone)
    · rw [hgives.needs] at hneeds
      cases hneeds
    have := hgives.cached
    rw [hnone] at this
    cases this
  cases h with
  | unpatched h =>
    cases h' with
    | unpatched => rfl
    | replacement => rfl
    | reconstructed h' => exact absurd h (hexcl h')
  | replacement h full =>
    cases h' with
    | unpatched => rfl
    | replacement => rfl
    | reconstructed _ full' =>
      rw [full] at full'
      cases full'
  | reconstructed h full found =>
    cases h' with
    | unpatched h' => exact absurd h' (hexcl h)
    | replacement _ full' =>
      rw [full] at full'
      cases full'
    | reconstructed h' _ found' =>
      obtain ⟨rfl, rfl⟩ := h.unique h'
      rw [found] at found'
      cases found'
      rfl

lemma not_reached {c : Client Id} {env : FlushEnv Id} {v : FlushView} (hneeds : v.needsPatch = true)
    (hlocation : (c.cached.bind (·.location)).isSome = true) (htakes : env.takesPatch = false)
    (hkeeps : ∀ {old loc : SlotLocation Id}, ¬c.GivesUpPatch env v old loc) :
    ¬c.PatchSent env v ∧ (∀ base, ¬c.FreshFrom env v base) ∧ ¬c.BaseLost env v := by
  refine ⟨fun hsent => ?_, fun base hfresh => ?_, fun hlost => ?_⟩
  · have := hsent.takes
    rw [htakes] at this
    cases this
  · rcases hfresh.cases with (hneeds' | hnone) | ⟨old, loc, hgives⟩
    · rw [hneeds] at hneeds'
      cases hneeds'
    · rw [hnone] at hlocation
      cases hlocation
    · exact hkeeps hgives
  · obtain ⟨old, loc, hgives, -⟩ := hlost.lost
    exact hkeeps hgives

lemma attempted_afterRetry {c c₀ : Client Id} {env : FlushEnv Id} {v : FlushView} {e : PatchFailure}
    (hneeds : v.needsPatch = true) (hlocation : (c.cached.bind (·.location)).isSome = true)
    (hold : ∃ cached, c.oldLocation env = some cached ∧ c.refreshed env cached = old) (hfirst : env.patch.toBool = false)
    (hleader : env.singleChunkLocation = some (some loc)) (hretry : env.retry = .error e) (halike : c.Alike c₀)
    (hshard : c₀.shard = c.shard) (hcache : c₀.chunkCache = c.chunkCache) (hserver : c₀.server = c.server) :
    c.Attempted env v (c₀.afterRetry env v e [old.chunkId, loc.chunkId]) := by
  unfold afterRetry
  generalize hcounted : (if e = .allReplicasFailed then c₀ else c₀.onSlot (fun slot =>
    { slot with consecutivePatchFailures := slot.consecutivePatchFailures + 1 })) = counted
  dsimp only
  have hcount : e ≠ .allReplicasFailed →
      counted.shard.slot.consecutivePatchFailures = c.shard.slot.consecutivePatchFailures + 1 := by
    intro hne
    rw [← hcounted, if_neg hne, ← hshard]
    rfl
  have halike' : c.Alike counted ∧ counted.server = c.server ∧ counted.chunkCache = c.chunkCache := by
    rw [← hcounted]
    split
    · exact ⟨halike, hserver, hcache⟩
    · exact ⟨halike.trans ⟨⟨_, rfl⟩, rfl, rfl⟩, hserver, hcache⟩
  obtain ⟨halike', hserver', hcache'⟩ := halike'
  split
  · rename_i hgive
    have hgives : c.GivesUpPatch env v old loc := by
      refine ⟨hneeds, hold, hfirst, hleader, e, hretry, ?_⟩
      by_cases hall : e = .allReplicasFailed
      · exact .inl hall
      rw [← hcount hall]
      exact hgive
    split
    · rename_i hfull
      have hfresh : c.FreshFrom env v none := .replacement hgives hfull
      exact .fresh hfresh halike' hserver'
    rename_i hfull
    have hfull : v.isFullReplacement = false := by simpa using hfull
    have hbase := reconstructionBase_congr hcache' env [old.chunkId, loc.chunkId]
    obtain ⟨halike₁, hserver₁⟩ := alike_reconstructionBase counted env [old.chunkId, loc.chunkId]
    unfold reconstructOrAbort
    generalize counted.reconstructionBase env [old.chunkId, loc.chunkId] = r at hbase halike₁ hserver₁
    obtain ⟨c₁, found⟩ := r
    dsimp only at hbase halike₁ hserver₁ ⊢
    obtain _ | ⟨id, base⟩ := found
    · obtain ⟨n, hn⟩ := (halike'.trans halike₁).slot
      refine .lost ⟨⟨old, loc, hgives, hbase.symm⟩, hfull⟩ (hserver₁.trans hserver') ⟨0, ?_⟩
      simp only [notify, Client.onSlot, hn]
    have hfresh : c.FreshFrom env v (some base) := .reconstructed hgives hfull hbase.symm
    obtain ⟨hslot, hcached, hexpected⟩ := halike'.trans halike₁
    exact .fresh hfresh ⟨hslot, hcached, hexpected⟩ (hserver₁.trans hserver')
  · rename_i hgive
    have hkeeps : ∀ {old' loc' : SlotLocation Id}, ¬c.GivesUpPatch env v old' loc' := by
      intro old' loc' hgives
      obtain ⟨e', he', hor⟩ := hgives.retry
      obtain rfl : e' = e := Except.error.inj (he'.symm.trans hretry)
      refine hgive (hor.imp_right (fun hmax => ?_))
      by_cases hall : e' = .allReplicasFailed
      · exact absurd (Or.inl hall) hgive
      rw [hcount hall]
      exact hmax
    have htakes : env.takesPatch = false := by
      rw [takesPatch, hfirst, hretry, Bool.false_or]
      exact Bool.and_false _
    obtain ⟨hsent, hfresh, hlost⟩ := not_reached hneeds hlocation htakes hkeeps
    obtain ⟨n, hn⟩ := halike'.slot
    exact .refused hsent hfresh hlost hserver' ⟨n, by simp only [notify, release, Client.onSlot, hn]⟩

lemma attempted_patchFrom {c : Client Id} {env : FlushEnv Id} {v : FlushView} {cached : SlotLocation Id}
    (hneeds : v.needsPatch = true) (hold : c.oldLocation env = some cached) :
    c.Attempted env v (c.patchFrom env v (c.refreshed env cached)) := by
  have hlocation : (c.cached.bind (·.location)).isSome = true := by
    have := congrArg Option.isSome hold
    rwa [oldLocation, Option.isSome_map] at this
  unfold patchFrom
  cases hpatch : env.patch with
  | ok loc =>
    dsimp only
    have h₁ := alike_recache (c.applyPatches v) v.patchBuffer (c.refreshed env cached) loc.chunkId true
    have h₂ := alike_recache ((c.applyPatches v).recache v.patchBuffer (c.refreshed env cached) loc.chunkId true) v.patchDirty
      (c.refreshed env cached) loc.chunkId false
    have hpatched : c.Alike (c.applyPatches v) := ⟨⟨_, rfl⟩, rfl, rfl⟩
    exact .done ⟨hneeds, hlocation, by simp [takesPatch, hpatch, Except.toBool]⟩ ((hpatched.trans h₁.1).trans h₂.1)
      (h₂.2.trans h₁.2)
  | error e =>
    dsimp only
    have hfirst : env.patch.toBool = false := by rw [hpatch]; rfl
    have hrefused : (env.singleChunkLocation.bind id).isSome = false →
        c.Attempted env v (c.release.notify, .failed (.patchFailed e)) := by
      intro hnowhere
      obtain ⟨hsent, hfresh, hlost⟩ := not_reached hneeds hlocation (by rw [takesPatch, hfirst, hnowhere]; rfl)
        (fun hgives => by rw [hgives.leader] at hnowhere; cases hnowhere)
      exact .refused hsent hfresh hlost rfl ⟨_, rfl⟩
    rcases hleader : env.singleChunkLocation with _ | _ | loc
    · exact hrefused (by rw [hleader]; rfl)
    · exact hrefused (by rw [hleader]; rfl)
    dsimp only
    generalize hmoved : (if loc.chunkId = (c.refreshed env cached).chunkId then c else c.setCachedLocation loc) = c₀
    have h₀ : c.Alike c₀ ∧ c₀.shard = c.shard ∧ c₀.chunkCache = c.chunkCache ∧ c₀.server = c.server := by
      rw [← hmoved]
      split
      · exact ⟨.refl c, rfl, rfl, rfl⟩
      · exact ⟨alike_setCachedLocation c loc, rfl, rfl, rfl⟩
    obtain ⟨halike, hshard, hcache, hserver⟩ := h₀
    cases hretry : env.retry with
    | ok new =>
      have h₁ := alike_recache (c₀.applyPatches v) v.patchDirty (c.refreshed env cached) new.chunkId false
      have hpatched : c₀.Alike (c₀.applyPatches v) := ⟨⟨_, rfl⟩, rfl, rfl⟩
      refine .done ⟨hneeds, hlocation, by simp [takesPatch, hleader, hretry, Except.toBool]⟩
        ((halike.trans hpatched).trans h₁.1) (h₁.2.trans ?_)
      rw [applyPatches, hserver]
    | error e' =>
      exact attempted_afterRetry hneeds hlocation ⟨cached, hold, rfl⟩ hfirst hleader hretry halike hshard hcache hserver

lemma tryPatch_attempted (c : Client Id) (env : FlushEnv Id) (v : FlushView) : c.Attempted env v (c.tryPatch env v) := by
  unfold tryPatch
  split
  · rename_i hneeds
    split
    · rename_i hnone
      have hfresh : c.FreshFrom env v none := .unpatched (Or.inr (by simpa [oldLocation] using hnone))
      exact .fresh hfresh (.refl c) rfl
    rename_i loc hloc
    exact attempted_patchFrom hneeds hloc
  · rename_i hneeds
    have hfresh : c.FreshFrom env v none := .unpatched (Or.inl (by simpa using hneeds))
    exact .fresh hfresh (.refl c) rfl

/-! ## Writes under way -/

def ChunkSlot.flushState (slot : ChunkSlot Id) : ChunkSlot Id :=
  { slot with
    extents := [], spanEnd := 0, lastModified := 0, gapFilledPrefix := 0, realDataEnd := 0, dirtyRanges := []
    lastSequentialEnd := none, abandoned := false }

omit [DecidableEq Id] in
lemma writeAll_flushState (cs : ChunkShardState Id) (ws : List SlotWrite) :
    (cs.writeAll ws).slot.flushState = cs.slot.flushState := by
  induction ws generalizing cs with
  | nil => rfl
  | cons w ws ih =>
    refine (ih (cs.writeAt w.intra w.data w.now).1).trans ?_
    simp only [ChunkShardState.writeAt, put, extendTo, ChunkShardState.seeded]
    split_ifs <;> rfl

structure Client.SameForPatch (c c' : Client Id) : Prop where
  cached : c'.cached = c.cached
  chunkCache : c'.chunkCache = c.chunkCache
  slot : c'.shard.slot.flushState = c.shard.slot.flushState

omit [DecidableEq Id] in
lemma Client.SameForPatch.symm {c c' : Client Id} (h : c.SameForPatch c') : c'.SameForPatch c :=
  ⟨h.cached.symm, h.chunkCache.symm, h.slot.symm⟩

omit [DecidableEq Id] in
lemma sameForPatch_writeAll (c : Client Id) (ws : List SlotWrite) : c.SameForPatch (c.writeAll ws) :=
  ⟨rfl, rfl, writeAll_flushState c.shard ws⟩

section Congr

variable {c c' : Client Id} {env : FlushEnv Id} {v : FlushView}

omit [DecidableEq Id] in
lemma Client.PatchSent.congr (h : c.PatchSent env v) (hc : c.SameForPatch c') : c'.PatchSent env v :=
  ⟨h.needs, by rw [hc.cached]; exact h.location, h.takes⟩

omit [DecidableEq Id] in
lemma Client.GivesUpPatch.congr (h : c.GivesUpPatch env v old loc) (hc : c.SameForPatch c') : c'.GivesUpPatch env v old loc := by
  have hid : c'.shard.slot.serverChunkId = c.shard.slot.serverChunkId := (congrArg serverChunkId hc.slot :)
  have hat : c'.shard.slot.serverChunkIdSetAt = c.shard.slot.serverChunkIdSetAt := (congrArg serverChunkIdSetAt hc.slot :)
  have hcount : c'.shard.slot.consecutivePatchFailures = c.shard.slot.consecutivePatchFailures :=
    (congrArg consecutivePatchFailures hc.slot :)
  refine ⟨h.needs, ?_, h.first, h.leader, ?_⟩
  · simp only [oldLocation, refreshed, hc.cached, hid, hat]
    exact h.location
  · rw [hcount]
    exact h.retry

lemma Client.FreshFrom.congr (h : c.FreshFrom env v base) (hc : c.SameForPatch c') : c'.FreshFrom env v base := by
  cases h with
  | unpatched h => exact .unpatched (by rw [hc.cached]; exact h)
  | replacement h full => exact .replacement (h.congr hc) full
  | reconstructed h full found =>
    exact .reconstructed (h.congr hc) full ((reconstructionBase_congr hc.chunkCache env _).trans found)

lemma Client.BaseLost.congr (h : c.BaseLost env v) (hc : c.SameForPatch c') : c'.BaseLost env v := by
  obtain ⟨old, loc, hgives, hnone⟩ := h.lost
  exact ⟨⟨old, loc, hgives.congr hc, (reconstructionBase_congr hc.chunkCache env _).trans hnone⟩, h.full⟩

end Congr

/-! ## Completion -/

section

variable (c : Client Id) (env : FlushEnv Id) (v : FlushView) (start : Option FileId)

include c env v start

omit [DecidableEq Id] in
lemma completePatch_server (loc : SlotLocation Id) :
    (c.completePatch env v start loc).1.server = c.server ∧ (c.completePatch env v start loc).2 = .ok () := by
  unfold completePatch
  dsimp only
  split_ifs <;> exact ⟨rfl, rfl⟩

omit [DecidableEq Id] in
lemma completeWrite_server (len : Nat) (loc : SlotLocation Id) :
    (c.completeWrite env v start len loc).1.server = c.server ∧ (c.completeWrite env v start len loc).2 = .ok () := by
  unfold completeWrite
  dsimp only
  split_ifs <;> exact ⟨rfl, rfl⟩

lemma freshWrite_server (data : Bytes) :
    (v.realDataFound env = none ∧ env.write.isSome = true ∧ (c.freshWrite env v start data).1.server = some data ∧
      (c.freshWrite env v start data).2 = .ok ()) ∨
    (¬(v.realDataFound env = none ∧ env.write.isSome = true) ∧ (c.freshWrite env v start data).1.server = c.server ∧
      ∃ e, (c.freshWrite env v start data).2 = .error e) := by
  unfold freshWrite
  cases hfound : v.realDataFound env with
  | some fresh =>
    right
    refine ⟨by simp, ?_, _, rfl⟩
    dsimp only
    split <;> rfl
  | none =>
    rcases hwrite : env.write with _ | _ | loc
    · exact .inr ⟨by simp, rfl, _, rfl⟩
    · exact .inl ⟨rfl, rfl, rfl, rfl⟩
    · exact .inl ⟨rfl, rfl, completeWrite_server ..⟩

end

/-- What a flush does to the content: a patch that is taken goes over it, a fresh write takes its place, and a flush that fails
leaves it. -/
theorem flush_server (c : Client Id) (env : FlushEnv Id) :
    (c.PatchSent env (c.slotView env) ∧ (c.flushSlot env).2 = .ok () ∧
      (c.flushSlot env).1.server = some (overlay (c.server.getD []) (c.slotView env).patches)) ∨
    (∃ base, c.FreshFrom env (c.slotView env) base ∧ (c.slotView env).realDataFound env = none ∧ env.write.isSome = true ∧
      (c.flushSlot env).2 = .ok () ∧
      (c.flushSlot env).1.server = some ((c.slotView env).freshData base)) ∨
    (¬c.PatchSent env (c.slotView env) ∧ (∀ base, c.FreshFrom env (c.slotView env) base →
        ¬((c.slotView env).realDataFound env = none ∧ env.write.isSome = true)) ∧
      (∃ e, (c.flushSlot env).2 = .error e) ∧ (c.flushSlot env).1.server = c.server) := by
  have hsame := (sameForPatch_writeAll c env.during).symm
  have hattempt := tryPatch_attempted (c.writeAll env.during) env (c.slotView env)
  unfold flushSlot flushBufferAsyncOne
  dsimp only
  generalize (c.writeAll env.during).tryPatch env (c.slotView env) = r at hattempt
  cases hattempt with
  | done sent alike server =>
    left
    obtain ⟨hserver, hok⟩ := completePatch_server _ env (c.slotView env) (c.cached.map (·.id)) _
    exact ⟨sent.congr hsame, hok, hserver.trans server⟩
  | fresh fresh alike server =>
    right
    have hfresh := fresh.congr hsame
    rcases freshWrite_server _ env (c.slotView env) (c.cached.map (·.id)) _ with ⟨hfound, hwrite, hserver, hok⟩ |
      ⟨hno, hserver, herr⟩
    · exact .inl ⟨_, hfresh, hfound, hwrite, hok, hserver⟩
    · exact .inr ⟨fun hsent => hsent.not_freshFrom _ hfresh, fun base' _ => hno, herr, hserver.trans server⟩
  | lost lost server slot =>
    right; right
    obtain ⟨old, loc, hgives, -⟩ := (lost.congr hsame).lost
    exact ⟨fun hsent => hsent.not_givesUp hgives, fun base hfresh => absurd hfresh ((lost.congr hsame).not_freshFrom base),
      ⟨_, rfl⟩, server⟩
  | refused sent fresh lost server slot =>
    right; right
    exact ⟨fun hsent => sent (hsent.congr hsame.symm), fun base hfresh => absurd (hfresh.congr hsame.symm) (fresh base),
      ⟨_, rfl⟩, server⟩

end Dfs
