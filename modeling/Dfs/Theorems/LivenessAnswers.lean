import Dfs.Liveness
import Dfs.SlotRun

/-! # Are the liveness answers sound? -/

namespace Dfs

open Function List LivenessEnv Node IndexedNode

variable {Id : Type}

/-! ## The answer as a set -/

def LivenessEnv.localReadsOk (env : LivenessEnv Id) : Bool := env.pendingRead.toOption.isSome && env.tokensRead.toOption.isSome

def LivenessEnv.complete (env : LivenessEnv Id) : Bool :=
  env.cachedLive.toOption.isSome && env.peers.all (fun p => !p.asked env.localId || p.answer.isSome)

/-- What the reads return is what the tables hold, on the node and on its peers. -/
structure LivenessEnv.Honest (env : LivenessEnv Id) (s : Node Id) (peerNode : NodeId → Node Id) : Prop where
  pending : ∀ rows, env.pendingRead = .ok rows → ReadsPatchRows s rows
  tokens : ∀ rows, env.tokensRead = .ok rows → ReadsPatchRows s rows
  peerPending : ∀ p ∈ env.peers, ∀ rows, p.pendingRead = .ok rows → ReadsPatchRows (peerNode p.id) rows
  peerTokens : ∀ p ∈ env.peers, ∀ rows, p.tokensRead = .ok rows → ReadsPatchRows (peerNode p.id) rows

/-- Named by the cached live set, the reverse index, the own rows that could be read, or those of the peers asked. -/
def IndexedNode.Known (n : IndexedNode Id) (env : LivenessEnv Id) (peerNode : NodeId → Node Id) (id : Id) : Prop :=
  (∃ cached, env.cachedLive = .ok cached ∧ id ∈ cached) ∨ (n.chunkToFile id).isSome = true ∨
    (env.pendingRead.toOption.isSome = true ∧ n.node.PendingInput id) ∨
    (env.tokensRead.toOption.isSome = true ∧ (n.node.patchState id).isSome = true) ∨
    ∃ p ∈ env.peers, p.asked env.localId = true ∧ (peerNode p.id).PatchNeeds id

variable {env : LivenessEnv Id} {peerNode : NodeId → Node Id}
  {id : Id} {n : IndexedNode Id} {s : Node Id} {ids acc : List Id} {localId : NodeId} {peers : List (PeerView Id)}

lemma mem_answer (h : env.Honest s peerNode) {p : PeerView Id} (hp : p ∈ env.peers) (ha : p.answer = some ids) :
    id ∈ ids ↔ (peerNode p.id).PatchNeeds id := by
  unfold PeerView.answer PeerView.handleGetPendingPatchChunkIds at ha
  split at ha
  · split at ha
    · rename_i pending tokens hpend htok
      rw [Option.some.injEq] at ha
      subst ha
      rw [mem_append, mem_allPendingPatchChunkIds (h.peerPending p hp _ hpend), mem_allPatchTokenIds (h.peerTokens p hp _ htok)]
      rfl
    · cases ha
  · cases ha

lemma mem_localPatchIds (h : env.Honest s peerNode) :
    id ∈ env.localPatchIds ↔ (env.pendingRead.toOption.isSome = true ∧ s.PendingInput id) ∨
      (env.tokensRead.toOption.isSome = true ∧ (s.patchState id).isSome = true) := by
  have hpending : id ∈ (env.pendingRead.toOption.map allPendingPatchChunkIds).getD [] ↔
      env.pendingRead.toOption.isSome = true ∧ s.PendingInput id := by
    cases hr : env.pendingRead with
    | error e => simp [Except.toOption]
    | ok rows => simpa [Except.toOption] using mem_allPendingPatchChunkIds (h.pending rows hr)
  have htokens : id ∈ (env.tokensRead.toOption.map allPatchTokenIds).getD [] ↔
      env.tokensRead.toOption.isSome = true ∧ (s.patchState id).isSome = true := by
    cases hr : env.tokensRead with
    | error e => simp [Except.toOption]
    | ok rows => simpa [Except.toOption] using mem_allPatchTokenIds (h.tokens rows hr)
  unfold localPatchIds
  rw [mem_append, hpending, htokens]

lemma gatherPending_none : gatherPending localId peers acc = none ↔ ∃ p ∈ peers, p.asked localId = true ∧ p.answer = none := by
  induction peers generalizing acc with
  | nil => simp [gatherPending]
  | cons p rest ih =>
    unfold gatherPending
    by_cases hask : p.asked localId = true
    · cases ha : p.answer with
      | none => simp [hask, ha]
      | some ids => simp [hask, ha, ih]
    · simp [hask, ih]

lemma mem_gatherPending {live : List Id} (h : gatherPending localId peers acc = some live) :
    id ∈ live ↔ id ∈ acc ∨ ∃ p ∈ peers, p.asked localId = true ∧ ∃ ids, p.answer = some ids ∧ id ∈ ids := by
  induction peers generalizing acc with
  | nil =>
    simp only [gatherPending, Option.some.injEq] at h
    simp [h]
  | cons p rest ih =>
    unfold gatherPending at h
    by_cases hask : p.asked localId = true
    · rw [if_pos hask] at h
      cases ha : p.answer with
      | none => simp [ha] at h
      | some ids =>
        rw [ha] at h
        rw [ih h, mem_append, or_assoc, exists_mem_cons_iff]
        simp [hask, ha]
    · rw [if_neg hask] at h
      rw [ih h, exists_mem_cons_iff]
      simp [hask]

variable [DecidableEq Id]

lemma handleConfirmChunksLive_complete (h : env.Honest n.node peerNode) (hc : env.complete = true) (ids : List Id) :
    ∃ live, handleConfirmChunksLive n.chunkToFile env ids = .chunkLiveness live ∧ ∀ id ∈ ids, id ∈ live ↔
      n.Known env peerNode id := by
  unfold complete at hc
  rw [Bool.and_eq_true, all_eq_true] at hc
  obtain ⟨hcached, hpeers⟩ := hc
  cases hr : env.cachedLive with
  | error e => simp [hr, Except.toOption] at hcached
  | ok cached =>
    unfold handleConfirmChunksLive
    rw [hr]
    dsimp only
    cases hg : gatherPending env.localId env.peers (ids.filter (fun id => (n.chunkToFile id).isSome) ++ env.localPatchIds) with
    | none =>
      obtain ⟨p, hp, hask, hans⟩ := gatherPending_none.mp hg
      simpa [hask, hans] using hpeers p hp
    | some liveSet =>
      refine ⟨_, rfl, fun id hid => ?_⟩
      have hpeer : (∃ p ∈ env.peers, p.asked env.localId = true ∧ ∃ l, p.answer = some l ∧ id ∈ l) ↔
          ∃ p ∈ env.peers, p.asked env.localId = true ∧ (peerNode p.id).PatchNeeds id := by
        constructor
        · rintro ⟨p, hp, hask, l, hans, hl⟩
          exact ⟨p, hp, hask, (mem_answer h hp hans).mp hl⟩
        · rintro ⟨p, hp, hask, hneeds⟩
          have hsome : p.answer.isSome = true := by simpa [hask] using hpeers p hp
          obtain ⟨l, hans⟩ := Option.isSome_iff_exists.mp hsome
          exact ⟨p, hp, hask, l, hans, (mem_answer h hp hans).mpr hneeds⟩
      unfold Known
      rw [List.mem_filter, Bool.or_eq_true, contains_iff_mem, contains_iff_mem, mem_gatherPending hg, mem_append,
        List.mem_filter, mem_localPatchIds h, hpeer]
      simp [hid, hr, or_assoc]

lemma handleConfirmChunksLive_incomplete (index : Id → Option FileId) (hc : env.complete = false) (ids : List Id) :
    handleConfirmChunksLive index env ids = .error "Failed to read local metadata" .internalError ∨
      handleConfirmChunksLive index env ids = .chunkLiveness ids := by
  unfold handleConfirmChunksLive
  cases hr : env.cachedLive with
  | error e => exact .inl rfl
  | ok cached =>
    right
    have hnone : gatherPending env.localId env.peers (ids.filter (fun id => (index id).isSome) ++ env.localPatchIds) = none := by
      rw [gatherPending_none]
      simpa [complete, hr, Except.toOption] using hc
    dsimp only
    rw [hnone]

/-! ## Soundness -/

/-- Rightly not live: in no slot of the map, named by none of the own rows nor of those of a peer online, and no read failed. -/
def IndexedNode.SoundAnswer (n : IndexedNode Id) (env : LivenessEnv Id) (peerNode : NodeId → Node Id) (ids : List Id) : Prop :=
  ∀ live, handleConfirmChunksLive n.chunkToFile env ids = .chunkLiveness live → ∀ id ∈ ids, id ∉ live →
    ¬n.node.MapHas id ∧ ¬n.node.PatchNeeds id ∧
      (∀ p ∈ env.peers, p.asked env.localId = true → ¬(peerNode p.id).PendingInput id) ∧
      env.localReadsOk = true ∧ env.complete = true

lemma IndexedNode.soundAnswer_of_unknown (h : env.Honest n.node peerNode)
    (hcond : env.complete = true → ∀ id ∈ ids, ¬n.Known env peerNode id → env.localReadsOk = true ∧ ¬n.node.MapHas id) :
    n.SoundAnswer env peerNode ids := by
  intro live hlive id hid hnot
  by_cases hc : env.complete = true
  · obtain ⟨live', hlive', hmem⟩ := handleConfirmChunksLive_complete h hc ids
    rw [hlive] at hlive'
    cases hlive'
    have hknown : ¬n.Known env peerNode id := fun hk => hnot ((hmem id hid).mpr hk)
    obtain ⟨hreads, hmap⟩ := hcond hc id hid hknown
    have hboth := hreads
    unfold localReadsOk at hboth
    rw [Bool.and_eq_true] at hboth
    refine ⟨hmap, ?_, ?_, hreads, hc⟩
    · rintro (hin | htoken)
      · exact hknown (.inr (.inr (.inl ⟨hboth.1, hin⟩)))
      · exact hknown (.inr (.inr (.inr (.inl ⟨hboth.2, htoken⟩))))
    · intro p hp hask hin
      exact hknown (.inr (.inr (.inr (.inr ⟨p, hp, hask, .inl hin⟩))))
  · rcases handleConfirmChunksLive_incomplete n.chunkToFile (by simpa using hc) ids with herr | hall
    · rw [herr] at hlive
      cases hlive
    rw [hall] at hlive
    cases hlive
    exact absurd hid hnot

/-- The answer is sound exactly when the handler fails or reports all, or both reads of the own rows succeed and no
candidate that no source names is in the chunk map. -/
theorem confirm_chunks_live_sound_iff (n : IndexedNode Id) (env : LivenessEnv Id) (peerNode : NodeId → Node Id)
    (h : env.Honest n.node peerNode) (ids : List Id) : n.SoundAnswer env peerNode ids ↔
      (env.complete = true → ∀ id ∈ ids, ¬n.Known env peerNode id → env.localReadsOk = true ∧ ¬n.node.MapHas id) := by
  constructor
  · intro hsound hc id hid hknown
    obtain ⟨live, hlive, hmem⟩ := handleConfirmChunksLive_complete h hc ids
    have hnot : id ∉ live := fun hl => hknown ((hmem id hid).mp hl)
    obtain ⟨hmap, -, -, hreads, -⟩ := hsound live hlive id hid hnot
    exact ⟨hreads, hmap⟩
  · exact soundAnswer_of_unknown h

def indexedByte : IndexedNode FreeId where
  node := .holding freeHash (7, 0) [0] 1 (some 0)
  chunkToFile := fun id => if id = .content [0] 0 7 then some 7 else none

/-- Of a node alone, with the live set cached when the slot held its first byte. -/
def staleCache (pending tokens : Except Unit (PatchRows FreeId)) : LivenessEnv FreeId :=
  ⟨1, .ok [.content [0] 0 7], pending, tokens, []⟩

theorem confirm_chunks_live_sound_before_fold :
    indexedByte.SoundAnswer (staleCache (.ok []) (.ok [])) (fun _ => .empty) [.content [0] 0 7, .content [1] 0 7] := by
  refine (confirm_chunks_live_sound_iff indexedByte _ _ ⟨?_, ?_, by simp [staleCache], by simp [staleCache]⟩ _).mpr ?_
  · intro rows hrows token st
    cases hrows
    simp [indexedByte, holding, Node.empty]
  · intro rows hrows token st
    cases hrows
    simp [indexedByte, holding, Node.empty]
  · intro _ id hid hknown
    refine ⟨rfl, ?_⟩
    rintro ⟨file, l, hl, rfl⟩
    have hfirst : l.chunkId = .content [0] 0 7 := by
      by_cases hf : file = 7
      · simp [indexedByte, locsOf, holding, hf, holdingLocation, freeHash] at hl
        simp [hl]
      · simp [indexedByte, locsOf, holding, hf] at hl
    exact hknown (.inl ⟨_, rfl, by simp [hfirst]⟩)

def bytePatch : NodeEvent FreeId := .patch (.quiet 1) (.multiPatch (rangePatch (.content [0] 0 7) 0 [1] 1))

def byteDelta : FreeId := .content (encodeAccumulator [(1, 0, [1])]) 0 7

def patchedByte : IndexedNode FreeId := indexedByte.step freeHash bytePatch

def foldedByte : IndexedNode FreeId := patchedByte.step freeHash (.fold (.quiet 1) (7, 0))

lemma foldedByte_reads : ReadsPatchRows foldedByte.node [(.token byteDelta, .folded (.content [1] 0 7))] := by
  have hrows (id : FreeId) : foldedByte.node.patchState id
      = update (update (fun _ => none) (.token byteDelta) (some (.pending (.content [0] 0 7) byteDelta 1 0 (some 1))))
          (.token byteDelta) (some (.folded (.content [1] 0 7))) id := rfl
  intro token st
  rw [hrows]
  by_cases h : token = .token byteDelta
  · rw [h, update_self]
    simp [eq_comm]
  rw [update_of_ne h, update_of_ne h]
  simp [h]

/-- A fold's result, and after a failed read of the rows a pending delta, is reported as not live. -/
theorem fold_result_reported_dead : foldedByte.node.MapHas (.content [1] 0 7) ∧
      ReadsPatchRows foldedByte.node [(.token byteDelta, .folded (.content [1] 0 7))] ∧
      handleConfirmChunksLive foldedByte.chunkToFile
        (staleCache (.ok [(.token byteDelta, .folded (.content [1] 0 7))]) (.ok [(.token byteDelta, .folded (.content [1] 0 7))]))
        [.content [1] 0 7] = .chunkLiveness [] ∧
      patchedByte.node.PendingInput byteDelta ∧
      handleConfirmChunksLive patchedByte.chunkToFile (staleCache (.error ()) (.error ())) [byteDelta] = .chunkLiveness [] := by
  refine ⟨?_, foldedByte_reads, by decide +kernel, ?_, by decide +kernel⟩
  · refine ⟨7, ⟨.content [1] 0 7, [1], 1, some 0, some 0, some 1, some 7⟩, ?_, rfl⟩
    decide +kernel
  · exact ⟨.token byteDelta, .content [0] 0 7, byteDelta, 1, 0, some 1, by decide +kernel, .inr rfl⟩

end Dfs
