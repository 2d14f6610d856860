import Dfs.OrphanSweep
import Dfs.SlotRun

/-! # Does the orphan sweep delete only what nobody needs? -/

namespace Dfs

open List Function Sweep Transition Node

variable {Id : Type}

def PatchRead.Names (s : Node Id) (id : Id) : PatchRead → Prop
  | .pending => s.PendingInput id
  | .tokens => (s.patchState id).isSome = true

variable {id : Id} {rows : PatchRows Id}

lemma PatchRead.mem_ids {s : Node Id} (h : ReadsPatchRows s rows) (r : PatchRead) : id ∈ r.ids rows ↔ r.Names s id := by
  cases r with
  | pending => exact mem_allPendingPatchChunkIds h
  | tokens => exact mem_allPatchTokenIds h

def Sweep.Names (s : Sweep Id) (source : PatchSource) (id : Id) : Prop := source.read.Names (s.nodeAt source.node) id

/-- Not in the leader's chunk map, nor a base, delta or token of any node's row. -/
def Sweep.Unneeded (s : Sweep Id) (peers : List NodeId) (id : Id) : Prop :=
  ¬s.leader.MapHas id ∧ ¬s.leader.PatchNeeds id ∧ ∀ n ∈ peers, ¬(s.peer n).PatchNeeds id

lemma Sweep.not_patchNeeds_of_not_names {s : Sweep Id} {peers : List NodeId}
    (h : ∀ source ∈ patchSources peers, ¬s.Names source id) :
    ¬s.leader.PatchNeeds id ∧ ∀ n ∈ peers, ¬(s.peer n).PatchNeeds id := by
  have hnode (n : Option NodeId) (hn : n ∈ none :: peers.map some) : ¬(s.nodeAt n).PatchNeeds id := by
    have hmem (r : PatchRead) : (⟨n, r⟩ : PatchSource) ∈ patchSources peers := by
      refine mem_flatMap.mpr ⟨n, hn, ?_⟩
      cases r <;> simp
    rintro (hin | htoken)
    · exact h ⟨n, .pending⟩ (hmem _) hin
    · exact h ⟨n, .tokens⟩ (hmem _) htoken
  refine ⟨hnode none (by simp), fun n hn => hnode (some n) ?_⟩
  simpa using hn

/-! ## What a page has in hand -/

section InHand

variable [DecidableEq Id]

def SweepPage.inHand : SweepPage Id → List Id
  | .idle => []
  | .sampled chunks fromMap => chunks.filter (fun id => !fromMap.contains id)
  | .screened cands | .candidates cands => cands.map (·.1)
  | .ready ids | .asking ids _ _ | .authorized ids | .deleting ids _ => ids

/-- The page has learnt from a scan that the id is not named there. -/
def SweepPage.Cleared (id : Id) (source : PatchSource) : SweepPage Id → Prop
  | .asking _ pendingIds remaining => id ∉ pendingIds ∧ source ∉ remaining
  | .authorized _ | .deleting .. => True
  | _ => False

/-- Not in the chunk map, nor named by the scans that cleared it. -/
def Sweep.Holds (s : Sweep Id) (peers : List NodeId) (p : SweepPage Id) : Prop :=
  ∀ id ∈ p.inHand, ¬s.leader.MapHas id ∧ ∀ source ∈ patchSources peers, p.Cleared id source → ¬s.Names source id

/-- What a run keeps: every page is right about what it has in hand. -/
def Sweep.Sound (s : Sweep Id) (peers : List NodeId) : Prop := ∀ k, s.Holds peers (s.page k)

/-- The walk goes through all files of the map, and a scan that succeeds gives the rows. -/
def SweepAction.Honest (s : Sweep Id) : SweepAction Id → Prop
  | .sample _ _ files => ∀ f, s.leader.chunkMap f ≠ none → f ∈ files
  | .gather _ source (.ok rows) => ReadsPatchRows (s.nodeAt source.node) rows
  | _ => True

/-- Nothing in hand comes into use: no event gives it a place in the leader's map or a row, and a cached union names
what the rows need of it. -/
def SweepAction.Undisturbed (H : ChunkHash Id) (peers : List NodeId) (s : Sweep Id) : SweepAction Id → Prop
  | .leaderEvent e => ∀ k, ∀ id ∈ (s.page k).inHand, ((e.run H s.leader).MapHas id → s.leader.MapHas id) ∧
      ∀ r : PatchRead, r.Names (e.run H s.leader) id → r.Names s.leader id
  | .peerEvent n e => ∀ k, ∀ id ∈ (s.page k).inHand, ∀ r : PatchRead, r.Names (e.run H (s.peer n)) id → r.Names (s.peer n) id
  | .consultCache k => ∀ pendingIds, s.freshCache = some pendingIds → ∀ id ∈ (s.page k).inHand, id ∉ pendingIds →
      ∀ source ∈ patchSources peers, ¬s.Names source id
  | _ => True

variable {H : ChunkHash Id} {peers : List NodeId} {s : Sweep Id}
  {k : Nat} {p : SweepPage Id} {ids pendingIds : List Id} {a : SweepAction Id} {e : NodeEvent Id}

lemma Sweep.Sound.setPage (hs : s.Sound peers) (hp : s.Holds peers p) : (s.setPage k p).Sound peers := by
  intro j
  rw [setPage_page]
  by_cases hj : j = k
  · rw [hj, update_self]
    exact hp
  rw [update_of_ne hj]
  exact hs j

lemma Sweep.Holds.mono {q : SweepPage Id} (hp : s.Holds peers p) (hids : ∀ id ∈ q.inHand, id ∈ p.inHand)
    (hcleared : ∀ id ∈ q.inHand, ∀ source ∈ patchSources peers, q.Cleared id source → p.Cleared id source) : s.Holds peers q :=
  fun id hid => ⟨(hp id (hids id hid)).1, fun source hsource hc =>
    (hp id (hids id hid)).2 source hsource (hcleared id hid source hsource hc)⟩

lemma Sweep.Holds.idle : s.Holds peers .idle := fun _ hid => absurd hid not_mem_nil

omit [DecidableEq Id] in
lemma mem_liveChunkIdsFromChunkMap {s : Node Id} {files : List FileId} (h : ∀ f, s.chunkMap f ≠ none → f ∈ files)
    (hid : s.MapHas id) : id ∈ s.liveChunkIdsFromChunkMap files := by
  obtain ⟨f, l, hl, rfl⟩ := hid
  have hf : s.chunkMap f ≠ none := by
    intro hnone
    simp [locsOf, hnone] at hl
  exact mem_flatMap.mpr ⟨f, h f hf, mem_map_of_mem hl⟩

lemma mem_trackCandidates {graceSecs : Nat} {cands : List (Id × Nat)} {tracked : List Id}
    (h : id ∈ (trackCandidates H graceSecs cands tracked).2) : id ∈ cands.map (·.1) := by
  induction cands generalizing tracked with
  | nil => simp [trackCandidates] at h
  | cons c rest ih =>
    rw [map_cons, mem_cons]
    unfold trackCandidates at h
    split at h
    · exact .inr (ih h)
    split at h
    · exact .inr (ih h)
    split at h
    · rcases mem_cons.mp h with rfl | h
      · exact .inl rfl
      · exact .inr (ih h)
    · exact .inr (ih h)

lemma Sweep.Sound.congr {t : Sweep Id} (hs : s.Sound peers) (hmap : t.leader.chunkMap = s.leader.chunkMap)
    (hrows : t.leader.patchState = s.leader.patchState) (hpeer : t.peer = s.peer) (hpage : t.page = s.page) : t.Sound peers := by
  have hhas (id : Id) : t.leader.MapHas id ↔ s.leader.MapHas id := by
    unfold MapHas locsOf
    rw [hmap]
  have hnames (source : PatchSource) (id : Id) : t.Names source id ↔ s.Names source id := by
    obtain ⟨_ | n, _ | _⟩ := source <;>
      simp only [Names, nodeAt, PatchRead.Names, PendingInput, hrows, hpeer]
  intro k id hid
  rw [hpage] at hid
  rw [hhas, hpage]
  refine ⟨(hs k id hid).1, fun source hsource hc => ?_⟩
  rw [hnames]
  exact (hs k id hid).2 source hsource hc

lemma foldl_deleteChunkLocation_frame (ids : List Id) (n : Node Id) : (ids.foldl deleteChunkLocation n).chunkMap = n.chunkMap ∧
      (ids.foldl deleteChunkLocation n).patchState = n.patchState := by
  induction ids generalizing n with
  | nil => exact ⟨rfl, rfl⟩
  | cons id ids ih => exact ih (n.deleteChunkLocation id)

/-! ## One step -/

lemma Sweep.Sound.authorize (hs : s.Sound peers) (hmap : ∀ id ∈ ids, ¬s.leader.MapHas id)
    (hrows : ∀ id ∈ ids, id ∉ pendingIds → ∀ source ∈ patchSources peers, ¬s.Names source id) :
    (s.authorize k ids pendingIds).Sound peers := by
  unfold Sweep.authorize
  refine hs.setPage ?_
  split
  · exact .idle
  intro id hid
  obtain ⟨hid, hnot⟩ := List.mem_filter.mp hid
  exact ⟨hmap id hid, fun source hsource _ => hrows id hid (by simpa using hnot) source hsource⟩

lemma mem_liveFileCandidates {chunks fromMap fromMetadata : List Id} {age : Id → Nat}
    (h : id ∈ (liveFileCandidates H chunks fromMap fromMetadata age).map (·.1)) :
    id ∈ chunks.filter (fun id => !fromMap.contains id) := by
  obtain ⟨c, hc, rfl⟩ := mem_map.mp h
  obtain ⟨id, hin, rfl⟩ := mem_map.mp hc
  obtain ⟨hchunk, hnot⟩ := List.mem_filter.mp hin
  simp only [Bool.and_eq_true, Bool.not_eq_true', Bool.or_eq_false_iff] at hnot
  exact List.mem_filter.mpr ⟨hchunk, by simpa using hnot.2.2⟩

lemma Sweep.Holds.gather {remaining : List PatchSource} {source : PatchSource}
    (hp : s.Holds peers (.asking ids pendingIds remaining)) (hrows : ReadsPatchRows (s.nodeAt source.node) rows) :
    s.Holds peers (.asking ids (pendingIds ++ source.read.ids rows) (remaining.filter (· ≠ source))) := by
  intro id hid
  refine ⟨(hp id hid).1, fun source' hsource' hc => ?_⟩
  obtain ⟨hunion, hremaining⟩ := hc
  rw [mem_append, not_or] at hunion
  by_cases hsame : source' = source
  · rw [hsame]
    exact fun hnames => hunion.2 ((source.read.mem_ids hrows).mpr hnames)
  · exact (hp id hid).2 source' hsource' ⟨hunion.1, fun hmem => hremaining (List.mem_filter.mpr ⟨hmem, by simpa using hsame⟩)⟩

lemma Sweep.Sound.stepPage (hs : s.Sound peers) (hk : a.pageIndex = some k) (hhonest : a.Honest s)
    (hcond : a.Undisturbed H peers s) : (s.stepPage H peers k (s.page k) a).Sound peers := by
  have hp := hs k
  unfold Sweep.stepPage
  split
  · -- The map is sampled: what is in the map is in the sample.
    refine hs.setPage (fun id hid => ⟨fun hmap => ?_, fun _ _ hc => hc.elim⟩)
    have hnot := (List.mem_filter.mp hid).2
    simp [mem_liveChunkIdsFromChunkMap hhonest hmap] at hnot
  · rename_i chunks fromMap _ fromMetadata age hpage
    rw [hpage] at hp
    split
    · exact hs.setPage (hp.mono (fun id hid => mem_liveFileCandidates hid) (fun _ _ _ _ hc => hc.elim))
    · exact hs.setPage .idle
  · rename_i cands _ readable hpage
    rw [hpage] at hp
    refine hs.setPage (hp.mono (fun id hid => ?_) (fun _ _ _ _ hc => hc.elim))
    obtain ⟨c, hc, rfl⟩ := mem_map.mp hid
    exact mem_map_of_mem (List.mem_filter.mp hc).1
  · rename_i cands _ graceSecs hpage
    rw [hpage] at hp
    refine Sound.congr (hs.setPage (k := k) ?_) rfl rfl rfl rfl
    split
    · exact .idle
    · exact hp.mono (fun id hid => mem_trackCandidates hid) (fun _ _ _ _ hc => hc.elim)
  · -- The union in the cache is used as it is; else every scan is still to be made.
    rename_i ids j hpage
    cases hk
    have hin : (s.page k).inHand = ids := by rw [hpage]; rfl
    rw [hpage] at hp
    split
    · rename_i pendingIds hfresh
      exact hs.authorize (fun id hid => (hp id hid).1) (fun id hid hnot => hcond pendingIds hfresh id (hin ▸ hid) hnot)
    refine hs.setPage (fun id hid => ⟨(hp id hid).1, fun source hsource hc => ?_⟩)
    exact absurd hsource hc.2
  · rename_i ids pendingIds remaining _ source rows hpage
    rw [hpage] at hp
    split
    · split
      · exact hs.setPage (hp.gather hhonest)
      · exact (hs.setPage .idle).congr rfl rfl rfl rfl
    · exact hs
  · -- Every scan has been made.
    rename_i ids pendingIds _ hpage
    rw [hpage] at hp
    refine Sound.authorize (hs.congr rfl rfl rfl rfl) (fun id hid => (hp id hid).1) (fun id hid hnot source hsource => ?_)
    exact (hp id hid).2 source hsource ⟨hnot, not_mem_nil⟩
  · rename_i ids _ readable hpage
    rw [hpage] at hp
    refine hs.setPage ?_
    split
    · exact .idle
    · exact hp.mono (fun id hid => (List.mem_filter.mp hid).1) (fun _ _ _ _ _ => trivial)
  · rename_i id rest evicted _ deleted hpage
    rw [hpage] at hp
    have hrest (e : List Id) : s.Holds peers (.deleting rest e) :=
      hp.mono (fun _ hid => mem_cons_of_mem _ hid) (fun _ _ _ _ _ => trivial)
    split
    · exact hs.setPage (hrest _)
    split
    · exact (hs.setPage (hrest _)).congr rfl rfl rfl rfl
    · exact hs.setPage (hrest _)
  · rename_i evicted _ committed _
    cases committed with
    | false => exact (hs.setPage .idle).congr rfl rfl rfl rfl
    | true =>
      obtain ⟨hmap, hrows⟩ := foldl_deleteChunkLocation_frame evicted s.leader
      exact (hs.setPage .idle).congr hmap hrows rfl rfl
  · exact hs

lemma Sweep.Sound.leaderEvent (hs : s.Sound peers) (hcond : (SweepAction.leaderEvent e).Undisturbed H peers s) :
    (s.step H peers (.leaderEvent e)).Sound peers := by
  intro k id hid
  obtain ⟨hmap, hrows⟩ := hcond k id hid
  refine ⟨fun h => (hs k id hid).1 (hmap h), fun source hsource hc hnames => ?_⟩
  refine (hs k id hid).2 source hsource hc ?_
  obtain ⟨_ | n, r⟩ := source
  · exact hrows r hnames
  · exact hnames

lemma Sweep.Sound.peerEvent (hs : s.Sound peers) {n : NodeId} (hcond : (SweepAction.peerEvent n e).Undisturbed H peers s) :
    (s.step H peers (.peerEvent n e)).Sound peers := by
  intro k id hid
  refine ⟨(hs k id hid).1, fun source hsource hc hnames => ?_⟩
  refine (hs k id hid).2 source hsource hc ?_
  obtain ⟨_ | m, r⟩ := source
  · exact hnames
  change r.Names (update s.peer n (e.run H (s.peer n)) m) id at hnames
  show r.Names (s.peer m) id
  by_cases hm : m = n
  · subst hm
    rw [update_self] at hnames
    exact hcond k id hid r hnames
  · rwa [update_of_ne hm] at hnames

lemma Sweep.Sound.step (hs : s.Sound peers) (hhonest : a.Honest s) (hcond : a.Undisturbed H peers s) :
    (s.step H peers a).Sound peers := by
  cases ha : a.pageIndex with
  | none =>
    cases a with
    | leaderEvent e => exact hs.leaderEvent hcond
    | peerEvent n e => exact hs.peerEvent hcond
    | elapse ms => exact hs.congr rfl rfl rfl rfl
    | _ => cases ha
  | some k =>
    have hstep : s.step H peers a = s.stepPage H peers k (s.page k) a := by
      unfold Sweep.step
      cases a <;> cases ha <;> rfl
    rw [hstep]
    exact hs.stepPage ha hhonest hcond

end InHand

/-! ## A run -/

variable [DecidableEq Id]

/-- Where nothing in hand comes into use, what is deleted is needed by no chunk map and no row. -/
theorem sweep_deletes_unneeded (H : ChunkHash Id) (peers : List NodeId) (s : Sweep Id) (hs : ∀ k, s.page k = .idle)
    (actions : List (SweepAction Id))
    (hmeets : Transition.Meets (Sweep.step H peers) (fun s a => a.Honest s ∧ a.Undisturbed H peers s) s actions)
    (a : SweepAction Id) (id : Id) (hdel : (Transition.run (Sweep.step H peers) s actions).deletes H a = some id) :
    (Transition.run (Sweep.step H peers) s actions).Unneeded peers id := by
  have hstep : ∀ s a, Sound s peers → (a.Honest s ∧ a.Undisturbed H peers s) → Sound (s.step H peers a) peers :=
    fun s a hs ha => hs.step ha.1 ha.2
  have hinit : s.Sound peers := fun k => by
    rw [hs k]
    exact .idle
  have hrun := invariant_run hstep hinit hmeets
  generalize run (step H peers) s actions = t at hrun hdel ⊢
  unfold deletes at hdel
  split at hdel
  · rename_i k
    split at hdel
    · rename_i head rest evicted hpage
      split at hdel
      · cases hdel
      cases hdel
      have hk := hrun k
      rw [hpage] at hk
      obtain ⟨hmap, hrows⟩ := hk id mem_cons_self
      exact ⟨hmap, t.not_patchNeeds_of_not_names (fun source hsource => hrows source hsource trivial)⟩
    · cases hdel
  · cases hdel

/-! ## Runs -/

/-- On the leader's disk and not in its map; peer `2` holds it in slot `(7, 0)`. -/
def strayChunk : FreeId := .content [0] 0 7

def straySweep : Sweep FreeId where
  leader := { Node.empty with files := fun id => if id = strayChunk then some [0] else none }
  peer := fun _ => .holding freeHash (7, 0) [0] 2 (some 0)
  now := 0
  orphanAuthCache := none
  orphanCandidates := []
  page := fun _ => .idle

def sightPage (chunks : List FreeId) : List (SweepAction FreeId) :=
  [.sample 0 chunks [7], .screen 0 (.ok []) (fun _ => 700), .exclude 0 true, .track 0 600]

def gatherNothing : List (SweepAction FreeId) :=
  [.consultCache 0, .gather 0 ⟨none, .pending⟩ (.ok []), .gather 0 ⟨none, .tokens⟩ (.ok []),
    .gather 0 ⟨some 2, .pending⟩ (.ok []),
    .gather 0 ⟨some 2, .tokens⟩ (.ok []), .store 0]

lemma readsPatchRows_nil {n : Node FreeId} (h : n.patchState = fun _ => none) : ReadsPatchRows n [] := by
  intro token st
  simp [h]

def quietSweep : List (SweepAction FreeId) :=
  sightPage [strayChunk] ++ sightPage [strayChunk] ++ gatherNothing ++ [.recheck 0 true]

def overtakenSweep : List (SweepAction FreeId) :=
  sightPage [strayChunk] ++ sightPage [strayChunk] ++ gatherNothing ++
    [.leaderEvent (.locate 1 (fun _ => true) 7 (holdingLocation freeHash (7, 0) [0] 1 (some 0))), .recheck 0 true]

/-- A union gathered for another chunk, then a patch on the peer, and two pages within ten seconds. -/
def cachedSweep : List (SweepAction FreeId) :=
  sightPage [.content [9] 0 8] ++ sightPage [.content [9] 0 8] ++ gatherNothing ++
    [.recheck 0 true, .delete 0 true, .purge 0 true,
      .peerEvent 2 (.patch (.quiet 2) (.multiPatch (rangePatch strayChunk 0 [1] 1)))] ++
    sightPage [strayChunk] ++ sightPage [strayChunk] ++ [.consultCache 0, .recheck 0 true]

theorem stray_chunk_deleted :
    (Transition.run (Sweep.step freeHash [2]) straySweep quietSweep).deletes freeHash (.delete 0 true) = some strayChunk ∧
      (Transition.run (Sweep.step freeHash [2]) straySweep quietSweep).Unneeded [2] strayChunk := by
  have hdel : (run (step freeHash [2]) straySweep quietSweep).deletes freeHash (.delete 0 true)
      = some strayChunk := by decide +kernel
  refine ⟨hdel, sweep_deletes_unneeded freeHash [2] straySweep (fun _ => rfl) quietSweep ?_ _ _ hdel⟩
  have hsample {t : Sweep FreeId} (ht : t.leader.chunkMap = fun _ => none) :
      ∀ f, t.leader.chunkMap f ≠ none → f ∈ [7] := fun f h => absurd (congrFun ht f) h
  exact ⟨⟨hsample rfl, trivial⟩, ⟨trivial, trivial⟩, ⟨trivial, trivial⟩, ⟨trivial, trivial⟩,
    ⟨hsample rfl, trivial⟩, ⟨trivial, trivial⟩, ⟨trivial, trivial⟩, ⟨trivial, trivial⟩,
    ⟨trivial, fun _ h => nomatch h⟩, ⟨readsPatchRows_nil rfl, trivial⟩, ⟨readsPatchRows_nil rfl, trivial⟩,
    ⟨readsPatchRows_nil rfl, trivial⟩, ⟨readsPatchRows_nil rfl, trivial⟩, ⟨trivial, trivial⟩, ⟨trivial, trivial⟩, trivial⟩

/-- After an update behind the sampled map a slot's occupant is deleted; and a cached union misses a peer's new base. -/
theorem sweep_deletes_needed_chunks :
    let meets := Transition.Meets (Sweep.step freeHash [2]) (fun s a => a.Honest s) straySweep
    let after := Transition.run (Sweep.step freeHash [2]) straySweep
    (meets overtakenSweep ∧ (after overtakenSweep).deletes freeHash (.delete 0 true) = some strayChunk ∧
      (after overtakenSweep).leader.MapHas strayChunk) ∧
    (meets cachedSweep ∧ (after cachedSweep).deletes freeHash (.delete 0 true) = some strayChunk ∧
      ((after cachedSweep).peer 2).PendingInput strayChunk) := by
  have hsample {t : Sweep FreeId} (ht : t.leader.chunkMap = fun _ => none) :
      ∀ f, t.leader.chunkMap f ≠ none → f ∈ [7] := fun f h => absurd (congrFun ht f) h
  refine ⟨⟨?_, by decide +kernel, ⟨7, holdingLocation freeHash (7, 0) [0] 1 (some 0), by decide +kernel, rfl⟩⟩,
    ⟨?_, by decide +kernel, ⟨.token (.content (encodeAccumulator [(1, 0, [1])]) 0 7), strayChunk,
      .content (encodeAccumulator [(1, 0, [1])]) 0 7, 1, 0, some 1, by decide +kernel, .inl rfl⟩⟩⟩
  · exact ⟨hsample rfl, trivial, trivial, trivial, hsample rfl, trivial, trivial, trivial, trivial, readsPatchRows_nil rfl,
      readsPatchRows_nil rfl, readsPatchRows_nil rfl, readsPatchRows_nil rfl, trivial, trivial, trivial, trivial⟩
  · exact ⟨hsample rfl, trivial, trivial, trivial, hsample rfl, trivial, trivial, trivial, trivial, readsPatchRows_nil rfl,
      readsPatchRows_nil rfl, readsPatchRows_nil rfl, readsPatchRows_nil rfl, trivial, trivial, trivial, trivial, trivial,
      hsample rfl, trivial, trivial, trivial, hsample rfl, trivial, trivial, trivial, trivial, trivial, trivial⟩

end Dfs
