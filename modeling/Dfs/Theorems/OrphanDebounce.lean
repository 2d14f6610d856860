import Dfs.OrphanSweep

/-! # The two sightings of an orphan -/

namespace Dfs

open Transition List Sweep

variable {Id : Type}

/-- The page's chunks, what is live, the rows (if readable), the ages, and the authorisation of the ready ones
(`none`: deferred). -/
structure PageScan (Id : Type) where
  chunks : List Id
  /-- The storage lists every chunk once. -/
  nodup : chunks.Nodup
  liveFromChunkMap : List Id
  liveFromMetadata : List Id
  patchRows : Except Unit (List Id)
  age : Id → Nat
  graceSecs : Nat
  authorized : Option (List Id)

structure Debounce (Id : Type) where
  orphanCandidates : List Id
  lastFound : Id → Option Bool

variable [DecidableEq Id]

def PageScan.candidates (H : ChunkHash Id) (p : PageScan Id) : List (Id × Nat) :=
  (liveFileCandidates H p.chunks p.liveFromChunkMap p.liveFromMetadata p.age).filter
    (fun c => !(p.patchRows.toOption.any (·.contains c.1)))

def PageScan.findsOrphan (H : ChunkHash Id) (p : PageScan Id) (id : Id) : Bool :=
  !H.looksLikePatchToken id && !(p.liveFromMetadata.contains id || p.liveFromChunkMap.contains id) &&
    !(p.patchRows.toOption.any (·.contains id)) && decide (p.graceSecs ≤ p.age id)

def Debounce.ready (H : ChunkHash Id) (s : Debounce Id) (p : PageScan Id) : List Id :=
  (trackCandidates H p.graceSecs (p.candidates H) s.orphanCandidates).2

/-- When deferred, the ready ones are first sightings again. -/
def Debounce.step (H : ChunkHash Id) (s : Debounce Id) (p : PageScan Id) : Debounce Id where
  orphanCandidates :=
    let tracked := (trackCandidates H p.graceSecs (p.candidates H) s.orphanCandidates).1
    if p.authorized.isNone then s.ready H p ++ tracked else tracked
  lastFound id := if id ∈ p.chunks then some (p.findsOrphan H id) else s.lastFound id

/-- Ready only if this page and the last one that examined it found it an orphan. -/
def Debounce.TwoSightings (H : ChunkHash Id) (s : Debounce Id) (p : PageScan Id) : Prop :=
  ∀ id ∈ s.ready H p, id ∈ p.chunks ∧ p.findsOrphan H id = true ∧ s.lastFound id = some true

/-- The page finds no waiting chunk referenced or too young. -/
def Debounce.Steady (H : ChunkHash Id) (s : Debounce Id) (p : PageScan Id) : Prop :=
  ∀ id ∈ p.chunks, p.findsOrphan H id = false → id ∉ s.orphanCandidates

/-- Every waiting chunk was found an orphan by the last page that examined it. -/
def Debounce.Fresh (s : Debounce Id) : Prop := ∀ id ∈ s.orphanCandidates, s.lastFound id = some true

/-! ## One page -/

def pastGrace (graceSecs : Nat) (cands : List (Id × Nat)) : List Id :=
  (cands.filter (fun c => decide (graceSecs ≤ c.2))).map (·.1)

variable {id : Id} {cands : List (Id × Nat)}

omit [DecidableEq Id] in
lemma mem_ids_of_pastGrace {graceSecs : Nat} (h : id ∈ pastGrace graceSecs cands) :
    id ∈ cands.map (·.1) := (filter_sublist.map _).subset h

lemma trackCandidates_spec {H : ChunkHash Id} (graceSecs : Nat) (hnodup : (cands.map (·.1)).Nodup)
    (htoken : ∀ c ∈ cands, H.looksLikePatchToken c.1 = false) (tracked : List Id) (id : Id) :
    (id ∈ (trackCandidates H graceSecs cands tracked).2 ↔ id ∈ tracked ∧ id ∈ pastGrace graceSecs cands) ∧
      (id ∈ (trackCandidates H graceSecs cands tracked).1 ↔ (id ∈ tracked ↔ id ∉ pastGrace graceSecs cands)) := by
  induction cands generalizing tracked with
  | nil => simp [trackCandidates, pastGrace]
  | cons c rest ih =>
    obtain ⟨cid, age⟩ := c
    rw [map_cons, nodup_cons] at hnodup
    obtain ⟨hfirst, hrest⟩ := hnodup
    have hnot : cid ∉ pastGrace graceSecs rest := fun h => hfirst (mem_ids_of_pastGrace h)
    have hcid : H.looksLikePatchToken cid = false := htoken (cid, age) (by simp)
    have ih := ih hrest fun c hc => htoken c (mem_cons_of_mem _ hc)
    rw [trackCandidates, if_neg (by simp [hcid])]
    by_cases hage : age < graceSecs
    · have hold : pastGrace graceSecs ((cid, age) :: rest) = pastGrace graceSecs rest := by
        simp [pastGrace, hage]
      rw [if_pos hage, hold]
      exact ih tracked
    have hold : pastGrace graceSecs ((cid, age) :: rest) = cid :: pastGrace graceSecs rest := by
      simp [pastGrace, Nat.le_of_not_lt hage]
    rw [if_neg hage, hold]
    by_cases hid : id = cid
    · subst hid
      by_cases htracked : id ∈ tracked
      · have := ih (tracked.filter (· ≠ id))
        simp_all
      have := ih (id :: tracked)
      simp_all
    · by_cases htracked : cid ∈ tracked
      · have := ih (tracked.filter (· ≠ cid))
        simp_all
      have := ih (cid :: tracked)
      simp_all

variable {H : ChunkHash Id} {s : Debounce Id} {p : PageScan Id}

open PageScan

lemma mem_candidates_iff {c : Id × Nat} : c ∈ p.candidates H ↔ c.1 ∈ p.chunks ∧ c.2 = p.age c.1 ∧
    H.looksLikePatchToken c.1 = false ∧
      (p.liveFromMetadata.contains c.1 || p.liveFromChunkMap.contains c.1) = false ∧
      p.patchRows.toOption.any (·.contains c.1) = false := by
  obtain ⟨id, age⟩ := c
  simp only [candidates, liveFileCandidates, List.mem_filter, mem_map, Prod.mk.injEq, Bool.and_eq_true, Bool.not_eq_true']
  constructor
  · rintro ⟨⟨_, ⟨hmem, htoken, hlive⟩, rfl, rfl⟩, hrows⟩
    exact ⟨hmem, rfl, htoken, hlive, hrows⟩
  · rintro ⟨hmem, rfl, htoken, hlive, hrows⟩
    exact ⟨⟨id, ⟨hmem, htoken, hlive⟩, rfl, rfl⟩, hrows⟩

lemma mem_pastGrace_candidates_iff : id ∈ pastGrace p.graceSecs (p.candidates H) ↔ id ∈ p.chunks ∧ p.findsOrphan H id = true := by
  simp only [pastGrace, mem_map, List.mem_filter, decide_eq_true_eq, findsOrphan, Bool.and_eq_true, Bool.not_eq_true']
  constructor
  · rintro ⟨c, ⟨hc, hage⟩, rfl⟩
    obtain ⟨hmem, hcage, htoken, hlive, hrows⟩ := mem_candidates_iff.mp hc
    exact ⟨hmem, ⟨⟨htoken, hlive⟩, hrows⟩, hcage ▸ hage⟩
  · rintro ⟨hmem, ⟨⟨htoken, hlive⟩, hrows⟩, hage⟩
    exact ⟨(id, p.age id), ⟨mem_candidates_iff.mpr ⟨hmem, rfl, htoken, hlive, hrows⟩, hage⟩, rfl⟩

lemma nodup_candidates : ((p.candidates H).map (·.1)).Nodup := by
  have hsub : ((p.candidates H).map (·.1)).Sublist p.chunks := by
    have hids : ((liveFileCandidates H p.chunks p.liveFromChunkMap p.liveFromMetadata p.age).map (·.1)).Sublist p.chunks := by
      simp only [liveFileCandidates, map_map]
      rw [show ((fun c : Id × Nat => c.1) ∘ fun id => (id, p.age id)) = id from rfl, map_id]
      exact filter_sublist
    exact (filter_sublist.map _).trans hids
  exact p.nodup.sublist hsub

open Debounce

lemma mem_ready_iff : id ∈ s.ready H p ↔ id ∈ s.orphanCandidates ∧ id ∈ p.chunks ∧ p.findsOrphan H id = true := by
  have htoken : ∀ c ∈ p.candidates H, H.looksLikePatchToken c.1 = false := fun c hc => (mem_candidates_iff.mp hc).2.2.1
  rw [ready, (trackCandidates_spec p.graceSecs nodup_candidates htoken s.orphanCandidates id).1, mem_pastGrace_candidates_iff]

lemma mem_orphanCandidates_step_iff : id ∈ (s.step H p).orphanCandidates ↔
      if id ∈ p.chunks ∧ p.findsOrphan H id = true then id ∉ s.orphanCandidates ∨ p.authorized.isNone = true
      else id ∈ s.orphanCandidates := by
  have htoken : ∀ c ∈ p.candidates H, H.looksLikePatchToken c.1 = false := fun c hc => (mem_candidates_iff.mp hc).2.2.1
  have htracked := (trackCandidates_spec p.graceSecs nodup_candidates htoken s.orphanCandidates id).2
  rw [mem_pastGrace_candidates_iff] at htracked
  simp only [Debounce.step]
  by_cases horphan : id ∈ p.chunks ∧ p.findsOrphan H id = true
  · cases hauth : p.authorized.isNone <;> by_cases hmem : id ∈ s.orphanCandidates <;>
      simp [htracked, mem_ready_iff, horphan, hmem]
  cases hauth : p.authorized.isNone <;> by_cases hmem : id ∈ s.orphanCandidates <;>
    simp [htracked, mem_ready_iff, horphan, hmem]

/-! ## Runs of pages -/

lemma Debounce.Fresh.twoSightings (h : s.Fresh) (p : PageScan Id) : s.TwoSightings H p := by
  intro id hid
  obtain ⟨hwaits, hmem, horphan⟩ := mem_ready_iff.mp hid
  exact ⟨hmem, horphan, h id hwaits⟩

lemma Debounce.Fresh.step_iff (h : s.Fresh) (p : PageScan Id) : (s.step H p).Fresh ↔ s.Steady H p := by
  constructor
  · intro hfresh id hid hother hwaits
    have hnot : ¬(id ∈ p.chunks ∧ p.findsOrphan H id = true) := by simp [hother]
    have hstill : id ∈ (s.step H p).orphanCandidates := by
      rw [mem_orphanCandidates_step_iff, if_neg hnot]
      exact hwaits
    have := hfresh id hstill
    simp [Debounce.step, hid, hother] at this
  · intro hsteady id hid
    rw [mem_orphanCandidates_step_iff] at hid
    simp only [Debounce.step]
    by_cases hmem : id ∈ p.chunks
    · cases hother : p.findsOrphan H id with
      | true => rw [if_pos hmem]
      | false =>
        rw [if_neg (by simp [hother])] at hid
        exact absurd hid (hsteady id hmem hother)
    rw [if_neg (fun h => hmem h.1)] at hid
    rw [if_neg hmem]
    exact h id hid

def Debounce.new : Debounce Id := ⟨[], fun _ => none⟩

def orphanPage (id : Id) : PageScan Id := ⟨[id], by simp, [], [], .ok [], fun _ => 0, 0, some []⟩

lemma noTokens_step (h : ∀ id ∈ s.orphanCandidates, H.looksLikePatchToken id = false) (p : PageScan Id) :
    ∀ id ∈ (s.step H p).orphanCandidates, H.looksLikePatchToken id = false := by
  intro id hid
  rw [mem_orphanCandidates_step_iff] at hid
  split at hid
  · rename_i horphan
    simp only [findsOrphan, Bool.and_eq_true, Bool.not_eq_true'] at horphan
    exact horphan.2.1.1.1
  · exact h id hid

lemma fresh_of_twoSightings (htoken : ∀ id ∈ s.orphanCandidates, H.looksLikePatchToken id = false)
    (h : ∀ q, s.TwoSightings H q) : s.Fresh := by
  intro id hid
  have hready : id ∈ s.ready H (orphanPage id) := by
    rw [mem_ready_iff]
    refine ⟨hid, by simp [orphanPage], ?_⟩
    simp [findsOrphan, orphanPage, htoken id hid, Except.toOption]
  exact (h (orphanPage id) id hready).2.2

/-- Every chunk that is ready was sighted twice, exactly if no page finds a waiting chunk referenced or too young. -/
theorem two_sightings_iff (H : ChunkHash Id) (pages : List (PageScan Id)) :
    Meets (Debounce.step H) (fun s p => s.TwoSightings H p ∧ ∀ q, (s.step H p).TwoSightings H q) .new pages ↔
      Meets (Debounce.step H) (Debounce.Steady H) .new pages := by
  have hright : ∀ (s : Debounce Id) (p : PageScan Id), (s.Fresh ∧ ∀ id ∈ s.orphanCandidates, H.looksLikePatchToken id = false) →
      ((s.TwoSightings H p ∧ ∀ q, (s.step H p).TwoSightings H q) ↔ s.Steady H p) := by
    rintro s p ⟨hfresh, htoken⟩
    rw [← hfresh.step_iff p]
    constructor
    · exact fun h => fresh_of_twoSightings (noTokens_step htoken p) h.2
    · exact fun h => ⟨hfresh.twoSightings p, h.twoSightings⟩
  have hstep : ∀ (s : Debounce Id) (p : PageScan Id), (s.Fresh ∧ ∀ id ∈ s.orphanCandidates, H.looksLikePatchToken id = false) →
      s.Steady H p → (s.step H p).Fresh ∧ ∀ id ∈ (s.step H p).orphanCandidates, H.looksLikePatchToken id = false :=
    fun s p hs hsteady => ⟨(hs.1.step_iff p).mpr hsteady, noTokens_step hs.2 p⟩
  exact meets_iff hright hstep ⟨by simp [Fresh, new], by simp [new]⟩

def livePage (id : Id) : PageScan Id := { orphanPage id with liveFromChunkMap := [id] }

theorem live_in_between_is_ready :
    let seen := ((Debounce.new.step freeHash (orphanPage (.content [1] 0 1))).step freeHash (livePage (.content [1] 0 1)))
    seen.ready freeHash (orphanPage (.content [1] 0 1)) = [.content [1] 0 1] ∧
      ¬seen.TwoSightings freeHash (orphanPage (.content [1] 0 1)) := by
  refine ⟨by decide +kernel, fun h => ?_⟩
  have hlast := (h (.content [1] 0 1) (by decide +kernel)).2.2
  revert hlast
  decide +kernel

end Dfs
