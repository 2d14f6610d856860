import Dfs.Client.Splice

/-! # Splices and the chunk index -/

namespace Dfs

open Transition List

variable {Id : Type}

def entriesAt (locs : Locations Id) (cidx : Nat) : Locations Id :=
  locs.filter fun l => slotOf l = some cidx

/-- Sorted by file offset, with at most one location for each chunk index. -/
structure CanonicalList (locs : Locations Id) : Prop where
  sorted : SortedByOffset locs
  single : ∀ cidx, (entriesAt locs cidx).length ≤ 1

structure SplicedList (Id : Type) where
  locs : Locations Id
  lastSpliced : Nat → Option (ChunkLocation Id)

def SplicedList.splice [DecidableEq Id] (s : SplicedList Id) (loc : ChunkLocation Id) : SplicedList Id where
  locs := (spliceChunkLocation s.locs loc).1
  lastSpliced cidx := if slotOf loc = some cidx then some loc else s.lastSpliced cidx

/-- With the location last spliced at each spliced index. -/
structure SplicedList.Canonical (s : SplicedList Id) : Prop where
  list : CanonicalList s.locs
  last : ∀ cidx loc, s.lastSpliced cidx = some loc → entriesAt s.locs cidx = [loc]

/-- The stored location of the index has the same offset; if that is `u64::MAX`, none without an offset stands behind it. -/
structure MatchesStored (locs : Locations Id) (loc : ChunkLocation Id) : Prop where
  offset : ∀ l ∈ locs, slotOf l = slotOf loc → l.fileOffset = loc.fileOffset
  last : loc.fileOffset = some u64Max → locs.Pairwise fun l x => slotOf l = slotOf loc → x.fileOffset.isSome = true

/-! ## One splice -/

lemma entriesAt_append (l l' : Locations Id) (cidx : Nat) :
    entriesAt (l ++ l') cidx = entriesAt l cidx ++ entriesAt l' cidx := filter_append ..

lemma entriesAt_cons (l : ChunkLocation Id) (locs : Locations Id) (cidx : Nat) :
    entriesAt (l :: locs) cidx = if slotOf l = some cidx then l :: entriesAt locs cidx else entriesAt locs cidx := by
  simp [entriesAt, filter_cons]

variable {cidx : Nat} {l : ChunkLocation Id}

lemma entriesAt_eq_nil_iff {locs : Locations Id} : entriesAt locs cidx = [] ↔ ∀ l ∈ locs, slotOf l ≠ some cidx := by
  simp [entriesAt]

lemma slotOf_of_offset {offset : Nat} (h : l.fileOffset = some offset) : slotOf l = some (offset / chunkSize) := by
  simp [slotOf, h]

lemma offset_of_slotOf (h : slotOf l = some cidx) : l.fileOffset = some (spliceKey l) := by
  unfold slotOf at h
  cases hl : l.fileOffset with
  | none => simp [hl] at h
  | some offset => simp [spliceKey, hl]

lemma entriesAt_of_spliceKey (h : spliceKey l / chunkSize ≠ cidx) : entriesAt [l] cidx = [] := by
  rw [entriesAt_eq_nil_iff]
  intro x hx hslot
  rw [List.mem_singleton.mp hx] at hslot
  rw [slotOf_of_offset (offset_of_slotOf hslot)] at hslot
  exact h (Option.some.inj hslot)

variable {locs pre replaced post : Locations Id} {loc : ChunkLocation Id} {offset : Nat}

lemma offset_cases {old : ChunkLocation Id} (hold : spliceKey old = offset) :
    old.fileOffset = some offset ∨ old.fileOffset = none ∧ offset = u64Max := by
  cases h : old.fileOffset with
  | none => exact .inr ⟨rfl, by simpa [spliceKey, h] using hold.symm⟩
  | some o => exact .inl (by simpa [spliceKey, h] using hold)

lemma MatchesStored.entriesAt_eq_nil (h : MatchesStored locs loc) (hsingle : ∀ cidx, (entriesAt locs cidx).length ≤ 1)
    (hoffset : loc.fileOffset = some offset) (hlocs : locs = pre ++ replaced ++ post) (hpost : ∀ x ∈ post, offset < spliceKey x)
    (hreplaced : replaced = [] ∧ (∀ x ∈ pre, spliceKey x < offset) ∨ ∃ old, replaced = [old] ∧ spliceKey old = offset) :
    entriesAt pre (offset / chunkSize) = [] ∧ entriesAt post (offset / chunkSize) = [] := by
  have hslot := slotOf_of_offset hoffset
  have hkey : ∀ x ∈ locs, slotOf x = some (offset / chunkSize) → spliceKey x = offset := by
    intro x hx hxslot
    simp [spliceKey, h.offset x hx (hxslot.trans hslot.symm), hoffset]
  simp only [entriesAt_eq_nil_iff]
  constructor
  · intro x hx hxslot
    have hxkey := hkey x (by simp [hlocs, hx]) hxslot
    rcases hreplaced with ⟨-, hlt⟩ | ⟨old, rfl, hold⟩
    · exact absurd hxkey (hlt x hx).ne
    rcases offset_cases hold with holdOffset | ⟨holdOffset, hmax⟩
    -- two locations of the index were stored
    · obtain ⟨before, after, rfl⟩ := append_of_mem hx
      have := hsingle (offset / chunkSize)
      simp only [hlocs, entriesAt_append, entriesAt_cons, hxslot, slotOf_of_offset holdOffset, if_true, length_append,
        length_cons] at this
      omega
    · have hpairs := h.last (hoffset.trans (by rw [hmax]))
      rw [hlocs] at hpairs
      have := (pairwise_append.mp (pairwise_append.mp hpairs).1).2.2 x hx old (by simp) (hxslot.trans hslot.symm)
      simp [holdOffset] at this
  · intro x hx hxslot
    exact absurd (hkey x (by simp [hlocs, hx]) hxslot) (hpost x hx).ne'

lemma matchesStored_of_entriesAt (hoffset : loc.fileOffset = some offset) (hlocs : locs = pre ++ replaced ++ post)
    (hpost : ∀ x ∈ post, offset < spliceKey x) (hreplaced : ∀ old ∈ replaced, replaced = [old] ∧ spliceKey old = offset)
    (hnoPre : entriesAt pre (offset / chunkSize) = []) (hnoPost : entriesAt post (offset / chunkSize) = []) :
    MatchesStored locs loc := by
  have hslot := slotOf_of_offset hoffset
  rw [entriesAt_eq_nil_iff] at hnoPre hnoPost
  constructor
  · intro l hl hlslot
    rw [hslot] at hlslot
    rw [hlocs, mem_append, mem_append] at hl
    rcases hl with (hl | hl) | hl
    · exact absurd hlslot (hnoPre l hl)
    · rw [offset_of_slotOf hlslot, (hreplaced l hl).2, hoffset]
    · exact absurd hlslot (hnoPost l hl)
  · intro hmax
    have hoffsetMax : offset = u64Max := Option.some.inj (hoffset.symm.trans hmax)
    have hbehind : ∀ x ∈ post, x.fileOffset.isSome = true := by
      intro x hx
      have hlt := hpost x hx
      cases h : x.fileOffset with
      | some o => rfl
      | none => simp [spliceKey, h, hoffsetMax] at hlt
    rw [hlocs, hslot]
    refine pairwise_append.mpr ⟨pairwise_append.mpr ⟨?_, ?_, ?_⟩, ?_, fun _ _ x hx _ => hbehind x hx⟩
    · exact pairwise_of_forall_mem_list fun l hl _ _ h => absurd h (hnoPre l hl)
    · cases replaced with
      | nil => exact List.Pairwise.nil
      | cons old rest =>
        rw [(hreplaced old (by simp)).1]
        exact pairwise_singleton _ _
    · exact fun l hl _ _ h => absurd h (hnoPre l hl)
    · exact pairwise_of_forall_mem_list fun _ _ x hx _ => hbehind x hx

lemma splice_frame (hsorted : SortedByOffset locs) (hlocs : locs = pre ++ replaced ++ post)
    (hpre : ∀ x ∈ pre, spliceKey x ≤ offset) (hpost : ∀ x ∈ post, offset < spliceKey x) (hoffset : loc.fileOffset = some offset)
    (hreplaced : ∀ old ∈ replaced, replaced = [old] ∧ spliceKey old = offset) : SortedByOffset (pre ++ loc :: post) ∧
      ∀ cidx, offset / chunkSize ≠ cidx → entriesAt (pre ++ loc :: post) cidx = entriesAt locs cidx := by
  have hkey : spliceKey loc = offset := by simp [spliceKey, hoffset]
  constructor
  · unfold SortedByOffset at hsorted ⊢
    rw [hlocs] at hsorted
    obtain ⟨hfirst, hlast, hcross⟩ := pairwise_append.mp hsorted
    refine pairwise_append.mpr ⟨(pairwise_append.mp hfirst).1, pairwise_cons.mpr ⟨?_, hlast⟩, ?_⟩
    · intro x hx
      rw [hkey]
      exact (hpost x hx).le
    · intro x hx y hy
      rcases mem_cons.mp hy with rfl | hy
      · rw [hkey]
        exact hpre x hx
      · exact hcross x (by simp [hx]) y hy
  · intro cidx hcidx
    have hgone : entriesAt replaced cidx = [] := by
      cases replaced with
      | nil => rfl
      | cons old rest =>
        obtain ⟨honly, hold⟩ := hreplaced old (by simp)
        rw [honly]
        exact entriesAt_of_spliceKey (by rwa [hold])
    have hslot : slotOf loc ≠ some cidx := by simpa [slotOf_of_offset hoffset] using hcidx
    simp [hlocs, entriesAt_append, entriesAt_cons, hgone, hslot]

variable [DecidableEq Id]

open SplicedList

lemma splice_of_none (hoffset : loc.fileOffset = none) (s : SplicedList Id) : s.splice loc = s := by
  simp [splice, spliceChunkLocation, slotOf, hoffset]

lemma SplicedList.Canonical.splice_iff {s : SplicedList Id} (h : s.Canonical) (loc : ChunkLocation Id) :
    (s.splice loc).Canonical ↔ MatchesStored s.locs loc := by
  cases hoffset : loc.fileOffset with
  | none =>
    rw [splice_of_none hoffset]
    refine iff_of_true h ⟨fun l _ hl => ?_, by simp [hoffset]⟩
    simpa [slotOf, hoffset] using hl
  | some offset =>
    obtain ⟨pre, replaced, post, hlocs, hafter, hpre, hpost, hreplaced⟩ := splice_split h.list.sorted hoffset
    have holds : ∀ old ∈ replaced, replaced = [old] ∧ spliceKey old = offset := by
      intro old hold
      rcases hreplaced with ⟨rfl, -⟩ | ⟨x, rfl, hx⟩
      · cases hold
      rw [List.mem_singleton.mp hold]
      exact ⟨rfl, hx⟩
    obtain ⟨hsorted, hothers⟩ := splice_frame h.list.sorted hlocs hpre hpost hoffset holds
    have hslot := slotOf_of_offset hoffset
    have hhere : entriesAt (s.splice loc).locs (offset / chunkSize) =
        entriesAt pre (offset / chunkSize) ++ loc :: entriesAt post (offset / chunkSize) := by
      simp only [splice]
      rw [hafter, entriesAt_append, entriesAt_cons, if_pos hslot]
    constructor
    · intro hcanonical
      have := hcanonical.list.single (offset / chunkSize)
      rw [hhere, length_append, length_cons] at this
      exact matchesStored_of_entriesAt hoffset hlocs hpost holds (length_eq_zero_iff.mp (by omega))
        (length_eq_zero_iff.mp (by omega))
    · intro hmatch
      obtain ⟨hnoPre, hnoPost⟩ := hmatch.entriesAt_eq_nil h.list.single hoffset hlocs hpost hreplaced
      rw [hnoPre, hnoPost, nil_append] at hhere
      have hothers' : ∀ cidx, offset / chunkSize ≠ cidx → entriesAt (s.splice loc).locs cidx = entriesAt s.locs cidx := by
        intro cidx hcidx
        simp only [splice]
        rw [hafter]
        exact hothers cidx hcidx
      refine ⟨⟨by simpa only [splice, hafter] using hsorted, fun cidx => ?_⟩, fun cidx l hl => ?_⟩
      · by_cases hcidx : offset / chunkSize = cidx
        · rw [← hcidx, hhere]
          exact le_refl _
        rw [hothers' cidx hcidx]
        exact h.list.single cidx
      · by_cases hcidx : offset / chunkSize = cidx
        · rw [← hcidx, hhere]
          simpa [splice, hslot, hcidx] using hl
        rw [hothers' cidx hcidx]
        exact h.last cidx l (by simpa [splice, hslot, hcidx] using hl)

/-! ## Runs of splices -/

/-- Splices keep the list sorted, with one location for each index, the last spliced, exactly if every splice finds
its index's location at its own offset. -/
theorem splices_keep_canonical_iff (locs : Locations Id) (h : CanonicalList locs) (spliced : Locations Id) :
    Meets SplicedList.splice (fun s loc => (s.splice loc).Canonical) ⟨locs, fun _ => none⟩ spliced ↔
      Meets SplicedList.splice (fun s loc => MatchesStored s.locs loc) ⟨locs, fun _ => none⟩ spliced := by
  have hstep : ∀ (s : SplicedList Id) (loc : ChunkLocation Id), s.Canonical →
      ((s.splice loc).Canonical ↔ MatchesStored s.locs loc) := fun s loc hs => hs.splice_iff loc
  exact meets_invariant_iff hstep ⟨h, by simp⟩

def firstChunkAt (chunkId offset : Nat) : ChunkLocation Nat := ⟨chunkId, [1], 1, some offset, none, none, none⟩

lemma canonicalList_firstChunk : CanonicalList [firstChunkAt 1 0] := by
  refine ⟨pairwise_singleton _ _, fun cidx => ?_⟩
  simp only [entriesAt]
  exact length_filter_le _ _

theorem splice_at_same_offset_keeps_canonical :
    Meets SplicedList.splice (fun s loc => (s.splice loc).Canonical) ⟨[firstChunkAt 1 0], fun _ => none⟩ [firstChunkAt 2 0] := by
  refine (splices_keep_canonical_iff _ canonicalList_firstChunk [firstChunkAt 2 0]).mpr ⟨⟨?_, ?_⟩, trivial⟩
  · intro l hl _
    rw [List.mem_singleton.mp hl]
    rfl
  · intro hmax
    cases hmax

theorem splice_at_other_offset_duplicates :
    CanonicalList [firstChunkAt 1 0] ∧ ¬CanonicalList (spliceChunkLocation [firstChunkAt 1 0] (firstChunkAt 2 1)).1 := by
  refine ⟨canonicalList_firstChunk, fun h => ?_⟩
  have htwo := h.single 0
  revert htwo
  decide +kernel

end Dfs
