import Dfs.Client.RangeCache

/-! # Do cached ranges outlive a flush? -/

namespace Dfs

open Function List RangeClient Transition

variable {Id : Type}

def Overlaps (key : Nat) (data : Bytes) (idx : Nat) : Prop :=
  max key (idx * chunkSize) < min (key + data.length) (idx * chunkSize + chunkSize)

instance (key : Nat) (data : Bytes) (idx : Nat) : Decidable (Overlaps key data idx) :=
  inferInstanceAs (Decidable (max key (idx * chunkSize) < min (key + data.length) (idx * chunkSize + chunkSize)))

def RangeClient.OnlyNew (s : RangeClient Id) : Prop :=
  ∀ key e, s.cache key = some e → Overlaps key e.data s.flushed → e.source = s.newId

/-- After the flush nothing of the chunk as it was before is cached. -/
def RangeClient.Clean (s : RangeClient Id) : Prop := s.recorded = true → s.invalidated = true → s.OnlyNew

/-- Of a reply of the chunk that goes in after the ranges were removed. -/
def RangeStep.Late (s : RangeClient Id) (P : RangeFetch Id → Bool → Prop) : RangeStep Id → Prop
  | .insert i => s.invalidated = true → ∀ f ∈ s.fetches[i]?, ∀ recorded, f.phase = .passed recorded →
    Overlaps f.key f.data s.flushed → P f recorded
  | _ => True

/-- It was tested, or had its retry from the client's own id, while the record of the flush stood. -/
def RangeStep.InTime (s : RangeClient Id) (a : RangeStep Id) : Prop := a.Late s fun _ recorded => recorded = true

/-- It was asked for under the new id. -/
def RangeStep.AsksNew (s : RangeClient Id) (a : RangeStep Id) : Prop := a.Late s fun f _ => f.cid = s.newId

/-! ## What the steps keep -/

/-- Within its chunk, and with the new id if it passed while the record stood. -/
structure RangeFetch.Fits (f : RangeFetch Id) (flushed : Nat) (newId : Id) : Prop where
  asked : f.lenInChunk = 0 ∨ f.offsetInChunk + f.lenInChunk ≤ chunkSize
  data_le : f.data.length ≤ f.lenInChunk
  recorded : f.phase = .passed true → f.idx = flushed → f.cid = newId

/-- Entries within their chunks, and a recorded id of the chunk is the new one. -/
structure RangeClient.Tracked (s : RangeClient Id) : Prop where
  placed : ∀ key e, s.cache key = some e → ∃ idx, idx * chunkSize ≤ key ∧ key + e.data.length ≤ idx * chunkSize + chunkSize
  fetches : ∀ f ∈ s.fetches, f.Fits s.flushed s.newId
  recent : s.recorded = true → ∀ cid, s.recent s.flushed = some cid → cid = s.newId
  clean : s.invalidated = true → s.OnlyNew

variable {f : RangeFetch Id} {flushed : Nat} {newId : Id}

lemma RangeFetch.Fits.placed (h : f.Fits flushed newId) :
    ∃ idx, idx * chunkSize ≤ f.key ∧ f.key + f.data.length ≤ idx * chunkSize + chunkSize := by
  have hdata := h.data_le
  rcases h.asked with hzero | hfits
  · refine ⟨f.key / chunkSize, Nat.div_mul_le_self .., ?_⟩
    have hlt := Nat.lt_div_mul_add (a := f.key) chunkSize_pos
    omega
  refine ⟨f.idx, Nat.le_add_right .., ?_⟩
  simp only [RangeFetch.key]
  omega

namespace RangeClient

variable {s : RangeClient Id}

lemma idx_of_overlaps (h : f.Fits flushed newId) {idx : Nat} (hover : Overlaps f.key f.data idx) : f.idx = idx := by
  have hasked := h.asked
  have hdata := h.data_le
  unfold Overlaps RangeFetch.key chunkSize at *
  omega

lemma entry_update {cache : Nat → Option (RangeEntry Id)} {key k : Nat} {e e' : RangeEntry Id}
    (he : update cache key (some e') k = some e) : (k = key ∧ e' = e) ∨ cache k = some e := by
  by_cases hk : k = key
  · subst hk
    rw [update_self] at he
    exact .inl ⟨rfl, Option.some.inj he⟩
  rw [update_of_ne hk] at he
  exact .inr he

lemma Tracked.setFetch (h : s.Tracked) (i : Nat) (hf : f.Fits s.flushed s.newId) : (s.setFetch i f).Tracked where
  placed := h.placed
  fetches := by
    intro g hg
    rcases mem_or_eq_of_mem_set hg with hg | rfl
    · exact h.fetches g hg
    · exact hf
  recent := h.recent
  clean := h.clean

lemma fits_newFetch (s : RangeClient Id) (idx : Nat) (located : Id) {chunkLen : Nat} (hlen : chunkLen ≤ chunkSize)
    (offset size : Nat) : (s.newFetch idx located chunkLen offset size).Fits s.flushed s.newId where
  asked := by
    simp only [newFetch]
    omega
  data_le := Nat.zero_le _
  recorded := nofun

lemma Tracked.onlyNew_invalidate (h : s.Tracked) (key : Nat) (e : RangeEntry Id)
    (he : invalidateByteRangeCacheForChunk s.cache (s.flushed * chunkSize) chunkSize key = some e) :
    ¬Overlaps key e.data s.flushed := by
  unfold invalidateByteRangeCacheForChunk at he
  split at he
  · cases he
  rename_i hout
  obtain ⟨idx, hlo, hhi⟩ := h.placed key e he
  unfold Overlaps chunkSize at *
  omega

lemma Tracked.insert (h : s.Tracked) (hf : f.Fits s.flushed s.newId) {fetches : List (RangeFetch Id)} (hsub : fetches ⊆ s.fetches)
    (hnew : s.invalidated = true → Overlaps f.key f.data s.flushed → f.cid = s.newId) :
    ({ s with cache := update s.cache f.key (some ⟨f.data, f.cid⟩), fetches := fetches } : RangeClient Id).Tracked where
  placed := by
    intro key e he
    rcases entry_update he with ⟨rfl, rfl⟩ | hold
    · exact hf.placed
    · exact h.placed key e hold
  fetches := fun g hg => h.fetches g (hsub hg)
  recent := h.recent
  clean := by
    intro hinv key e he hover
    rcases entry_update he with ⟨rfl, rfl⟩ | hold
    · exact hnew hinv hover
    · exact h.clean hinv key e hold hover

lemma Tracked.fits_passed (h : s.Tracked) (hf : f.Fits s.flushed s.newId) {cid : Id} {data : Bytes} {recorded : Bool}
    (hdata : data.length ≤ f.lenInChunk) (hid : recorded = true → s.recorded = true ∧ s.recent f.idx = some cid) :
    ({ f with cid := cid, data := data, phase := .passed recorded } : RangeFetch Id).Fits s.flushed s.newId where
  asked := hf.asked
  data_le := hdata
  recorded := by
    intro hphase hidx
    obtain ⟨hrec, hrecent⟩ := hid (FetchPhase.passed.inj hphase)
    have hidx' : f.idx = s.flushed := hidx
    rw [hidx'] at hrecent
    exact h.recent hrec cid hrecent

/-- What passed while the record stood was asked for under the new id: the test found no other, and the retry took the
recorded one. -/
theorem asksNew_of_inTime (h : s.Tracked) {a : RangeStep Id} (ha : a.InTime s) : a.AsksNew s := by
  cases a with
  | insert i =>
    intro hinv f hi recorded hphase hover
    have hf := h.fetches f (mem_of_getElem? hi)
    obtain rfl := ha hinv f hi recorded hphase hover
    exact hf.recorded hphase (idx_of_overlaps hf hover)
  | _ => trivial

/-! ## One step -/

variable [DecidableEq Id]

lemma tracked_reply (h : s.Tracked) (i : Nat) (data : Option Bytes) : (s.step (.reply i data)).Tracked := by
  simp only [step]
  cases hi : s.fetches[i]? with
  | none => exact h
  | some f =>
    have hf := h.fetches f (mem_of_getElem? hi)
    dsimp only
    split
    · cases data with
      | none => exact h.setFetch i ⟨hf.asked, hf.data_le, nofun⟩
      | some data => exact h.setFetch i ⟨hf.asked, length_take_le .., nofun⟩
    · exact h

lemma tracked_staleTest (h : s.Tracked) (i : Nat) : (s.step (.staleTest i)).Tracked := by
  simp only [step]
  cases hi : s.fetches[i]? with
  | none => exact h
  | some f =>
    have hf := h.fetches f (mem_of_getElem? hi)
    dsimp only
    split
    · split
      · exact h.setFetch i ⟨hf.asked, hf.data_le, nofun⟩
      · rename_i hfresh
        refine h.setFetch i (h.fits_passed hf hf.data_le fun hrec => ?_)
        obtain ⟨hrec, hsome⟩ := Bool.and_eq_true_iff.mp hrec
        obtain ⟨cid, hcid⟩ := Option.isSome_iff_exists.mp hsome
        refine ⟨hrec, ?_⟩
        -- the record is of the id that was asked for, or the test had failed
        simpa [hcid] using hfresh
    · exact h

lemma tracked_retry (h : s.Tracked) (i : Nat) (fresh : Id) (ownRead : Bool) (data : Bytes) :
    (s.step (.retry i fresh ownRead data)).Tracked := by
  simp only [step]
  cases hi : s.fetches[i]? with
  | none => exact h
  | some f =>
    have hf := h.fetches f (mem_of_getElem? hi)
    dsimp only
    split
    · refine h.setFetch i (h.fits_passed hf (length_take_le ..) fun hrec => ?_)
      obtain ⟨hrec, hsome⟩ := Bool.and_eq_true_iff.mp hrec
      obtain ⟨own, hown⟩ := Option.isSome_iff_exists.mp hsome
      refine ⟨hrec, ?_⟩
      rw [hown]
      unfold ownId at hown
      split at hown
      · exact (Option.filter_eq_some_iff.mp hown).1
      · cases hown
    · exact h

lemma step_insert {i : Nat} {recorded : Bool} (hi : s.fetches[i]? = some f) (hphase : f.phase = .passed recorded) :
    s.step (.insert i) = { s with cache := update s.cache f.key (some ⟨f.data, f.cid⟩), fetches := s.fetches.eraseIdx i } := by
  simp only [step, hi, hphase]

lemma step_insert_of_not_passed {i : Nat} (h : ∀ f ∈ s.fetches[i]?, ∀ recorded, f.phase ≠ .passed recorded) :
    s.step (.insert i) = s := by
  simp only [step]
  cases hi : s.fetches[i]? with
  | none => rfl
  | some f =>
    dsimp only
    cases hphase : f.phase with
    | passed recorded => exact absurd hphase (h f hi recorded)
    | _ => rfl

lemma tracked_insert (h : s.Tracked) (i : Nat) (ha : (RangeStep.insert i).AsksNew s) : (s.step (.insert i)).Tracked := by
  by_cases hpassed : ∃ f ∈ s.fetches[i]?, ∃ recorded, f.phase = .passed recorded
  · obtain ⟨f, hi, recorded, hphase⟩ := hpassed
    rw [step_insert hi hphase]
    exact h.insert (h.fetches f (mem_of_getElem? hi)) (eraseIdx_subset ..) fun hinv hover => ha hinv f hi recorded hphase hover
  · rw [step_insert_of_not_passed fun f hf recorded hphase => hpassed ⟨f, hf, recorded, hphase⟩]
    exact h

lemma tracked_recordId (h : s.Tracked) : (s.step .recordId).Tracked := by
  simp only [step]
  split
  · refine ⟨h.placed, h.fetches, fun _ cid hcid => ?_, h.clean⟩
    simp only [update_self] at hcid
    exact (Option.some.inj hcid).symm
  · exact h

lemma tracked_invalidate (h : s.Tracked) : (s.step .invalidate).Tracked := by
  simp only [step]
  split
  · refine ⟨?_, h.fetches, h.recent, fun _ key e he hover => absurd hover (h.onlyNew_invalidate key e he)⟩
    intro key e he
    have hold : s.cache key = some e := by
      simp only [invalidateByteRangeCacheForChunk] at he
      split at he
      · cases he
      · exact he
    exact h.placed key e hold
  · exact h

lemma tracked_evict (h : s.Tracked) (key : Nat) : (s.step (.evict key)).Tracked := by
  have hold : ∀ k e, (s.step (.evict key)).cache k = some e → s.cache k = some e := by
    intro k e he
    by_cases hk : k = key
    · subst hk
      cases (update_self ..).symm.trans he
    · exact (update_of_ne hk ..).symm.trans he
  exact ⟨fun k e he => h.placed k e (hold k e he), h.fetches, h.recent, fun hinv k e he => h.clean hinv k e (hold k e he)⟩

lemma tracked_forget (h : s.Tracked) (idx : Nat) : (s.step (.forget idx)).Tracked := by
  refine { h with recent := fun hrec cid hcid => ?_ }
  simp only [step, update_apply] at hcid
  split at hcid
  · cases hcid
  · exact h.recent hrec cid hcid

lemma tracked_rangeStep (s : RangeClient Id) (a : RangeStep Id) (h : s.Tracked) (ha : a.AsksNew s) : (s.step a).Tracked := by
  cases a with
  | issue idx located chunkLen offset size =>
    simp only [step]
    split
    · rename_i hlen
      refine { h with fetches := ?_ }
      intro f hf
      rcases mem_append.mp hf with hf | hf
      · exact h.fetches f hf
      rw [List.mem_singleton.mp hf]
      exact fits_newFetch s idx located hlen offset size
    · exact h
  | reply i data => exact tracked_reply h i data
  | staleTest i => exact tracked_staleTest h i
  | retry i fresh ownRead data => exact tracked_retry h i fresh ownRead data
  | insert i => exact tracked_insert h i ha
  | recordId => exact tracked_recordId h
  | invalidate => exact tracked_invalidate h
  | evict key => exact tracked_evict h key
  | forget idx => exact tracked_forget h idx

/-- Clean, and if the id is recorded next still clean. -/
theorem clean_recordId_iff (s : RangeClient Id) : s.Clean ∧ (s.step .recordId).Clean ↔ (s.invalidated = true → s.OnlyNew) := by
  constructor
  · rintro ⟨-, hnext⟩ hinv
    have hstep : s.step .recordId = { s with recent := update s.recent s.flushed (some s.newId), recorded := true } := by
      simp [step, hinv]
    rw [hstep] at hnext
    exact hnext rfl hinv
  · intro h
    refine ⟨fun _ => h, ?_⟩
    simp only [step]
    split
    · exact fun _ => h
    · exact fun _ => h

lemma clean_rangeStep_iff (s : RangeClient Id) (a : RangeStep Id) (h : s.Tracked) :
    (s.step a).Clean ∧ ((s.step a).step .recordId).Clean ↔ a.AsksNew s := by
  rw [clean_recordId_iff]
  refine ⟨fun hclean => ?_, fun ha => (tracked_rangeStep s a h ha).clean⟩
  cases a with
  | insert i =>
    intro hinv f hi recorded hphase hover
    rw [step_insert hi hphase] at hclean
    exact hclean hinv f.key ⟨f.data, f.cid⟩ (update_self ..) hover
  | _ => trivial

end RangeClient

end Dfs
