import Dfs.Client.Truncate
import Dfs.Lemmas.AppendEffect

/-! # Does shrinking a file keep its prefix? -/

namespace Dfs

open KeyedList Option Function TruncateEnv
open List hiding lookup

variable {Id : Type}

/-- Of the chunk in the place's slot, zero without one. -/
def readByte (content : Id → Option Bytes) (locs : Locations Id) (i : Nat) : UInt8 :=
  match lookup cidxOf locs (i / chunkSize) with
  | some l => byteOf content l i
  | none => 0

def bytesOf (content : Id → Option Bytes) (l : ChunkLocation Id) : Bytes := (content l.chunkId).getD []

/-- Sorted, one for a slot, each with a chunk of its size within its slot. -/
structure FileLayout (content : Id → Option Bytes) (locs : Locations Id) : Prop where
  sorted : Sorted cidxOf locs
  placed : ∀ l ∈ locs, ∃ o b, l.fileOffset = some o ∧ content l.chunkId = some b ∧ b.length = l.size ∧
    o + l.size ≤ (o / chunkSize + 1) * chunkSize

/-- One location for a slot, with the first bytes of the file's chunk there, and every byte below the new size as it was. -/
structure KeepsPrefix (content content' : Id → Option Bytes) (locs : Locations Id) (m' : FileMetadata Id) (newSize : Nat) :
    Prop where
  size : m'.size = newSize
  sorted : Sorted cidxOf m'.chunkLocations
  placed : ∀ l' ∈ m'.chunkLocations, ∃ l ∈ locs, l'.fileOffset = l.fileOffset ∧ bytesOf content' l' <+: bytesOf content l
  bytes : ∀ i < newSize, readByte content' m'.chunkLocations i = readByte content locs i

/-- A chunk the cut goes through, by the sums of sizes, lies at that sum. -/
def CutAligned (locs : Locations Id) (newSize : Nat) : Prop :=
  ∀ kept l dropped, locs = kept ++ l :: dropped → totalSize kept < newSize → newSize < totalSize kept + l.size →
    l.fileOffset = some (totalSize kept)

/-! ## The loop -/

lemma totalSize_cons (l : ChunkLocation Id) (locs : Locations Id) : totalSize (l :: locs) = l.size + totalSize locs := rfl

lemma totalSize_append (locs locs' : Locations Id) : totalSize (locs ++ locs') = totalSize locs + totalSize locs' := by
  simp [totalSize]

variable {b : Bytes} {o c : Nat}

lemma findCut_of_le {newSize : Nat} {locs : Locations Id} (idx : Nat) (last : Nat) (h : c + totalSize locs ≤ newSize) :
    findCut newSize locs idx c last = (if locs = [] then last else idx + locs.length - 1, 0) := by
  induction locs generalizing idx c last with
  | nil => rfl
  | cons l locs ih =>
    rw [totalSize_cons, ← Nat.add_assoc] at h
    rw [findCut, if_pos (by omega), ih (idx + 1) idx h]
    cases locs with
    | nil => simp
    | cons l' locs => simp; omega

lemma findCut_at {newSize : Nat} {kept dropped : Locations Id} {l : ChunkLocation Id} (idx : Nat) (last : Nat)
    (hle : c + totalSize kept ≤ newSize) (hlt : newSize < c + totalSize kept + l.size) :
    findCut newSize (kept ++ l :: dropped) idx c last = if c + totalSize kept < newSize
      then (idx + kept.length, newSize - (c + totalSize kept)) else (if kept = [] then last else idx + kept.length - 1, 0) := by
  induction kept generalizing idx c last with
  | nil =>
    simp only [totalSize, map_nil, sum_nil, Nat.add_zero] at hle hlt ⊢
    rw [nil_append, findCut, if_neg (by omega)]
    simp
  | cons k kept ih =>
    rw [totalSize_cons, ← Nat.add_assoc] at hle hlt
    rw [cons_append, findCut, if_pos (by omega), ih (idx + 1) idx hle hlt, totalSize_cons, ← Nat.add_assoc]
    split
    · simp; omega
    cases kept with
    | nil => simp
    | cons k' kept => simp; omega

lemma exists_cut (newSize : Nat) (locs : Locations Id) : totalSize locs ≤ newSize ∨
    ∃ kept l dropped, locs = kept ++ l :: dropped ∧ totalSize kept ≤ newSize ∧ newSize < totalSize kept + l.size := by
  induction locs using reverseRecOn with
  | nil => exact .inl (Nat.zero_le _)
  | append_singleton locs l ih =>
    rcases ih with hle | ⟨kept, k, dropped, rfl, hle, hlt⟩
    · by_cases h : totalSize locs + l.size ≤ newSize
      · refine .inl ?_
        rw [totalSize_append]
        exact h
      · exact .inr ⟨locs, l, [], rfl, hle, not_le.mp h⟩
    · exact .inr ⟨kept, k, dropped ++ [l], by simp, hle, hlt⟩

lemma cut_unique {newSize : Nat} {kept kept' dropped dropped' : Locations Id} {l l' : ChunkLocation Id}
    (h : kept ++ l :: dropped = kept' ++ l' :: dropped') (hle : totalSize kept ≤ newSize)
    (hgt : newSize < totalSize kept + l.size)
    (hle' : totalSize kept' ≤ newSize) (hgt' : newSize < totalSize kept' + l'.size) :
    kept = kept' ∧ l = l' ∧ dropped = dropped' := by
  rcases append_eq_append_iff.mp h with ⟨mid, rfl, hmid⟩ | ⟨mid, rfl, hmid⟩
  · cases mid with
    | nil =>
      obtain ⟨rfl, rfl⟩ := List.cons.inj hmid
      exact ⟨(append_nil _).symm, rfl, rfl⟩
    | cons k mid =>
      obtain ⟨rfl, -⟩ := List.cons.inj hmid
      rw [totalSize_append, totalSize_cons] at hle'
      omega
  cases mid with
  | nil =>
    obtain ⟨rfl, rfl⟩ := List.cons.inj hmid
    exact ⟨append_nil _, rfl, rfl⟩
  | cons k mid =>
    obtain ⟨rfl, -⟩ := List.cons.inj hmid
    rw [totalSize_append, totalSize_cons] at hle
    omega

/-! ## Reading -/

section Reading

variable {content : Id → Option Bytes} {locs kept dropped : Locations Id} {l : ChunkLocation Id}

lemma readByte_append (h : Sorted cidxOf (kept ++ dropped)) (i : Nat) : readByte content (kept ++ dropped) i =
    if (lookup cidxOf kept (i / chunkSize)).isSome then readByte content kept i else readByte content dropped i := by
  unfold readByte
  rw [lookup_append_of_sorted h]
  cases lookup cidxOf kept (i / chunkSize) <;> rfl

lemma readByte_of_none {i : Nat} (h : lookup cidxOf locs (i / chunkSize) = none) : readByte content locs i = 0 := by
  unfold readByte
  rw [h]

lemma readByte_before {i : Nat} (h : ∀ k ∈ locs, i < cidxOf k * chunkSize) : readByte content locs i = 0 := by
  refine readByte_of_none (eq_none_iff_forall_ne_some.mpr fun k hk => ?_)
  have hstart := h k (mem_of_lookup hk)
  rw [key_of_lookup hk] at hstart
  exact absurd (Nat.div_mul_le_self i chunkSize) (not_le.mpr hstart)

lemma readByte_cons (h : Sorted cidxOf (l :: locs)) (i : Nat) : readByte content (l :: locs) i =
    if cidxOf l = i / chunkSize then byteOf content l i else readByte content locs i := by
  unfold readByte
  rw [lookup_eq_find? h, lookup_eq_find? (pairwise_cons.mp h).2, find?_cons]
  by_cases hl : cidxOf l = i / chunkSize <;> simp [hl]

lemma cidxOf_eq (h : l.fileOffset = some o) : cidxOf l = o / chunkSize := by
  unfold cidxOf slotOf
  rw [h]
  rfl

lemma FileLayout.size_le (h : FileLayout content locs) (hl : l ∈ locs) : l.size ≤ chunkSize := by
  obtain ⟨o, -, -, -, -, hfits⟩ := h.placed l hl
  have := Nat.div_mul_le_self o chunkSize
  rw [Nat.add_mul, Nat.one_mul] at hfits
  omega

lemma FileLayout.totalSize_le (h : FileLayout content (kept ++ l :: dropped)) : totalSize kept ≤ cidxOf l * chunkSize := by
  have hsize : ∀ k ∈ kept, k.size ≤ chunkSize := fun k hk => h.size_le (mem_append_left _ hk)
  have hbefore : ∀ k ∈ kept, cidxOf k < cidxOf l := fun k hk => (pairwise_append.mp h.sorted).2.2 k hk l (.head _)
  have hsorted : Sorted cidxOf kept := (pairwise_append.mp h.sorted).1
  generalize cidxOf l = n at hbefore
  clear h
  induction kept using reverseRecOn generalizing n with
  | nil => exact Nat.zero_le _
  | append_singleton kept k ih =>
    have hk : cidxOf k < n := hbefore k (by simp)
    have hrest := ih (fun x hx => hsize x (mem_append_left _ hx)) (pairwise_append.mp hsorted).1 (cidxOf k)
      (fun x hx => (pairwise_append.mp hsorted).2.2 x hx k (.head _))
    have hlast := hsize k (by simp)
    have hmul := Nat.mul_le_mul_right chunkSize (Nat.succ_le_of_lt hk)
    rw [totalSize_append, totalSize_cons]
    simp only [totalSize, map_nil, sum_nil, Nat.add_zero, Nat.succ_mul] at hmul hrest ⊢
    omega

end Reading

/-! ## What is sent -/

section Sent

variable [DecidableEq Id] {H : ChunkHash Id} {env : TruncateEnv Id} {m : FileMetadata Id} {newSize : Nat}
  {kept dropped : Locations Id} {l : ChunkLocation Id}

lemma shrink_of_le (hne : m.chunkLocations ≠ []) (h : totalSize m.chunkLocations ≤ newSize) :
    env.shrink H m newSize = some ({ m with size := newSize }, env.content) := by
  have hlen : 0 < m.chunkLocations.length := length_pos_iff.mpr hne
  unfold shrink
  rw [findCut_of_le 0 0 (by omega), if_neg hne]
  simp only [lt_irrefl, if_false]
  rw [take_of_length_le (by omega)]

lemma shrink_between (hlocs : m.chunkLocations = kept ++ l :: dropped) (hsize : totalSize kept = newSize) (hpos : 0 < newSize)
    (hl : 0 < l.size) : env.shrink H m newSize = some ({ m with chunkLocations := kept, size := newSize }, env.content) := by
  have hne : kept ≠ [] := by
    rintro rfl
    exact absurd hsize hpos.ne
  have hlen : 0 < kept.length := length_pos_iff.mpr hne
  unfold shrink
  rw [hlocs, findCut_at 0 0 (by omega) (by omega), if_neg (by omega), if_neg hne]
  simp only [lt_irrefl, if_false]
  rw [show 0 + kept.length - 1 + 1 = kept.length by omega, take_left]

def TruncateEnv.cutLocation (H : ChunkHash Id) (env : TruncateEnv Id) (file : FileId) (offset : Nat) (data : Bytes) :
    ChunkLocation Id :=
  ⟨H.computeChunkHashAt data offset file, env.nodes, data.length, some offset, none, env.clientWriteSeq, some file⟩

variable {content' : Id → Option Bytes} {data : Bytes} {m' : FileMetadata Id}

omit [DecidableEq Id] in
lemma dataChunks_eq_singleton (hne : data ≠ []) (hlen : data.length ≤ chunkSize) : dataChunks chunkSize data = [data] := by
  rw [dataChunks_of_ne_nil chunkSize_pos hne, take_of_length_le hlen, drop_eq_nil_of_le hlen, dataChunks_nil chunkSize_pos]

lemma shrink_through (hlocs : m.chunkLocations = kept ++ l :: dropped) (hsize : totalSize kept < newSize)
    (hl : newSize < totalSize kept + l.size) (hb : env.content l.chunkId = some b) (hlen : b.length = l.size)
    (hfits : l.size ≤ chunkSize) (h : env.shrink H m newSize = some (m', content')) : m' = { m with
        chunkLocations := kept ++ [env.cutLocation H m.id (totalSize kept) (b.take (newSize - totalSize kept))], size :=
          newSize } ∧
      content' = update env.content (H.computeChunkHashAt (b.take (newSize - totalSize kept)) (totalSize kept) m.id)
        (some (b.take (newSize - totalSize kept))) := by
  have hdata : (b.take (newSize - totalSize kept)).length = newSize - totalSize kept := by
    rw [length_take]
    omega
  have hne : b.take (newSize - totalSize kept) ≠ [] := by
    intro hnil
    rw [hnil, length_nil] at hdata
    omega
  have hchunks := dataChunks_eq_singleton hne (by omega)
  unfold shrink at h
  rw [hlocs, findCut_at 0 0 (by omega) (by omega), if_pos (by omega)] at h
  simp only [Nat.zero_add] at h
  rw [if_pos (by omega), getElem?_append_right le_rfl, Nat.sub_self, getElem?_cons_zero] at h
  simp only [hb, take_left] at h
  unfold writeDataWithCache at h
  rw [hchunks] at h
  split at h
  · cases h
  rename_i locs content hwrite
  split at hwrite
  · obtain ⟨rfl, rfl⟩ := Prod.mk.inj (some.inj hwrite)
    obtain ⟨rfl, rfl⟩ := Prod.mk.inj (some.inj h)
    exact ⟨rfl, rfl⟩
  · cases hwrite

variable {content : Id → Option Bytes}

omit [DecidableEq Id] in
lemma keepsPrefix_between (h : FileLayout content (kept ++ l :: dropped)) (hsize : totalSize kept = newSize) :
    KeepsPrefix content content (kept ++ l :: dropped) { m with chunkLocations := kept, size := newSize } newSize := by
  refine ⟨rfl, (pairwise_append.mp h.sorted).1, fun k hk => ⟨k, mem_append_left _ hk, rfl, prefix_rfl⟩, fun i hi => ?_⟩
  dsimp only
  rw [readByte_append h.sorted]
  split
  · rfl
  rename_i hkept
  rw [readByte_of_none (not_isSome_iff_eq_none.mp hkept)]
  symm
  refine readByte_before fun k hk => ?_
  have hle : cidxOf l ≤ cidxOf k := by
    rcases mem_cons.mp hk with rfl | hdropped
    · exact le_rfl
    · exact ((pairwise_cons.mp (pairwise_append.mp h.sorted).2.1).1 k hdropped).le
  exact (hi.trans_eq hsize.symm).trans_le (h.totalSize_le.trans (Nat.mul_le_mul_right chunkSize hle))

omit [DecidableEq Id] in
lemma fileOffset_of_keepsPrefix {x : ChunkLocation Id} {place : Nat} (hsorted : Sorted cidxOf (kept ++ l :: dropped))
    (hkeeps : KeepsPrefix content content' (kept ++ l :: dropped) m' newSize) (hlocs : m'.chunkLocations = kept ++ [x])
    (hx : x.fileOffset = some place) (ho : l.fileOffset = some o) (hlow : place ≤ o) : l.fileOffset = some place := by
  obtain ⟨k, hk, hplace, -⟩ := hkeeps.placed x (by simp [hlocs])
  have hkoff : k.fileOffset = some place := hplace.symm.trans hx
  have hafter := hkeeps.sorted
  rw [hlocs] at hafter
  rcases mem_append.mp hk with hk | hk
  · have hlt := (pairwise_append.mp hafter).2.2 k hk _ (.head _)
    rw [cidxOf_eq hkoff, cidxOf_eq hx] at hlt
    exact absurd hlt (lt_irrefl _)
  rcases mem_cons.mp hk with rfl | hk
  · exact hkoff
  have hlt := (pairwise_cons.mp (pairwise_append.mp hsorted).2.1).1 k hk
  rw [cidxOf_eq ho, cidxOf_eq hkoff] at hlt
  exact absurd (Nat.div_le_div_right hlow) (not_le.mpr hlt)

lemma update_content (hstore : ∀ b o file b', content (H.computeChunkHashAt b o file) = some b' → b' = b) {file : FileId}
    {id : Id} (hid : content id = some b) : update content (H.computeChunkHashAt data o file) (some data) id = some b := by
  rcases eq_or_ne id (H.computeChunkHashAt data o file) with rfl | hne
  · rw [update_self, hstore data o file b hid]
  · rw [update_of_ne hne, hid]

omit [DecidableEq Id] in
lemma readByte_congr {locs : Locations Id} (h : ∀ k ∈ locs, content' k.chunkId = content k.chunkId) (i : Nat) :
    readByte content' locs i = readByte content locs i := by
  unfold readByte
  cases hk : lookup cidxOf locs (i / chunkSize) with
  | none => rfl
  | some k =>
    simp only [byteOf]
    rw [h k (mem_of_lookup hk)]

lemma keepsPrefix_through_iff (h : FileLayout env.content (kept ++ l :: dropped))
    (hstore : ∀ b o file b', env.content (H.computeChunkHashAt b o file) = some b' → b' = b)
    (hb : env.content l.chunkId = some b) (hsize : totalSize kept < newSize) (hl : newSize < totalSize kept + l.size) :
    KeepsPrefix env.content (update env.content (H.computeChunkHashAt (b.take (newSize - totalSize kept)) (totalSize kept) m.id)
          (some (b.take (newSize - totalSize kept)))) (kept ++ l :: dropped) { m with
          chunkLocations := kept ++ [env.cutLocation H m.id (totalSize kept) (b.take (newSize - totalSize kept))], size :=
            newSize }
        newSize ↔
      l.fileOffset = some (totalSize kept) := by
  obtain ⟨o, b', ho, hb', hlen, hfits⟩ := h.placed l (by simp)
  obtain rfl := some.inj (hb.symm.trans hb')
  have hcidx := cidxOf_eq ho
  obtain ⟨hkept, hright, hbefore⟩ := pairwise_append.mp h.sorted
  have hlow : totalSize kept ≤ o := by
    refine h.totalSize_le.trans ?_
    rw [hcidx]
    exact Nat.div_mul_le_self o chunkSize
  constructor
  · intro hkeeps
    exact fileOffset_of_keepsPrefix h.sorted hkeeps rfl rfl ho hlow
  · intro hoff
    obtain rfl := some.inj (ho.symm.trans hoff)
    have hcut : cidxOf (env.cutLocation H m.id (totalSize kept) (b.take (newSize - totalSize kept))) = cidxOf l :=
      (cidxOf_eq rfl).trans hcidx.symm
    have hsorted : Sorted cidxOf (kept ++ [env.cutLocation H m.id (totalSize kept) (b.take (newSize - totalSize kept))]) := by
      refine pairwise_append.mpr ⟨hkept, pairwise_singleton _ _, fun k hk x hx => ?_⟩
      rw [List.mem_singleton.mp hx, hcut]
      exact hbefore k hk l (.head _)
    have hstays : ∀ k ∈ kept, update env.content (H.computeChunkHashAt (b.take (newSize - totalSize kept)) (totalSize kept) m.id)
        (some (b.take (newSize - totalSize kept))) k.chunkId = env.content k.chunkId := by
      intro k hk
      obtain ⟨-, bk, -, hbk, -, -⟩ := h.placed k (mem_append_left _ hk)
      rw [update_content hstore hbk, hbk]
    refine ⟨rfl, hsorted, fun k hk => ?_, fun i hi => ?_⟩
    · rcases mem_append.mp hk with hk | hk
      · refine ⟨k, mem_append_left _ hk, rfl, ?_⟩
        rewrite [bytesOf, bytesOf, hstays k hk]
        exact prefix_rfl
      obtain rfl := List.mem_singleton.mp hk
      refine ⟨l, by simp, hoff.symm, ?_⟩
      rw [bytesOf, bytesOf, hb]
      simp only [cutLocation, update_self, getD_some]
      exact take_prefix _ _
    · -- below the new size a slot is one of those before, or the shortened chunk's, or has no chunk
      dsimp only
      rw [readByte_append hsorted, readByte_append h.sorted, readByte_congr hstays]
      split
      · rfl
      rw [readByte_cons (pairwise_singleton _ _), readByte_cons hright, hcut]
      split
      · simp only [byteOf, cutLocation, hoff, hb, update_self, getD_some]
        split
        · rw [getD_eq_getElem?_getD, getD_eq_getElem?_getD, getElem?_take_of_lt (by omega)]
        · rfl
      symm
      refine readByte_before fun k hk => ?_
      have hlt := (pairwise_cons.mp hright).1 k hk
      have hbound := Nat.mul_le_mul_right chunkSize (Nat.succ_le_of_lt hlt)
      rw [Nat.succ_eq_add_one, hcidx] at hbound
      omega

end Sent

/-- A shrink keeps the prefix exactly if the cut goes through a chunk that lies at the sum of sizes before it, or
between chunks with zeros up to the new size. -/
theorem shrink_keeps_prefix_iff [DecidableEq Id] (H : ChunkHash Id) (env : TruncateEnv Id) (m : FileMetadata Id)
    (hlayout : FileLayout env.content m.chunkLocations)
    (hstore : ∀ b o file b', env.content (H.computeChunkHashAt b o file) = some b' → b' = b) (newSize : Nat) (hpos : 0 < newSize)
    (hlt : newSize < m.size) (m' : FileMetadata Id) (content' : Id → Option Bytes)
    (hsent : env.setattrSize H m newSize = some (m', content')) :
    KeepsPrefix env.content content' m.chunkLocations m' newSize ↔ CutAligned m.chunkLocations newSize := by
  have hshrink : (if m.chunkLocations.isEmpty then some ({ m with size := newSize }, env.content) else env.shrink H m newSize)
      = some (m', content') := by
    rw [← hsent, setattrSize, if_neg hlt.ne, if_neg hpos.ne', if_neg hlt.le.not_gt]
  rcases exists_cut newSize m.chunkLocations with hall | ⟨kept, l, dropped, hlocs, hle, hgt⟩
  · -- every chunk is kept, and there is no cut
    have hkeep : some ({ m with size := newSize }, env.content) = some (m', content') := by
      rw [← hshrink]
      split
      · rfl
      rename_i hne
      exact (shrink_of_le (by simpa using hne) hall).symm
    obtain ⟨rfl, rfl⟩ := Prod.mk.inj (some.inj hkeep)
    refine iff_of_true ⟨rfl, hlayout.sorted, fun k hk => ⟨k, hk, rfl, prefix_rfl⟩, fun _ _ => rfl⟩ ?_
    intro kept l dropped hlocs _ hgt
    rw [hlocs, totalSize_append, totalSize_cons] at hall
    omega
  · rw [if_neg (by simp [hlocs])] at hshrink
    rw [hlocs] at hlayout ⊢
    rcases Nat.lt_or_eq_of_le hle with hthrough | hbetween
    · obtain ⟨o, b, -, hb, hlen, -⟩ := hlayout.placed l (by simp)
      obtain ⟨rfl, rfl⟩ := shrink_through hlocs hthrough hgt hb hlen (hlayout.size_le (by simp)) hshrink
      rw [keepsPrefix_through_iff hlayout hstore hb hthrough hgt]
      refine ⟨fun hoff kept' l' dropped' hlocs' hle' hgt' => ?_, fun h => h kept l dropped rfl hthrough hgt⟩
      obtain ⟨rfl, rfl, rfl⟩ := cut_unique hlocs' hle hgt hle'.le hgt'
      exact hoff
    · rw [shrink_between hlocs hbetween hpos (by omega)] at hshrink
      obtain ⟨rfl, rfl⟩ := Prod.mk.inj (some.inj hshrink)
      refine iff_of_true (keepsPrefix_between hlayout hbetween) fun kept' l' dropped' hlocs' hle' hgt' => ?_
      obtain ⟨rfl, rfl, rfl⟩ := cut_unique hlocs' hle hgt hle'.le hgt'
      exact absurd hbetween hle'.ne

def slotChunk (b : Bytes) (cidx : Nat) : ChunkLocation FreeId :=
  ⟨.content b (cidx * chunkSize) 7, [1], b.length, some (cidx * chunkSize), none, none, some 7⟩

/-- Identities read as what they are of, and the shortened chunk is stored. -/
def calmTruncate : TruncateEnv FreeId where
  content
    | .content b _ _ => some b
    | .token _ => none
  writes := true
  nodes := [1]
  clientWriteSeq := none

def oneChunkFile (b : Bytes) (cidx : Nat) : FileMetadata FreeId :=
  ⟨7, ['/', 'f'], cidx * chunkSize + b.length, .regularFile, [slotChunk b cidx], 1⟩

lemma oneChunkFile_layout (cidx : Nat) (h : b.length ≤ chunkSize) :
    FileLayout calmTruncate.content (oneChunkFile b cidx).chunkLocations := by
  refine ⟨pairwise_singleton _ _, fun l hl => ?_⟩
  obtain rfl := List.mem_singleton.mp hl
  refine ⟨cidx * chunkSize, b, rfl, rfl, rfl, ?_⟩
  rw [mul_chunkSize_div, Nat.add_mul, Nat.one_mul]
  exact Nat.add_le_add_left h _

lemma isSome_first_cut : (calmTruncate.setattrSize freeHash (oneChunkFile [1, 2, 3] 0) 2).isSome = true := by decide +kernel

theorem first_chunk_cut :
    KeepsPrefix calmTruncate.content ((calmTruncate.setattrSize freeHash (oneChunkFile [1, 2, 3] 0) 2).get isSome_first_cut).2
      (oneChunkFile [1, 2, 3] 0).chunkLocations
      ((calmTruncate.setattrSize freeHash (oneChunkFile [1, 2, 3] 0) 2).get isSome_first_cut).1 2 := by
  refine (shrink_keeps_prefix_iff freeHash calmTruncate (oneChunkFile [1, 2, 3] 0) (oneChunkFile_layout 0 (by decide))
    (fun _ _ _ _ h => (some.inj h).symm) 2 (by decide) (by decide) _ _ (some_get isSome_first_cut).symm).mpr ?_
  intro kept l dropped hlocs hle _
  cases kept with
  | nil =>
    obtain ⟨rfl, -⟩ := List.cons.inj hlocs
    rw [slotChunk, Nat.zero_mul]
    rfl
  | cons k kept => simp [oneChunkFile] at hlocs

/-- The only chunk is in the second slot; cut to two bytes, which were zero, the file has that chunk's. -/
theorem hole_filled_by_cut :
    let file := oneChunkFile [1, 2, 3] 1
    let cut := calmTruncate.setattrSize freeHash file 2
    FileLayout calmTruncate.content file.chunkLocations ∧
      cut.map (fun r => r.1.chunkLocations) = some [⟨.content [1, 2] 0 7, [1], 2, some 0, none, none, some 7⟩] ∧
      cut.map (fun r => readByte r.2 r.1.chunkLocations 0) = some 1 ∧
      readByte calmTruncate.content file.chunkLocations 0 = 0 := by
  refine ⟨oneChunkFile_layout 1 (by decide), by decide +kernel, by decide +kernel, by decide +kernel⟩

end Dfs
