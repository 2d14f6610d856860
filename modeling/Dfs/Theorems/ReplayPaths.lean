import Dfs.Lemmas.Accumulator
import Dfs.Resolve

/-!
# The paths that replay an accumulator

A rewrite, a read, the cold rebuild of the materialized buffer and the merges come to the same bytes.
-/

namespace Dfs

open Overlay Stamped List Option Node

variable {Id : Type} [DecidableEq Id]

/-- Put back under its delta if the patch was elided, else carried to the new one. -/
def bufferAfter (prior : Id) : Node Id × Option (Option Bytes) → Option Bytes
  | (s, none) => s.materializedRing prior
  | (_, some carried) => carried

/-- The buffer over `b` and its largest write sequence: rebuilt from an accumulator, then merged with patches of
larger sequences. -/
inductive Buffered (Id : Type) [DecidableEq Id] (b : Bytes) : List DeltaRecord → Bytes → Nat → Prop where
  | rebuilt {s s' : Node Id} {slot : Slot} {token base prior : Id} {hasher : Hasher} {legacy : Bool}
      {records : List DeltaRecord} {buf : Bytes} {m : Nat} (hcold : s.materializedRing prior = none)
      (hbase : (s.chunkRing base).or (s.readChunkArc base) = some b)
      (hdelta : (s.deltaRing prior).or (s.readChunkArc prior) = some (encodeAccumulator records))
      (hbuf : s.materialize slot token hasher legacy base prior = (s', some (buf, m))) : Buffered Id b records buf m
  | merged {s : Node Id} {slot : Slot} {token base prior : Id} {hasher : Hasher} {legacy : Bool}
      {records : List DeltaRecord} {buf buf' : Bytes} {m seq : Nat} {patches : Extents}
      (h : Buffered Id b records buf m) (hring : s.materializedRing prior = some buf)
      (hmax : (s.dirtyPatchSlots slot).bind (·.materializedMaxSeq) = some m) (hseq : m < seq)
      (hbuf : bufferAfter prior (s.noopCheck slot token hasher legacy base prior patches seq) = some buf') :
      Buffered Id b (records ++ patchRecords seq patches) buf' seq

variable {records : List DeltaRecord} {b buf : Bytes} {s : Node Id} {prior : Id} {m : Nat}

lemma materialize_cold {base : Id} (hfits : ∀ r ∈ records, r.Fits) (hcold : s.materializedRing prior = none)
    (hbase : (s.chunkRing base).or (s.readChunkArc base) = some b)
    (hdelta : (s.deltaRing prior).or (s.readChunkArc prior) = some (encodeAccumulator records)) (slot : Slot) (token : Id)
    (hasher : Hasher) (legacy : Bool) : (s.materialize slot token hasher legacy base prior).2 =
      ((records.map Prod.fst).max?).map (fun m => (overlay b (ranges records), m)) := by
  unfold materialize
  simp only [hcold, hbase, hdelta, parseDeltaRecords_encodeAccumulator hfits, maxSeqInDeltaRecords_encodeAccumulator hfits]
  cases (records.map Prod.fst).max? with
  | none => rfl
  | some m => simp only [applyRanges_eq_overlay, map_some]

lemma bufferAfter_noopCheck {slot : Slot} {seq : Nat} (hring : s.materializedRing prior = some buf)
    (hmax : (s.dirtyPatchSlots slot).bind (·.materializedMaxSeq) = some m) (hseq : m < seq) (token base : Id)
    (hasher : Hasher) (legacy : Bool) (patches : Extents) :
    bufferAfter prior (s.noopCheck slot token hasher legacy base prior patches seq) = some (overlay buf patches) := by
  unfold noopCheck materialize
  simp only [hring, hmax, map_some, if_pos hseq]
  by_cases hnoop : isNoop buf patches = true
  · rw [if_pos hnoop]
    simp only [bufferAfter, noteMaxSeq_materializedRing, Function.update_self, overlay_eq_self_of_isNoop hnoop]
  rw [if_neg hnoop]
  exact congrArg some (applyRanges_eq_overlay buf patches)

lemma Buffered.eq_overlay (h : Buffered Id b records buf m) (hfits : ∀ r ∈ records, r.Fits) :
    buf = overlay b (ranges records) ∧ ∀ r ∈ records, r.1 ≤ m := by
  induction h with
  | rebuilt hcold hbase hdelta hbuf =>
    have hrebuilt := (congrArg Prod.snd hbuf).symm.trans (materialize_cold hfits hcold hbase hdelta ..)
    rw [eq_comm, map_eq_some_iff] at hrebuilt
    obtain ⟨m', hm', heq⟩ := hrebuilt
    cases heq
    exact ⟨rfl, fun r hr => (max?_le_iff hm').1 le_rfl _ (mem_map_of_mem hr)⟩
  | merged _ hring hmax hseq hbuf ih =>
    obtain ⟨rfl, hle⟩ := ih (fun r hr => hfits r (mem_append_left _ hr))
    obtain rfl := some.inj (hbuf.symm.trans (bufferAfter_noopCheck hring hmax hseq ..))
    refine ⟨?_, fun r hr => ?_⟩
    · rw [ranges_append_patchRecords (fun r hr => (hle r hr).trans_lt hseq), overlay_append]
    · rcases mem_append.1 hr with hr | hr
      · exact (hle r hr).trans hseq.le
      · exact (fst_of_mem_patchRecords hr).le

lemma getElem?_overlay_ranges_gap {i : Nat} (hbase : b.length ≤ i) (hi : i < (overlay b (ranges records)).length)
    (hgap : ∀ r ∈ records, ¬(r.2.1 ≤ i ∧ i < r.2.1 + r.2.2.length)) : (overlay b (ranges records))[i]? = some 0 := by
  have huncovered : lastAt (ranges records) i = none := by
    rw [lastAt_eq_none_iff]
    intro p hp
    obtain ⟨r, hr, rfl⟩ := mem_map.1 hp
    rw [elemIn_eq_none_iff]
    have := hgap r (mem_sortBy.1 hr)
    omega
  have hzero := getD_overlay b (ranges records) i
  rw [huncovered, getD_none, getD_eq_default _ _ hbase, getD_eq_getElem _ _ hi] at hzero
  rw [getElem?_eq_getElem hi, hzero]
  rfl

lemma fullRewriteChunk_result {H : ChunkHash Id} {env : PatchEnv Id} {file : FileId} {offset : Nat} {old : Id}
    {prefetched : Option Bytes} (hbase : s.rewriteBase H env file offset old prefetched = .ok b)
    (hwrite : env.fails .writeConsolidated = false) (hsync : env.fails .syncConsolidated = false) (patches : Extents) :
    (s.fullRewriteChunk H env file offset old patches prefetched).2 =
      .ok (H.computeChunkHashAt (overlay b patches) offset file, (overlay b patches).length, overlay b patches) := by
  unfold fullRewriteChunk
  simp only [hbase, hwrite, hsync, applyRanges_eq_overlay, Bool.and_false, Bool.false_eq_true, if_false]

/-- Each path makes `content` of the base `b` and the records. -/
structure ReplaysTo (Id : Type) [DecidableEq Id] (b : Bytes) (records : List DeltaRecord) (content : Bytes) : Prop where
  /-- `full_rewrite_chunk`, with the ranges that a fold has parsed. -/
  rewritten : ∀ (H : ChunkHash Id) (env : PatchEnv Id) (s : Node Id) (file : FileId) (offset : Nat) (old : Id)
    (prefetched : Option Bytes) (patches : Extents),
    parseDeltaRecords (encodeAccumulator records) = .ok patches → s.rewriteBase H env file offset old prefetched = .ok b →
    env.fails .writeConsolidated = false → env.fails .syncConsolidated = false →
      (s.fullRewriteChunk H env file offset old patches prefetched).2 =
        .ok (H.computeChunkHashAt content offset file, content.length, content)
  /-- `compose_one_patch` with `apply_delta_records_inner`. -/
  composed : ∀ (s : Node Id) (base delta : Id), (s.chunkRing base).or (s.readChunkArc base) = some b →
    (s.deltaRing delta).or (s.readChunkArc delta) = some (encodeAccumulator records) →
      s.composeOnePatch base delta = some content
  /-- The cold rebuild of `apply_patch`. -/
  rebuilt : ∀ (s : Node Id) (slot : Slot) (token base prior : Id) (hasher : Hasher) (legacy : Bool),
    s.materializedRing prior = none → (s.chunkRing base).or (s.readChunkArc base) = some b →
    (s.deltaRing prior).or (s.readChunkArc prior) = some (encodeAccumulator records) →
      (s.materialize slot token hasher legacy base prior).2 = ((records.map Prod.fst).max?).map (fun m => (content, m))
  /-- The buffer that the merges keep. -/
  buffered : ∀ buf m, Buffered Id b records buf m → buf = content

/-- All paths replay to the same bytes, with zeros past the base, and every later merge leaves a materialized buffer. -/
theorem replay_paths_agree (b : Bytes) (records : List DeltaRecord) (hfits : ∀ r ∈ records, r.Fits) :
    ∃ content, ReplaysTo Id b records content ∧
      (∀ i, b.length ≤ i → i < content.length → (∀ r ∈ records, ¬(r.2.1 ≤ i ∧ i < r.2.1 + r.2.2.length)) → content[i]? = some 0) ∧
      ∀ buf m, Buffered Id b records buf m → ∀ (s : Node Id) (slot : Slot) (token base prior : Id) (hasher : Hasher)
        (legacy : Bool) (patches : Extents) (seq : Nat), s.materializedRing prior = some buf →
        (s.dirtyPatchSlots slot).bind (·.materializedMaxSeq) = some m → m < seq →
          ∃ buf', bufferAfter prior (s.noopCheck slot token hasher legacy base prior patches seq) = some buf' ∧
            Buffered Id b (records ++ patchRecords seq patches) buf' seq := by
  refine ⟨overlay b (ranges records), ⟨?_, ?_, ?_, ?_⟩, ?_, ?_⟩
  · intro H env s file offset old prefetched patches hparse hbase hwrite hsync
    rw [parseDeltaRecords_encodeAccumulator hfits] at hparse
    cases hparse
    exact fullRewriteChunk_result hbase hwrite hsync _
  · intro s base delta hbase hdelta
    simp only [composeOnePatch, hbase, hdelta, parseDeltaRecords_encodeAccumulator hfits, applyDeltaRecords_eq_overlay]
  · intro s slot token base prior hasher legacy hcold hbase hdelta
    exact materialize_cold hfits hcold hbase hdelta slot token hasher legacy
  · intro buf m hbuf
    exact (hbuf.eq_overlay hfits).1
  · intro i hbase hi hgap
    exact getElem?_overlay_ranges_gap hbase hi hgap
  · intro buf m hbuf s slot token base prior hasher legacy patches seq hring hmax hseq
    have hafter := bufferAfter_noopCheck hring hmax hseq token base hasher legacy patches
    exact ⟨_, hafter, hbuf.merged hring hmax hseq hafter⟩

/-- A byte and an accumulator over it in the rings: two records against the order of their sequences, the second with a gap. -/
def gapNode : Node Nat :=
  { Node.empty with
    chunkRing := fun id => if id = 0 then some [1] else none
    deltaRing := fun id => if id = 1 then some (encodeAccumulator [(2, 0, [9]), (1, 3, [7])]) else none }

theorem replay_paths_agree_gap : ReplaysTo Nat [1] [(2, 0, [9]), (1, 3, [7])] [9, 0, 0, 7] := by
  obtain ⟨content, hpaths, -⟩ := @replay_paths_agree Nat _ [1] [(2, 0, [9]), (1, 3, [7])] (by
    intro r hr
    simp only [mem_cons, not_mem_nil, or_false] at hr
    rcases hr with rfl | rfl <;> exact ⟨by decide, by decide, by decide⟩)
  have hcomposed := hpaths.composed gapNode 0 1 rfl rfl
  have hbytes : gapNode.composeOnePatch 0 1 = some [9, 0, 0, 7] := by decide
  obtain rfl := some.inj (hcomposed.symm.trans hbytes)
  exact hpaths

end Dfs
