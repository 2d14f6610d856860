import Dfs.ApplyPatch

/-!
# What a merge does to an accumulator

`Accumulates`: a token stands for an accumulator of records over a base. A patch onto it is elided
(`noopCheck_elided`) or appended (`appendPatch_merge`); onto a base it starts one (`appendPatch_fresh`).
-/

namespace Dfs

open Overlay Stamped List Function Option Node

variable {Id : Type}

def PatchEnv.NoFault (env : PatchEnv Id) : Prop := ∀ f, env.fails f = false

variable (H : ChunkHash Id) (s : Node Id)

def Addressed : Prop :=
  ∀ id b, s.files id = some b ∨ s.chunkRing id = some b ∨ s.deltaRing id = some b ∨ s.cache id = some b →
    ∃ o f, id = H.computeChunkHashAt b o f

def deltaId (slot : Slot) (offset : Nat) (records : List DeltaRecord) : Id :=
  H.computeChunkHashAt (encodeAccumulator records) offset slot.1

/-- The token is an accumulator of these records over bytes `b`. -/
structure Accumulates (H : ChunkHash Id) (s : Node Id) (slot : Slot) (offset : Nat) (token base : Id) (b : Bytes)
    (records : List DeltaRecord) : Prop where
  row : ∃ size at_ seq, s.patchState token = some (.pending base (deltaId H slot offset records) size at_ seq)
  file : s.files (deltaId H slot offset records) = some (encodeAccumulator records)
  dirty : ∃ d, s.dirtyPatchSlots slot = some d ∧ d.token = token ∧ d.verified = true ∧ d.legacyDeltaFormat = false ∧
    d.deltaHasher = (slot.1, offset, encodeAccumulator records) ∧
    ∀ m buf, d.materializedMaxSeq = some m → s.materializedRing (deltaId H slot offset records) = some buf →
      buf = overlay b (ranges records) ∧ ∀ r ∈ records, r.1 ≤ m
  fits : ∀ r ∈ records, r.Fits

lemma patchRecords_map_snd (seq : Nat) (patches : Extents) : (patchRecords seq patches).map Prod.snd = patches := by
  simp [patchRecords, List.map_map, comp_def]

variable {patches : Extents}
  {seq o bo size : Nat} {delta : Id} {more : List DeltaRecord} {f bf : FileId} {buf c d : Bytes}

lemma fst_of_mem_patchRecords {r : DeltaRecord} (h : r ∈ patchRecords seq patches) : r.1 = seq := by
  obtain ⟨p, _, rfl⟩ := mem_map.1 h
  rfl

lemma newRecordBytes_fresh (seq : Nat) (patches : Extents) :
    newRecordBytes true false seq patches = encodeAccumulator (patchRecords seq patches) := by
  simp [newRecordBytes, encodeAccumulator, patchRecords, encodeDeltaRecord, flatMap_map]

lemma newRecordBytes_merge (seq : Nat) (patches : Extents) :
    newRecordBytes false false seq patches = (patchRecords seq patches).flatMap (encodeRecord currentShape) := by
  simp [newRecordBytes, patchRecords, encodeDeltaRecord, flatMap_map]

/-! ## Reading back content-addressed bytes -/

lemma Addressed.eq_of_entry {H : ChunkHash Id} (hH : H.CollisionFree) {s : Node Id} (hs : Addressed H s) {b : Bytes}
    (h : s.files (H.computeChunkHashAt b o f) = some c ∨ s.chunkRing (H.computeChunkHashAt b o f) = some c ∨
    s.deltaRing (H.computeChunkHashAt b o f) = some c ∨ s.cache (H.computeChunkHashAt b o f) = some c) :
    c = b := by
  obtain ⟨o', f', he⟩ := hs _ _ h
  exact (hH.content he).1.symm

lemma Addressed.eq_of_readChunkArc {H : ChunkHash Id} (hH : H.CollisionFree) {s : Node Id} (hs : Addressed H s) {b : Bytes}
    (h : s.readChunkArc (H.computeChunkHashAt b o f) = some c) : c = b := by
  rw [readChunkArc, or_eq_some_iff] at h
  rcases h with h | ⟨-, h⟩
  · exact hs.eq_of_entry hH (.inr (.inr (.inr h)))
  · exact hs.eq_of_entry hH (.inl h)

lemma Addressed.readChunkArc_eq {H : ChunkHash Id} (hH : H.CollisionFree) {s : Node Id} (hs : Addressed H s) {id : Id}
    {b : Bytes} (h : s.files id = some b) : s.readChunkArc id = some b := by
  obtain ⟨o, f, hid⟩ := hs id b (.inl h)
  rw [readChunkArc]
  cases hc : s.cache id with
  | none => exact h
  | some c =>
    rw [hid] at hc
    rw [hs.eq_of_entry hH (.inr (.inr (.inr hc)))]
    rfl

variable {s' : Node Id}

lemma Addressed.of_entries {H : ChunkHash Id} {s : Node Id} (h : Addressed H s)
    (hfiles : ∀ id d, s'.files id = some d → s.files id = some d ∨ ∃ o f, id = H.computeChunkHashAt d o f)
    (hchunk : ∀ id d, s'.chunkRing id = some d → s.chunkRing id = some d ∨ ∃ o f, id = H.computeChunkHashAt d o f)
    (hdelta : ∀ id d, s'.deltaRing id = some d → s.deltaRing id = some d ∨ ∃ o f, id = H.computeChunkHashAt d o f)
    (hcache : ∀ id d, s'.cache id = some d → s.cache id = some d ∨ ∃ o f, id = H.computeChunkHashAt d o f) : Addressed H s' := by
  intro id d hd
  rcases hd with hd | hd | hd | hd
  · exact (hfiles id d hd).elim (fun hd => h id d (.inl hd)) (·)
  · exact (hchunk id d hd).elim (fun hd => h id d (.inr (.inl hd))) (·)
  · exact (hdelta id d hd).elim (fun hd => h id d (.inr (.inr (.inl hd)))) (·)
  · exact (hcache id d hd).elim (fun hd => h id d (.inr (.inr (.inr hd)))) (·)

lemma Addressed.of_files {H : ChunkHash Id} {s : Node Id} (h : Addressed H s)
    (hfiles : ∀ id d, s'.files id = some d → s.files id = some d ∨ ∃ o f, id = H.computeChunkHashAt d o f)
    (hchunk : s'.chunkRing = s.chunkRing) (hdelta : s'.deltaRing = s.deltaRing) (hcache : s'.cache = s.cache) : Addressed H s' :=
  h.of_entries hfiles (fun _ _ hd => .inl (hchunk ▸ hd)) (fun _ _ hd => .inl (hdelta ▸ hd))
    (fun _ _ hd => .inl (hcache ▸ hd))

lemma Addressed.of_readChunkArc {H : ChunkHash Id} {s : Node Id} (h : Addressed H s) {id : Id}
    (hd : s.readChunkArc id = some d) : ∃ o f, id = H.computeChunkHashAt d o f := by
  rw [readChunkArc, or_eq_some_iff] at hd
  rcases hd with hd | ⟨-, hd⟩
  · exact h id d (.inr (.inr (.inr hd)))
  · exact h id d (.inl hd)

section Entries

variable [DecidableEq Id] {α : Type} {id new : Id} {entries : Id → Option α}

lemma entry_put {d content : α} (h : update entries new (some content) id = some d) :
    entries id = some d ∨ id = new ∧ d = content := by
  rw [update_apply] at h
  split at h
  · rename_i hid
    exact .inr ⟨hid, (some.inj h).symm⟩
  · exact .inl h

lemma entry_of_drop {d : α} (h : update entries new none id = some d) : entries id = some d := by
  rw [update_apply] at h
  split at h
  · cases h
  · exact h

lemma entry_update {H : ChunkHash Id} {entries : Id → Option Bytes} {content : Bytes}
    (hnew : new = H.computeChunkHashAt content o f) (h : update entries new (some content) id = some d) :
    entries id = some d ∨ ∃ o f, id = H.computeChunkHashAt d o f := by
  rcases entry_put h with h | ⟨rfl, rfl⟩
  · exact .inl h
  · exact .inr ⟨o, f, hnew⟩

end Entries

lemma addressed_holding [DecidableEq Id] (slot : Slot) (b : Bytes) (node : NodeId) (seq : Option Nat) :
    Addressed H (holding H slot b node seq) := by
  intro id d hd
  simp only [holding, empty, reduceCtorEq, or_false] at hd
  split at hd
  · rename_i hid
    cases hd
    exact ⟨_, _, hid⟩
  · cases hd

lemma Addressed.recache {H : ChunkHash Id} {s : Node Id} (h : Addressed H s) (c : CacheChange Id) :
    Addressed H (s.recache c) := by
  have hchanged : ∀ {id : Id} {d : Bytes} {load evict : Bool} {fresh old : Option Bytes},
      (fresh = some d → ∃ o f, id = H.computeChunkHashAt d o f) → changed load evict fresh old = some d →
      old = some d ∨ ∃ o f, id = H.computeChunkHashAt d o f := by
    intro id d load evict fresh old hfresh hd
    unfold changed at hd
    split at hd
    · exact .inr (hfresh hd)
    split at hd
    · cases hd
    · exact .inl hd
  exact h.of_entries (fun _ _ => .inl) (fun _ _ => hchanged h.of_readChunkArc) (fun _ _ => hchanged h.of_readChunkArc)
    (fun id d => hchanged (fun hd => h id d (.inl hd)))

/-! ## The no-op check -/

lemma getD_of_isNoop (h : isNoop buf patches = true) {i : Nat} {v : UInt8} (hv : lastAt patches i = some v) :
    v = buf.getD i default := by
  simp only [isNoop, Bool.and_eq_true, List.all_eq_true, decide_eq_true_eq] at h
  obtain ⟨-, hall⟩ := h
  induction patches with
  | nil => simp [lastAt] at hv
  | cons p patches ih =>
    rw [lastAt, or_eq_some_iff] at hv
    rcases hv with hv | ⟨-, hv⟩
    · exact ih hv (fun q hq => hall q (by simp [hq]))
    have hp := hall p (by simp)
    unfold elemIn at hv
    split at hv
    · rename_i hle
      rw [← hp, getElem?_take, getElem?_drop, show p.1 + (i - p.1) = i by omega] at hv
      split at hv
      · rw [getD_eq_getElem?_getD, hv]
        rfl
      · cases hv
    · cases hv

lemma extent_le_of_isNoop (h : isNoop buf patches = true) : extent patches ≤ buf.length := by
  simp only [isNoop, Bool.and_eq_true, Bool.not_eq_true', List.any_eq_false, decide_eq_true_eq] at h
  obtain ⟨hany, -⟩ := h
  induction patches with
  | nil => simp [extent]
  | cons p patches ih =>
    rw [extent_cons]
    have := hany p (by simp)
    have := ih (fun q hq => hany q (by simp [hq]))
    omega

lemma overlay_eq_self_of_isNoop (h : isNoop buf patches = true) : overlay buf patches = buf := by
  apply ext_getD
  · rw [length_overlay]
    exact max_eq_left (extent_le_of_isNoop h)
  · intro i
    rw [getD_overlay]
    cases hv : lastAt patches i with
    | none => rfl
    | some v => exact getD_of_isNoop h hv

def Rematerialized (s' : Node Id) : Prop := ∃ ring dirty, s' = { s with materializedRing := ring, dirtyPatchSlots := dirty }

lemma Rematerialized.refl : Rematerialized s s := ⟨_, _, rfl⟩

lemma Rematerialized.trans {s s'' : Node Id} (h : Rematerialized s s') (h' : Rematerialized s' s'') : Rematerialized s s'' := by
  obtain ⟨_, _, rfl⟩ := h
  obtain ⟨ring, dirty, rfl⟩ := h'
  exact ⟨ring, dirty, rfl⟩

lemma rematerialized_noteMaxSeq (slot : Slot) (token : Id) (hasher : Hasher) (legacy : Bool) (seq : Nat) :
    Rematerialized s (s.noteMaxSeq slot token hasher legacy seq) :=
  ⟨_, _, rfl⟩

section Merge

variable {H : ChunkHash Id} {s : Node Id} {slot : Slot} {offset : Nat} {token base : Id} {b : Bytes}
  {records : List DeltaRecord}

lemma Accumulates.noteMaxSeq (h : Accumulates H s slot offset token base b records) (ring : Id → Option Bytes) (tok : Id)
    (hasher : Hasher) (legacy : Bool)
    (hm : ∀ buf, ring (deltaId H slot offset records) = some buf → buf = overlay b (ranges records) ∧ ∀ r ∈ records, r.1 ≤ seq) :
    Accumulates H (({ s with materializedRing := ring }).noteMaxSeq slot tok hasher legacy seq) slot offset token base b
      records := by
  obtain ⟨d, hd, ht, hv, hl, hh, -⟩ := h.dirty
  refine ⟨h.row, h.file, ⟨{ d with materializedMaxSeq := some seq }, ?_, ht, hv, hl, hh, ?_⟩, h.fits⟩
  · simp [Node.noteMaxSeq, hd]
  · intro m buf hseq hring
    obtain rfl : seq = m := some.inj hseq
    exact hm buf hring

lemma Accumulates.recache (h : Accumulates H s slot offset token base b records) (c : CacheChange Id) :
    Accumulates H (s.recache c) slot offset token base b records := by
  obtain ⟨d, hd, ht, hv, hl, hh, hring⟩ := h.dirty
  refine ⟨h.row, h.file, ⟨d, hd, ht, hv, hl, hh, ?_⟩, h.fits⟩
  intro m buf hm hbuf
  simp only [Node.recache, changed] at hbuf
  split at hbuf
  · rename_i hf
    cases hf
  split at hbuf
  · cases hbuf
  · exact hring m buf hm hbuf

variable [DecidableEq Id]

lemma materialize_spec (hH : H.CollisionFree) (hs : Addressed H s) (h : Accumulates H s slot offset token base b records)
    (hb : base = H.computeChunkHashAt b bo bf) (tok : Id) (hasher : Hasher) (legacy : Bool) :
    Rematerialized s (s.materialize slot tok hasher legacy base (deltaId H slot offset records)).1 ∧
    Accumulates H (s.materialize slot tok hasher legacy base (deltaId H slot offset records)).1 slot offset token base b records ∧
    ∀ buf m, (s.materialize slot tok hasher legacy base (deltaId H slot offset records)).2 = some (buf, m) →
      buf = overlay b (ranges records) ∧ ∀ r ∈ records, r.1 ≤ m := by
  obtain ⟨d, hd, ht, hv, hl, hh, hring⟩ := h.dirty
  unfold materialize
  split
  · rename_i buf hbuf
    refine ⟨⟨_, _, rfl⟩, ⟨h.row, h.file, ⟨d, hd, ht, hv, hl, hh, ?_⟩, h.fits⟩, ?_⟩
    · intro m buf' _ hpop
      simp at hpop
    · intro buf' m he
      simp only [hd, bind_some, map_eq_some_iff, Prod.mk.injEq] at he
      obtain ⟨m', hm', rfl, rfl⟩ := he
      exact hring m' buf hm' hbuf
  rename_i hmiss
  split
  · rename_i b' d' hb' hd'
    have hbb : b' = b := by
      rw [or_eq_some_iff, hb] at hb'
      rcases hb' with hb' | ⟨-, hb'⟩
      · exact hs.eq_of_entry hH (.inr (.inl hb'))
      · exact hs.eq_of_readChunkArc hH hb'
    have hdd : d' = encodeAccumulator records := by
      rw [or_eq_some_iff] at hd'
      rcases hd' with hd' | ⟨-, hd'⟩
      · exact hs.eq_of_entry hH (.inr (.inr (.inl hd')))
      · exact hs.eq_of_readChunkArc hH hd'
    subst hbb hdd
    rw [parseDeltaRecords_encodeAccumulator h.fits, maxSeqInDeltaRecords_encodeAccumulator h.fits]
    split
    · rename_i recs m hrecs hmax
      obtain rfl : ranges records = recs := by simpa using hrecs
      refine ⟨rematerialized_noteMaxSeq .., h.noteMaxSeq _ _ _ _ ?_, ?_⟩
      · intro buf hbuf
        rw [hmiss] at hbuf
        cases hbuf
      · intro buf m' he
        simp only [some.injEq] at he
        cases he
        refine ⟨applyRanges_eq_overlay _ _, fun r hr => ?_⟩
        exact (max?_le_iff hmax).1 le_rfl _ (mem_map_of_mem hr)
    · exact ⟨Rematerialized.refl s, h, by simp⟩
  · exact ⟨Rematerialized.refl s, h, by simp⟩

/-- The no-op check keeps the accumulator. An elided patch writes what the replay of the accumulator holds; one that is not
elided carries along, if anything, that replay with the patch applied, and then its sequence is above every record's. -/
theorem noopCheck_spec (hH : H.CollisionFree) (hs : Addressed H s) (h : Accumulates H s slot offset token base b records)
    (hb : base = H.computeChunkHashAt b bo bf) (tok : Id) (hasher : Hasher) (legacy : Bool)
    (patches : Extents) (seq : Nat) {r : Option (Option Bytes)}
    (he : s.noopCheck slot tok hasher legacy base (deltaId H slot offset records) patches seq = (s', r)) :
    Rematerialized s s' ∧ Accumulates H s' slot offset token base b records ∧
    (r = none → isNoop (overlay b (ranges records)) patches = true) ∧ ∀ buf, r = some (some buf) →
      buf = overlay (overlay b (ranges records)) patches ∧ ∀ x ∈ records, x.1 < seq := by
  obtain ⟨hfr, hacc, hspec⟩ := materialize_spec hH hs h hb tok hasher legacy
  unfold noopCheck at he
  generalize s.materialize slot tok hasher legacy base (deltaId H slot offset records) = m at he hfr hacc hspec
  obtain ⟨s₁, o⟩ := m
  cases o with
  | none =>
    cases he
    exact ⟨hfr, hacc, nofun, nofun⟩
  | some p =>
    obtain ⟨buf, known⟩ := p
    obtain ⟨rfl, hle⟩ := hspec buf known rfl
    simp only at he
    split at he
    · rename_i hlt
      split at he
      · rename_i hno
        cases he
        refine ⟨hfr.trans ⟨_, _, rfl⟩, hacc.noteMaxSeq _ _ _ _ ?_, fun _ => hno, nofun⟩
        intro buf hbuf
        rw [update_self] at hbuf
        exact ⟨(some.inj hbuf).symm, fun x hx => (hle x hx).trans hlt.le⟩
      · cases he
        refine ⟨hfr, hacc, nofun, ?_⟩
        intro buf hbuf
        obtain rfl := some.inj (some.inj hbuf)
        exact ⟨applyRanges_eq_overlay _ _, fun x hx => (hle x hx).trans_lt hlt⟩
    · cases he
      exact ⟨hfr, hacc, nofun, nofun⟩

end Merge

/-! ## Appending -/

lemma ranges_append_patchRecords {records : List DeltaRecord} (h : ∀ r ∈ records, r.1 < seq) (patches : Extents) :
    ranges (records ++ patchRecords seq patches) = ranges records ++ patches := by
  have hup : upTo Prod.fst seq records = records := filter_eq_self.2 (fun r hr => by simpa using (h r hr).le)
  have hab : above Prod.fst seq records = [] := filter_eq_nil_iff.2 (fun r hr => by simpa using (h r hr).le)
  rw [Stamped.ranges, sortBy_append_block records (fun r => fst_of_mem_patchRecords), hup, hab, map_append, map_append,
    patchRecords_map_snd]
  simp [Stamped.ranges, sortBy]

variable [DecidableEq Id]

lemma registerToken_congr {s : Node Id} (h : s'.chunkTable = s.chunkTable) (env : PatchEnv Id) (call : PatchCall Id)
    (p : PatchBase Id) (token : Id) (size : Nat) :
    s'.registerToken env call p token size = s'.setChunkTable (s.registerToken env call p token size).chunkTable := by
  obtain ⟨⟩ := s
  obtain ⟨⟩ := s'
  dsimp only at h
  subst h
  unfold registerToken
  cases p.priorDelta with
  | none => cases env.fails .putChunkLocation <;> cases env.fails .deleteChunkLocation <;> rfl
  | some prior =>
    dsimp only
    cases env.fails .putChunkLocation <;> cases env.fails .deleteChunkLocation <;>
      cases (if env.fails .readChunkLocation then none else _ : Option (ChunkLocation Id)) <;> rfl

lemma commitPatchState_ok {env : PatchEnv Id} (hf : env.fails .commitPatchState = false) (s : Node Id) (slot : Slot)
    (token base delta : Id) (size : Nat) (seq : Option Nat) : ∃ pending, s.commitPatchState env slot token base delta size seq
      = (s.setPatchTables (update (s.retireRow slot) token (some (.pending base delta size env.nowSecs seq)))
          (update s.patchStateSlot slot (some token)) pending, .ok ()) := by
  unfold commitPatchState putPatchStatePending
  rw [hf, if_neg (by simp)]
  dsimp only
  cases s.patchStateSlot slot with
  | none => exact ⟨_, rfl⟩
  | some t => exact ⟨_, rfl⟩

def Node.committed (env : PatchEnv Id) (s : Node Id) (slot : Slot) (call : PatchCall Id) (p : PatchBase Id)
    (old token delta : Id) (size : Nat) (hasher : Hasher) (legacy : Bool) (carried : Option Bytes)
    (pending : Id → Option Slot) (prior : Option Id) : Node Id :=
  (((s.setPatchTables
      (update (s.retireRow slot) token (some (.pending p.base delta size env.nowSecs call.clientWriteSeq)))
      (update s.patchStateSlot slot (some token)) pending).setChunkTable
      (s.registerToken env call p token size).chunkTable).setChunkMap
      (s.updateChunkMapAfterPatch slot.1 (some slot.2) old token size env.nowMs call.clientWriteSeq).1.chunkMap
    ).trackAccumulator slot p token delta hasher legacy carried call.seq prior

lemma commitToken_eq (H : ChunkHash Id) {env : PatchEnv Id} (hf : env.fails .commitPatchState = false) (s : Node Id)
    (slot : Slot) (call : PatchCall Id) (p : PatchBase Id) (hasher : Hasher) (legacy : Bool)
    (carried : Option Bytes) {old : Id} (hdelta : hasher.finalize H = delta)
    (hold : (if p.priorDelta.isSome then call.chunkId else p.base) = old) (hsize : max (extent call.patches) p.size = size) :
    ∃ pending prior, s.commitToken H env slot call p hasher legacy carried
      = (s.committed env slot call p old (H.patchTokenIdentity delta) delta size hasher legacy carried pending prior,
        .ok ⟨H.patchTokenIdentity delta, size, some env.nowMs, none,
          (s.updateChunkMapAfterPatch slot.1 (some slot.2) old (H.patchTokenIdentity delta) size env.nowMs
            call.clientWriteSeq).2⟩) := by
  subst hdelta hold hsize
  obtain ⟨pending, hcommit⟩ := commitPatchState_ok hf s slot
    (H.patchTokenIdentity (hasher.finalize H)) p.base
    (hasher.finalize H) (max (extent call.patches) p.size) call.clientWriteSeq
  refine ⟨pending, if p.priorDelta.isSome then none else (s.occupant slot).map (·.chunkId), ?_⟩
  unfold commitToken publishToken
  dsimp only
  rw [hcommit]
  dsimp only [andThen]
  rw [registerToken_congr (show (s.setPatchTables _ _ pending).chunkTable = s.chunkTable from rfl),
    updateChunkMapAfterPatch_congr (show ((s.setPatchTables _ _ pending).setChunkTable _).chunkMap = s.chunkMap from rfl)]
  rfl

lemma persistDelta_fresh {env : PatchEnv Id} (hf : env.NoFault) (s : Node Id) (delta : Id) (bytes : Bytes) :
    s.persistDelta env none delta bytes = (s.setFiles (update s.files delta (some bytes)), .ok ()) := by
  unfold persistDelta
  simp [hf .writeDelta, hf .syncWrittenDelta, writeChunk, setFiles]

lemma persistDelta_merge {env : PatchEnv Id} (hf : env.NoFault) {s : Node Id} {prior : Id} {old : Bytes}
    (h : s.files prior = some old) (delta : Id) (bytes : Bytes) : s.persistDelta env (some prior) delta bytes
      = (s.setFiles (update (update s.files prior none) delta (some (old ++ bytes))), .ok ()) := by
  unfold persistDelta
  simp [h, hf .openPriorDelta, hf .appendDelta, hf .syncDelta, hf .createDir, hf .renameDelta, hf .syncDurable]

section Append

variable {H : ChunkHash Id} {env : PatchEnv Id} {s : Node Id} {slot : Slot} {offset : Nat} {b : Bytes}
  {records : List DeltaRecord} {call : PatchCall Id} {carried : Option Bytes}

lemma accumulates_committed (hdelta : delta = deltaId H slot offset records) (s : Node Id)
    (hfile : s.files delta = some (encodeAccumulator records)) (hfits : ∀ r ∈ records, r.Fits)
    (hcarried : ∀ buf, carried = some buf → buf = overlay b (ranges records) ∧ ∀ r ∈ records, r.1 ≤ call.seq)
    (env : PatchEnv Id) (p : PatchBase Id) (old token : Id) (size : Nat) (pending : Id → Option Slot) (prior : Option Id) :
    Accumulates H (s.committed env slot call p old token delta size (slot.1, offset, encodeAccumulator records) false carried
      pending prior) slot offset token p.base b records := by
  subst hdelta
  refine ⟨⟨_, _, _, update_self ..⟩, hfile, ⟨_, update_self .., rfl, rfl, rfl, rfl, ?_⟩, hfits⟩
  intro m buf hm hring
  cases hc : carried with
  | none => simp [hc] at hm
  | some c =>
    simp only [hc, map_some, some.injEq] at hm
    simp only [committed, trackAccumulator_materializedRing, hc, update_self, some.injEq] at hring
    subst hm hring
    exact hcarried c hc

lemma appendPatch_fresh (hf : env.NoFault) (s : Node Id) (slot : Slot) (offset : Nat) (base : Id) (size : Nat)
    (hrec : records = patchRecords call.seq call.patches) :
    s.appendPatch H env slot call ⟨base, none, size⟩ (slot.1, offset, []) false none
      = (s.setFiles (update s.files (deltaId H slot offset records) (some (encodeAccumulator records)))).commitToken
        H env slot call ⟨base, none, size⟩ (slot.1, offset, encodeAccumulator records) false none := by
  subst hrec
  unfold appendPatch
  simp only [isNone_none, newRecordBytes_fresh, persistDelta_fresh hf, andThen]
  rfl

lemma appendPatch_merge (hf : env.NoFault) {token base : Id} (size : Nat)
    (hmore : more = patchRecords call.seq call.patches) (h : Accumulates H s slot offset token base b records) :
    s.appendPatch H env slot call ⟨base, some (deltaId H slot offset records), size⟩
        (slot.1, offset, encodeAccumulator records) false carried
      = (s.setFiles (update (update s.files (deltaId H slot offset records) none)
          (deltaId H slot offset (records ++ more)) (some (encodeAccumulator (records ++ more))))).commitToken
        H env slot call ⟨base, some (deltaId H slot offset records), size⟩
        (slot.1, offset, encodeAccumulator (records ++ more)) false carried := by
  subst hmore
  unfold appendPatch Hasher.update
  simp only [isNone_some, newRecordBytes_merge, persistDelta_merge hf h.file, ← encodeAccumulator_append, andThen]
  rfl

lemma fits_append (h : ∀ r ∈ records, r.Fits) (hmore : ∀ r ∈ more, r.Fits) : ∀ r ∈ records ++ more, r.Fits := by
  intro r hr
  rcases mem_append.1 hr with hr | hr
  · exact h r hr
  · exact hmore r hr

lemma carried_append (hmore : more = patchRecords seq patches)
    (hcarried : ∀ buf, carried = some buf → buf = overlay (overlay b (ranges records)) patches ∧ ∀ r ∈ records, r.1 < seq)
    (buf : Bytes) (hc : carried = some buf) : buf = overlay b (ranges (records ++ more)) ∧ ∀ r ∈ records ++ more, r.1 ≤ seq := by
  subst hmore
  obtain ⟨hbuf, hlt⟩ := hcarried buf hc
  refine ⟨by rw [hbuf, ranges_append_patchRecords hlt, overlay_append], fun r hr => ?_⟩
  rcases mem_append.1 hr with hr | hr
  · exact (hlt r hr).le
  · exact (fst_of_mem_patchRecords hr).le

end Append

/-! ## A patch on a slot, without a fault -/

section PatchSlot

variable {H : ChunkHash Id} {env : PatchEnv Id} {s : Node Id} {slot : Slot} {offset : Nat} {token base : Id} {b : Bytes}
  {records : List DeltaRecord} {call : PatchCall Id}

lemma freshBase_ok (hf : env.NoFault) {loc : ChunkLocation Id} (hreg : s.chunkTable base = some loc)
    (hdisk : s.hasChunk base = true) {viaLocalFold : Bool}
    (hl : viaLocalFold = true ∨ s.refreshSlotFromLeader env.leader slot base = none) (trust : Bool) :
    s.freshBase H env slot offset base viaLocalFold trust = (s, .ok ⟨base, none, loc.size⟩) := by
  have hcurrent : (if (viaLocalFold || trust) = true then none else s.refreshSlotFromLeader env.leader slot base) = none := by
    rcases hl with hl | hl
    · simp [hl]
    · simp [hl]
  unfold freshBase
  simp only [hf .readChunkLocation, hreg, hcurrent, hdisk, Bool.false_eq_true, if_false, if_true]

lemma patchSlot_fresh_eq (hf : env.NoFault) (hbase : s.patchBase H env slot call = (s, .ok ⟨base, none, size⟩))
    (hrec : records = patchRecords call.seq call.patches) {s₁ : Node Id}
    (hdelta : deltaId H slot call.chunkFileOffset records = delta)
    (hs₁ : s.setFiles (update s.files delta (some (encodeAccumulator records))) = s₁) :
    ∃ size' pending prior, s.patchSlot H env slot call
      = (s₁.committed env slot call ⟨base, none, size⟩ base (H.patchTokenIdentity delta) delta size'
          (slot.1, call.chunkFileOffset, encodeAccumulator records) false none pending prior,
        .ok ⟨H.patchTokenIdentity delta, size', some env.nowMs, none,
          (s₁.updateChunkMapAfterPatch slot.1 (some slot.2) base (H.patchTokenIdentity delta) size' env.nowMs
            call.clientWriteSeq).2⟩) := by
  subst hdelta hs₁
  refine ⟨max (extent call.patches) size, ?_⟩
  unfold patchSlot
  rw [hbase]
  simp only [andThen, priorHasher, appendPatch_fresh hf s slot call.chunkFileOffset base size hrec]
  exact commitToken_eq H (hf .commitPatchState) _ slot call ⟨base, none, size⟩ _ false none rfl rfl rfl

lemma priorHasher_of_accumulates (h : Accumulates H s slot offset token base b records) (env : PatchEnv Id) (callOffset : Nat) :
    s.priorHasher env slot callOffset (some (deltaId H slot offset records))
      = (s, .ok ((slot.1, offset, encodeAccumulator records), false)) := by
  obtain ⟨d, hd, -, hv, hleg, hhash, -⟩ := h.dirty
  have hfilter : (s.dirtyPatchSlots slot).filter (·.verified) = some d := by
    rw [hd, filter_some, if_pos hv]
  unfold priorHasher
  simp only [hfilter, hleg, hhash]

lemma patchSlot_of_accumulates (h : Accumulates H s slot offset token base b records) (hcall : call.chunkId = token)
    (hf : env.NoFault) : ∃ size, s.patchSlot H env slot call
      = match s.noopCheck slot call.chunkId (slot.1, offset, encodeAccumulator records) false base
          (deltaId H slot offset records) call.patches call.seq with
        | (s, none) => (s, .ok ⟨call.chunkId, size, none, none, none⟩)
        | (s, some carried) => s.appendPatch H env slot call ⟨base, some (deltaId H slot offset records), size⟩
            (slot.1, offset, encodeAccumulator records) false carried := by
  obtain ⟨size, at_, seq, hrow⟩ := h.row
  refine ⟨size, ?_⟩
  unfold patchSlot patchBase
  simp only [hf .readPatchState, hcall, hrow, andThen, Bool.false_eq_true, if_false]
  rewrite [priorHasher_of_accumulates h]
  rfl

def mergedFiles (H : ChunkHash Id) (files : Id → Option Bytes) (slot : Slot) (offset : Nat)
    (records more : List DeltaRecord) : Id → Option Bytes :=
  update (update files (deltaId H slot offset records) none) (deltaId H slot offset (records ++ more))
    (some (encodeAccumulator (records ++ more)))

lemma patchSlot_merge_cases (hH : H.CollisionFree) (hs : Addressed H s) (h : Accumulates H s slot offset token base b records)
    (hb : base = H.computeChunkHashAt b bo bf) (hcall : call.chunkId = token) (hf : env.NoFault)
    (hmore : more = patchRecords call.seq call.patches) (hfits : ∀ r ∈ more, r.Fits)
    (hdelta : deltaId H slot offset (records ++ more) = delta) :
    (∃ s' size, s.patchSlot H env slot call = (s', .ok ⟨token, size, none, none, none⟩) ∧ Rematerialized s s' ∧
      Accumulates H s' slot offset token base b records ∧ isNoop (overlay b (ranges records)) call.patches = true) ∨
    ∃ s₁ p size carried pending prior, Rematerialized (s.setFiles (mergedFiles H s.files slot offset records more)) s₁ ∧
      p.base = base ∧ s.patchSlot H env slot call = (s₁.committed env slot call p token (H.patchTokenIdentity delta) delta size
            (slot.1, offset, encodeAccumulator (records ++ more)) false carried pending prior,
          .ok ⟨H.patchTokenIdentity delta, size, some env.nowMs, none,
            (s₁.updateChunkMapAfterPatch slot.1 (some slot.2) token (H.patchTokenIdentity delta) size env.nowMs
              call.clientWriteSeq).2⟩) ∧ Accumulates H (s₁.committed env slot call p token (H.patchTokenIdentity delta) delta size
        (slot.1, offset, encodeAccumulator (records ++ more)) false carried pending prior)
        slot offset (H.patchTokenIdentity delta) base b (records ++ more) := by
  subst hdelta hcall
  obtain ⟨size, hstart⟩ := patchSlot_of_accumulates h rfl hf
  rcases hcheck : s.noopCheck slot call.chunkId (slot.1, offset, encodeAccumulator records) false base
    (deltaId H slot offset records) call.patches call.seq with ⟨s₁, o⟩
  obtain ⟨hmat, hacc, hnoop, hcarried⟩ := noopCheck_spec hH hs h hb _ _ _ _ _ hcheck
  rw [hstart, hcheck]
  cases o with
  | none => exact .inl ⟨s₁, size, rfl, hmat, hacc, hnoop rfl⟩
  | some carried =>
    have hfiles : s₁.files = s.files := by
      obtain ⟨ring, dirty, rfl⟩ := hmat
      rfl
    obtain ⟨pending, prior, hcommit⟩ := commitToken_eq H (hf .commitPatchState)
      (s₁.setFiles (mergedFiles H s.files slot offset records more)) slot call
      ⟨base, some (deltaId H slot offset records), size⟩ (slot.1, offset, encodeAccumulator (records ++ more)) false carried
      rfl rfl rfl
    refine .inr ⟨s₁.setFiles (mergedFiles H s.files slot offset records more),
      ⟨base, some (deltaId H slot offset records), size⟩, max (extent call.patches) size, carried, pending, prior, ?_, rfl,
      ?_, ?_⟩
    · obtain ⟨ring, dirty, rfl⟩ := hmat
      exact ⟨ring, dirty, rfl⟩
    · refine (appendPatch_merge hf size hmore hacc).trans ?_
      rw [hfiles, ← mergedFiles]
      exact hcommit
    exact accumulates_committed rfl _ (update_self ..) (fits_append h.fits hfits)
      (carried_append hmore fun buf hbuf => hcarried buf (congrArg some hbuf)) ..

end PatchSlot

end Dfs
