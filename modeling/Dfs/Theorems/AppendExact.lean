import Dfs.Lemmas.AppendEffect

/-! # Does an append append? -/

namespace Dfs

open KeyedList Option Server AppendEnv
open List hiding lookup

variable {Id : Type}

/-! ## The file before -/

/-- Live, its chunks within its size and slots and read as their identities say, and the map has all that a scan of
`CHUNK_TABLE` has.
-/
structure Server.Appendable (H : ChunkHash Id) (srv : Server Id) (env : AppendEnv Id) (metadata : FileMetadata Id) : Prop where
  record : srv.tables.fileTable metadata.id = some metadata
  live : srv.node.fileRecentlyDeleted metadata.id = false
  sorted : Sorted cidxOf (srv.node.locsOf metadata.id)
  extent : ∀ l ∈ srv.node.locsOf metadata.id, ∃ o b, l.fileOffset = some o ∧ srv.content l.chunkId = some b ∧
    o + b.length ≤ metadata.size ∧ o + b.length ≤ (o / chunkSize + 1) * chunkSize
  grounded : ∀ b o b', srv.content (H.computeChunkHashAt b o metadata.id) = some b' → b' = b
  warm : ∀ rows, env.scan = .ok rows → srv.node.locsOf metadata.id = [] → ∀ loc ∈ rows, loc.fileId ≠ some metadata.id

def Server.tailBytes (srv : Server Id) (metadata : FileMetadata Id) : Bytes :=
  if metadata.size % chunkSize > 0 then
    ((srv.node.locsOf metadata.id).getLast?.bind (fun loc => srv.content loc.chunkId)).getD []
  else []

variable {file : FileId} {tail b : Bytes} {i size : Nat}

section Before

variable {H : ChunkHash Id} {srv : Server Id} {env : AppendEnv Id} {metadata : FileMetadata Id}

lemma bestLocation_none {rows : Locations Id} (h : ∀ loc ∈ rows, loc.fileId ≠ some file) :
    bestLocation file rows = none := by
  unfold bestLocation
  induction rows with
  | nil => rfl
  | cons loc rest ih =>
    rw [foldl_cons, if_neg (by simp [h loc mem_cons_self])]
    exact ih (fun l hl => h l (mem_cons_of_mem _ hl))

section

variable (h : srv.Appendable H env metadata)

include h

lemma Server.Appendable.tailData (htail : srv.tailData env metadata.id metadata.size = .ok tail) :
    tail = srv.tailBytes metadata ∧ (metadata.size % chunkSize > 0 → ∃ loc, (srv.node.locsOf metadata.id).getLast? = some loc ∧
      srv.content loc.chunkId = some tail) := by
  unfold Server.tailData at htail
  unfold tailBytes
  split at htail
  · rename_i hpartial
    rw [if_pos hpartial]
    unfold lastLocation at htail
    cases hlast : (srv.node.locsOf metadata.id).getLast? with
    | some loc =>
      rw [hlast] at htail
      change srv.readTail env loc.chunkId = .ok tail at htail
      unfold readTail at htail
      split at htail
      · rename_i b _ hb
        cases htail
        refine ⟨?_, fun _ => ⟨loc, rfl, hb⟩⟩
        simp [hb]
      · cases htail
    | none =>
      rw [hlast] at htail
      cases hscan : env.scan with
      | error e =>
        rw [hscan] at htail
        cases e <;> cases htail
      | ok rows =>
        rw [hscan] at htail
        dsimp only at htail
        rw [bestLocation_none (h.warm rows hscan (getLast?_eq_none_iff.mp hlast))] at htail
        cases htail
  · rename_i hfull
    rw [if_neg hfull]
    cases htail
    exact ⟨rfl, fun hpartial => absurd hpartial hfull⟩

lemma Server.Appendable.occupant {idx : Nat} {l : ChunkLocation Id} (hl : srv.node.occupant (metadata.id, idx) = some l) :
    ∃ o b, l.fileOffset = some o ∧ o / chunkSize = idx ∧ srv.content l.chunkId = some b ∧ o + b.length ≤ metadata.size ∧
      o + b.length ≤ (o / chunkSize + 1) * chunkSize := by
  rw [occupant_eq_lookup_locsOf, lookup_eq_find? h.sorted] at hl
  obtain ⟨o, b, ho, hb, hsize, hslot⟩ := h.extent l (mem_of_find?_eq_some hl)
  refine ⟨o, b, ho, ?_, hb, hsize, hslot⟩
  have hkey : cidxOf l = idx := by simpa using find?_some hl
  have hmap : slotOf l = some (o / chunkSize) := by rw [slotOf, ho]; rfl
  rw [← hkey, cidxOf_of_fileOffset hmap]

lemma Server.Appendable.byteAt_of_size_le (hi : metadata.size ≤ i) : srv.byteAt metadata.id i = 0 := by
  unfold byteAt
  split
  · rename_i l hl
    obtain ⟨o, b, ho, -, hb, hsize, -⟩ := h.occupant hl
    unfold byteOf
    rw [ho, hb]
    dsimp only [getD_some]
    split
    · exact getD_eq_default _ _ (by omega)
    · rfl
  · rfl

lemma Server.Appendable.length_tail_le (htail : srv.tailData env metadata.id metadata.size = .ok tail) :
    tail.length ≤ metadata.size := by
  obtain ⟨htb, hlast⟩ := h.tailData htail
  by_cases hpartial : metadata.size % chunkSize > 0
  · obtain ⟨loc, hloc, hcontent⟩ := hlast hpartial
    obtain ⟨o, b, -, hb, hsize, -⟩ := h.extent loc (mem_of_getLast? hloc)
    rw [hcontent, some.injEq] at hb
    subst hb
    omega
  rw [htb, tailBytes, if_neg hpartial]
  exact Nat.zero_le _

structure Server.OneChunk (srv : Server Id) (metadata : FileMetadata Id) (tail : Bytes) : Prop where
  size_lt : metadata.size < chunkSize
  free : ∀ idx, 0 < idx → srv.node.occupant (metadata.id, idx) = none
  read : ∀ i, i < metadata.size → srv.byteAt metadata.id i = tail.getD i 0

lemma Server.Appendable.oneChunk (htail : srv.tailData env metadata.id metadata.size = .ok tail)
    (hlen : tail.length = metadata.size) : srv.OneChunk metadata tail := by
  obtain ⟨htb, hlast⟩ := h.tailData htail
  have hfree (hlt : metadata.size < chunkSize) (idx : Nat) (hidx : 0 < idx) : srv.node.occupant (metadata.id, idx) = none := by
    cases hocc : srv.node.occupant (metadata.id, idx) with
    | none => rfl
    | some l =>
      obtain ⟨o, b, -, hdiv, -, hsize, -⟩ := h.occupant hocc
      rw [Nat.div_eq_of_lt (show o < chunkSize by omega)] at hdiv
      omega
  by_cases hpartial : metadata.size % chunkSize > 0
  · -- The last chunk is as long as the file, so it starts it.
    obtain ⟨loc, hloc, hcontent⟩ := hlast hpartial
    have hmem := mem_of_getLast? hloc
    obtain ⟨o, b, ho, hb, hsize, hslot⟩ := h.extent loc hmem
    rw [hcontent, some.injEq] at hb
    subst hb
    obtain rfl : o = 0 := by omega
    rw [Nat.zero_div, Nat.zero_add, Nat.zero_add, Nat.one_mul] at hslot
    have hlt : metadata.size < chunkSize := by
      refine lt_of_le_of_ne (hlen ▸ hslot) (fun heq => ?_)
      rw [heq, Nat.mod_self] at hpartial
      exact lt_irrefl 0 hpartial
    refine ⟨hlt, hfree hlt, fun i hi => ?_⟩
    have hcidx : cidxOf loc = 0 := by
      have hmap : slotOf loc = some (0 / chunkSize) := by rw [slotOf, ho]; rfl
      rw [cidxOf_of_fileOffset hmap, Nat.zero_div]
    have hocc : srv.node.occupant (metadata.id, i / chunkSize) = some loc := by
      rw [Nat.div_eq_of_lt (lt_trans hi hlt), occupant_eq_lookup_locsOf, ← hcidx]
      exact lookup_of_mem h.sorted hmem
    unfold byteAt byteOf
    rw [hocc]
    dsimp only
    rw [ho, hcontent, getD_some, getD_some, if_pos (Nat.zero_le i), Nat.sub_zero]
  · have hnil : tail = [] := by rw [htb, tailBytes, if_neg hpartial]
    have hzero : metadata.size = 0 := by rw [← hlen, hnil]; rfl
    have hlt : metadata.size < chunkSize := by rw [hzero]; exact chunkSize_pos
    exact ⟨hlt, hfree hlt, fun i hi => absurd hi (by omega)⟩

end

end Before

/-! ## The append -/

variable [DecidableEq Id]

section After

variable {H : ChunkHash Id} {srv srv' : Server Id} {env : AppendEnv Id} {metadata m : FileMetadata Id} {data : Bytes}
    {remaining : Nat}
  {locations : List (ChunkLocation Id × Bytes)}

def appendJob (H : ChunkHash Id) (metadata : FileMetadata Id) (tail data : Bytes) : AppendJob Id :=
  ⟨metadata, metadata.size, (tail ++ data).length, tail.length, chunkData H (tail ++ data) metadata.id,
    metadata.size - tail.length, []⟩

omit [DecidableEq Id] in
lemma isEmpty_chunkData : (chunkData H data file).isEmpty = true ↔ data = [] := by
  constructor
  · intro h
    by_contra hne
    unfold chunkData at h
    rw [dataChunks_of_ne_nil chunkSize_pos hne, chunkDataAt] at h
    simp at h
  · intro h
    unfold chunkData
    rw [h, dataChunks_nil chunkSize_pos, chunkDataAt]
    simp

def AppendResponse.isError : AppendResponse Id → Bool
  | .error .. => true
  | .appendFileResult .. => false

variable {job job1 : AppendJob Id} {r : AppendResponse Id} {W : Bytes} {srv1 : Server Id}

omit [DecidableEq Id] in
lemma tailData_error (h : srv.tailData env file size = .error r) : r.isError = true := by
  unfold tailData at h
  split at h
  · cases hlast : srv.lastLocation env file with
    | ok loc =>
      rw [hlast] at h
      change srv.readTail env loc.chunkId = .error r at h
      unfold readTail at h
      split at h
      · cases h
      cases h
      rfl
    | error r' =>
      rw [hlast] at h
      cases h
      unfold lastLocation at hlast
      split at hlast
      · cases hlast
      split at hlast
      · split at hlast <;> cases hlast
        rfl
      · cases hlast
        rfl
      cases hlast
      rfl
  · cases h

lemma appendChunks_error {chunks : List (Id × Bytes)} (h : appendChunks H env chunks srv job = (srv', .error r)) :
    r.isError = true := by
  induction chunks generalizing srv job with
  | nil => cases h
  | cons chunk rest ih =>
    unfold appendChunks at h
    split at h
    · exact ih h
    rename_i srv1 r1 hone
    cases h
    unfold appendChunk at hone
    dsimp only at hone
    split at hone
    · cases hone
      rfl
    split at hone
    · cases hone
      rfl
    · cases hone

omit [DecidableEq Id] in
lemma appendPrepare_error (h : srv.appendPrepare H env metadata data metadata.size = .error r) :
    r.isError = true ∨ ∃ rem, r = .appendFileResult metadata rem ∧ srv.tailData env metadata.id metadata.size = .ok [] ∧
      data = [] := by
  unfold appendPrepare at h
  cases htail : srv.tailData env metadata.id metadata.size with
  | error r' =>
    rw [htail] at h
    cases h
    exact .inl (tailData_error htail)
  | ok tail =>
    rw [htail] at h
    dsimp only at h
    split at h
    · rename_i hnil
      rw [isEmpty_chunkData, append_eq_nil_iff] at hnil
      obtain ⟨rfl, rfl⟩ := hnil
      exact .inr ⟨_, (Except.error.inj h).symm, rfl, rfl⟩
    · cases h

omit [DecidableEq Id] in
lemma appendPrepare_ok (h : srv.appendPrepare H env metadata data metadata.size = .ok job) :
    ∃ tail, srv.tailData env metadata.id metadata.size = .ok tail ∧ tail ++ data ≠ [] ∧ job = appendJob H metadata tail data := by
  unfold appendPrepare at h
  cases htail : srv.tailData env metadata.id metadata.size with
  | error r' =>
    rw [htail] at h
    cases h
  | ok tail =>
    rw [htail] at h
    dsimp only at h
    split at h
    · cases h
    rename_i hne
    exact ⟨tail, rfl, fun hnil => hne (isEmpty_chunkData.mpr hnil), (Except.ok.inj h).symm⟩

lemma handleAppendFile_result (hrecord : srv.tables.fileTable metadata.id = some metadata)
    (h : srv.handleAppendFile H env metadata.id data metadata.size = (srv', .appendFileResult m remaining, locations)) :
    ∃ tail, srv.tailData env metadata.id metadata.size = .ok tail ∧
      ((tail ++ data = [] ∧ srv' = srv ∧ m = metadata ∧ locations = []) ∨
        (tail ++ data ≠ [] ∧ ∃ srv1 job1, appendChunks H env (appendJob H metadata tail data).chunks srv
            (appendJob H metadata tail data) = (srv1, .ok job1) ∧ locations = job1.newLocations ∧
          m = { job1.metadata with size := job1.expectedOffset + (job1.writeLength - job1.actualPartialBytes) } ∧
          srv' = { srv1 with tables := (srv1.tables.putFile srv1.node.tombstoned m).1 })) := by
  unfold handleAppendFile at h
  have hcheck : srv.appendCheck env metadata.id metadata.size = .ok metadata := by
    unfold appendCheck at h ⊢
    rw [hrecord] at h ⊢
    cases henv : env.metadataError with
    | some e => simp [henv] at h
    | none => simp
  rw [hcheck] at h
  cases hprep : srv.appendPrepare H env metadata data metadata.size with
  | error r =>
    simp only [hprep, Prod.mk.injEq] at h
    rcases appendPrepare_error hprep with herr | ⟨rem, rfl, htail, rfl⟩
    · rw [h.2.1] at herr
      cases herr
    obtain ⟨rfl, hm, rfl⟩ := h
    cases hm
    exact ⟨[], htail, .inl ⟨rfl, rfl, rfl, rfl⟩⟩
  | ok job =>
    obtain ⟨tail, htail, hne, hjob⟩ := appendPrepare_ok hprep
    refine ⟨tail, htail, .inr ⟨hne, ?_⟩⟩
    rw [← hjob]
    simp only [hprep] at h
    cases hloop : appendChunks H env job.chunks srv job with
    | mk srv1 result =>
      rw [hloop] at h
      cases result with
      | error r =>
        simp only [Prod.mk.injEq] at h
        have herr := appendChunks_error hloop
        rw [h.2.1] at herr
        cases herr
      | ok job1 =>
        refine ⟨srv1, job1, rfl, ?_⟩
        unfold appendFinish at h
        cases hput : env.putError with
        | some e => simp [hput] at h
        | none =>
          simp only [hput, Prod.mk.injEq, AppendResponse.appendFileResult.injEq] at h
          obtain ⟨rfl, ⟨rfl, -⟩, rfl⟩ := h
          exact ⟨rfl, rfl, rfl⟩

omit [DecidableEq Id] in
lemma mem_locationsFrom (base : Nat) {o : Nat} {pieces : List Bytes} {l : ChunkLocation Id × Bytes}
    (h : l ∈ env.locationsFrom file (base + o) (chunkDataAt H file o pieces)) :
    ∃ o', l.1.fileOffset = some (base + o') ∧ l.1.chunkId = H.computeChunkHashAt l.2 o' file := by
  induction pieces generalizing o with
  | nil => simp [chunkDataAt, locationsFrom] at h
  | cons b rest ih =>
    unfold chunkDataAt locationsFrom at h
    rcases mem_cons.mp h with rfl | h
    · exact ⟨o, rfl, rfl⟩
    rw [Nat.add_assoc] at h
    exact ih h

variable (env) in
omit [DecidableEq Id] in
lemma locationsFrom_hashed_iff (hH : H.CollisionFree) (file : FileId) {base : Nat} (hne : data ≠ []) :
    (∀ l ∈ env.locationsFrom file base (chunkData H data file), ∃ o, l.1.fileOffset = some o ∧
      l.1.chunkId = H.computeChunkHashAt l.2 o file) ↔ base = 0 := by
  unfold chunkData
  constructor
  · intro h
    rw [dataChunks_of_ne_nil chunkSize_pos hne, chunkDataAt, locationsFrom] at h
    obtain ⟨o, ho, hid⟩ := h _ mem_cons_self
    obtain ⟨-, hzero, -⟩ := hH.content hid
    rw [← hzero] at ho
    exact some.inj ho
  · rintro rfl l hl
    obtain ⟨o, ho, hid⟩ := mem_locationsFrom 0 (o := 0) hl
    exact ⟨o, by rw [ho, Nat.zero_add], hid⟩

variable (env) in
omit [DecidableEq Id] in
lemma byteOf_pieceLocation {content : Id → Option Bytes} {k ho : Nat}
    (hread : content (H.computeChunkHashAt ((data.drop (k * chunkSize)).take chunkSize) ho file) =
    some ((data.drop (k * chunkSize)).take chunkSize))
    (hi : i / chunkSize = k) :
    byteOf content (env.pieceLocation H file ((data.drop (k * chunkSize)).take chunkSize) ho (k * chunkSize)) i =
      data.getD i 0 := by
  have hle : k * chunkSize ≤ i := by
    rw [← hi]
    exact Nat.div_mul_le_self i chunkSize
  have hlt : i < k * chunkSize + chunkSize := by
    rw [← hi]
    exact Nat.lt_div_mul_add chunkSize_pos
  unfold byteOf pieceLocation locationOf
  dsimp only
  rw [hread, getD_some, getD_some, if_pos hle, getD_eq_getElem?_getD, getD_eq_getElem?_getD,
    getElem?_take_of_lt (by omega), getElem?_drop, Nat.add_sub_cancel' hle]

omit [DecidableEq Id] in
lemma pieces_functional (hH : H.CollisionFree) : ∀ x ∈ chunkData H W file, ∀ y ∈ chunkData H W file, x.1 = y.1 → x.2 = y.2 := by
  intro x hx y hy hid
  obtain ⟨ox, hox⟩ := mem_chunkDataAt hx
  obtain ⟨oy, hoy⟩ := mem_chunkDataAt hy
  rw [hox, hoy] at hid
  exact (hH.content hid).1

/-- The chunk that is there is not superseded by the first piece. -/
def Server.firstPieceLoses (H : ChunkHash Id) (srv : Server Id) (env : AppendEnv Id) (file : FileId) (piece : Bytes) : Bool :=
  match srv.node.occupant (file, 0) with
  | some occ =>
    !shouldUpdate srv.node.foldResultChunkIds (srv.node.backfilled env.seqReadable (file, 0) (H.computeChunkHashAt piece 0 file))
      (writeQuorum env.replicationFactor) occ (env.pieceLocation H file piece 0 0)
  | none => false

/-- The new bytes for the first slot, when the first piece loses it. -/
def Server.lostBytes (H : ChunkHash Id) (srv : Server Id) (env : AppendEnv Id) (metadata : FileMetadata Id) (tail data : Bytes) :
    Bytes :=
  if srv.firstPieceLoses H env metadata.id ((tail ++ data).take chunkSize) then data.take (chunkSize - metadata.size) else []

lemma content_after (hH : H.CollisionFree) (hgrounded : ∀ b o b', srv.content (H.computeChunkHashAt b o file) = some b' → b' = b)
    (hcontent : srv1.content = writtenContent srv.content (chunkData H W file)) {id : Id} (hb : srv.content id = some b) :
    srv1.content id = some b := by
  by_cases hin : ∃ chunk ∈ chunkData H W file, chunk.1 = id
  · obtain ⟨chunk, hmem, rfl⟩ := hin
    rw [hcontent, writtenContent_of_mem (pieces_functional hH) hmem]
    obtain ⟨o, ho⟩ := mem_chunkDataAt hmem
    rw [ho] at hb
    rw [hgrounded _ _ _ hb]
  · rw [hcontent, writtenContent_of_notMem (fun chunk hmem hid => hin ⟨chunk, hmem, hid⟩), hb]

lemma byteAt_after (hH : H.CollisionFree) (h : srv.Appendable H env metadata) (hrf : 0 < env.replicationFactor)
    (hfree : ∀ idx, 0 < idx → srv.node.occupant (metadata.id, idx) = none) (hne : W ≠ []) (hmeta : job.metadata = metadata)
    (hoff : job.currentOffset = 0) (hloop : appendChunks H env (chunkData H W metadata.id) srv job = (srv1, .ok job1))
    (hi : i < W.length) : srv1.byteAt metadata.id i
      = if i < chunkSize ∧ srv.firstPieceLoses H env metadata.id (W.take chunkSize) = true then srv.byteAt metadata.id i
        else W.getD i 0 := by
  subst hmeta
  have hcontent := (appendChunks_ok hrf h.live h.sorted hloop).content
  have hpiece {k : Nat} (hk : k * chunkSize < W.length) :
      srv1.content (H.computeChunkHashAt ((W.drop (k * chunkSize)).take chunkSize) (k * chunkSize) job.metadata.id)
        = some ((W.drop (k * chunkSize)).take chunkSize) := by
    have hmem := piece_mem_chunkDataAt H job.metadata.id (o := 0) hk
    rw [Nat.zero_add] at hmem
    rw [hcontent]
    exact writtenContent_of_mem (pieces_functional hH) hmem
  unfold chunkData at hloop
  obtain ⟨-, hfirst, hrest⟩ := appendChunks_slots hrf hne (j := 0) h.live h.sorted (by rw [hoff, Nat.zero_mul]) hfree hloop
  rw [Nat.zero_mul] at hfirst
  by_cases hslot : i < chunkSize
  · -- The first slot: what is there now is the piece, or what was there before.
    have hdiv : i / chunkSize = 0 := Nat.div_eq_of_lt hslot
    have hzero := hpiece (k := 0) (by rw [Nat.zero_mul]; exact length_pos_iff.mpr hne)
    have hnew : byteOf srv1.content (env.pieceLocation H job.metadata.id (W.take chunkSize) 0 0) i = W.getD i 0 := by
      have := byteOf_pieceLocation env hzero hdiv
      rwa [Nat.zero_mul, drop_zero] at this
    unfold byteAt firstPieceLoses
    rw [hdiv, hfirst]
    cases hocc : srv.node.occupant (job.metadata.id, 0) with
    | none => simpa [merged] using hnew
    | some occ =>
      simp only [merged, arbitrateBy]
      by_cases hwin : shouldUpdate srv.node.foldResultChunkIds (srv.node.backfilled env.seqReadable (job.metadata.id, 0)
          (H.computeChunkHashAt (W.take chunkSize) 0 job.metadata.id)) (writeQuorum env.replicationFactor) occ
          (env.pieceLocation H job.metadata.id (W.take chunkSize) 0 0) = true
      · rw [if_pos hwin, hwin]
        simpa using hnew
      rw [if_neg hwin, if_pos ⟨hslot, by simpa using hwin⟩]
      obtain ⟨o, b, -, -, hb, -, -⟩ := h.occupant hocc
      unfold byteOf
      rw [hb, content_after hH h.grounded hcontent hb]
  · -- Another slot: it has its piece.
    have hk : 1 ≤ i / chunkSize := (Nat.one_le_div_iff chunkSize_pos).mpr (by omega)
    have hlt : i / chunkSize * chunkSize < W.length := lt_of_le_of_lt (Nat.div_mul_le_self i chunkSize) hi
    have hocc := hrest _ hk hlt
    rw [Nat.zero_add, Nat.zero_add] at hocc
    rw [if_neg (fun hc => hslot hc.1)]
    unfold byteAt
    rw [hocc]
    exact byteOf_pieceLocation env (hpiece hlt) rfl

omit [DecidableEq Id] in
lemma readFile_eq_iff {L : Bytes} : srv.readFile file L.length = L ↔ ∀ i, i < L.length → srv.byteAt file i = L.getD i 0 := by
  unfold readFile
  constructor
  · intro h i hi
    have hget : ((List.range L.length).map (srv.byteAt file)).getD i 0 = L.getD i 0 := by rw [h]
    simpa [getD_eq_getElem?_getD, hi] using hget
  · intro h
    refine ext_getElem (by simp) (fun i hi hL => ?_)
    rw [getElem_map, getElem_range, h i hL, getD_eq_getElem _ _ hL]

lemma readFile_after_iff (hH : H.CollisionFree) (h : srv.Appendable H env metadata) (hrf : 0 < env.replicationFactor)
    (hone : srv.OneChunk metadata tail) (hlen : tail.length = metadata.size) (hne : tail ++ data ≠ [])
    (hmeta : job.metadata = metadata) (hoff : job.currentOffset = 0)
    (hloop : appendChunks H env (chunkData H (tail ++ data) metadata.id) srv job = (srv1, .ok job1)) :
    srv1.readFile metadata.id (metadata.size + data.length) = srv.readFile metadata.id metadata.size ++ data ↔
      ∀ b ∈ srv.lostBytes H env metadata tail data, b = 0 := by
  have hold : srv.readFile metadata.id metadata.size = tail := by
    rw [← hlen, readFile_eq_iff]
    exact fun i hi => hone.read i (hlen ▸ hi)
  have hlength : metadata.size + data.length = (tail ++ data).length := by rw [length_append, hlen]
  have hafter {i : Nat} (hi : i < (tail ++ data).length) := byteAt_after hH h hrf hone.free hne hmeta hoff hloop hi
  rw [hold, hlength, readFile_eq_iff]
  unfold lostBytes
  cases hlose : srv.firstPieceLoses H env metadata.id ((tail ++ data).take chunkSize) with
  | false =>
    simp only [Bool.false_eq_true, if_false, not_mem_nil, false_implies, implies_true, iff_true]
    intro i hi
    rw [hafter hi, hlose]
    simp
  | true =>
    rw [if_pos rfl]
    have hbehind {i : Nat} (hi : metadata.size ≤ i) : (tail ++ data).getD i 0 = data.getD (i - metadata.size) 0 := by
      rw [getD_append_right _ _ _ _ (hlen ▸ hi), hlen]
    constructor
    · intro hread b hb
      obtain ⟨j, hj, rfl⟩ := getElem_of_mem hb
      rw [length_take] at hj
      have hi : metadata.size + j < (tail ++ data).length := by rw [← hlength]; omega
      have hj' := hread _ hi
      rw [hafter hi, hlose, if_pos ⟨by have := hone.size_lt; omega, rfl⟩, h.byteAt_of_size_le (Nat.le_add_right _ _),
        hbehind (Nat.le_add_right _ _), Nat.add_sub_cancel_left] at hj'
      rw [getElem_take, ← getD_eq_getElem data 0 (by omega)]
      exact hj'.symm
    · intro hzero i hi
      rw [hafter hi, hlose]
      split
      · rename_i hc
        by_cases hin : i < metadata.size
        · rw [hone.read i hin, getD_append _ _ _ _ (hlen ▸ hin)]
        have hle : metadata.size ≤ i := by omega
        rw [h.byteAt_of_size_le hle, hbehind hle]
        have hlt : i - metadata.size < data.length := by omega
        rw [getD_eq_getElem _ _ hlt]
        refine (hzero _ ?_).symm
        rw [mem_take_iff_getElem]
        exact ⟨i - metadata.size, by omega, rfl⟩
      · rfl

end After

/-! ## The whole -/

/-- The file reads as before with the data behind it, both sizes are the sum, and each registered location has the identity of its
bytes. -/
structure AppendedExactly (H : ChunkHash Id) (srv srv' : Server Id) (metadata m : FileMetadata Id) (data : Bytes)
    (locations : List (ChunkLocation Id × Bytes)) : Prop where
  content : srv'.readFile metadata.id (metadata.size + data.length) = srv.readFile metadata.id metadata.size ++ data
  recorded : (srv'.tables.fileTable metadata.id).map (·.size) = some (metadata.size + data.length)
  answered : m.size = metadata.size + data.length
  hashed : ∀ l ∈ locations, ∃ o, l.1.fileOffset = some o ∧ l.1.chunkId = H.computeChunkHashAt l.2 o metadata.id

/-- An append is exact when there was nothing to write, or the file is at most its tail chunk and what loses the first
slot to it are zeros; and only then. -/
theorem append_exact_iff (H : ChunkHash Id) (hH : H.CollisionFree) (srv : Server Id) (env : AppendEnv Id)
    (metadata : FileMetadata Id)
    (h : srv.Appendable H env metadata) (hrf : 0 < env.replicationFactor) (data : Bytes) (srv' : Server Id) (m : FileMetadata Id)
    (remaining : Nat) (locations : List (ChunkLocation Id × Bytes))
    (hres : srv.handleAppendFile H env metadata.id data metadata.size = (srv', .appendFileResult m remaining, locations)) :
    AppendedExactly H srv srv' metadata m data locations ↔
      (srv.tailBytes metadata ++ data = [] ∨ ((srv.tailBytes metadata).length = metadata.size ∧
        ∀ b ∈ srv.lostBytes H env metadata (srv.tailBytes metadata) data, b = 0)) := by
  obtain ⟨tail, htail, hcase⟩ := handleAppendFile_result h.record hres
  rw [← (h.tailData htail).1]
  rcases hcase with ⟨hnil, rfl, rfl, rfl⟩ | ⟨hne, srv1, job1, hloop, rfl, hm, hsrv⟩
  · refine ⟨fun _ => .inl hnil, fun _ => ?_⟩
    obtain rfl := (append_eq_nil_iff.mp hnil).2
    exact ⟨by simp, by simp [h.record], rfl, by simp⟩
  obtain ⟨job, hjob⟩ : ∃ job, job = appendJob H metadata tail data := ⟨_, rfl⟩
  have hmeta : job.metadata = metadata := by rw [hjob]; rfl
  have hoff : job.currentOffset = metadata.size - tail.length := by rw [hjob]; rfl
  have hchunks : job.chunks = chunkData H (tail ++ data) metadata.id := by rw [hjob]; rfl
  have hnew : job.newLocations = [] := by rw [hjob]; rfl
  have hsize : job.expectedOffset + (job.writeLength - job.actualPartialBytes) = metadata.size + data.length := by
    rw [hjob]
    show metadata.size + ((tail ++ data).length - tail.length) = metadata.size + data.length
    rw [length_append, Nat.add_sub_cancel_left]
  rw [← hjob, hchunks] at hloop
  have hok := appendChunks_ok hrf (by rw [hmeta]; exact h.live) (by rw [hmeta]; exact h.sorted) hloop
  have hlocations : job1.newLocations
      = env.locationsFrom metadata.id (metadata.size - tail.length) (chunkData H (tail ++ data) metadata.id) := by
    rw [hok.newLocations, hnew, hmeta, hoff, nil_append]
  have hmrecord : m = { metadata with size := metadata.size + data.length } := by
    rw [hm, hok.metadata, hok.expectedOffset, hok.writeLength, hok.actualPartialBytes, hsize, hmeta]
  have hanswered : m.size = metadata.size + data.length := by rw [hmrecord]
  have hrecorded : (srv'.tables.fileTable metadata.id).map (·.size) = some (metadata.size + data.length) := by
    have hlive : srv1.node.tombstoned m.id = false := by
      have hdeleted := h.live
      unfold Node.fileRecentlyDeleted at hdeleted
      rw [hok.tombstoned, hmrecord]
      exact (Bool.or_eq_false_iff.mp hdeleted).2
    have hfresh : ∀ e, srv1.tables.fileTable m.id = some e → isStale e m = false := by
      intro e he
      rw [hok.tables, hmrecord] at he
      obtain rfl := some.inj (h.record.symm.trans he)
      rw [hmrecord]
      simp [isStale]
    have hid : metadata.id = m.id := by rw [hmrecord]
    rw [hsrv, hid]
    dsimp only
    rw [fileTable_putFile_self hlive hfresh, map_some, hanswered]
  have hread : srv'.readFile metadata.id = srv1.readFile metadata.id := by rw [hsrv]; rfl
  have hbase : metadata.size - tail.length = 0 ↔ tail.length = metadata.size := by
    have := h.length_tail_le htail
    omega
  have hhashed := (locationsFrom_hashed_iff env hH metadata.id hne).trans hbase
  rw [← hlocations] at hhashed
  constructor
  · intro happ
    have hlen := hhashed.mp happ.hashed
    refine .inr ⟨hlen, ?_⟩
    rw [← readFile_after_iff hH h hrf (h.oneChunk htail hlen) hlen hne hmeta (hoff.trans (hbase.mpr hlen)) hloop, ← hread]
    exact happ.content
  · rintro (hnil | ⟨hlen, hzero⟩)
    · exact absurd hnil hne
    refine ⟨?_, hrecorded, hanswered, hhashed.mpr hlen⟩
    rw [hread]
    exact (readFile_after_iff hH h hrf (h.oneChunk htail hlen) hlen hne hmeta (hoff.trans (hbase.mpr hlen)) hloop).mpr hzero

def heldRecord (size : Nat) : FileMetadata FreeId := ⟨7, ['/', 'f'], size, .regularFile, [], 1⟩

def heldServer (b : Bytes) (seq : Option Nat) (size : Nat) : Server FreeId where
  node := .holding freeHash (7, 0) b 1 seq
  tables := ⟨fun f => if f = 7 then some (heldRecord size) else none, fun _ => none⟩
  content := fun id => if id = .content b 0 7 then some b else none

def calmAppend : AppendEnv FreeId where
  replicationFactor := 1
  metadataError := none
  scan := .ok []
  tailReadable := true
  tailError := ""
  targetNodes _ := [1]
  stores _ _ := true
  rowWritable _ := true
  seqReadable _ := true
  putError := none

lemma heldServer_appendable (seq : Option Nat) (hsize : b.length ≤ size) (hslot : b.length ≤ chunkSize) :
    (heldServer b seq size).Appendable freeHash calmAppend (heldRecord size) := by
  have hlocs : (heldServer b seq size).node.locsOf 7 = [holdingLocation freeHash (7, 0) b 1 seq] := rfl
  have hoff : (holdingLocation freeHash (7, 0) b 1 seq).fileOffset = some 0 := by
    show some (0 * chunkSize) = some 0
    rw [Nat.zero_mul]
  have hid : (holdingLocation freeHash (7, 0) b 1 seq).chunkId = .content b 0 7 := by
    show FreeId.content b (0 * chunkSize) 7 = .content b 0 7
    rw [Nat.zero_mul]
  refine ⟨rfl, rfl, ?_, ?_, ?_, ?_⟩
  · show Sorted cidxOf ((heldServer b seq size).node.locsOf 7)
    rw [hlocs]
    exact pairwise_singleton _ _
  · intro l hl
    obtain rfl := List.mem_singleton.mp (hlocs ▸ hl)
    refine ⟨0, b, hoff, ?_, ?_, ?_⟩
    · rw [hid]
      exact if_pos rfl
    · rw [Nat.zero_add]
      exact hsize
    · rw [Nat.zero_div, Nat.zero_add, Nat.zero_add, Nat.one_mul]
      exact hslot
  · intro c o c' hc
    change (if FreeId.content c o 7 = .content b 0 7 then some b else none) = some c' at hc
    split at hc
    · rename_i heq
      cases heq
      exact (some.inj hc).symm
    · cases hc
  · intro rows hrows hnil
    change [holdingLocation freeHash (7, 0) b 1 seq] = [] at hnil
    cases hnil

theorem short_file_appended :
    AppendedExactly freeHash (heldServer [1, 2] none 2) ((heldServer [1, 2] none 2).handleAppendFile freeHash calmAppend 7
      [3] 2).1
      (heldRecord 2) (heldRecord 3) [3]
      ((heldServer [1, 2] none 2).handleAppendFile freeHash calmAppend 7 [3] 2).2.2 := by
  refine (append_exact_iff freeHash freeHash_collisionFree (heldServer [1, 2] none 2) calmAppend (heldRecord 2)
    (heldServer_appendable none (by decide) (by decide)) (by decide) [3] _ (heldRecord 3) (chunkSize - 3) _ ?_).mpr ?_
  · refine Prod.ext rfl (Prod.ext ?_ rfl)
    decide +kernel
  · refine .inr ⟨by decide +kernel, ?_⟩
    decide +kernel

/-- A tail chunk with a write sequence is not replaced, and what comes behind a full slot is registered under the hash
of offset zero.
-/
theorem append_loses_and_mislabels :
    let srv := heldServer [1, 2] (some 5) 2
    let r := srv.handleAppendFile freeHash calmAppend 7 [3] 2
    srv.Appendable freeHash calmAppend (heldRecord 2) ∧
      r.2.1 = .appendFileResult (heldRecord 3) (chunkSize - 3) ∧ r.1.readFile 7 3 = [1, 2, 0] ∧
      (heldServer [1] none chunkSize).Appendable freeHash calmAppend (heldRecord chunkSize) ∧
      ((heldServer [1] none chunkSize).handleAppendFile freeHash calmAppend 7 [9] chunkSize).2
        = (.appendFileResult (heldRecord (chunkSize + 1)) (chunkSize - 1),
            [(⟨.content [9] 0 7, [1], 1, some chunkSize, none, none, some 7⟩, [9])]) := by
  refine ⟨heldServer_appendable _ (by decide) (by decide), by decide +kernel, by decide +kernel,
    heldServer_appendable _ (by decide) (by decide), by decide +kernel⟩

end Dfs
