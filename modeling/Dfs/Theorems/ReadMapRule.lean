import Dfs.Theorems.WindowRefresh

/-! # One rule for both ways into the read map -/

namespace Dfs

open Transition List Option

variable {Id : Type}

def seqMax : (a b : Option Nat) → Option Nat
  | some a, some b => some (max a b)
  | a, none => a
  | none, b => b

variable (provenAbsent : List Id)

/-- Write sequences or absence decide: not so if only the existing one has a sequence and the chunk is the same or
neither absent. -/
def Comparable (existing incoming : ChunkLocation Id) : Prop :=
  incoming.clientWriteSeq = none → existing.clientWriteSeq.isSome = true →
    incoming.chunkId ≠ existing.chunkId ∧ (incoming.chunkId ∈ provenAbsent ∨ existing.chunkId ∈ provenAbsent)

variable (a b : Option (ChunkLocation Id))

def NotNewlyAbsent : Prop := ∀ new ∈ b, new.chunkId ∈ provenAbsent → ∃ old ∈ a, old.chunkId = new.chunkId

/-- A slot had a chunk proven absent, or its write sequence does not go back. -/
def Raises : Prop :=
  (∃ old ∈ a, old.chunkId ∈ provenAbsent) ∨ ∀ g ∈ a.bind (·.clientWriteSeq), ∃ q ∈ b.bind (·.clientWriteSeq), g ≤ q

section Slot

/-- It brings in no absent chunk, and under its guard takes no write sequence back. -/
structure Merged (provenAbsent : List Id) (guarded : Prop) (a b : Option (ChunkLocation Id)) : Prop where
  absent : NotNewlyAbsent provenAbsent a b
  raises : guarded → Raises provenAbsent a b

lemma Merged.refl (provenAbsent : List Id) (guarded : Prop) (a : Option (ChunkLocation Id)) : Merged provenAbsent guarded a a :=
  ⟨fun new hnew _ => ⟨new, hnew, rfl⟩, fun _ => .inr fun g hg => ⟨g, hg, le_refl g⟩⟩

variable {provenAbsent : List Id} {guarded guarded' : Prop} {a b c : Option (ChunkLocation Id)}

lemma Merged.mono (h : Merged provenAbsent guarded a b) (hguard : guarded' → guarded) : Merged provenAbsent guarded' a b :=
  ⟨h.absent, h.raises ∘ hguard⟩

lemma Merged.trans (hab : Merged provenAbsent guarded a b) (hbc : Merged provenAbsent guarded' b c) :
    Merged provenAbsent (guarded ∧ guarded') a c := by
  refine ⟨fun new hnew habsent => ?_, fun hguard => ?_⟩
  · obtain ⟨mid, hmid, hsame⟩ := hbc.absent new hnew habsent
    obtain ⟨old, hold, hsame'⟩ := hab.absent mid hmid (hsame ▸ habsent)
    exact ⟨old, hold, hsame'.trans hsame⟩
  · rcases hab.raises hguard.1 with hold | hle
    · exact .inl hold
    rcases hbc.raises hguard.2 with ⟨mid, hmid, habsent⟩ | hle'
    · obtain ⟨old, hold, hsame⟩ := hab.absent mid hmid habsent
      exact .inl ⟨old, hold, hsame ▸ habsent⟩
    right
    intro g hg
    obtain ⟨q, hq, hgq⟩ := hle g hg
    obtain ⟨q', hq', hqq'⟩ := hle' q hq
    exact ⟨q', hq', hgq.trans hqq'⟩

end Slot

section Engine

variable [DecidableEq Id]

def ReadEngine.singleAdmits (s : ReadEngine Id) (existing incoming : ChunkLocation Id) : Bool :=
  s.mergeAdmits existing incoming (singleSeqOk incoming.clientWriteSeq existing.clientWriteSeq)

def ReadEngine.refreshAdmits (s : ReadEngine Id) (existing incoming : ChunkLocation Id) : Bool :=
  s.mergeAdmits existing incoming (windowSeqOk false incoming.clientWriteSeq existing.clientWriteSeq)

def realEntry (nilId : Id) (entry : Option (ChunkLocation Id)) : Option (ChunkLocation Id) :=
  entry.filter fun l => decide (l.chunkId ≠ nilId)

def heldIn (nilId : Id) (map : Locations Id) (idx : Nat) : Option (ChunkLocation Id) := realEntry nilId map[idx]?

/-- With the greatest write sequence of each slot since it last replaced an absent chunk. -/
structure TrackedEngine (Id : Type) where
  engine : ReadEngine Id
  greatest : Nat → Option Nat

def TrackedEngine.held (nilId : Id) (t : TrackedEngine Id) (idx : Nat) : Option (ChunkLocation Id) :=
  heldIn nilId t.engine.map idx

def TrackedEngine.step (H : ChunkHash Id) (nilId : Id) (t : TrackedEngine Id) (op : ReadEngineOp Id) : TrackedEngine Id where
  engine := t.engine.step H nilId op
  greatest idx :=
    let before := t.held nilId idx
    let after := heldIn nilId (t.engine.step H nilId op).map idx
    if before ≠ after ∧ before.any (fun old => decide (old.chunkId ∈ t.engine.provenAbsent)) then after.bind (·.clientWriteSeq)
    else seqMax (t.greatest idx) (after.bind (·.clientWriteSeq))

def TrackedEngine.new : TrackedEngine Id := ⟨ReadEngine.new, fun _ => none⟩

/-- No location has a lower write sequence than the slot has held, unless its chunk was absent. -/
def TrackedEngine.KeepsGreatest (H : ChunkHash Id) (nilId : Id) (t : TrackedEngine Id) (op : ReadEngineOp Id) : Prop :=
  ∀ idx, ∀ loc ∈ (t.step H nilId op).held nilId idx, t.held nilId idx ≠ some loc →
    ∀ g ∈ t.greatest idx, ∀ q ∈ loc.clientWriteSeq, q < g → ∃ old ∈ t.held nilId idx, old.chunkId ∈ t.engine.provenAbsent

/-- A call puts no chunk proven absent into a slot that does not hold it. -/
def TrackedEngine.InstallsNoAbsent (H : ChunkHash Id) (nilId : Id) (t : TrackedEngine Id) (op : ReadEngineOp Id) : Prop :=
  ∀ idx, NotNewlyAbsent t.engine.provenAbsent (t.held nilId idx) ((t.step H nilId op).held nilId idx)

def ReadEngineOp.Merges : ReadEngineOp Id → Prop
  | .updateSingleChunk _ | .markChunkProvenAbsent _ => True
  | .updateChunkMapWindow _ _ fromWritePath => fromWritePath = false
  | .updateChunkMap _ | .expireChunkMapAsync => False

/-- No placeholder's id, and a single update is comparable with its slot's. -/
def TrackedEngine.Guarded (nilId : Id) (t : TrackedEngine Id) : ReadEngineOp Id → Prop
  | .updateSingleChunk loc =>
    loc.chunkId ≠ nilId ∧ Comparable t.engine.provenAbsent (t.engine.map.getD (singlePosition loc) (nilLoc nilId)) loc
  | .updateChunkMapWindow window _ fromWritePath => fromWritePath = false ∧ ∀ w ∈ window, w.chunkId ≠ nilId
  | op => op.Merges

/-! ## The decision -/

variable {loc existing incoming : ChunkLocation Id} {s : ReadEngine Id} {seqOk : Bool} {entry : Option (ChunkLocation Id)}

lemma mergeAdmits_spec (h : s.mergeAdmits existing incoming seqOk = true) :
    (incoming.chunkId ∈ s.provenAbsent → incoming.chunkId = existing.chunkId) ∧
      (seqOk = true ∨ incoming.chunkId ≠ existing.chunkId ∧ existing.chunkId ∈ s.provenAbsent) := by
  unfold ReadEngine.mergeAdmits at h
  split at h
  · rename_i hsame
    exact ⟨fun _ => hsame, .inl h⟩
  rename_i hne
  split at h
  · cases h
  rename_i habsent
  refine ⟨fun h => absurd h habsent, ?_⟩
  split at h
  · rename_i hdead
    exact .inr ⟨hne, hdead⟩
  · exact .inl h

lemma seqOk_eq_iff (incoming existing : Option Nat) :
    singleSeqOk incoming existing = windowSeqOk false incoming existing ↔ ¬(incoming = none ∧ existing.isSome = true) := by
  cases incoming <;> cases existing <;> simp [singleSeqOk, windowSeqOk]

lemma admits_eq_iff (s : ReadEngine Id) (existing incoming : ChunkLocation Id) :
    s.singleAdmits existing incoming = s.refreshAdmits existing incoming ↔ Comparable s.provenAbsent existing incoming := by
  have hseq := seqOk_eq_iff incoming.clientWriteSeq existing.clientWriteSeq
  unfold ReadEngine.singleAdmits ReadEngine.refreshAdmits Comparable
  by_cases hlost : incoming.clientWriteSeq = none ∧ existing.clientWriteSeq.isSome = true
  · have hne := mt hseq.mp (not_not.mpr hlost)
    simp only [hlost.1, hlost.2, forall_true_left]
    rw [hlost.1] at hne
    unfold ReadEngine.mergeAdmits
    by_cases hsame : incoming.chunkId = existing.chunkId
    · simp [hsame, hne]
    by_cases habsent : incoming.chunkId ∈ s.provenAbsent
    · simp [hsame, habsent]
    by_cases hdead : existing.chunkId ∈ s.provenAbsent
    · simp [hsame, habsent, hdead]
    · simp [hsame, habsent, hdead, hne]
  · rw [hseq.mpr hlost]
    exact iff_of_true rfl fun hnone hsome => absurd ⟨hnone, hsome⟩ hlost

/-! ## What a slot holds -/

variable {nilId : Id} {map : Locations Id} {idx : Nat}

lemma mem_realEntry_iff : loc ∈ realEntry nilId entry ↔ entry = some loc ∧ loc.chunkId ≠ nilId := by
  simp [realEntry, filter_eq_some_iff]

lemma realEntry_some (hnil : loc.chunkId ≠ nilId) : realEntry nilId (some loc) = some loc :=
  mem_realEntry_iff.mpr ⟨rfl, hnil⟩

lemma realEntry_placeholder (hnil : loc.chunkId = nilId) : realEntry nilId (some loc) = none := by
  simp [realEntry, Option.filter, hnil]

lemma realEntry_congr {entry' : Option (ChunkLocation Id)}
    (h : ∀ loc : ChunkLocation Id, loc.chunkId ≠ nilId → (entry' = some loc ↔ entry = some loc)) :
    realEntry nilId entry' = realEntry nilId entry := by
  ext loc
  rw [← mem_def, ← mem_def, mem_realEntry_iff, mem_realEntry_iff]
  exact and_congr_left (h loc)

lemma heldIn_rightpad (n : Nat) : heldIn nilId (map.rightpad n (nilLoc nilId)) idx = heldIn nilId map idx :=
  realEntry_congr fun _ hnil => getElem?_rightpad_iff hnil n

lemma heldIn_popNil : heldIn nilId (popNil nilId map) idx = heldIn nilId map idx :=
  realEntry_congr fun _ hnil => getElem?_popNil_iff hnil

lemma realEntry_getD : realEntry nilId (some (map.getD idx (nilLoc nilId))) = heldIn nilId map idx := by
  unfold heldIn
  cases h : map[idx]? with
  | none => simp [List.getD, h, realEntry, nilLoc]
  | some loc => simp [List.getD, h]

omit [DecidableEq Id] in
lemma getD_rightpad (n : Nat) : (map.rightpad n (nilLoc nilId)).getD idx (nilLoc nilId) = map.getD idx (nilLoc nilId) := by
  simp only [List.getD, List.rightpad, getElem?_append, getElem?_replicate]
  split
  · rfl
  rename_i hlen
  rw [getElem?_eq_none (Nat.le_of_not_lt hlen)]
  split <;> rfl

/-! ## What an admitted location does to its slot -/

lemma le_of_windowSeqOk {incoming existing : Option Nat} (h : windowSeqOk false incoming existing = true) :
    ∀ g ∈ existing, ∃ q ∈ incoming, g ≤ q := by
  cases incoming <;> cases existing <;> simp_all [windowSeqOk]

lemma merged_of_admits {guarded : Prop} (h : s.mergeAdmits existing incoming seqOk = true)
    (hrefresh : guarded → incoming.chunkId ≠ nilId ∧ s.refreshAdmits existing incoming = true) :
    Merged s.provenAbsent guarded (realEntry nilId (some existing)) (realEntry nilId (some incoming)) := by
  refine ⟨fun new hnew habsent => ?_, fun hguard => ?_⟩
  · obtain ⟨heq, hnil⟩ := mem_realEntry_iff.mp hnew
    cases heq
    have hsame := (mergeAdmits_spec h).1 habsent
    exact ⟨existing, mem_realEntry_iff.mpr ⟨rfl, hsame ▸ hnil⟩, hsame.symm⟩
  · obtain ⟨hnil, hadmits⟩ := hrefresh hguard
    rw [realEntry_some hnil]
    by_cases hplaceholder : existing.chunkId = nilId
    · rw [realEntry_placeholder hplaceholder]
      exact .inr (by simp)
    rw [realEntry_some hplaceholder]
    rcases (mergeAdmits_spec hadmits).2 with hseq | ⟨-, hdead⟩
    · exact .inr (le_of_windowSeqOk hseq)
    · exact .inl ⟨existing, rfl, hdead⟩

/-! ## The calls -/

lemma heldIn_updateSingleChunk (s : ReadEngine Id) (l : ChunkLocation Id) (idx : Nat) :
    heldIn nilId (s.updateSingleChunk nilId l).map idx = heldIn nilId s.map idx ∨
      singlePosition l = idx ∧ s.singleAdmits (s.map.getD idx (nilLoc nilId)) l = true ∧
        heldIn nilId (s.updateSingleChunk nilId l).map idx = realEntry nilId (some l) := by
  by_cases h : singlePosition l = idx ∧ s.acceptsSingle nilId l = true
  · refine .inr ⟨h.1, ?_, ?_⟩
    · have hacc := h.2
      simp only [ReadEngine.acceptsSingle, getD_rightpad, h.1] at hacc
      exact hacc
    · refine realEntry_congr fun loc hnil => (getElem?_updateSingleChunk_iff s l hnil).trans ?_
      rw [if_pos h, some_or]
  · refine .inl (realEntry_congr fun loc hnil => (getElem?_updateSingleChunk_iff s l hnil).trans ?_)
    rw [if_neg h, none_or]

lemma merged_mergeLoc (s : ReadEngine Id) (w : ChunkLocation Id) (idx : Nat) :
    Merged s.provenAbsent (w.chunkId ≠ nilId) (heldIn nilId map idx) (heldIn nilId (s.mergeLoc false map w) idx) := by
  unfold ReadEngine.mergeLoc
  cases hoffset : w.fileOffset with
  | none => exact .refl ..
  | some offset =>
    dsimp only
    cases hentry : map[offset / chunkSize]? with
    | none => exact .refl ..
    | some existing =>
      dsimp only
      split
      · rename_i hadmits
        by_cases hidx : offset / chunkSize = idx
        · subst hidx
          rw [heldIn, heldIn, getElem?_set_self (List.getElem?_eq_some_iff.mp hentry).1, hentry]
          exact merged_of_admits hadmits fun hnil => ⟨hnil, hadmits⟩
        rw [heldIn, heldIn, getElem?_set_ne hidx]
        exact .refl ..
      · exact .refl ..

lemma merged_window (s : ReadEngine Id) (window : Locations Id) (idx : Nat) :
    Merged s.provenAbsent (∀ w ∈ window, w.chunkId ≠ nilId) (heldIn nilId map idx)
      (heldIn nilId (window.foldl (s.mergeLoc false) map) idx) := by
  induction window generalizing map with
  | nil => exact .refl ..
  | cons w rest ih => exact ((merged_mergeLoc s w idx).trans ih).mono forall_mem_cons.mp

variable {H : ChunkHash Id} {t : TrackedEngine Id} {op : ReadEngineOp Id}

lemma held_step (t : TrackedEngine Id) (op : ReadEngineOp Id) (idx : Nat) :
    (t.step H nilId op).held nilId idx = heldIn nilId (t.engine.step H nilId op).map idx := rfl

lemma heldIn_updateChunkMapWindow (s : ReadEngine Id) (window : Locations Id) (total : Nat) (fromWritePath : Bool)
    (idx : Nat) : heldIn nilId (s.updateChunkMapWindow nilId window total fromWritePath).map idx =
      heldIn nilId (window.foldl (s.mergeLoc fromWritePath) (s.map.rightpad total (nilLoc nilId))) idx :=
  heldIn_popNil

lemma heldIn_mark (s : ReadEngine Id) (cid : Id) : (s.markChunkProvenAbsent H cid).map = s.map := by
  unfold ReadEngine.markChunkProvenAbsent
  split <;> rfl

omit [DecidableEq Id] in
lemma TrackedEngine.Guarded.merges (h : t.Guarded nilId op) : op.Merges := by
  cases op with
  | updateSingleChunk => trivial
  | updateChunkMapWindow => exact h.1
  | updateChunkMap => exact h
  | expireChunkMapAsync => exact h
  | markChunkProvenAbsent => trivial

/-- A merge brings in no absent chunk, and a guarded one takes no slot back unless its chunk is absent. -/
theorem merged_step (hop : op.Merges) (idx : Nat) :
    Merged t.engine.provenAbsent (t.Guarded nilId op) (t.held nilId idx) ((t.step H nilId op).held nilId idx) := by
  rw [held_step]
  cases op with
  | updateChunkMap locations => exact hop.elim
  | expireChunkMapAsync => exact hop.elim
  | markChunkProvenAbsent cid =>
    simp only [ReadEngine.step, heldIn_mark]
    exact .refl ..
  | updateChunkMapWindow window total fromWritePath =>
    obtain rfl : fromWritePath = false := hop
    simp only [ReadEngine.step, heldIn_updateChunkMapWindow, TrackedEngine.held]
    rw [← heldIn_rightpad total]
    exact (merged_window t.engine window idx).mono And.right
  | updateSingleChunk loc =>
    simp only [ReadEngine.step, TrackedEngine.held]
    rcases heldIn_updateSingleChunk t.engine loc idx with hsame | ⟨rfl, hadmits, hput⟩
    · rw [hsame]
      exact .refl ..
    rw [hput, ← realEntry_getD]
    exact merged_of_admits hadmits fun hguard => ⟨hguard.1, (admits_eq_iff _ _ _).mpr hguard.2 ▸ hadmits⟩

/-! ## Runs of calls -/

/-- The greatest sequence of each slot is that of the location it holds. -/
def TrackedEngine.Current (nilId : Id) (t : TrackedEngine Id) : Prop :=
  ∀ idx, t.greatest idx = (t.held nilId idx).bind (·.clientWriteSeq)

lemma seqMax_self (a : Option Nat) : seqMax a a = a := by
  cases a <;> simp [seqMax]

lemma seqMax_of_le {a b : Option Nat} (h : ∀ g ∈ a, ∃ q ∈ b, g ≤ q) : seqMax a b = b := by
  cases a with
  | none => cases b <;> rfl
  | some g =>
    obtain ⟨q, hq, hle⟩ := h g rfl
    rw [mem_def.mp hq]
    simp [seqMax, hle]

lemma TrackedEngine.Current.step (h : t.Current nilId) (hop : t.Guarded nilId op) : (t.step H nilId op).Current nilId := by
  intro idx
  have hraises := (merged_step (H := H) hop.merges idx).raises hop
  rw [held_step] at hraises ⊢
  simp only [TrackedEngine.step]
  split
  · rfl
  rename_i hreset
  rw [h idx]
  by_cases hsame : t.held nilId idx = heldIn nilId (t.engine.step H nilId op).map idx
  · rw [hsame, seqMax_self]
  refine seqMax_of_le (hraises.resolve_left ?_)
  rintro ⟨old, hold, habsent⟩
  exact hreset ⟨hsame, by simp [mem_def.mp hold, habsent]⟩

lemma TrackedEngine.Current.keepsGreatest (h : t.Current nilId) (hop : t.Guarded nilId op) : t.KeepsGreatest H nilId op := by
  intro idx loc hloc _ g hg q hq hlt
  rcases (merged_step (H := H) hop.merges idx).raises hop with habsent | hraises
  · exact habsent
  obtain ⟨q', hq', hle⟩ := hraises g (by rw [← h idx]; exact hg)
  rw [mem_def.mp hloc, bind_some, mem_def.mp hq] at hq'
  cases hq'
  omega

/-- The two ways decide alike exactly on what can be compared; then no slot is given a lower write sequence than held
unless its chunk was absent; and no absent chunk is put in anew. -/
theorem read_map_keeps_one_rule (H : ChunkHash Id) (nilId : Id) : (∀ (s : ReadEngine Id) (existing incoming : ChunkLocation Id),
      s.singleAdmits existing incoming = s.refreshAdmits existing incoming ↔ Comparable s.provenAbsent existing incoming) ∧
    (∀ ops, Meets (TrackedEngine.step H nilId) (TrackedEngine.Guarded nilId) TrackedEngine.new ops →
      Meets (TrackedEngine.step H nilId) (TrackedEngine.KeepsGreatest H nilId) TrackedEngine.new ops) ∧
    ∀ ops : List (ReadEngineOp Id), (∀ op ∈ ops, op.Merges) →
      Meets (TrackedEngine.step H nilId) (TrackedEngine.InstallsNoAbsent H nilId) TrackedEngine.new ops := by
  refine ⟨admits_eq_iff, fun ops hops => ?_, fun ops hops => meets_of_forall fun op hop t idx =>
    (merged_step (hops op hop) idx).absent⟩
  have hkeeps : ∀ (t : TrackedEngine Id) (op : ReadEngineOp Id), t.Current nilId → t.Guarded nilId op →
    t.KeepsGreatest H nilId op :=
    fun t op ht hop => ht.keepsGreatest hop
  have hstep : ∀ (t : TrackedEngine Id) (op : ReadEngineOp Id), t.Current nilId → t.Guarded nilId op →
      (t.step H nilId op).Current nilId := fun t op ht hop => ht.step hop
  exact meets_of_invariant hkeeps hstep (fun idx => rfl) hops

end Engine

def firstSlotWrite (content : UInt8) (seq : Option Nat) : ChunkLocation FreeId :=
  ⟨.content [content] 0 1, [], 1, some 0, none, seq, some 1⟩

def sequenceLost : List (ReadEngineOp FreeId) :=
  [.updateSingleChunk (firstSlotWrite 1 (some 5)), .updateSingleChunk (firstSlotWrite 2 none),
    .updateSingleChunk (firstSlotWrite 3 (some 3))]

/-- A refresh would refuse the second one, and the third takes the slot behind the first. -/
theorem slot_loses_its_sequence : ReadEngine.new.singleAdmits (firstSlotWrite 1 (some 5)) (firstSlotWrite 2 none) ≠
        ReadEngine.new.refreshAdmits (firstSlotWrite 1 (some 5)) (firstSlotWrite 2 none) ∧
      ¬Meets (TrackedEngine.step freeHash (.content [] 0 0)) (TrackedEngine.KeepsGreatest freeHash (.content [] 0 0)) .new
        sequenceLost := by
  refine ⟨by decide +kernel, fun h => ?_⟩
  obtain ⟨old, -, habsent⟩ := h.2.2.1 0 (firstSlotWrite 3 (some 3)) (by decide +kernel) (by decide +kernel) 5
    (by decide +kernel) 3 rfl
    (by decide)
  cases habsent

theorem refresh_keeps_the_sequence :
    Meets (TrackedEngine.step freeHash (.content [] 0 0)) (TrackedEngine.KeepsGreatest freeHash (.content [] 0 0)) .new
      [.updateSingleChunk (firstSlotWrite 1 (some 5)),
        .updateChunkMapWindow [firstSlotWrite 2 none, firstSlotWrite 3 (some 3)] 1 false] := by
  refine (read_map_keeps_one_rule freeHash (.content [] 0 0)).2.1 _ ⟨⟨by decide, fun _ hsome => ?_⟩, ⟨rfl, ?_⟩, trivial⟩
  · exact absurd hsome (by decide)
  · intro w hw
    simp only [mem_cons, not_mem_nil, or_false] at hw
    rcases hw with rfl | rfl <;> decide

end Dfs
