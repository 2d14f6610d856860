import Dfs.Theorems.ReadEngineMap

/-! # A refresh of the map and the writes that come meanwhile -/

namespace Dfs

open List Option ReadEngine

variable {Id : Type}

def singlePosition (loc : ChunkLocation Id) : Nat := (slotOf loc).getD 0

def seqLess : (a b : Option Nat) → Bool
  | some a, some b => decide (a < b)
  | none, some _ => true
  | _, none => false

def WindowRefresh.Carries (r : WindowRefresh Id) (idx : Nat) (loc : ChunkLocation Id) : Prop :=
  loc ∈ r.window ∧ slotOf loc = some idx

def WindowRefresh.CarriesNewer (r : WindowRefresh Id) (idx : Nat) (loc : ChunkLocation Id) : Prop :=
  ∃ w, r.Carries idx w ∧ seqLess loc.clientWriteSeq w.clientWriteSeq = true

/-- Its chunk is absent, or it is a refresh's and older than one not absent. -/
def WindowRefresh.Yields (r : WindowRefresh Id) (provenAbsent : List Id) (w loc : ChunkLocation Id) : Prop :=
  (w.chunkId ≠ loc.chunkId ∧ w.chunkId ∈ provenAbsent) ∨
    (r.fromWritePath = false ∧ seqLess w.clientWriteSeq loc.clientWriteSeq = true ∧
      (w.chunkId = loc.chunkId ∨ loc.chunkId ∉ provenAbsent))

variable [DecidableEq Id]

def ReadEngine.acceptsSingle (nilId : Id) (s : ReadEngine Id) (loc : ChunkLocation Id) : Bool :=
  let existing := (s.map.rightpad (singlePosition loc + 1) (nilLoc nilId)).getD (singlePosition loc) (nilLoc nilId)
  s.mergeAdmits existing loc (singleSeqOk loc.clientWriteSeq existing.clientWriteSeq)

def ReadEngine.lastAccepted (nilId : Id) (idx : Nat) : ReadEngine Id → Locations Id → Option (ChunkLocation Id)
  | _, [] => none
  | s, loc :: rest =>
    (lastAccepted nilId idx (s.updateSingleChunk nilId loc) rest).or
      (if singlePosition loc = idx ∧ s.acceptsSingle nilId loc = true then some loc else none)

def WindowRefresh.lastAccepted (nilId : Id) (r : WindowRefresh Id) (s : ReadEngine Id) (idx : Nat) : Option (ChunkLocation Id) :=
  ((r.installed nilId s).lastAccepted nilId idx r.after).or
    (((r.cloned nilId s).lastAccepted nilId idx r.between).or (s.lastAccepted nilId idx r.before))

lemma updateChunkMapWindow_eq (nilId : Id) (s : ReadEngine Id) (window : Locations Id) (total : Nat)
    (fromWritePath : Bool) : s.updateChunkMapWindow nilId window total fromWritePath =
      (⟨[], window, total, fromWritePath, [], []⟩ : WindowRefresh Id).final nilId s := rfl

/-! ## What is at a position -/

variable {w : ChunkLocation Id}

section Positions

variable {nilId : Id} {map : Locations Id} {idx : Nat} {loc : ChunkLocation Id}

omit [DecidableEq Id] in
lemma getElem?_rightpad_iff (hnil : loc.chunkId ≠ nilId) (n : Nat) :
    (map.rightpad n (nilLoc nilId))[idx]? = some loc ↔ map[idx]? = some loc := by
  rw [List.rightpad, getElem?_append]
  split
  · exact Iff.rfl
  rename_i hlen
  rw [getElem?_eq_none (Nat.le_of_not_lt hlen)]
  refine ⟨fun h => absurd ?_ hnil, nofun⟩
  rw [eq_of_mem_replicate (mem_of_getElem? h), nilLoc]

lemma getElem?_popNil_iff (hnil : loc.chunkId ≠ nilId) : (popNil nilId map)[idx]? = some loc ↔ map[idx]? = some loc := by
  have hsplit : popNil nilId map ++ map.rtakeWhile (fun l => decide (l.chunkId = nilId)) = map := rdropWhile_append_rtakeWhile
  have hmap : map[idx]? = (popNil nilId map ++ map.rtakeWhile (fun l => decide (l.chunkId = nilId)))[idx]? := by rw [hsplit]
  rw [hmap, getElem?_append]
  split
  · exact Iff.rfl
  rename_i hlen
  rw [getElem?_eq_none (Nat.le_of_not_lt hlen)]
  refine ⟨nofun, fun h => absurd ?_ hnil⟩
  have hpopped := mem_rtakeWhile_imp (mem_of_getElem? h)
  exact of_decide_eq_true hpopped

section

variable (s : ReadEngine Id)

include s

lemma getElem?_updateSingleChunk_iff (l : ChunkLocation Id) (hnil : loc.chunkId ≠ nilId) :
    (s.updateSingleChunk nilId l).map[idx]? = some loc ↔
      (if singlePosition l = idx ∧ s.acceptsSingle nilId l = true then some l else none).or s.map[idx]? = some loc := by
  have hlen : singlePosition l < (s.map.rightpad (singlePosition l + 1) (nilLoc nilId)).length := by
    simp only [List.rightpad, length_append, length_replicate]
    omega
  by_cases hacc : s.acceptsSingle nilId l = true
  · have hmap : (s.updateSingleChunk nilId l).map =
        popNil nilId ((s.map.rightpad (singlePosition l + 1) (nilLoc nilId)).set (singlePosition l) l) :=
      congrArg ReadEngine.map (if_pos hacc)
    rw [hmap, getElem?_popNil_iff hnil, getElem?_set]
    by_cases hidx : singlePosition l = idx
    · rw [if_pos hidx, if_pos hlen, if_pos ⟨hidx, hacc⟩, some_or]
    · rw [if_neg hidx, if_neg fun h => hidx h.1, none_or, getElem?_rightpad_iff hnil]
  · have hmap : (s.updateSingleChunk nilId l).map = s.map.rightpad (singlePosition l + 1) (nilLoc nilId) :=
      congrArg ReadEngine.map (if_neg hacc)
    rw [hmap, getElem?_rightpad_iff hnil, if_neg fun h => hacc h.2, none_or]

lemma getElem?_feed_iff (locs : Locations Id) (hnil : loc.chunkId ≠ nilId) :
    (s.feed nilId locs).map[idx]? = some loc ↔ (s.lastAccepted nilId idx locs).or s.map[idx]? = some loc := by
  induction locs generalizing s with
  | nil => exact Iff.rfl
  | cons l rest ih =>
    refine (ih (s.updateSingleChunk nilId l)).trans ?_
    rw [lastAccepted, Option.or_assoc]
    cases (s.updateSingleChunk nilId l).lastAccepted nilId idx rest with
    | none =>
      rw [none_or, none_or]
      exact getElem?_updateSingleChunk_iff s l hnil
    | some l' => rw [some_or, some_or]

/-! ## The merge -/

lemma getElem?_mergeLoc_other (fromWritePath : Bool) (h : slotOf w ≠ some idx) :
    (s.mergeLoc fromWritePath map w)[idx]? = map[idx]? := by
  unfold mergeLoc
  cases ho : w.fileOffset with
  | none => rfl
  | some offset =>
    have hidx : offset / chunkSize ≠ idx := fun heq => h (by rw [slotOf, ho, ← heq]; rfl)
    dsimp only
    cases map[offset / chunkSize]? with
    | none => rfl
    | some existing =>
      dsimp only
      split
      · exact getElem?_set_ne hidx
      · rfl

lemma getElem?_mergeLoc_keeps (fromWritePath : Bool) (hmap : map[idx]? = some loc)
    (h : s.mergeAdmits loc w (windowSeqOk fromWritePath w.clientWriteSeq loc.clientWriteSeq) = true → w = loc) :
    (s.mergeLoc fromWritePath map w)[idx]? = some loc := by
  by_cases hslot : slotOf w = some idx
  · obtain ⟨offset, ho, rfl⟩ := map_eq_some_iff.mp hslot
    unfold mergeLoc
    rw [ho]
    dsimp only
    rw [hmap]
    dsimp only
    split
    · rename_i hadmits
      rw [getElem?_set_self (List.getElem?_eq_some_iff.mp hmap).1, h hadmits]
    · exact hmap
  · rw [getElem?_mergeLoc_other s fromWritePath hslot]
    exact hmap

variable {window : Locations Id}

lemma getElem?_foldl_mergeLoc_other (fromWritePath : Bool) (h : ∀ w ∈ window, slotOf w ≠ some idx) :
    (window.foldl (s.mergeLoc fromWritePath) map)[idx]? = map[idx]? := by
  induction window generalizing map with
  | nil => rfl
  | cons w rest ih =>
    obtain ⟨hw, hrest⟩ := forall_mem_cons.mp h
    exact (ih hrest).trans (getElem?_mergeLoc_other s fromWritePath hw)

lemma getElem?_foldl_mergeLoc_keeps (fromWritePath : Bool)
    (h : ∀ w ∈ window, slotOf w = some idx → s.mergeAdmits loc w
    (windowSeqOk fromWritePath w.clientWriteSeq loc.clientWriteSeq) = true → w = loc)
    (hmap : map[idx]? = some loc) : (window.foldl (s.mergeLoc fromWritePath) map)[idx]? = some loc := by
  induction window generalizing map with
  | nil => exact hmap
  | cons w rest ih =>
    obtain ⟨hw, hrest⟩ := forall_mem_cons.mp h
    apply ih hrest
    by_cases hslot : slotOf w = some idx
    · exact getElem?_mergeLoc_keeps s fromWritePath hmap (hw hslot)
    rw [getElem?_mergeLoc_other s fromWritePath hslot]
    exact hmap

end

end Positions

lemma windowSeqOk_of_seqLess {a b : Option Nat} (h : seqLess a b = true) : windowSeqOk false a b = false := by
  cases a <;> cases b <;> simp_all [seqLess, windowSeqOk]

lemma WindowRefresh.Yields.mergeAdmits_eq_false {r : WindowRefresh Id} {s : ReadEngine Id} {loc : ChunkLocation Id}
    (h : r.Yields s.provenAbsent w loc) :
    s.mergeAdmits loc w (windowSeqOk r.fromWritePath w.clientWriteSeq loc.clientWriteSeq) = false := by
  unfold mergeAdmits
  rcases h with ⟨hne, habsent⟩ | ⟨hrefresh, hless, hpresent⟩
  · rw [if_neg hne, if_pos habsent]
  rw [hrefresh, windowSeqOk_of_seqLess hless]
  rcases hpresent with hsame | hpresent
  · rw [if_pos hsame]
  · simp only [if_neg hpresent, ite_self]

/-! ## The interleavings -/

/-- Accepted after the installation, or in the clone with nothing admitted in its place, or older than one of the window's. -/
def WindowRefresh.Spares (nilId : Id) (r : WindowRefresh Id) (s : ReadEngine Id) (idx : Nat) (loc : ChunkLocation Id) : Prop :=
  (r.installed nilId s).lastAccepted nilId idx r.after = some loc ∨
    ((r.cloned nilId s).map[idx]? = some loc ∧ ∀ w, r.Carries idx w → w = loc ∨ r.Yields s.provenAbsent w loc) ∨
    r.CarriesNewer idx loc

/-- The slot has the location in the end, or the window had a newer one. -/
def WindowRefresh.Keeps (nilId : Id) (r : WindowRefresh Id) (s : ReadEngine Id) (idx : Nat) (loc : ChunkLocation Id) : Prop :=
  (r.final nilId s).map[idx]? = some loc ∨ r.CarriesNewer idx loc

lemma provenAbsent_updateSingleChunk (nilId : Id) (s : ReadEngine Id) (loc : ChunkLocation Id) :
    (s.updateSingleChunk nilId loc).provenAbsent = s.provenAbsent := by
  unfold updateSingleChunk
  dsimp only
  split <;> rfl

lemma provenAbsent_feed (nilId : Id) (s : ReadEngine Id) (locs : Locations Id) :
    (s.feed nilId locs).provenAbsent = s.provenAbsent := by
  induction locs generalizing s with
  | nil => rfl
  | cons loc rest ih => exact (ih _).trans (provenAbsent_updateSingleChunk nilId s loc)

section Interleavings

variable {nilId : Id} {r : WindowRefresh Id} {s : ReadEngine Id} {idx : Nat} {loc : ChunkLocation Id}

lemma getElem?_installed_of_yields (hnil : loc.chunkId ≠ nilId) (hclone : (r.cloned nilId s).map[idx]? = some loc)
    (h : ∀ w, r.Carries idx w → w = loc ∨ r.Yields s.provenAbsent w loc) : (r.installed nilId s).map[idx]? = some loc := by
  have hwindow : ∀ w ∈ r.window, slotOf w = some idx → (r.cloned nilId s).mergeAdmits loc w
      (windowSeqOk r.fromWritePath w.clientWriteSeq loc.clientWriteSeq) = true → w = loc := by
    intro w hw hslot hadmits
    rcases h w ⟨hw, hslot⟩ with heq | hyields
    · exact heq
    rw [← provenAbsent_feed nilId s r.before] at hyields
    have hrefused := hyields.mergeAdmits_eq_false (s := r.cloned nilId s)
    exact absurd (hrefused.symm.trans hadmits) (by decide)
  apply (getElem?_popNil_iff hnil).mpr
  apply getElem?_foldl_mergeLoc_keeps _ _ hwindow
  exact (getElem?_rightpad_iff hnil r.total).mpr hclone

lemma getElem?_installed_of_uncarried (hnil : loc.chunkId ≠ nilId) (h : ∀ w, ¬ r.Carries idx w) :
    (r.installed nilId s).map[idx]? = some loc ↔ (r.cloned nilId s).map[idx]? = some loc := by
  have hwindow : ∀ w ∈ r.window, slotOf w ≠ some idx := fun w hw hslot => h w ⟨hw, hslot⟩
  refine (getElem?_popNil_iff hnil).trans ?_
  rw [getElem?_foldl_mergeLoc_other _ _ hwindow]
  exact getElem?_rightpad_iff hnil r.total

lemma lastAccepted_after (hlast : r.lastAccepted nilId s idx = some loc) :
    (r.installed nilId s).lastAccepted nilId idx r.after = some loc ∨ (r.installed nilId s).lastAccepted nilId idx r.after =
      none := by
  unfold WindowRefresh.lastAccepted at hlast
  cases hafter : (r.installed nilId s).lastAccepted nilId idx r.after with
  | none => exact .inr rfl
  | some l =>
    rw [hafter, some_or] at hlast
    exact .inl hlast

end Interleavings

/-- The last accepted location of a slot is there in the end, or the window's is newer, if the refresh spares it; exact for a slot
the window does not carry. -/
theorem window_refresh_keeps (nilId : Id) (r : WindowRefresh Id) (s : ReadEngine Id) (idx : Nat) (loc : ChunkLocation Id)
    (hlast : r.lastAccepted nilId s idx = some loc) (hnil : loc.chunkId ≠ nilId) :
    (r.Spares nilId s idx loc → r.Keeps nilId s idx loc) ∧
      ((∀ w, ¬ r.Carries idx w) → (r.Keeps nilId s idx loc ↔ r.Spares nilId s idx loc)) := by
  have hfinal : (r.final nilId s).map[idx]? = some loc ↔
      ((r.installed nilId s).lastAccepted nilId idx r.after).or (r.installed nilId s).map[idx]? = some loc :=
    getElem?_feed_iff (r.installed nilId s) r.after hnil
  have hspares : r.Spares nilId s idx loc → r.Keeps nilId s idx loc := by
    rintro (hafter | ⟨hclone, hyields⟩ | hnewer)
    · exact .inl (hfinal.mpr (by rw [hafter, some_or]))
    · refine .inl (hfinal.mpr ?_)
      rcases lastAccepted_after hlast with hafter | hafter
      · rw [hafter, some_or]
      · rw [hafter, none_or]
        exact getElem?_installed_of_yields hnil hclone hyields
    · exact .inr hnewer
  refine ⟨hspares, fun huncarried => ⟨fun h => ?_, hspares⟩⟩
  rcases h with hheld | ⟨w, hw, -⟩
  · rw [hfinal] at hheld
    rcases lastAccepted_after hlast with hafter | hafter
    · exact .inl hafter
    rw [hafter, none_or, getElem?_installed_of_uncarried hnil huncarried] at hheld
    exact .inr (.inl ⟨hheld, fun w hw => absurd hw (huncarried w)⟩)
  · exact absurd hw (huncarried w)

def firstSlot (cid seq : Nat) : ChunkLocation Nat := ⟨cid, [], 1, some 0, none, some seq, none⟩

def overtakenRefresh : WindowRefresh Nat := ⟨[firstSlot 1 1], [firstSlot 1 1], 1, false, [firstSlot 2 2], []⟩

theorem window_refresh_loses_write : overtakenRefresh.lastAccepted 0 .new 0 = some (firstSlot 2 2) ∧
      (overtakenRefresh.final 0 .new).map[0]? = some (firstSlot 1 1) ∧ ¬ overtakenRefresh.Keeps 0 .new 0 (firstSlot 2 2) := by
  refine ⟨by decide, by decide, ?_⟩
  rintro (hheld | ⟨w, ⟨hw, -⟩, hnewer⟩)
  · exact absurd hheld (by decide)
  rw [List.mem_singleton.mp hw] at hnewer
  exact absurd hnewer (by decide)

theorem window_refresh_keeps_earlier_write :
    (⟨[firstSlot 1 1, firstSlot 2 2], [firstSlot 1 1], 1, false, [], []⟩ : WindowRefresh Nat).Keeps 0 .new 0 (firstSlot 2 2) := by
  refine (window_refresh_keeps 0 _ .new 0 _ (by decide) (by decide)).1 (.inr (.inl ⟨by decide, ?_⟩))
  intro w hw
  rw [List.mem_singleton.mp hw.1]
  exact .inr (Or.inr ⟨rfl, by decide, .inr (by decide)⟩)

end Dfs
