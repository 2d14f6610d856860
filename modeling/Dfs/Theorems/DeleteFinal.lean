import Dfs.Theorems.PathIndex

/-! # Is a delete final? -/

namespace Dfs

open Function MetadataStore

variable {Id : Type}

/-- A row of `PATCH_STATE_TABLE` is the file's if its token is of one of its slots. -/
structure MetadataStore.NoRow (s : MetadataStore Id) (place : Id → Slot) (file : FileId) : Prop where
  record : s.tables.fileTable file = none
  path : ∀ p, s.tables.pathTable p ≠ some file
  seq : ∀ cidx, s.node.chunkSeq (file, cidx) = none
  slot : ∀ cidx, s.node.patchStateSlot (file, cidx) = none
  state : ∀ token, (place token).1 = file → s.node.patchState token = none

/-- Only its own path and the one given name the file, and the scan meets the slot of every token with a row. -/
structure MetadataStore.Reaches (s : MetadataStore Id) (place : Id → Slot) (file : FileId) (path : Path) (scan : List Nat) :
    Prop where
  path : ∀ p, s.tables.pathTable p = some file → p = path ∨ (s.tables.fileTable file).map (·.path) = some p
  state : ∀ token, (place token).1 = file → s.node.patchState token ≠ none → ∃ cidx ∈ scan,
    s.node.patchStateSlot (file, cidx) = some token

/-- A pending patch is not of its slots or tokens, a fold not of its tokens or told a deleted file. -/
def MetadataStore.LeavesNoRow (place : Id → Slot) (file : FileId) (s : MetadataStore Id) : StoreOp Id → Prop
  | .putPatchStatePending slot token .. => slot.1 ≠ file ∧ (place token).1 ≠ file
  | .updatePatchStateFolded token _ told => told.any s.node.tombstoned = true ∨ (place token).1 ≠ file
  | .putFile _ | .putFilesBatch _ | .deleteFile _ | .deleteFileForGoodWith .. | .deletePathIndex _ | .putChunkSeq .. => True

section Tables

variable {t : FileTables Id} {tombstoned : FileId → Bool} {file : FileId}

def FileTables.Without (t : FileTables Id) (file : FileId) : Prop := t.fileTable file = none ∧ ∀ p, t.pathTable p ≠ some file

lemma FileTables.Without.putFile (h : t.Without file) (hdead : tombstoned file = true) (m : FileMetadata Id) :
    (t.putFile tombstoned m).1.Without file := by
  cases hlive : tombstoned m.id with
  | true =>
    rw [putFile_refused hlive]
    exact h
  | false =>
    have hne : file ≠ m.id := by
      rintro rfl
      rw [hdead] at hlive
      cases hlive
    refine ⟨?_, fun p => ?_⟩
    · rw [fileTable_putFile_of_ne hlive hne, h.1]
      exact ite_self none
    · rw [pathTable_putFile hlive, update_apply]
      split
      · exact fun heq => hne (Option.some.inj heq).symm
      · exact h.2 p

lemma FileTables.Without.putFilesBatch (h : t.Without file) (hdead : tombstoned file = true) (items : List (FileMetadata Id)) :
    (t.putFilesBatch tombstoned items).Without file := by
  unfold FileTables.putFilesBatch
  induction items generalizing t with
  | nil => exact h
  | cons m items ih => exact ih (h.putFile hdead m)

lemma FileTables.Without.deleteFile (h : t.Without file) (g : FileId) (path : Option Path) :
    (t.deleteFile g path).Without file := by
  refine ⟨?_, fun p => ?_⟩
  · show update t.fileTable g none file = none
    rw [update_apply, h.1]
    exact ite_self none
  · rw [pathTable_deleteFile]
    split
    · exact nofun
    · exact h.2 p

lemma FileTables.Without.deletePathIndex (h : t.Without file) (path : Path) : (t.deletePathIndex path).Without file := by
  refine ⟨h.1, fun p => ?_⟩
  show update t.pathTable path none p ≠ some file
  rw [update_apply]
  split
  · exact nofun
  · exact h.2 p

end Tables

variable [DecidableEq Id] {place : Id → Slot} {file : FileId} {s : MetadataStore Id}

structure MetadataStore.Gone (s : MetadataStore Id) (place : Id → Slot) (file : FileId) : Prop extends s.NoRow place file where
  tombstoned : s.node.tombstoned file = true

omit [DecidableEq Id] in
lemma MetadataStore.Gone.setTables (h : s.Gone place file) {t : FileTables Id} (ht : t.Without file) :
    ({ s with tables := t } : MetadataStore Id).Gone place file :=
  ⟨⟨ht.1, ht.2, h.seq, h.slot, h.state⟩, h.tombstoned⟩

lemma gone_deleteFileForGoodWith {path : Path} {scan : List Nat} (h : s.Reaches place file path scan) (chunkIds : List Id) :
    (s.deleteFileForGoodWith file path chunkIds scan).Gone place file := by
  refine ⟨⟨update_self .., fun p => ?_, fun cidx => if_pos rfl, fun cidx => if_pos rfl, fun token htoken => ?_⟩, update_self ..⟩
  · show (s.tables.deleteFile file (some path)).pathTable p ≠ some file
    rw [pathTable_deleteFile]
    split
    · exact nofun
    rename_i hnot
    intro hp
    exact hnot ((h.path p hp).imp (fun heq => congrArg some heq.symm) id)
  · show (if token ∈ scan.filterMap (fun cidx => s.node.patchStateSlot (file, cidx)) then none else s.node.patchState token) =
      none
    split
    · rfl
    rename_i hnot
    by_contra hrow
    obtain ⟨cidx, hcidx, hslot⟩ := h.state token htoken hrow
    exact hnot (List.mem_filterMap.mpr ⟨cidx, hcidx, hslot⟩)

lemma MetadataStore.Gone.step (s : MetadataStore Id) (a : StoreOp Id) (h : s.Gone place file) (ha : s.LeavesNoRow place file a) :
    (s.step a).Gone place file := by
  have hwithout : s.tables.Without file := ⟨h.record, h.path⟩
  cases a with
  | putFile m => exact h.setTables (hwithout.putFile h.tombstoned m)
  | putFilesBatch items => exact h.setTables (hwithout.putFilesBatch h.tombstoned items)
  | deleteFile g => exact h.setTables (hwithout.deleteFile g none)
  | deletePathIndex path => exact h.setTables (hwithout.deletePathIndex path)
  | deleteFileForGoodWith g path chunkIds scan =>
    obtain ⟨hrecord, hpath⟩ := hwithout.deleteFile g (some path)
    refine ⟨⟨hrecord, hpath, fun cidx => ?_, fun cidx => ?_, fun token htoken => ?_⟩, ?_⟩
    · show (if file = g then none else s.node.chunkSeq (file, cidx)) = none
      rw [h.seq]
      exact ite_self none
    · show (if file = g then none else s.node.patchStateSlot (file, cidx)) = none
      rw [h.slot]
      exact ite_self none
    · show (if _ then none else s.node.patchState token) = none
      rw [h.state token htoken]
      exact ite_self none
    · show update s.node.tombstoned g true file = true
      rw [update_apply, h.tombstoned]
      exact ite_self true
  | putChunkSeq slot seq =>
    show (⟨(s.node.putChunkSeq slot seq).1, s.tables⟩ : MetadataStore Id).Gone place file
    unfold Node.putChunkSeq
    dsimp only
    split
    · rename_i hwrite
      refine ⟨⟨h.record, h.path, fun cidx => ?_, h.slot, h.state⟩, h.tombstoned⟩
      show update s.node.chunkSeq slot (some seq) (file, cidx) = none
      rw [update_of_ne, h.seq]
      rintro rfl
      -- the tombstone is looked at before the sequence is written
      rw [h.tombstoned] at hwrite
      exact Bool.noConfusion hwrite.2
    · exact h
  | putPatchStatePending slot token base delta size writtenAt seq =>
    obtain ⟨hslot, htoken⟩ := ha
    refine ⟨⟨h.record, h.path, h.seq, fun cidx => ?_, fun other hother => ?_⟩, h.tombstoned⟩
    · show update s.node.patchStateSlot slot (some token) (file, cidx) = none
      rw [update_of_ne, h.slot]
      exact fun heq => hslot (heq ▸ rfl)
    · show update (s.node.retireRow slot) token (some _) other = none
      rw [update_of_ne, retireRow_apply, h.state other hother]
      · exact ite_self none
      · exact fun heq => htoken (heq ▸ hother)
  | updatePatchStateFolded token real told =>
    show (⟨s.node.updatePatchStateFoldedOf token real told, s.tables⟩ : MetadataStore Id).Gone place file
    unfold Node.updatePatchStateFoldedOf
    split
    · exact h
    rename_i hnot
    have htoken := ha.resolve_left hnot
    refine ⟨⟨h.record, h.path, h.seq, h.slot, fun other hother => ?_⟩, h.tombstoned⟩
    show update s.node.patchState token (some _) other = none
    rw [update_of_ne, h.state other hother]
    exact fun heq => htoken (heq ▸ hother)

/-- After a delete that reaches every row of the file, none comes back in a run whose operations meet their conditions. -/
theorem delete_is_final (place : Id → Slot) (s : MetadataStore Id) (file : FileId) (path : Path) (chunkIds : List Id)
    (scan : List Nat)
    (l : List (StoreOp Id)) (hreaches : s.Reaches place file path scan)
    (h : Transition.Meets MetadataStore.step (MetadataStore.LeavesNoRow place file)
    (s.deleteFileForGoodWith file path chunkIds scan) l) :
    (Transition.run MetadataStore.step (s.deleteFileForGoodWith file path chunkIds scan) l).NoRow place file := by
  have hstep : ∀ s a, (fun s : MetadataStore Id => s.Gone place file) s → s.LeavesNoRow place file a →
      (fun s : MetadataStore Id => s.Gone place file) (s.step a) := Gone.step
  exact (Transition.invariant_run hstep (gone_deleteFileForGoodWith hreaches chunkIds) h).toNoRow

/-- A store with file `7`, the sequence of its first slot and a patch of it. -/
def storedSeven : MetadataStore Nat := Transition.run MetadataStore.step empty
  [.putFile (emptyFile 7 ['f'] 1), .putChunkSeq (7, 0) 2, .putPatchStatePending (7, 0) 20 10 11 5 0 none]

def deletedSeven : MetadataStore Nat := storedSeven.deleteFileForGoodWith 7 ['f'] [] [0]

def placeSeven (_ : Nat) : Slot := (7, 0)

lemma reaches_storedSeven : storedSeven.Reaches placeSeven 7 ['f'] [0] := by
  refine ⟨fun p hp => .inl ?_, fun token _ hrow => ⟨0, List.mem_singleton.mpr rfl, ?_⟩⟩
  · by_contra hne
    have hrow : storedSeven.tables.pathTable p = none := update_of_ne hne ..
    rw [hrow] at hp
    cases hp
  · by_contra hne
    have hother : token ≠ 20 := by
      rintro rfl
      exact hne rfl
    exact hrow (update_of_ne hother ..)

theorem late_put_leaves_no_row : (Transition.run MetadataStore.step deletedSeven
    [.putFile (emptyFile 7 ['f'] 1), .putChunkSeq (7, 0) 3]).NoRow placeSeven 7 :=
  delete_is_final placeSeven storedSeven 7 ['f'] [] [0] _ reaches_storedSeven ⟨trivial, trivial, trivial⟩

/-- A patch registered late leaves a row in both tables of patches. -/
theorem late_patch_leaves_row :
    let s := deletedSeven.step (.putPatchStatePending (7, 0) 20 10 11 5 0 none)
    deletedSeven.node.tombstoned 7 = true ∧ s.node.patchStateSlot (7, 0) = some 20 ∧ (s.node.patchState 20).isSome = true := by
  decide +kernel

end Dfs
