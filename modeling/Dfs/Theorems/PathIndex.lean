import Dfs.Lib.Transition
import Dfs.StoreRun

/-! # Are the tables of files and paths in step? -/

namespace Dfs

open Function Option FileTables Transition

variable {Id : Type}

/-- Every record is what its path names, and every path names a record stored there. -/
structure FileTables.InStep (t : FileTables Id) : Prop where
  indexed : ∀ id m, t.fileTable id = some m → t.pathTable m.path = some id
  entry : ∀ p id, t.pathTable p = some id → ∃ m, t.fileTable id = some m ∧ m.path = p

/-- That of the existing record, if the put is stale. -/
def FileTables.storedPath (t : FileTables Id) (m : FileMetadata Id) : Path := (mergeFileMetadata (t.fileTable m.id) m).1.path

/-! ## A put -/

section Put

variable {t : FileTables Id} {tombstoned : FileId → Bool} {m : FileMetadata Id}

lemma fileTable_putFile_of_ne (hlive : tombstoned m.id = false) {g : FileId} (hg : g ≠ m.id) :
    (t.putFile tombstoned m).1.fileTable g = if t.pathTable (t.storedPath m) = some g then none else t.fileTable g := by
  unfold putFile storedPath
  simp only [hlive, Bool.false_eq_true, if_false]
  rw [update_of_ne hg, withoutPathOwner_apply]
  simp [hg]

lemma fileTable_putFile_stored (hlive : tombstoned m.id = false) :
    ∃ r, (t.putFile tombstoned m).1.fileTable m.id = some r ∧ r.path = t.storedPath m := by
  unfold putFile storedPath
  simp only [hlive, Bool.false_eq_true, if_false]
  exact ⟨_, update_self .., rfl⟩

lemma pathTable_putFile (hlive : tombstoned m.id = false) :
    (t.putFile tombstoned m).1.pathTable = update t.pathTable (t.storedPath m) (some m.id) := by
  unfold putFile storedPath
  simp only [hlive, Bool.false_eq_true, if_false]

lemma putFile_refused (hdead : tombstoned m.id = true) : (t.putFile tombstoned m).1 = t := by
  unfold putFile
  rw [hdead]
  rfl

/-- A put removes only a record stored at its path: exactly if refused, or the other file its path names is stored there. -/
theorem put_removes_iff (t : FileTables Id) (tombstoned : FileId → Bool) (m : FileMetadata Id) :
    (∀ g r, g ≠ m.id → t.fileTable g = some r → (t.putFile tombstoned m).1.fileTable g = none → r.path = t.storedPath m) ↔
      tombstoned m.id = true ∨
        ∀ g r, t.pathTable (t.storedPath m) = some g → g ≠ m.id → t.fileTable g = some r → r.path = t.storedPath m := by
  cases hdead : tombstoned m.id with
  | true =>
    refine iff_of_true (fun g r _ hr hgone => ?_) (.inl rfl)
    rw [putFile_refused hdead, hr] at hgone
    cases hgone
  | false =>
    simp only [Bool.false_eq_true, false_or]
    constructor
    · intro h g r hp hg hr
      refine h g r hg hr ?_
      rw [fileTable_putFile_of_ne hdead hg, if_pos hp]
    · intro h g r hg hr hgone
      rw [fileTable_putFile_of_ne hdead hg] at hgone
      split at hgone
      · rename_i hp
        exact h g r hp hg hr
      rw [hr] at hgone
      cases hgone

/-- Refused or stale, or the file has no record under another path. -/
def PutKeepsPath (t : FileTables Id) (tombstoned : FileId → Bool) (m : FileMetadata Id) : Prop :=
  tombstoned m.id = true ∨ ∀ e, t.fileTable m.id = some e → e.path = t.storedPath m

lemma inStep_putFile_iff (ht : t.InStep) : (t.putFile tombstoned m).1.InStep ↔ PutKeepsPath t tombstoned m := by
  cases hdead : tombstoned m.id with
  | true =>
    rw [putFile_refused hdead]
    exact iff_of_true ht (.inl hdead)
  | false =>
    obtain ⟨r, hr, hrpath⟩ := fileTable_putFile_stored (t := t) hdead
    constructor
    · intro h
      refine .inr fun e he => ?_
      -- the entry of the old path still names the file
      by_contra hne
      have hold : (t.putFile tombstoned m).1.pathTable e.path = some m.id := by
        rw [pathTable_putFile hdead, update_of_ne hne]
        exact ht.indexed m.id e he
      obtain ⟨r', hr', hpath⟩ := h.entry _ _ hold
      rw [hr, some.injEq] at hr'
      exact hne (hpath.symm.trans (hr' ▸ hrpath))
    · intro h
      have hsame : ∀ e, t.fileTable m.id = some e → e.path = t.storedPath m :=
        h.resolve_left (by rw [hdead]; exact Bool.false_ne_true)
      constructor
      · intro id x hx
        rw [pathTable_putFile hdead]
        by_cases hid : id = m.id
        · subst hid
          rw [hr, some.injEq] at hx
          rw [← hx, hrpath, update_self]
        rw [fileTable_putFile_of_ne hdead hid] at hx
        split at hx
        · cases hx
        rename_i hnot
        have hindexed := ht.indexed id x hx
        have hne : x.path ≠ t.storedPath m := fun heq => hnot (heq ▸ hindexed)
        rw [update_of_ne hne]
        exact hindexed
      · intro p id hp
        rw [pathTable_putFile hdead] at hp
        by_cases hpath : p = t.storedPath m
        · subst hpath
          rw [update_self, some.injEq] at hp
          exact hp ▸ ⟨r, hr, hrpath⟩
        rw [update_of_ne hpath] at hp
        obtain ⟨x, hx, hxpath⟩ := ht.entry p id hp
        have hid : id ≠ m.id := fun heq => hpath (hxpath.symm.trans (hsame x (heq ▸ hx)))
        refine ⟨x, ?_, hxpath⟩
        rw [fileTable_putFile_of_ne hdead hid, if_neg, hx]
        intro howner
        -- the owner of the stored path is stored there, not at `p`
        obtain ⟨y, hy, hypath⟩ := ht.entry _ _ howner
        rw [hx, some.injEq] at hy
        exact hpath (hxpath.symm.trans (hy ▸ hypath))

end Put

/-! ## The other operations -/

variable {t : FileTables Id}

lemma pathTable_deleteFile (t : FileTables Id) (file : FileId) (path : Option Path) (p : Path) :
    (t.deleteFile file path).pathTable p
      = if path = some p ∨ (t.fileTable file).map (·.path) = some p then none else t.pathTable p := by
  have hupdate : ∀ (f : Path → Option FileId) (q : Path), update f q none p = if q = p then none else f p := by
    intro f q
    rw [update_apply]
    simp only [eq_comm]
  unfold deleteFile
  cases hm : t.fileTable file with
  | none =>
    cases path with
    | none => simp
    | some q => simp [hupdate]
  | some m =>
    cases path with
    | none => simp [hupdate]
    | some q => by_cases hq : q = p <;> simp [hupdate, hq]

lemma inStep_deleteFile (ht : t.InStep) {file : FileId} {path : Option Path}
    (hpath : ∀ p, path = some p → t.pathTable p = none ∨ t.pathTable p = some file) : (t.deleteFile file path).InStep := by
  have hfile : ∀ id, (t.deleteFile file path).fileTable id = if id = file then none else t.fileTable id := by
    intro id
    exact update_apply ..
  constructor
  · intro id m hm
    rw [hfile] at hm
    split at hm
    · cases hm
    rename_i hid
    have hindexed := ht.indexed id m hm
    rw [pathTable_deleteFile, if_neg, hindexed]
    rintro (hp | hp)
    · rcases hpath _ hp with h | h
      · rw [hindexed] at h
        cases h
      rw [hindexed, some.injEq] at h
      exact hid h
    obtain ⟨m', hm', heq⟩ := map_eq_some_iff.mp hp
    have h := ht.indexed file m' hm'
    rw [heq, hindexed, some.injEq] at h
    exact hid h
  · intro p id hp
    rw [pathTable_deleteFile] at hp
    split at hp
    · cases hp
    rename_i hnot
    obtain ⟨m, hm, hmp⟩ := ht.entry p id hp
    have hid : id ≠ file := by
      rintro rfl
      exact hnot (.inr (by rw [hm, map_some, hmp]))
    exact ⟨m, by rw [hfile, if_neg hid, hm], hmp⟩

lemma inStep_putFilesBatch (ht : t.InStep) {tombstoned : FileId → Bool} {items : List (FileMetadata Id)}
    (h : Meets (fun t m => (t.putFile tombstoned m).1) (fun t m => PutKeepsPath t tombstoned m) t items) :
    (t.putFilesBatch tombstoned items).InStep := by
  have hstep : ∀ (t : FileTables Id) (m : FileMetadata Id), t.InStep → PutKeepsPath t tombstoned m →
      (t.putFile tombstoned m).1.InStep := fun t m ht hm => (inStep_putFile_iff ht).mpr hm
  exact invariant_run hstep ht h

variable [DecidableEq Id]

/-- No put moves its file, no delete is given another file's path, no path is taken from a file that stays. -/
def MetadataStore.KeepsPaths (s : MetadataStore Id) : StoreOp Id → Prop
  | .putFile m => PutKeepsPath s.tables s.node.tombstoned m
  | .putFilesBatch items => Transition.Meets (fun t m => (t.putFile s.node.tombstoned m).1)
      (fun t m => PutKeepsPath t s.node.tombstoned m) s.tables items
  | .deleteFileForGoodWith file path _ _ => s.tables.pathTable path = none ∨ s.tables.pathTable path = some file
  | .deletePathIndex path => s.tables.pathTable path = none
  | .deleteFile _ | .putChunkSeq .. | .putPatchStatePending .. | .updatePatchStateFolded .. => True

lemma inStep_step (s : MetadataStore Id) (a : StoreOp Id) (hs : s.tables.InStep) (ha : s.KeepsPaths a) :
    (s.step a).tables.InStep := by
  cases a with
  | putFile m => exact (inStep_putFile_iff hs).mpr ha
  | putFilesBatch items => exact inStep_putFilesBatch hs ha
  | deleteFile file =>
    show (s.tables.deleteFile file none).InStep
    exact inStep_deleteFile hs fun p hp => (nomatch hp)
  | deleteFileForGoodWith file path chunkIds scan =>
    show (s.tables.deleteFile file (some path)).InStep
    refine inStep_deleteFile hs fun p hp => ?_
    rw [← some.inj hp]
    exact ha
  | deletePathIndex path =>
    have hsame : (s.step (.deletePathIndex path)).tables = s.tables := by
      show s.tables.deletePathIndex path = s.tables
      unfold FileTables.deletePathIndex
      rw [update_eq_self_iff.mpr (Eq.symm ha)]
    rw [hsame]
    exact hs
  | putChunkSeq slot seq => exact hs
  | putPatchStatePending slot token base delta size writtenAt seq => exact hs
  | updatePatchStateFolded token real file => exact hs

/-- Paths and records are in step in every state of a run whose operations meet their conditions. -/
theorem paths_in_step (l : List (StoreOp Id))
    (h : Transition.Meets MetadataStore.step MetadataStore.KeepsPaths (MetadataStore.empty : MetadataStore Id) l) :
    (Transition.run MetadataStore.step (MetadataStore.empty : MetadataStore Id) l).tables.InStep := by
  have hempty : (MetadataStore.empty : MetadataStore Id).tables.InStep := ⟨fun _ _ hm => (nomatch hm), fun _ _ hp => (nomatch hp)⟩
  have hstep : ∀ s a, (fun s : MetadataStore Id => s.tables.InStep) s → s.KeepsPaths a →
      (fun s : MetadataStore Id => s.tables.InStep) (s.step a) := inStep_step
  exact invariant_run hstep hempty h

def emptyFile (id : FileId) (path : Path) (writeSeq : Nat) : FileMetadata Nat := ⟨id, path, 0, .regularFile, [], writeSeq⟩

theorem put_and_delete_in_step : (Transition.run MetadataStore.step (MetadataStore.empty : MetadataStore Nat)
    [.putFile (emptyFile 1 ['a'] 1), .deleteFileForGoodWith 1 ['a'] [] []]).tables.InStep := by
  refine paths_in_step _ ⟨.inr fun e he => (nomatch he), .inr ?_, trivial⟩
  decide +kernel

def renamedByPut : MetadataStore Nat := Transition.run MetadataStore.step MetadataStore.empty
  [.putFile (emptyFile 1 ['a'] 1), .putFile (emptyFile 1 ['b'] 2)]

theorem renamed_record_named_twice :
    renamedByPut.tables.pathTable ['a'] = some 1 ∧ (renamedByPut.tables.fileTable 1).map (·.path) = some ['b'] := by
  decide +kernel

/-- A put of file `2` at the first path removes file `1`, stored at the second. -/
theorem renamed_file_destroyed : (renamedByPut.tables.fileTable 1).map (·.path) = some ['b'] ∧
      (renamedByPut.tables.putFile (fun _ => false) (emptyFile 2 ['a'] 1)).1.fileTable 1 = none := by
  decide +kernel

end Dfs
