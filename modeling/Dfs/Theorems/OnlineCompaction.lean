import Dfs.Compaction
import Dfs.Theorems.PathIndex

/-! # Does an online compaction lose nothing? -/

namespace Dfs

open ShadowCopy List Function FileTables CompactionRun Transition

variable {Id : Type}

/-! ## What the writers mark -/

/-- Only its own path: the file is deleted, the record stored there, or the path stored at is the file's already. -/
def FileTables.PutMarks (t : FileTables Id) (tombstoned : FileId → Bool) (m : FileMetadata Id) : Prop :=
  tombstoned m.id = true ∨ t.storedPath m = m.path ∨ t.pathTable (t.storedPath m) = some m.id

variable {t : FileTables Id} {tombstoned : FileId → Bool} {m : FileMetadata Id} {s : MetadataStore Id}

lemma fileTable_putFile_ne {f : FileId} (h : (t.putFile tombstoned m).1.fileTable f ≠ t.fileTable f) :
    f = m.id ∨ t.oldId tombstoned m = some f := by
  by_cases hf : f = m.id
  · exact .inl hf
  right
  cases hlive : tombstoned m.id with
  | true =>
    rw [putFile_refused hlive] at h
    exact absurd rfl h
  | false =>
    rw [fileTable_putFile_of_ne hlive hf] at h
    split at h
    · rename_i howner
      unfold storedPath at howner
      simp [oldId, hlive, howner, hf]
    · exact absurd rfl h

lemma pathTable_putFile_ne (hmarks : t.PutMarks tombstoned m) {p : Path}
    (h : (t.putFile tombstoned m).1.pathTable p ≠ t.pathTable p) : p = m.path := by
  cases hlive : tombstoned m.id with
  | true =>
    rw [putFile_refused hlive] at h
    exact absurd rfl h
  | false =>
    rw [pathTable_putFile hlive] at h
    have hp : p = t.storedPath m := by
      by_contra hne
      exact h (update_of_ne hne ..)
    rcases hmarks with hdel | hsame | hown
    · rw [hlive] at hdel
      cases hdel
    · exact hp.trans hsame
    refine absurd ?_ h
    rw [hp, hown, update_self]

def FileTables.ChangedIn (t t' : FileTables Id) (keys : List FileId × List Path) : Prop :=
  (∀ f, t'.fileTable f ≠ t.fileTable f → f ∈ keys.1) ∧ ∀ p, t'.pathTable p ≠ t.pathTable p → p ∈ keys.2

lemma FileTables.ChangedIn.refl (t : FileTables Id) (keys : List FileId × List Path) : t.ChangedIn t keys :=
  ⟨fun _ h => absurd rfl h, fun _ h => absurd rfl h⟩

lemma FileTables.ChangedIn.trans {t' t'' : FileTables Id} {keys keys' : List FileId × List Path} (h : t.ChangedIn t' keys)
    (h' : t'.ChangedIn t'' keys') : t.ChangedIn t'' (keys.1 ++ keys'.1, keys.2 ++ keys'.2) := by
  constructor
  · intro f hf
    by_cases hf' : t''.fileTable f = t'.fileTable f
    · rw [hf'] at hf
      exact mem_append_left _ (h.1 f hf)
    · exact mem_append_right _ (h'.1 f hf')
  · intro p hp
    by_cases hp' : t''.pathTable p = t'.pathTable p
    · rw [hp'] at hp
      exact mem_append_left _ (h.2 p hp)
    · exact mem_append_right _ (h'.2 p hp')

lemma changedIn_putFile (hmarks : t.PutMarks tombstoned m) :
    t.ChangedIn (t.putFile tombstoned m).1 (m.id :: (t.oldId tombstoned m).toList, [m.path]) := by
  constructor
  · intro f hf
    rcases fileTable_putFile_ne hf with rfl | hold
    · exact mem_cons_self
    · exact mem_cons_of_mem _ (Option.mem_toList.mpr hold)
  · intro p hp
    rw [pathTable_putFile_ne hmarks hp]
    exact mem_singleton_self _

lemma changedIn_putFilesBatch {items : List (FileMetadata Id)}
    (h : Meets (fun t m => (putFile t tombstoned m).1) (fun t m => t.PutMarks tombstoned m) t items) :
    t.ChangedIn (t.putFilesBatch tombstoned items) (t.touchedBy tombstoned items) := by
  induction items generalizing t with
  | nil => exact .refl t _
  | cons m items ih =>
    have htrans := (changedIn_putFile h.1).trans (ih h.2)
    exact htrans

lemma changedIn_deleteFile (t : FileTables Id) (file : FileId) (path : Option Path) :
    t.ChangedIn (t.deleteFile file path) ([file], ((t.fileTable file).map (·.path)).toList ++ path.toList) := by
  constructor
  · intro f hf
    by_cases hff : f = file
    · exact List.mem_singleton.mpr hff
    · exact absurd (update_of_ne hff ..) hf
  · intro p hp
    by_contra hnot
    rw [mem_append, not_or] at hnot
    refine hp ?_
    unfold deleteFile
    have hown : ∀ m, t.fileTable file = some m → p ≠ m.path := by
      rintro m hm rfl
      exact hnot.1 (by simp [hm])
    have hgiven : ∀ p', path = some p' → p ≠ p' := by
      rintro p' rfl rfl
      exact hnot.2 (by simp)
    cases hfile : t.fileTable file with
    | none =>
      cases path with
      | none => rfl
      | some p' => exact update_of_ne (hgiven p' rfl) ..
    | some m =>
      cases path with
      | none => exact update_of_ne (hown m hfile) ..
      | some p' =>
        dsimp only
        rw [update_of_ne (hgiven p' rfl), update_of_ne (hown m hfile)]

lemma changedIn_without (t : FileTables Id) (paths : List Path) (files : List FileId) :
    t.ChangedIn (t.without paths) (files, paths) := by
  constructor
  · intro f hf
    exact absurd rfl hf
  · intro p hp
    by_contra hnot
    exact hp (if_neg hnot)

variable [DecidableEq Id]

def DbOp.MarksChanges (s : MetadataStore Id) : DbOp Id → Prop
  | .store (.putFile m) => s.tables.PutMarks s.node.tombstoned m
  | .store (.putFilesBatch items) =>
    Transition.Meets (fun t m => (FileTables.putFile t s.node.tombstoned m).1)
      (fun t m => t.PutMarks s.node.tombstoned m) s.tables items
  | .repairMissing entries => ∀ e ∈ entries, s.tables.pathTable e.1 = some e.2
  | .repairStale paths => ∀ p ∈ paths, s.tables.pathTable p = none
  | _ => True

omit [DecidableEq Id] in
lemma insertPaths_eq {entries : List (Path × FileId)} (h : ∀ e ∈ entries, t.pathTable e.1 = some e.2) :
    t.insertPaths entries = t := by
  have hfold : entries.foldl (fun (table : Path → Option FileId) e => update table e.1 (some e.2)) t.pathTable = t.pathTable := by
    induction entries with
    | nil => rfl
    | cons e entries ih =>
      rw [foldl_cons, ← h e mem_cons_self, update_eq_self]
      exact ih fun x hx => h x (mem_cons_of_mem _ hx)
  unfold insertPaths
  rw [hfold]

omit [DecidableEq Id] in
lemma without_eq {paths : List Path} (h : ∀ p ∈ paths, t.pathTable p = none) : t.without paths = t := by
  have htable : (fun p => if p ∈ paths then none else t.pathTable p) = t.pathTable := by
    funext p
    split
    · exact (h p ‹_›).symm
    · rfl
  unfold without
  rw [htable]

lemma changedIn_apply {op : DbOp Id} (h : op.MarksChanges s) : s.tables.ChangedIn (s.apply op).tables (op.touched s) := by
  cases op with
  | store op =>
    cases op with
    | putFile m => exact changedIn_putFile h
    | putFilesBatch items => exact changedIn_putFilesBatch h
    | deleteFile file =>
      simpa [DbOp.touched, MetadataStore.apply, MetadataStore.step] using changedIn_deleteFile s.tables file none
    | deleteFileForGoodWith file path chunkIds scan => exact changedIn_deleteFile s.tables file (some path)
    | deletePathIndex path =>
      refine ⟨fun f hf => absurd rfl hf, fun p hp => ?_⟩
      by_contra hnot
      exact hp (update_of_ne (fun heq => hnot (List.mem_singleton.mpr heq)) ..)
    | putChunkSeq slot seq => exact .refl _ _
    | putPatchStatePending slot token base delta size writtenAt seq => exact .refl _ _
    | updatePatchStateFolded token real file => exact .refl _ _
  | deletePatchStateAbandoned token slot => exact .refl _ _
  | repairMissing entries =>
    change s.tables.ChangedIn (s.tables.insertPaths entries) _
    rw [insertPaths_eq h]
    exact .refl _ _
  | repairStale paths =>
    change s.tables.ChangedIn (s.tables.without paths) _
    rw [without_eq h]
    exact .refl _ _
  | removeUnlistedFiles records =>
    refine ⟨fun f hf => ?_, (changedIn_without s.tables (records.map Prod.snd) []).2⟩
    by_contra hnot
    exact hf (if_neg hnot)
  | removeUnlistedPaths paths => exact changedIn_without s.tables paths []

lemma changedIn_commit {ops : List (DbOp Id)} (h : Meets MetadataStore.apply (fun s op => op.MarksChanges s) s ops) :
    s.tables.ChangedIn (s.commit ops).1.tables (s.commit ops).2 := by
  induction ops generalizing s with
  | nil => exact .refl _ _
  | cons op ops ih => exact (changedIn_apply h.1).trans (ih h.2)

/-! ## Runs -/

/-- A commit while there is a shadow database marks what it changes. -/
def CompactStep.Marks (s : CompactionRun Id) : CompactStep Id → Prop
  | .commit ops => s.shadow ≠ none → Transition.Meets MetadataStore.apply (fun s op => op.MarksChanges s) s.live ops
  | _ => True

def CompactionRun.Tracked (s : CompactionRun Id) : Prop :=
  ∀ db, s.shadow = some db → ShadowCopy.Tracked s.live.tables.fileTable db.tables.fileTable s.files ∧
    ShadowCopy.Tracked s.live.tables.pathTable db.tables.pathTable s.paths

lemma compaction_tracked_step {s : CompactionRun Id} (h : s.Tracked) {a : CompactStep Id} (ha : a.Marks s) :
    (s.step a).Tracked := by
  cases a with
  | commit ops =>
    intro db hdb
    obtain ⟨hfiles, hpaths⟩ := h db hdb
    have hdb' : s.shadow ≠ none := by
      change s.shadow = some db at hdb
      rw [hdb]
      exact nofun
    obtain ⟨hf, hp⟩ := changedIn_commit (ha hdb')
    exact ⟨hfiles.commit hf, hpaths.commit hp⟩
  | markFile i => exact fun db hdb => ⟨(h db hdb).1.mark i, (h db hdb).2⟩
  | markPath i => exact fun db hdb => ⟨(h db hdb).1, (h db hdb).2.mark i⟩
  | clearFiles => exact nofun
  | clearPaths => exact nofun
  | copyAllTables =>
    intro db hdb
    cases hdb
    exact ⟨tracked_self _ _, tracked_self _ _⟩
  | takeDirtyFiles => exact fun db hdb => ⟨(h db hdb).1.drain, (h db hdb).2⟩
  | takeDirtyPaths => exact fun db hdb => ⟨(h db hdb).1, (h db hdb).2.drain⟩
  | catchUp =>
    intro db hdb
    obtain ⟨db₀, hdb₀, rfl⟩ := Option.map_eq_some_iff.mp hdb
    exact ⟨(h db₀ hdb₀).1.catchUp, (h db₀ hdb₀).2.catchUp⟩
  | defer => exact nofun
  | finish =>
    unfold step
    cases hdb : s.shadow with
    | none => exact h
    | some db =>
      dsimp only
      split
      · exact nofun
      · exact h

omit [DecidableEq Id] in
@[simp] lemma withDatabase_database (s : MetadataStore Id) : s.withDatabase s.database = s := rfl

lemma live_finish {s : CompactionRun Id} (h : s.Tracked) : (s.step .finish).live = s.live := by
  unfold step
  cases hdb : s.shadow with
  | none => rfl
  | some db =>
    dsimp only
    split
    · rename_i hidle
      simp only [Bool.and_eq_true, List.isEmpty_iff] at hidle
      obtain ⟨⟨⟨hfp, hpp⟩, hfd⟩, hpd⟩ := hidle
      have hsame : diffAllTablesTracked s.live.database db s.files.dirty s.paths.dirty = s.live.database := by
        have hfiles : diffByKeys s.live.database.tables.fileTable db.tables.fileTable s.files.dirty = s.live.tables.fileTable :=
          (h db hdb).1.finish hfp hfd
        have hpaths : diffByKeys s.live.database.tables.pathTable db.tables.pathTable s.paths.dirty = s.live.tables.pathTable :=
          (h db hdb).2.finish hpp hpd
        unfold diffAllTablesTracked
        rw [hfiles, hpaths]
        rfl
      rw [hsame, withDatabase_database]
    · rfl

/-- Where every transaction marks what it changes, the new database has exactly what the old one had. -/
theorem compaction_loses_nothing (live : MetadataStore Id) (l : List (CompactStep Id))
    (h : Transition.Meets CompactionRun.step (fun s a => a.Marks s) (CompactionRun.start live) l) :
    Transition.Meets CompactionRun.step (fun s a => a = .finish → (s.step a).live = s.live) (CompactionRun.start live) l := by
  have hstart : (start live).Tracked := nofun
  refine meets_of_invariant ?_ ?_ hstart h
  · rintro s a hs - rfl
    exact live_finish hs
  · intro s a hs ha
    exact compaction_tracked_step hs ha

def compactedFile (path : Path) (writeSeq : Nat) : FileMetadata Nat := ⟨1, path, 0, .regularFile, [], writeSeq⟩

theorem put_during_compaction_kept : Transition.Meets CompactionRun.step (fun s a => a = .finish → (s.step a).live = s.live)
      (CompactionRun.start (MetadataStore.empty : MetadataStore Nat))
      [.clearFiles, .clearPaths, .copyAllTables, .commit [.store (.putFile (compactedFile ['a'] 1))], .takeDirtyFiles,
        .markFile 0,
        .catchUp, .markPath 0, .finish] := by
  refine compaction_loses_nothing _ _ ?_
  simp [Meets, CompactStep.Marks, DbOp.MarksChanges, PutMarks, storedPath, step,
    start, MetadataStore.empty, empty, mergeFileMetadata]

def unindexedStore : MetadataStore Nat where
  node := Node.empty
  tables := ⟨fun f => if f = 1 then some (compactedFile ['a'] 5) else none, fun _ => none⟩

/-- Of that store, up to the last phase, with a commit in between. -/
def compactedAround (op : DbOp Nat) : CompactionRun Nat :=
  Transition.run CompactionRun.step (CompactionRun.start unindexedStore)
    [.clearFiles, .clearPaths, .copyAllTables, .commit [op], .markFile 0, .markPath 0, .takeDirtyFiles, .takeDirtyPaths, .catchUp]

/-- What `repair_path_index` or a stale put makes during a compaction is gone after it. -/
theorem repaired_entry_lost :
    let lost (s : CompactionRun Nat) := s.live.tables.pathTable ['a'] = some 1 ∧
      (s.step .finish).live.tables.pathTable ['a'] = none
    lost (compactedAround (.repairMissing [(['a'], 1)])) ∧
      lost (compactedAround (.store (.putFile (compactedFile ['b'] 3)))) := by
  decide

end Dfs
