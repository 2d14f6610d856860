import Dfs.Lemmas.RenameEffect

/-!
# The stages of a rename

A rename stores the record (`Starts`) or answers an error; with the old entry removed (`entryMoved`) it goes over the
scan, and ends as `finishRename_cases` says.
-/

namespace Dfs

open List Option FileTables RenameEnv

variable {Id : Type} {t t' : FileTables Id} {tombstoned : FileId → Bool} {m : FileMetadata Id} {id : FileId} {o n p : Path}

def FileTables.resolve (t : FileTables Id) (p : Path) : Option FileId := (t.getFileByPath p).map (·.id)

def below (dir rest : Path) : Path := dir ++ '/' :: rest

def InSubtree (dir p : Path) : Prop := p = dir ∨ ∃ rest, p = below dir rest

/-- The subtree at `o` is moved to `n`, in place of what was there. -/
def SubtreeMoved (before after : Path → Option FileId) (o n : Path) : Prop :=
  ∀ p id, after p = some id ↔ (p = n ∧ before o = some id) ∨ (∃ rest, p = below n rest ∧ before (below o rest) = some id) ∨
    (¬InSubtree n p ∧ ¬InSubtree o p ∧ before p = some id)

def RenameCorrect (t t' : FileTables Id) (o n : Path) : RenameResponse → Prop
  | .ok => SubtreeMoved t.resolve t'.resolve o n
  | .error .. => t'.resolve = t.resolve

def ProperPath (p : Path) : Prop := p.getLast? ≠ some '/'

/-- Proper paths, and nothing below an entry that is no directory. -/
structure FileTables.Tree (t : FileTables Id) (tombstoned : FileId → Bool) : Prop extends t.Consistent tombstoned where
  proper : ∀ {p id}, t.pathTable p = some id → ProperPath p
  leaf : ∀ {id m}, t.fileTable id = some m → m.fileType ≠ .directory → ∀ rest, t.pathTable (below m.path rest) = none

/-- The scan meets every path that the table has or gets, once. -/
structure RenameEnv.Scans (env : RenameEnv) (t : FileTables Id) (n : Path) : Prop where
  nodup : env.keys.Nodup
  complete : ∀ {p}, p = n ∨ t.pathTable p ≠ none → p ∈ env.keys

structure RenameEnv.Starts (env : RenameEnv) (t : FileTables Id) (o : Path) (m : FileMetadata Id) : Prop where
  lookup : env.lookupError = none
  reread : env.rereadError = none
  record : t.getFileByPath o = some m
  put : env.putError m.id = none

lemma FileTables.Tree.directory {r : Path} (ht : t.Tree tombstoned) (hm : t.fileTable id = some m)
    (h : t.pathTable (below m.path r) ≠ none) : m.fileType = .directory := by
  by_contra hd
  exact h (ht.leaf hm hd r)

/-! ## Paths -/

lemma below_ne_self (dir rest : Path) : below dir rest ≠ dir := by
  intro h
  have := congrArg length h
  simp [below] at this

lemma below_inj {dir r r' : Path} (h : below dir r = below dir r') : r = r' := by
  simpa [below] using h

lemma dirPrefix_append (h : ProperPath p) (rest : Path) : dirPrefix p ++ rest = below p rest := by
  have htrim : trimEndSlash p = p := by
    refine rdropWhile_eq_self_iff.mpr fun hne hlast => h ?_
    rw [getLast?_eq_some_getLast hne]
    exact congrArg some (beq_iff_eq.mp hlast)
  rw [dirPrefix, htrim, below, append_assoc]
  rfl

lemma dirPrefix_isPrefix_iff (h : ProperPath p) {q : Path} : dirPrefix p <+: q ↔ ∃ rest, q = below p rest := by
  constructor
  · rintro ⟨rest, rfl⟩
    exact ⟨rest, dirPrefix_append h rest⟩
  · rintro ⟨rest, rfl⟩
    exact ⟨rest, dirPrefix_append h rest⟩

variable {l : FileMetadata Id}

lemma mem_listSubtree (h : ProperPath o) {keys : List Path} :
    l ∈ t.listSubtree keys o ↔ ∃ rest, below o rest ∈ keys ∧ t.getFileByPath (below o rest) = some l := by
  unfold listSubtree
  rw [if_neg h]
  simp only [mem_filterMap, List.mem_filter, isPrefixOf_iff_prefix]
  constructor
  · rintro ⟨q, ⟨hq, rest, rfl⟩, hl⟩
    rw [append_assoc] at hq hl
    exact ⟨rest, hq, hl⟩
  · rintro ⟨rest, hq, hl⟩
    exact ⟨below o rest, ⟨hq, rest, by rw [append_assoc]; rfl⟩, hl⟩

/-! ## What paths resolve to -/

lemma resolve_eq_some (hids : ∀ {id m}, t.fileTable id = some m → m.id = id) :
    t.resolve p = some id ↔ t.pathTable p = some id ∧ t.fileTable id ≠ none := by
  unfold resolve getFileByPath
  cases hp : t.pathTable p with
  | none => simp
  | some id' =>
    cases hm : t.fileTable id' with
    | none =>
      simp only [bind_some, hm, map_none, reduceCtorEq, some.injEq, false_iff, not_and]
      rintro rfl
      exact fun h => h hm
    | some m =>
      simp only [bind_some, hm, map_some, some.injEq, hids hm]
      constructor
      · rintro rfl
        exact ⟨rfl, by simp [hm]⟩
      · exact fun h => h.1

lemma FileTables.Consistent.resolve_eq (ht : t.Consistent tombstoned) : t.resolve = t.pathTable := by
  funext p
  refine ext fun id => ?_
  rw [resolve_eq_some ht.ids]
  refine ⟨fun h => h.1, fun h => ⟨h, ?_⟩⟩
  obtain ⟨m, hm, -⟩ := ht.entry h
  rw [hm]
  exact some_ne_none _

lemma FileTables.Consistent.path_eq (ht : t.Consistent tombstoned) (hm : t.fileTable id = some m) (hp : t.pathTable p = some id) :
    p = m.path := by
  obtain ⟨m', hm', rfl⟩ := ht.entry hp
  rw [some.inj (hm.symm.trans hm')]

/-! ## The stages -/

section Stages

variable {env : RenameEnv}

lemma RenameEnv.Starts.pathTable (ht : t.Tree tombstoned) (h : env.Starts t o m) :
    t.pathTable o = some m.id ∧ t.fileTable m.id = some m ∧ m.path = o := by
  obtain ⟨id, hid, hm⟩ := bind_eq_some_iff.mp h.record
  obtain rfl := ht.ids hm
  exact ⟨hid, hm, (ht.path_eq hm hid).symm⟩

lemma handleRenameFile_of_not_starts (tombstoned : FileId → Bool) (n : Path) (h : ∀ m, ¬env.Starts t o m) :
    ∃ message code, env.handleRenameFile tombstoned t o n = (t, .error message code) := by
  unfold handleRenameFile
  cases hlookup : env.lookupError with
  | some e => exact ⟨_, _, rfl⟩
  | none =>
    cases hrecord : t.getFileByPath o with
    | none => exact ⟨_, _, rfl⟩
    | some m =>
      cases hreread : env.rereadError with
      | some e => exact ⟨_, _, rfl⟩
      | none =>
        cases hput : env.putError m.id with
        | some e =>
          dsimp only
          rw [hput]
          exact ⟨_, _, rfl⟩
        | none => exact absurd ⟨hlookup, hreread, hrecord, hput⟩ (h m)

lemma RenameEnv.Starts.handleRenameFile (ht : t.Tree tombstoned) (h : env.Starts t o m) (n : Path) :
    env.handleRenameFile tombstoned t o n = env.finishRename tombstoned (t.relocate m n) m.fileType o n := by
  obtain ⟨-, hm, -⟩ := h.pathTable ht
  unfold RenameEnv.handleRenameFile
  simp only [h.lookup, h.record, h.reread, h.put]
  rw [show maxRenameStaleRetries = 4 + 1 from rfl, putRetrying_eq_relocate ht.toFiled hm]

/-- The record is under the new path, and the old entry removed if it could be. -/
def RenameEnv.entryMoved (env : RenameEnv) (t : FileTables Id) (m : FileMetadata Id) (o n : Path) : FileTables Id :=
  if (env.deleteError o).isSome then t.relocate m n else (t.relocate m n).deletePathIndex o

abbrev RenameEnv.listed (env : RenameEnv) (t : FileTables Id) (m : FileMetadata Id) (o n : Path) : List (FileMetadata Id) :=
  (env.entryMoved t m o n).listSubtree env.keys o

def RenameEnv.listedIds (env : RenameEnv) (t : FileTables Id) (m : FileMetadata Id) (o n : Path) : List FileId :=
  (env.listed t m o n).map (·.id)

/-- The loop of the rename of `m`, over the files `ids`. -/
abbrev RenameEnv.MovesBelow (env : RenameEnv) (t : FileTables Id) (m : FileMetadata Id) (o n : Path) :=
  Moves env (dirPrefix o) (dirPrefix n) (env.entryMoved t m o n)

lemma renameDescendants_eq (t : FileTables Id) (hlist : env.listError = none) : env.renameDescendants tombstoned t o n =
      match env.moveDescendants tombstoned (dirPrefix o) (dirPrefix n) t (t.listSubtree env.keys o) with
      | (t, .error e) => (t, .error e)
      | (t, .ok oldPaths) => env.deletePathIndexes t oldPaths := by
  unfold renameDescendants
  simp only [hlist]
  split
  · rename_i hempty
    rw [isEmpty_iff.mp hempty]
    rfl
  · rfl

lemma finishRename_eq : env.finishRename tombstoned (t.relocate m n) m.fileType o n =
    if m.fileType = .directory then match env.renameDescendants tombstoned (env.entryMoved t m o n) o n with
      | (t, .error e) => (t, .error ("Renamed directory but failed to move its contents: " ++ e) .internalError)
      | (t, .ok ()) => (t, .ok)
    else (env.entryMoved t m o n, .ok) := rfl

lemma finishRename_cases {r : RenameResponse} (ht : (env.entryMoved t m o n).Filed tombstoned)
    (h : env.finishRename tombstoned (t.relocate m n) m.fileType o n = (t', r)) :
    (∃ ids t3 ps, r = .ok ∧ env.MovesBelow t m o n ids t3 ps ∧ t' = t3.without ps ∧
        (∀ p ∈ ps, env.deleteError p = none) ∧ (m.fileType = .directory → env.listError = none ∧ ids = env.listedIds t m o n) ∧
        (m.fileType ≠ .directory → ids = [])) ∨ (∃ e c ids ps, r = .error e c ∧ m.fileType = .directory ∧
        env.MovesBelow t m o n ids t' ps ∧ ids <+: env.listedIds t m o n ∧
        (env.listError ≠ none ∨ ∃ l ∈ env.listed t m o n,
          env.getError l.id ≠ none ∨ env.putError l.id ≠ none)) ∨
      ∃ e c t3 ps q rest, r = .error e c ∧ m.fileType = .directory ∧ env.listError = none ∧
        env.MovesBelow t m o n (env.listedIds t m o n) t3 (ps ++ q :: rest) ∧
        t' = t3.without ps ∧ (∀ p ∈ ps, env.deleteError p = none) ∧ env.deleteError q ≠ none := by
  rw [finishRename_eq] at h
  split at h
  · rename_i hdir
    cases hdesc : env.renameDescendants tombstoned (env.entryMoved t m o n) o n with
    | mk t4 r4 =>
      rw [hdesc] at h
      cases hlist : env.listError with
      | some e =>
        simp only [renameDescendants, hlist] at hdesc
        cases hdesc
        cases h
        exact .inr (.inl ⟨_, _, [], [], rfl, hdir, .nil _, nil_prefix, .inl (some_ne_none _)⟩)
      | none =>
        rw [renameDescendants_eq _ hlist] at hdesc
        cases hloop : env.moveDescendants tombstoned (dirPrefix o) (dirPrefix n) (env.entryMoved t m o n)
            (env.listed t m o n) with
        | mk t3 r3 =>
          rw [hloop] at hdesc
          rcases moveDescendants_cases ht hloop with ⟨ps, rfl, hmoves⟩ | ⟨e, done, ps, rfl, hdone, hmoves, hfault⟩
          · obtain ⟨removed, rfl, hremoved, ⟨rfl, rfl⟩ | ⟨e, q, rest, rfl, rfl, hq⟩⟩ := deletePathIndexes_cases hdesc
            · cases h
              exact .inl ⟨_, t3, removed, rfl, hmoves, rfl, hremoved, fun _ => ⟨rfl, rfl⟩, fun hne => absurd hdir hne⟩
            cases h
            exact .inr (.inr ⟨_, _, t3, removed, q, rest, rfl, hdir, rfl, hmoves, rfl, hremoved, hq⟩)
          cases hdesc
          cases h
          exact .inr (.inl ⟨_, _, done, ps, rfl, hdir, hmoves, hdone, .inr hfault⟩)
  · rename_i hdir
    cases h
    exact .inl ⟨[], _, [], rfl, .nil _, (without_nil _).symm, by simp, fun hd => absurd hd hdir, fun _ => rfl⟩

lemma entryMoved_of_fault (h : env.deleteError o ≠ none) : env.entryMoved t m o n = t.relocate m n :=
  if_pos (isSome_iff_ne_none.mpr h)

lemma fileTable_entryMoved : (env.entryMoved t m o n).fileTable = (t.relocate m n).fileTable := by
  unfold entryMoved
  split <;> rfl

lemma pathTable_entryMoved_of_ne (hp : p ≠ o) : (env.entryMoved t m o n).pathTable p = (t.relocate m n).pathTable p := by
  unfold entryMoved
  split
  · rfl
  · exact Function.update_of_ne hp ..

end Stages

section EntryMoved

variable {env : RenameEnv}

section

variable (ht : t.Tree tombstoned) (hstart : env.Starts t o m)

include ht hstart

lemma entryMoved_filed : (env.entryMoved t m o n).Filed tombstoned := by
  have hfiled := ht.toFiled.relocate (p := n) (hstart.pathTable ht).2.1
  exact ⟨fun h => hfiled.ids (fileTable_entryMoved ▸ h), fun h => hfiled.live (fileTable_entryMoved ▸ h)⟩

lemma entryMoved_entry (hp : p ≠ o) (h : (env.entryMoved t m o n).pathTable p = some id) :
    ∃ l, (env.entryMoved t m o n).fileTable id = some l ∧ l.path = p := by
  obtain ⟨ho, hm, hpath⟩ := hstart.pathTable ht
  rw [pathTable_entryMoved_of_ne hp] at h
  rw [fileTable_entryMoved]
  rcases eq_or_ne p n with rfl | hpn
  · rw [pathTable_relocate_self] at h
    cases h
    exact ⟨_, fileTable_relocate_self, rfl⟩
  rw [pathTable_relocate_of_ne hpn] at h
  obtain ⟨l, hl, rfl⟩ := ht.entry h
  have hid : id ≠ m.id := by
    rintro rfl
    exact hp ((ht.path_eq hm h).trans hpath)
  refine ⟨l, ?_, rfl⟩
  rw [fileTable_relocate_of_ne hid, if_neg, hl]
  exact fun hn => hpn (ht.path_eq hl hn).symm

lemma entryMoved_kept (hp : p ≠ o) (hpn : p ≠ n) (h : t.pathTable p = some id) :
    (env.entryMoved t m o n).pathTable p = some id ∧ ∃ l, (env.entryMoved t m o n).fileTable id = some l ∧ l.path = p := by
  have hpath : (env.entryMoved t m o n).pathTable p = some id := by
    rw [pathTable_entryMoved_of_ne hp, pathTable_relocate_of_ne hpn]
    exact h
  exact ⟨hpath, entryMoved_entry ht hstart hp hpath⟩

end

lemma mem_listed (ht : t.Tree tombstoned) (hstart : env.Starts t o m) (hl : l ∈ env.listed t m o n) :
    ∃ rest, l.path = below o rest ∧ (env.entryMoved t m o n).pathTable (below o rest) = some l.id ∧
      (env.entryMoved t m o n).fileTable l.id = some l := by
  obtain ⟨ho, hm, hpath⟩ := hstart.pathTable ht
  obtain ⟨rest, -, hrecord⟩ := (mem_listSubtree (ht.proper ho)).mp hl
  obtain ⟨id, hid, hl'⟩ := bind_eq_some_iff.mp hrecord
  obtain rfl := (entryMoved_filed ht hstart).ids hl'
  obtain ⟨l', hl'', hlpath⟩ := entryMoved_entry ht hstart (below_ne_self o rest) hid
  obtain rfl := some.inj (hl'.symm.trans hl'')
  exact ⟨rest, hlpath, hid, hl'⟩

lemma mem_listedIds (ht : t.Tree tombstoned) (hstart : env.Starts t o m) (hscan : env.Scans t n) {rest : Path}
    (h : (env.entryMoved t m o n).pathTable (below o rest) = some id) : id ∈ env.listedIds t m o n := by
  obtain ⟨ho, hm, hpath⟩ := hstart.pathTable ht
  obtain ⟨l, hl, -⟩ := entryMoved_entry ht hstart (below_ne_self o rest) h
  have hkey : below o rest ∈ env.keys := by
    refine hscan.complete ?_
    by_cases hn : below o rest = n
    · exact .inl hn
    rw [pathTable_entryMoved_of_ne (below_ne_self o rest), pathTable_relocate_of_ne hn] at h
    exact .inr (by simp [h])
  refine mem_map.mpr ⟨l, (mem_listSubtree (ht.proper ho)).mpr ⟨rest, hkey, ?_⟩, (entryMoved_filed ht hstart).ids hl⟩
  rw [getFileByPath, h]
  exact hl

lemma listed_nodup (ht : t.Tree tombstoned) (hstart : env.Starts t o m) (hscan : env.Scans t n) :
    ((env.listed t m o n).map (·.path)).Nodup ∧ (env.listedIds t m o n).Nodup := by
  obtain ⟨ho, hm, hpath⟩ := hstart.pathTable ht
  -- two keys of the scan list records with their own paths
  have hkeys : (env.listed t m o n).Pairwise fun l l' => l.path ≠ l'.path := by
    unfold listed listSubtree
    rw [if_neg (ht.proper ho)]
    refine pairwise_filterMap.mpr ((hscan.nodup.filter _).imp_of_mem ?_)
    intro q q' hq hq' hne l hl l' hl'
    have hown : ∀ {q : Path} {l : FileMetadata Id}, q ∈ env.keys.filter (o ++ ['/']).isPrefixOf →
        (env.entryMoved t m o n).getFileByPath q = some l → l.path = q := by
      intro q l hq hl
      obtain ⟨rest, rfl⟩ := isPrefixOf_iff_prefix.mp (List.mem_filter.mp hq).2
      obtain ⟨id, hid, hrecord⟩ := bind_eq_some_iff.mp hl
      have hne : o ++ ['/'] ++ rest ≠ o := by
        rw [append_assoc]
        exact below_ne_self o rest
      obtain ⟨l', hl', hlpath⟩ := entryMoved_entry ht hstart hne hid
      rw [some.inj (hrecord.symm.trans hl'), hlpath]
    rw [hown hq hl, hown hq' hl']
    exact hne
  refine ⟨pairwise_map.mpr hkeys, pairwise_map.mpr (hkeys.imp_of_mem ?_)⟩
  intro l l' hl hl' hne hid
  obtain ⟨-, -, -, hrecord⟩ := mem_listed ht hstart hl
  obtain ⟨-, -, -, hrecord'⟩ := mem_listed ht hstart hl'
  rw [hid, hrecord'] at hrecord
  exact hne (congrArg FileMetadata.path (some.inj hrecord).symm)

lemma entryMoved_sound (ht : t.Tree tombstoned) (hstart : env.Starts t o m) (hne : n ≠ o) :
    (env.entryMoved t m o n).Sound tombstoned := by
  obtain ⟨ho, hm, rfl⟩ := hstart.pathTable ht
  unfold entryMoved
  split
  · exact ht.toSound.relocate hm
  · exact (ht.relocate_delete hm hne).1.toSound

lemma pathTable_entryMoved_new (hne : n ≠ o) : (env.entryMoved t m o n).pathTable n = some m.id := by
  rw [pathTable_entryMoved_of_ne hne]
  exact pathTable_relocate_self

end EntryMoved

end Dfs
