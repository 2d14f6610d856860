import Dfs.Lemmas.RenameStages

/-!
# Does a rename move exactly the subtree?

Success should mean all is moved and nothing left of what was there, an error that nothing changed.
`rename_subtree_iff` says when.
-/

namespace Dfs

open List Option Relocate FileTables RenameEnv

variable {Id : Type} {t t' : FileTables Id} {tombstoned : FileId → Bool} {m : FileMetadata Id} {id : FileId} {o n p : Path}

/-- No call fails, no directory is moved below itself, nothing below it to where another entry was. -/
structure RenameEnv.Clear (env : RenameEnv) (t : FileTables Id) (m : FileMetadata Id) (o n : Path) : Prop where
  ne : n ≠ o
  removes : env.deleteError o = none
  outside : m.fileType = .directory → ∀ rest, n ≠ below o rest
  lists : m.fileType = .directory → env.listError = none
  calm : ∀ {rest id}, t.pathTable (below o rest) = some id →
    env.getError id = none ∧ env.putError id = none ∧ env.deleteError (below o rest) = none
  apart : ∀ {r r'}, t.pathTable (below o r) ≠ none → t.pathTable (below o r') ≠ none → below o r ≠ below n r'

/-- Of an entry to itself: the store fails each time before a removal. -/
def RenameEnv.SelfStays (env : RenameEnv) (t : FileTables Id) (m : FileMetadata Id) (o : Path) : Prop :=
  env.deleteError o ≠ none ∧ (m.fileType = .directory → env.listError ≠ none ∨
    (∃ l ∈ t.listSubtree env.keys o, env.getError l.id ≠ none ∨ env.putError l.id ≠ none) ∨
    ∀ l, (t.listSubtree env.keys o).head? = some l → env.deleteError l.path ≠ none)

/-- Whatever was below the new path is replaced, or moved itself. -/
def FileTables.Covered (t : FileTables Id) (o n : Path) : Prop :=
  ∀ rest, t.pathTable (below n rest) ≠ none → ¬InSubtree o (below n rest) → t.pathTable (below o rest) ≠ none

/-! ## To another path -/

lemma resolve_without_eq_some (ht : t.Filed tombstoned) {ps : List Path} :
    (t.without ps).resolve p = some id ↔ p ∉ ps ∧ t.pathTable p = some id ∧ t.fileTable id ≠ none := by
  rw [resolve_eq_some (t := t.without ps) ht.ids]
  simp only [without]
  constructor
  · rintro ⟨hp, hid⟩
    split at hp
    · cases hp
    rename_i hmem
    exact ⟨hmem, hp, hid⟩
  · rintro ⟨hmem, hp, hid⟩
    rw [if_neg hmem]
    exact ⟨hp, hid⟩

variable {removed : List Path} {before after : Path → Option FileId}

section Another

variable {env : RenameEnv} {ids : List FileId} {t3 : FileTables Id} {ps : List Path}

lemma resolve_ne_of_moves (ht : t.Tree tombstoned) (hstart : env.Starts t o m) (hne : n ≠ o)
    (hmoves : env.MovesBelow t m o n ids t3 ps) : t3.resolve ≠ t.resolve := by
  intro hsame
  obtain ⟨ho, hm, rfl⟩ := hstart.pathTable ht
  have hfiled := entryMoved_filed (n := n) ht hstart
  have hfiled3 := hmoves.filed hfiled
  have hpresent : t3.fileTable m.id ≠ none := by
    have hold : t3.resolve m.path = some m.id := by
      rw [hsame, ht.resolve_eq]
      exact ho
    exact ((resolve_eq_some hfiled3.ids).mp hold).2
  have hnew : t3.pathTable n = some m.id := (hmoves.entry hfiled (pathTable_entryMoved_new hne)).resolve_right hpresent
  have hresolve : t3.resolve n = some m.id := (resolve_eq_some hfiled3.ids).mpr ⟨hnew, hpresent⟩
  rw [hsame, ht.resolve_eq] at hresolve
  exact hne (ht.path_eq hm hresolve)

lemma resolve_without_ne_of_moves (ht : t.Tree tombstoned) (hstart : env.Starts t o m) (hscan : env.Scans t n)
    (hn : ProperPath n) (hne : n ≠ o)
    (hmoves : env.MovesBelow t m o n (env.listedIds t m o n) t3 ps)
    (hremoved : removed ⊆ ps) : (t3.without removed).resolve ≠ t.resolve := by
  intro hsame
  obtain ⟨ho, hm, hpath⟩ := hstart.pathTable ht
  have hsound := entryMoved_sound ht hstart hne
  have hnodup := (listed_nodup ht hstart hscan).2
  have hsound3 := hmoves.sound hsound
  -- every file still has a record, and the file that was renamed resolves at no path but the old one
  have hpresent : ∀ {id l}, t.fileTable id = some l → t3.fileTable id ≠ none := by
    intro id l hl
    have hold : (t3.without removed).resolve l.path = some id := by
      rw [hsame, ht.resolve_eq]
      exact ht.indexed hl
    exact ((resolve_without_eq_some hsound3.toFiled).mp hold).2.2
  have honly : ∀ {p}, p ≠ o → t3.pathTable p = some m.id → p ∈ removed := by
    intro p hp hentry
    by_contra hmem
    have hresolve := (resolve_without_eq_some hsound3.toFiled).mpr ⟨hmem, hentry, hpresent hm⟩
    rw [hsame, ht.resolve_eq] at hresolve
    exact hp ((ht.path_eq hm hresolve).trans hpath)
  have hnew : t3.pathTable n = some m.id := (hmoves.entry hsound.toFiled (pathTable_entryMoved_new hne)).resolve_right
    (hpresent hm)
  -- so the entry at the new path was removed: it was listed, and moved on
  obtain ⟨id, hid, l, rest, hl, hln, hnrest⟩ := hmoves.mem_paths hsound.toFiled hnodup (hremoved (honly hne hnew))
  have hentry := hsound.indexed hl
  rw [hln, pathTable_entryMoved_new hne] at hentry
  cases hentry
  obtain ⟨-, -, m3, hm3, hpath3⟩ := hmoves.moved hsound.toFiled hnodup hid hl (hln.trans hnrest) (hpresent hm)
  rw [dirPrefix_append hn] at hpath3
  rw [dirPrefix_append (ht.proper ho)] at hnrest
  have hlonger : below n rest ≠ o := by
    rw [hnrest]
    intro h
    have := congrArg length h
    simp [below] at this
  have hagain : t3.pathTable (below n rest) = some m.id := hpath3 ▸ hsound3.indexed hm3
  -- and the entry where it is now was removed too: that of another file, which then lost its record
  obtain ⟨id', -, l', -, hl', hln', -⟩ := hmoves.mem_paths hsound.toFiled hnodup (hremoved (honly hlonger hagain))
  have hentry' := hsound.indexed hl'
  rw [hln'] at hentry'
  have hpresent' : t3.fileTable id' ≠ none := by
    rw [fileTable_entryMoved] at hl'
    rcases fileTable_relocate_cases hl' with ⟨rfl, -⟩ | ⟨hold, -⟩
    · exact hpresent hm
    · exact hpresent hold
  have hsame' := (hmoves.entry hsound.toFiled hentry').resolve_right hpresent'
  obtain rfl : id' = m.id := some.inj (hsame'.symm.trans hagain)
  obtain rfl := some.inj (hl.symm.trans hl')
  exact below_ne_self n rest (hln'.symm.trans hln)

lemma clear_of_subtreeMoved (ht : t.Tree tombstoned) (hstart : env.Starts t o m) (hscan : env.Scans t n) (hne : n ≠ o)
    (hmoves : env.MovesBelow t m o n ids t3 ps) (hps : ∀ p ∈ ps, env.deleteError p = none)
    (hdir : m.fileType = .directory → env.listError = none ∧ ids = env.listedIds t m o n)
    (hfile : m.fileType ≠ .directory → ids = []) (h : SubtreeMoved t.resolve (t3.without ps).resolve o n) :
    env.Clear t m o n := by
  obtain ⟨ho, hm, hpath⟩ := hstart.pathTable ht
  have hproper := ht.proper ho
  have hfiled := entryMoved_filed (n := n) ht hstart
  have hfiled3 := hmoves.filed hfiled
  have hnodup : ids.Nodup := by
    by_cases hd : m.fileType = .directory
    · rw [(hdir hd).2]
      exact (listed_nodup ht hstart hscan).2
    rw [hfile hd]
    exact nodup_nil
  unfold SubtreeMoved at h
  rw [ht.resolve_eq] at h
  have hnew : (t3.without ps).resolve n = some m.id := (h n m.id).mpr (.inl ⟨rfl, ho⟩)
  obtain ⟨hnps, -, hpresent⟩ := (resolve_without_eq_some hfiled3).mp hnew
  -- an entry that is left at the old path would still name the file
  have hremoves : env.deleteError o = none := by
    by_contra hfault
    have hold : (env.entryMoved t m o n).pathTable o = some m.id := by
      rw [entryMoved_of_fault hfault, pathTable_relocate_of_ne hne.symm]
      exact ho
    have hops : o ∉ ps := by
      intro hmem
      obtain ⟨-, -, -, rest, -, -, hrest⟩ := hmoves.mem_paths hfiled hnodup hmem
      rw [dirPrefix_append hproper] at hrest
      exact below_ne_self o rest hrest.symm
    have hresolve := (resolve_without_eq_some hfiled3).mpr ⟨hops, (hmoves.entry hfiled hold).resolve_right hpresent, hpresent⟩
    rcases (h o m.id).mp hresolve with ⟨hon, -⟩ | ⟨rest, -, hrest⟩ | ⟨-, hout, -⟩
    · exact hne hon.symm
    · exact below_ne_self o rest ((ht.path_eq hm hrest).trans hpath)
    · exact hout (.inl rfl)
  have houtside : m.fileType = .directory → ∀ rest, n ≠ below o rest := by
    rintro hd rest rfl
    have hentry : (env.entryMoved t m o (below o rest)).pathTable (below o rest) = some m.id := pathTable_entryMoved_new hne
    obtain ⟨l, hl, hln⟩ := entryMoved_entry ht hstart hne hentry
    have hid : m.id ∈ ids := by
      rw [(hdir hd).2]
      exact mem_listedIds ht hstart hscan hentry
    have hmoved := hmoves.moved hfiled hnodup hid hl (hln.trans (dirPrefix_append hproper rest).symm) hpresent
    exact hnps (hln ▸ hmoved.1)
  -- everything below a directory was moved
  have hmoved : ∀ {rest id}, t.pathTable (below o rest) = some id → below o rest ∈ ps ∧ env.putError id = none ∧ id ∈ ids := by
    intro rest id hentry
    have hd := ht.directory (r := rest) hm (by simp [hpath, hentry])
    obtain ⟨hentry2, l, hl, hlpath⟩ := entryMoved_kept ht hstart (below_ne_self o rest) (houtside hd rest).symm hentry
    have hid : id ∈ ids := by
      rw [(hdir hd).2]
      exact mem_listedIds ht hstart hscan hentry2
    have hend := ((resolve_without_eq_some hfiled3).mp ((h (below n rest) id).mpr (.inr (.inl ⟨rest, rfl, hentry⟩)))).2.2
    obtain ⟨hmem, hput, -⟩ := hmoves.moved hfiled hnodup hid hl (hlpath.trans (dirPrefix_append hproper rest).symm) hend
    exact ⟨hlpath ▸ hmem, hput, hid⟩
  refine ⟨hne, hremoves, houtside, fun hd => (hdir hd).1, fun {rest id} hentry => ?_, fun {r r'} hr hr' hmeet => ?_⟩
  · obtain ⟨hmem, hput, hid⟩ := hmoved hentry
    exact ⟨hmoves.getError id hid, hput, hps _ hmem⟩
  · obtain ⟨id, hid⟩ := ne_none_iff_exists'.mp hr
    obtain ⟨id', hid'⟩ := ne_none_iff_exists'.mp hr'
    have hresolve := (h (below n r') id').mpr (.inr (.inl ⟨r', rfl, hid'⟩))
    exact ((resolve_without_eq_some hfiled3).mp hresolve).1 (hmeet ▸ (hmoved hid).1)

def SubtreeMoves (t : FileTables Id) (o n : Path) (l : List (Path × Path)) : Prop :=
  Relocate.Apart l ∧ ∀ x, x ∈ l ↔ ∃ rest, x = (below o rest, below n rest) ∧ t.pathTable (below o rest) ≠ none

lemma movedPath_below (ho : ProperPath o) (hn : ProperPath n) (rest : Path) :
    movedPath (dirPrefix o) (dirPrefix n) (below o rest) = below n rest := by
  rw [movedPath, ← dirPrefix_append ho, drop_left, dirPrefix_append hn]

lemma RenameEnv.Clear.entryMoved (ht : t.Tree tombstoned) (hstart : env.Starts t o m) (h : env.Clear t m o n) :
    (env.entryMoved t m o n).Consistent tombstoned ∧ (env.entryMoved t m o n).pathTable = moveEntry t.pathTable o n := by
  obtain ⟨ho, hm, rfl⟩ := hstart.pathTable ht
  have hmoved : env.entryMoved t m m.path n = (t.relocate m n).deletePathIndex m.path := by
    rw [RenameEnv.entryMoved, h.removes]
    rfl
  rw [hmoved]
  exact ht.relocate_delete hm h.ne

lemma RenameEnv.Clear.listed (ht : t.Tree tombstoned) (hstart : env.Starts t o m) (h : env.Clear t m o n)
    (hdir : m.fileType = .directory) {l : FileMetadata Id} (hl : l ∈ env.listed t m o n) :
    ∃ rest, l.path = below o rest ∧ t.pathTable (below o rest) = some l.id ∧ (env.entryMoved t m o n).fileTable l.id =
      some l := by
  obtain ⟨rest, hlpath, hentry, hrecord⟩ := mem_listed ht hstart hl
  rw [(h.entryMoved ht hstart).2, moveEntry_of_ne (h.outside hdir rest).symm (below_ne_self o rest)] at hentry
  exact ⟨rest, hlpath, hentry, hrecord⟩

section

variable (ht : t.Tree tombstoned) (hstart : env.Starts t o m) (hscan : env.Scans t n) (hn : ProperPath n) (h : env.Clear t m o n)

include ht hstart hscan hn h

lemma RenameEnv.Clear.subtreeMoves (hdir : m.fileType = .directory) :
    SubtreeMoves t o n ((env.listed t m o n).map
      fun l => (l.path, movedPath (dirPrefix o) (dirPrefix n) l.path)) := by
  obtain ⟨ho, hm, hpath⟩ := hstart.pathTable ht
  have hnew := movedPath_below (ht.proper ho) hn
  have hnodup := (listed_nodup ht hstart hscan).1
  refine ⟨⟨fun x hx y hy => ?_, ?_, ?_⟩, fun x => ⟨fun hx => ?_, ?_⟩⟩
  · obtain ⟨l, hl, rfl⟩ := mem_map.mp hx
    obtain ⟨l', hl', rfl⟩ := mem_map.mp hy
    obtain ⟨r, hlpath, hentry, -⟩ := h.listed ht hstart hdir hl
    obtain ⟨r', hlpath', hentry', -⟩ := h.listed ht hstart hdir hl'
    rw [hlpath, hlpath', hnew]
    exact (h.apart (by simp [hentry]) (by simp [hentry'])).symm
  · rw [List.map_map]
    exact hnodup
  · rw [List.map_map]
    refine pairwise_map.mpr ((pairwise_map.mp hnodup).imp_of_mem ?_)
    intro l l' hl hl' hne hsame
    obtain ⟨r, hlpath, -⟩ := h.listed ht hstart hdir hl
    obtain ⟨r', hlpath', -⟩ := h.listed ht hstart hdir hl'
    simp only [Function.comp_apply, hlpath, hlpath', hnew] at hsame
    exact hne (by rw [hlpath, hlpath', below_inj hsame])
  · obtain ⟨l, hl, rfl⟩ := mem_map.mp hx
    obtain ⟨rest, hlpath, hentry, -⟩ := h.listed ht hstart hdir hl
    exact ⟨rest, by rw [hlpath, hnew], by simp [hentry]⟩
  rintro ⟨rest, rfl, hentry⟩
  obtain ⟨id, hid⟩ := ne_none_iff_exists'.mp hentry
  obtain ⟨hentry2, l, hl, hlpath⟩ := entryMoved_kept ht hstart (below_ne_self o rest) (h.outside hdir rest).symm hid
  obtain ⟨l', hl', hid'⟩ := mem_map.mp (mem_listedIds ht hstart hscan hentry2)
  obtain ⟨-, -, -, hrecord⟩ := h.listed ht hstart hdir hl'
  rw [hid', hl] at hrecord
  cases hrecord
  exact mem_map.mpr ⟨l, hl', by rw [hlpath, hnew]⟩

lemma RenameEnv.Clear.finishRename : ∃ t' l, env.finishRename tombstoned (t.relocate m n) m.fileType o n = (t', .ok) ∧
      t'.Consistent tombstoned ∧ SubtreeMoves t o n l ∧ t'.pathTable = moveEntries (moveEntry t.pathTable o n) l := by
  obtain ⟨ho, hm, hpath⟩ := hstart.pathTable ht
  obtain ⟨hcons, htable⟩ := h.entryMoved ht hstart
  rw [finishRename_eq]
  by_cases hd : m.fileType = .directory
  · have hmoves := h.subtreeMoves ht hstart hscan hn hd
    obtain ⟨t3, hloop, hcons3, htable3⟩ := moveDescendants_apart (t := env.entryMoved t m o n) (by rwa [without_nil])
      (fun l hl => (h.listed ht hstart hd hl).choose_spec.2.2)
      (fun l hl => (dirPrefix_isPrefix_iff (ht.proper ho)).mpr ⟨_, (h.listed ht hstart hd hl).choose_spec.1⟩)
      (fun l hl => by
        obtain ⟨rest, -, hentry, -⟩ := h.listed ht hstart hd hl
        exact ⟨(h.calm hentry).1, (h.calm hentry).2.1⟩)
      (fun l hl => not_mem_nil) hmoves.1
    rw [nil_append] at hcons3 htable3
    rw [if_pos hd, renameDescendants_eq _ (h.lists hd), hloop]
    cases hdel : env.deletePathIndexes t3 ((env.listed t m o n).map (·.path)) with
    | mk t4 r4 =>
      obtain ⟨removed, rfl, -, ⟨rfl, rfl⟩ | ⟨e, q, rest, rfl, hq, hfault⟩⟩ := deletePathIndexes_cases hdel
      · refine ⟨_, _, ?_, hcons3, hmoves, by rw [htable3, without_nil, htable]⟩
        dsimp only
        rw [hdel]
      have hmem : q ∈ (env.listed t m o n).map (·.path) := by
        rw [hq]
        exact mem_append_right _ (.head _)
      obtain ⟨l, hl, rfl⟩ := mem_map.mp hmem
      obtain ⟨rest, hlpath, hentry, -⟩ := h.listed ht hstart hd hl
      rw [hlpath] at hfault
      exact absurd (h.calm hentry).2.2 hfault
  · refine ⟨_, [], by rw [if_neg hd], hcons, ⟨⟨by simp, nodup_nil, nodup_nil⟩, fun x => ?_⟩, htable⟩
    refine ⟨fun h => absurd h not_mem_nil, ?_⟩
    rintro ⟨rest, rfl, hentry⟩
    exact absurd (ht.directory hm (hpath.symm ▸ hentry)) hd

end

/-- At and below the new path what was moved, nothing at or below the old one, the rest as before. -/
structure Outcome (before after : Path → Option FileId) (o n : Path) : Prop where
  root : after n = before o
  moved : ∀ {rest id}, before (below o rest) = some id → after (below n rest) = some id
  gone : ∀ {p}, p ≠ n → (∀ rest, p = below n rest → before (below o rest) = none) → InSubtree o p → after p = none
  kept : ∀ {p}, p ≠ n → (∀ rest, p = below n rest → before (below o rest) = none) → ¬InSubtree o p → after p = before p

lemma SubtreeMoves.outcome {l : List (Path × Path)} (hne : n ≠ o)
    (hout : ∀ rest, t.pathTable (below o rest) ≠ none → below o rest ≠ n)
    (hl : SubtreeMoves t o n l) : Outcome t.pathTable (moveEntries (moveEntry t.pathTable o n) l) o n := by
  obtain ⟨hapart, hmem⟩ := hl
  -- a path that no move concerns
  have hother : ∀ {p}, (∀ rest, p = below o rest → t.pathTable (below o rest) = none) →
      (∀ rest, p = below n rest → t.pathTable (below o rest) = none) →
      moveEntries (moveEntry t.pathTable o n) l p = moveEntry t.pathTable o n p := by
    intro p hold hnew
    refine moveEntries_of_ne fun x hx => ?_
    obtain ⟨rest, rfl, hentry⟩ := (hmem x).mp hx
    exact ⟨fun h => hentry (hold rest h), fun h => hentry (hnew rest h)⟩
  refine ⟨?_, fun {rest id} hid => ?_, fun {p} hpn hnew hp => ?_, fun {p} hpn hnew hp => ?_⟩
  · rw [hother, moveEntry_new]
    · intro rest h
      by_contra hentry
      exact hout rest hentry h.symm
    · exact fun rest h => absurd h.symm (below_ne_self n rest)
  · have hentry : t.pathTable (below o rest) ≠ none := by
      rw [hid]
      exact some_ne_none _
    have hx := moveEntries_new (f := moveEntry t.pathTable o n) hapart ((hmem _).mpr ⟨rest, rfl, hentry⟩)
    rw [hx, moveEntry_of_ne (hout rest hentry) (below_ne_self o rest)]
    exact hid
  · by_cases hentry : ∃ rest, p = below o rest ∧ t.pathTable (below o rest) ≠ none
    · obtain ⟨rest, rfl, hentry⟩ := hentry
      exact moveEntries_old hapart ((hmem _).mpr ⟨rest, rfl, hentry⟩)
    have hold : ∀ rest, p = below o rest → t.pathTable (below o rest) = none := by
      intro rest h
      by_contra h'
      exact hentry ⟨rest, h, h'⟩
    rw [hother hold hnew]
    rcases hp with rfl | ⟨rest, rfl⟩
    · exact moveEntry_old hne.symm
    rw [moveEntry_of_ne hpn (below_ne_self o rest)]
    exact hold rest rfl
  · rw [hother (fun rest h => absurd (.inr ⟨rest, h⟩) hp) hnew]
    exact moveEntry_of_ne hpn fun h => hp (.inl h)

lemma Outcome.subtreeMoved_iff (h : Outcome before after o n) : SubtreeMoved before after o n ↔
      ∀ rest, before (below n rest) ≠ none → ¬InSubtree o (below n rest) → before (below o rest) ≠ none := by
  have hinj : ∀ {rest : Path}, before (below o rest) = none → ∀ r, below n rest = below n r → before (below o r) = none := by
    intro rest hnone r hr
    rwa [← below_inj hr]
  constructor
  · intro hmoved rest hentry hout hnone
    obtain ⟨id, hid⟩ := ne_none_iff_exists'.mp hentry
    have hkept := h.kept (below_ne_self n rest) (hinj hnone) hout
    rcases (hmoved (below n rest) id).mp (hkept.trans hid) with ⟨hn, -⟩ | ⟨r, hr, hid'⟩ | ⟨hnot, -⟩
    · exact below_ne_self n rest hn
    · rw [hinj hnone r hr] at hid'
      cases hid'
    · exact hnot (.inr ⟨rest, rfl⟩)
  · intro hcovered p id
    rcases eq_or_ne p n with rfl | hpn
    · rw [h.root]
      constructor
      · exact fun ho => .inl ⟨rfl, ho⟩
      · rintro (⟨-, ho⟩ | ⟨rest, hp, -⟩ | ⟨hnot, -⟩)
        · exact ho
        · exact absurd hp.symm (below_ne_self p rest)
        · exact absurd (.inl rfl) hnot
    by_cases hbelow : ∃ rest, p = below n rest
    · obtain ⟨rest, rfl⟩ := hbelow
      have hrhs : (below n rest = n ∧ before o = some id ∨ (∃ r, below n rest = below n r ∧ before (below o r) = some id) ∨
          ¬InSubtree n (below n rest) ∧ ¬InSubtree o (below n rest) ∧ before (below n rest) = some id) ↔
          before (below o rest) = some id := by
        constructor
        · rintro (⟨hn, -⟩ | ⟨r, hr, hid⟩ | ⟨hnot, -⟩)
          · exact absurd hn hpn
          · rwa [below_inj hr]
          · exact absurd (.inr ⟨rest, rfl⟩) hnot
        · exact fun hid => .inr (.inl ⟨rest, rfl, hid⟩)
      rw [hrhs]
      cases hentry : before (below o rest) with
      | some id' => rw [h.moved hentry]
      | none =>
        have hnone : after (below n rest) = none := by
          by_cases hin : InSubtree o (below n rest)
          · exact h.gone hpn (hinj hentry) hin
          rw [h.kept hpn (hinj hentry) hin]
          by_contra hleft
          exact hcovered rest hleft hin hentry
        rw [hnone]
    · have hnew : ∀ rest, p = below n rest → before (below o rest) = none := fun rest hp => absurd ⟨rest, hp⟩ hbelow
      have hnot : ¬InSubtree n p := fun hp => hp.elim hpn hbelow
      by_cases hin : InSubtree o p
      · rw [h.gone hpn hnew hin]
        constructor
        · intro hid
          cases hid
        · rintro (⟨hp, -⟩ | ⟨rest, hp, -⟩ | ⟨-, hout, -⟩)
          · exact absurd hp hpn
          · exact absurd ⟨rest, hp⟩ hbelow
          · exact absurd hin hout
      rw [h.kept hpn hnew hin]
      constructor
      · exact fun hid => .inr (.inr ⟨hnot, hin, hid⟩)
      · rintro (⟨hp, -⟩ | ⟨rest, hp, -⟩ | ⟨-, -, hid⟩)
        · exact absurd hp hpn
        · exact absurd ⟨rest, hp⟩ hbelow
        · exact hid

end Another

/-! ## To the same path -/

section Same

variable {env : RenameEnv} {ids : List FileId} {t3 : FileTables Id} {ps : List Path}

lemma subtreeMoved_self_iff : SubtreeMoved before after o o ↔ after = before := by
  have hall : ∀ p id, before p = some id ↔ (p = o ∧ before o = some id) ∨
    (∃ rest, p = below o rest ∧ before (below o rest) = some id) ∨
      (¬InSubtree o p ∧ ¬InSubtree o p ∧ before p = some id) := by
    intro p id
    constructor
    · intro hid
      by_cases hin : InSubtree o p
      · rcases hin with rfl | ⟨rest, rfl⟩
        · exact .inl ⟨rfl, hid⟩
        · exact .inr (.inl ⟨rest, rfl, hid⟩)
      · exact .inr (.inr ⟨hin, hin, hid⟩)
    · rintro (⟨rfl, hid⟩ | ⟨rest, rfl, hid⟩ | ⟨-, -, hid⟩)
      · exact hid
      · exact hid
      · exact hid
  constructor
  · intro h
    funext p
    exact ext fun id => (h p id).trans (hall p id).symm
  · rintro rfl
    exact hall

lemma renameCorrect_self_iff (r : RenameResponse) : RenameCorrect t t' o o r ↔ t'.resolve = t.resolve := by
  cases r with
  | ok => exact subtreeMoved_self_iff
  | error => exact Iff.rfl

lemma Moves.head_paths {pre new : Path} {listed : List (FileMetadata Id)}
    (hlisted : ∀ l ∈ listed, t.fileTable l.id = some l ∧ ∃ rest, l.path = pre ++ rest)
    (h : Moves env pre new t (listed.map (·.id)) t' ps) : ps.head? = listed.head?.map (·.path) := by
  cases listed with
  | nil =>
    cases h
    rfl
  | cons l listed =>
    obtain ⟨hl, rest, hrest⟩ := hlisted l (.head _)
    cases h with
    | skip _ hout _ => exact absurd hrest (hout l hl rest)
    | move _ _ hm _ _ =>
      obtain rfl := some.inj (hl.symm.trans hm)
      rfl

lemma relocate_same (ht : t.Sound tombstoned) (hm : t.fileTable m.id = some m) :
    (t.relocate m m.path).pathTable = t.pathTable ∧ ∀ id, id ≠ m.id → (t.relocate m m.path).fileTable id = t.fileTable id := by
  constructor
  · funext p
    rcases eq_or_ne p m.path with rfl | hp
    · rw [pathTable_relocate_self, ht.indexed hm]
    · exact pathTable_relocate_of_ne hp
  · intro id hid
    rw [fileTable_relocate_of_ne hid, if_neg]
    rw [ht.indexed hm]
    exact fun h => hid (some.inj h).symm

def FileTables.SameNames (t t' : FileTables Id) : Prop :=
  t'.pathTable = t.pathTable ∧ ∀ id, t'.fileTable id = none ↔ t.fileTable id = none

lemma relocate_sameNames (ht : t.Sound tombstoned) (hm : t.fileTable m.id = some m) : t.SameNames (t.relocate m m.path) := by
  obtain ⟨hpath, hfile⟩ := relocate_same ht hm
  refine ⟨hpath, fun id => ?_⟩
  rcases eq_or_ne id m.id with rfl | hid
  · rw [fileTable_relocate_self, hm]
    simp
  · rw [hfile id hid]

lemma Moves.sameNames {pre : Path} (h : Moves env pre pre t ids t' ps) (ht : t.Sound tombstoned) : t.SameNames t' := by
  induction h with
  | nil => exact ⟨rfl, fun _ => Iff.rfl⟩
  | skip _ _ _ ih => exact ih ht
  | move _ _ hm hpath _ ih =>
    rw [← ht.ids hm] at hm
    rw [← hpath] at ih
    obtain ⟨hpaths, hfiles⟩ := relocate_sameNames ht hm
    obtain ⟨hpaths', hfiles'⟩ := ih (ht.relocate hm)
    exact ⟨hpaths'.trans hpaths, fun id => (hfiles' id).trans (hfiles id)⟩

lemma FileTables.SameNames.resolve_eq (h : t.SameNames t') (ht : t.Filed tombstoned) (ht' : t'.Filed tombstoned) :
    t'.resolve = t.resolve := by
  funext p
  refine ext fun id => ?_
  rw [resolve_eq_some ht.ids, resolve_eq_some ht'.ids, h.1, ne_eq, ne_eq, h.2 id]

lemma resolve_ne_of_removed (ht : t.Tree tombstoned) (hstart : env.Starts t o m) (hremoves : env.deleteError o = none)
    (hproper : ProperPath o) (hmoves : env.MovesBelow t m o o ids t3 ps) (removed : List Path) :
    (t3.without removed).resolve ≠ t.resolve := by
  obtain ⟨ho, hm, hpath⟩ := hstart.pathTable ht
  have hentry : (env.entryMoved t m o o).pathTable o = none := by
    rw [entryMoved, hremoves]
    exact Function.update_self ..
  have hgone : t3.pathTable o = none := by
    rw [hmoves.outside, hentry]
    intro rest h
    rw [dirPrefix_append hproper] at h
    exact below_ne_self o rest h.symm
  intro hsame
  have hresolve : (t3.without removed).resolve o = some m.id := by
    rw [hsame, ht.resolve_eq]
    exact ho
  have hfiled3 := hmoves.filed (entryMoved_filed ht hstart)
  rw [((resolve_without_eq_some hfiled3).mp hresolve).2.1] at hgone
  cases hgone

section

variable (ht : t.Tree tombstoned) (hstart : env.Starts t o m)

include ht hstart

lemma resolve_without_eq_iff (hfault : env.deleteError o ≠ none) (hnodup : ids.Nodup)
    (hmoves : env.MovesBelow t m o o ids t3 ps) (hremoved : removed ⊆ ps) :
    (t3.without removed).resolve = t.resolve ↔ removed = [] := by
  obtain ⟨ho, hm, rfl⟩ := hstart.pathTable ht
  rw [MovesBelow, entryMoved_of_fault hfault] at hmoves
  have hsound := ht.toSound.relocate (p := m.path) hm
  have hnames := relocate_sameNames ht.toSound hm
  have hnames3 := hmoves.sameNames hsound
  constructor
  · intro hsame
    refine eq_nil_iff_forall_not_mem.mpr fun p hp => ?_
    obtain ⟨id, -, l, -, hl, rfl, -⟩ := hmoves.mem_paths hsound.toFiled hnodup (hremoved hp)
    have hentry := hsound.indexed hl
    rw [hnames.1] at hentry
    have hresolve : (t3.without removed).resolve l.path = some id := by
      rw [hsame, ht.resolve_eq]
      exact hentry
    exact ((resolve_without_eq_some (hmoves.filed hsound.toFiled)).mp hresolve).1 hp
  · rintro rfl
    rw [without_nil, hnames3.resolve_eq hsound.toFiled (hmoves.filed hsound.toFiled)]
    exact hnames.resolve_eq ht.toFiled hsound.toFiled

lemma listed_self (hfault : env.deleteError o ≠ none) : env.listed t m o o = t.listSubtree env.keys o := by
  obtain ⟨ho, hm, rfl⟩ := hstart.pathTable ht
  obtain ⟨hpaths, hfiles⟩ := relocate_same ht.toSound hm
  unfold listed
  rw [entryMoved_of_fault hfault]
  unfold listSubtree
  rw [if_neg (ht.proper ho)]
  refine filterMap_congr fun q hq => ?_
  obtain ⟨rest, rfl⟩ := isPrefixOf_iff_prefix.mp (List.mem_filter.mp hq).2
  unfold getFileByPath
  rw [hpaths]
  cases hentry : t.pathTable (m.path ++ ['/'] ++ rest) with
  | none => rfl
  | some id =>
    refine hfiles id ?_
    rintro rfl
    have hself := ht.path_eq hm hentry
    rw [append_assoc] at hself
    exact below_ne_self m.path rest hself

lemma resolve_without_iff_selfStays (hscan : env.Scans t o) (hremoves : env.deleteError o ≠ none)
    (hdir : m.fileType = .directory) (hlistError : env.listError = none)
    (hmoves : env.MovesBelow t m o o (env.listedIds t m o o) t3 ps)
    (hpart : removed <+: ps) (hcalm : ∀ p ∈ removed, env.deleteError p = none)
    (hrest : removed = ps ∨ ∃ q rest, ps = removed ++ q :: rest ∧ env.deleteError q ≠ none) :
    (t3.without removed).resolve = t.resolve ↔ env.SelfStays t m o := by
  obtain ⟨ho, hm, -⟩ := hstart.pathTable ht
  have hnodup := (listed_nodup ht hstart hscan).2
  have hlist := listed_self ht hstart hremoves
  have hlisted : ∀ l ∈ t.listSubtree env.keys o, (env.entryMoved t m o o).fileTable l.id = some l ∧
      ∃ rest, l.path = dirPrefix o ++ rest := by
    intro l hl
    obtain ⟨rest, hlpath, -, hrecord⟩ := mem_listed ht hstart (hlist ▸ hl)
    exact ⟨hrecord, rest, hlpath.trans (dirPrefix_append (ht.proper ho) rest).symm⟩
  have hids : env.listedIds t m o o = (t.listSubtree env.keys o).map (·.id) := congrArg (map _) hlist
  have hhead := (hids ▸ hmoves).head_paths hlisted
  rw [resolve_without_eq_iff ht hstart hremoves hnodup hmoves hpart.subset]
  constructor
  · rintro rfl
    refine ⟨hremoves, fun _ => .inr (.inr fun l hl => ?_)⟩
    rw [hl] at hhead
    rcases hrest with rfl | ⟨q, rest, rfl, hq⟩
    · cases hhead
    cases hhead
    exact hq
  · intro hstays
    rcases hstays.2 hdir with hfault | ⟨l, hl, hfault⟩ | hfirst
    · exact absurd hlistError hfault
    · have hid : l.id ∈ env.listedIds t m o o := hids ▸ mem_map_of_mem hl
      obtain ⟨hrecord, rest, hlpath⟩ := hlisted l hl
      have hsound : (env.entryMoved t m o o).Sound tombstoned := by
        rw [entryMoved_of_fault hremoves]
        exact ht.toSound.relocate hm
      have hend : t3.fileTable l.id ≠ none := by
        rw [ne_eq, (hmoves.sameNames hsound).2 l.id, hrecord]
        exact some_ne_none _
      have hfiled := entryMoved_filed (n := o) ht hstart
      rcases hfault with hfault | hfault
      · exact absurd (hmoves.getError l.id hid) hfault
      · exact absurd (hmoves.moved hfiled hnodup hid hrecord hlpath hend).2.1 hfault
    · cases removed with
      | nil => rfl
      | cons p removed =>
        obtain ⟨rest, rfl⟩ := hpart
        obtain ⟨l, hl, hlpath⟩ := map_eq_some_iff.mp hhead.symm
        exact absurd (hlpath ▸ hcalm p (.head _)) (hfirst l hl)

lemma rename_self_iff (hscan : env.Scans t o) {r : RenameResponse}
    (h : env.finishRename tombstoned (t.relocate m o) m.fileType o o = (t', r)) :
    t'.resolve = t.resolve ↔ env.SelfStays t m o := by
  obtain ⟨ho, hm, hpath⟩ := hstart.pathTable ht
  have hfiled := entryMoved_filed (n := o) ht hstart
  have hcases := finishRename_cases hfiled h
  by_cases hremoves : env.deleteError o = none
  · -- the entry is removed, and nothing brings it back
    refine iff_of_false ?_ fun hstays => hstays.1 hremoves
    rcases hcases with ⟨ids, t3, ps, -, hmoves, rfl, -⟩ | ⟨-, -, ids, ps, -, -, hmoves, -⟩ |
      ⟨-, -, t3, ps, q, rest, -, -, -, hmoves, rfl, -⟩
    · exact resolve_ne_of_removed ht hstart hremoves (ht.proper ho) hmoves ps
    · exact without_nil t' ▸ resolve_ne_of_removed ht hstart hremoves (ht.proper ho) hmoves []
    · exact resolve_ne_of_removed ht hstart hremoves (ht.proper ho) hmoves ps
  have hnodup := (listed_nodup ht hstart hscan).2
  have hlist := listed_self ht hstart hremoves
  rcases hcases with ⟨ids, t3, ps, -, hmoves, rfl, hcalm, hdir, hfile⟩ | ⟨-, -, ids, ps, -, hdir, hmoves, hdone, hfault⟩ |
    ⟨-, -, t3, ps, q, rest, -, hdir, hlistError, hmoves, rfl, hcalm, hq⟩
  · by_cases hd : m.fileType = .directory
    · obtain ⟨hlistError, rfl⟩ := hdir hd
      exact resolve_without_iff_selfStays ht hstart hscan hremoves hd hlistError hmoves prefix_rfl hcalm (.inl rfl)
    obtain rfl := hfile hd
    cases hmoves
    exact iff_of_true ((resolve_without_eq_iff ht hstart hremoves nodup_nil (.nil _) (List.Subset.refl _)).mpr rfl)
      ⟨hremoves, fun hd' => absurd hd' hd⟩
  · refine iff_of_true ?_ ⟨hremoves, fun _ => hfault.elim .inl fun h => .inr (.inl (hlist ▸ h))⟩
    rw [← without_nil t']
    exact (resolve_without_eq_iff ht hstart hremoves (hdone.sublist.nodup hnodup) hmoves (nil_subset _)).mpr rfl
  exact resolve_without_iff_selfStays ht hstart hscan hremoves hdir hlistError hmoves (prefix_append _ _) hcalm
    (.inr ⟨q, rest, rfl, hq⟩)

end

end Same

/-- A rename is correct exactly if it does not store the record, or goes through to a path with nothing else below, or
is to itself and the store fails before each removal. -/
theorem rename_subtree_iff (env : RenameEnv) (tombstoned : FileId → Bool) (t : FileTables Id) (ht : t.Tree tombstoned)
    (o n : Path)
    (hn : ProperPath n) (hscan : env.Scans t n) :
    RenameCorrect t (env.handleRenameFile tombstoned t o n).1 o n (env.handleRenameFile tombstoned t o n).2 ↔
      ∀ m, env.Starts t o m → (env.Clear t m o n ∧ t.Covered o n) ∨ (n = o ∧ env.SelfStays t m o) := by
  by_cases hstarts : ∃ m, env.Starts t o m
  · obtain ⟨m, hstart⟩ := hstarts
    have hall : (∀ m, env.Starts t o m → (env.Clear t m o n ∧ t.Covered o n) ∨ (n = o ∧ env.SelfStays t m o)) ↔
        (env.Clear t m o n ∧ t.Covered o n) ∨ (n = o ∧ env.SelfStays t m o) := by
      refine ⟨fun h => h m hstart, fun h m' hstart' => ?_⟩
      obtain rfl := some.inj (hstart.record.symm.trans hstart'.record)
      exact h
    rw [hall, hstart.handleRenameFile ht]
    obtain ⟨ho, hm, hpath⟩ := hstart.pathTable ht
    rcases eq_or_ne n o with rfl | hne
    · cases hfinish : env.finishRename tombstoned (t.relocate m n) m.fileType n n with
      | mk t' r =>
        rw [renameCorrect_self_iff, rename_self_iff ht hstart hscan hfinish]
        exact ⟨fun h => .inr ⟨rfl, h⟩, fun h => h.elim (fun hc => absurd rfl hc.1.ne) (·.2)⟩
    have hcovered : ∀ hclear : env.Clear t m o n,
      RenameCorrect t (env.finishRename tombstoned (t.relocate m n) m.fileType o n).1 o n
        (env.finishRename tombstoned (t.relocate m n) m.fileType o n).2 ↔ t.Covered o n := by
      intro hclear
      obtain ⟨t', l, hfinish, hcons, hl, htable⟩ := hclear.finishRename ht hstart hscan hn
      rw [hfinish]
      show SubtreeMoved t.resolve t'.resolve o n ↔ _
      rw [ht.resolve_eq, hcons.resolve_eq, htable]
      refine (hl.outcome hne fun rest hentry => ?_).subtreeMoved_iff
      exact (hclear.outside (ht.directory hm (hpath.symm ▸ hentry)) rest).symm
    constructor
    · intro hcorrect
      refine .inl ?_
      have hclear : env.Clear t m o n := by
        cases hfinish : env.finishRename tombstoned (t.relocate m n) m.fileType o n with
        | mk t' r =>
          rw [hfinish] at hcorrect
          rcases finishRename_cases (entryMoved_filed ht hstart) hfinish with
            ⟨ids, t3, ps, rfl, hmoves, rfl, hps, hdir, hfile⟩ | ⟨e, c, ids, ps, rfl, -, hmoves, -⟩ |
            ⟨e, c, t3, ps, q, rest, rfl, -, -, hmoves, rfl, -⟩
          · exact clear_of_subtreeMoved ht hstart hscan hne hmoves hps hdir hfile hcorrect
          · exact absurd hcorrect (resolve_ne_of_moves ht hstart hne hmoves)
          · exact absurd hcorrect (resolve_without_ne_of_moves ht hstart hscan hn hne hmoves (subset_append_left _ _))
      exact ⟨hclear, (hcovered hclear).mp hcorrect⟩
    · rintro (⟨hclear, hc⟩ | ⟨hself, -⟩)
      · exact (hcovered hclear).mpr hc
      · exact absurd hself hne
  · have hnone : ∀ m, ¬env.Starts t o m := fun m hm => hstarts ⟨m, hm⟩
    obtain ⟨message, code, hfail⟩ := handleRenameFile_of_not_starts tombstoned n hnone
    rw [hfail]
    exact iff_of_true rfl fun m hm => absurd hm (hnone m)

/-! ## Small namespaces -/

abbrev NameEntry := Path × FileId × FileType

def entryTables (l : List NameEntry) : FileTables Id where
  fileTable id := (l.find? (·.2.1 = id)).map fun e => ⟨id, e.1, 0, e.2.2, [], 1⟩
  pathTable p := (l.find? (·.1 = p)).map (·.2.1)

/-- Paths and files are their own, the paths proper, and only directories have entries below. -/
def TreeEntries (l : List NameEntry) : Prop :=
  (∀ e ∈ l, ∀ e' ∈ l, e.1 = e'.1 ∨ e.2.1 = e'.2.1 → e = e') ∧ (∀ e ∈ l, ProperPath e.1) ∧
    ∀ e ∈ l, ∀ e' ∈ l, e.2.2 ≠ .directory → ¬e.1 ++ ['/'] <+: e'.1

instance (p : Path) : Decidable (ProperPath p) := inferInstanceAs (Decidable (_ ≠ _))

instance (l : List NameEntry) : Decidable (TreeEntries l) := inferInstanceAs (Decidable (_ ∧ _ ∧ _))

variable {l : List NameEntry}

lemma find?_key_iff {α β : Type} [DecidableEq β] (key : α → β) {l : List α} {a : α}
    (h : ∀ a ∈ l, ∀ a' ∈ l, key a = key a' → a = a') : l.find? (key · = key a) = some a ↔ a ∈ l := by
  refine ⟨mem_of_find?_eq_some, fun ha => ?_⟩
  cases hfind : l.find? (key · = key a) with
  | none => simpa using find?_eq_none.mp hfind a ha
  | some b => rw [h b (mem_of_find?_eq_some hfind) a ha (by simpa using find?_some hfind)]

lemma entryTables_fileTable (hl : TreeEntries l) :
    (entryTables l : FileTables Id).fileTable id = some m ↔ (m.path, id, m.fileType) ∈ l ∧
    m = ⟨id, m.path, 0, m.fileType, [], 1⟩ := by
  have hfind (e : NameEntry) := find?_key_iff (fun e : NameEntry => e.2.1) (a := e) fun a ha b hb h => hl.1 a ha b hb (.inr h)
  unfold entryTables
  rw [map_eq_some_iff]
  constructor
  · rintro ⟨e, he, rfl⟩
    obtain rfl : e.2.1 = id := by simpa using find?_some he
    exact ⟨mem_of_find?_eq_some he, rfl⟩
  · rintro ⟨hmem, hm⟩
    exact ⟨_, (hfind _).mpr hmem, hm.symm⟩

lemma entryTables_pathTable (hl : TreeEntries l) :
    (entryTables l : FileTables Id).pathTable p = some id ↔ ∃ fileType, (p, id, fileType) ∈ l := by
  have hfind (e : NameEntry) := find?_key_iff (fun e : NameEntry => e.1) (a := e) fun a ha b hb h => hl.1 a ha b hb (.inl h)
  unfold entryTables
  rw [map_eq_some_iff]
  constructor
  · rintro ⟨e, he, rfl⟩
    obtain rfl : e.1 = p := by simpa using find?_some he
    exact ⟨e.2.2, mem_of_find?_eq_some he⟩
  · rintro ⟨fileType, hmem⟩
    exact ⟨_, (hfind _).mpr hmem, rfl⟩

lemma entryTables_tree (hl : TreeEntries l) : (entryTables l : FileTables Id).Tree fun _ => false where
  ids h := by
    rw [((entryTables_fileTable hl).mp h).2]
  live _ := rfl
  indexed h := (entryTables_pathTable hl).mpr ⟨_, ((entryTables_fileTable hl).mp h).1⟩
  entry h := by
    obtain ⟨fileType, hmem⟩ := (entryTables_pathTable hl).mp h
    exact ⟨⟨_, _, 0, fileType, [], 1⟩, (entryTables_fileTable hl).mpr ⟨hmem, rfl⟩, rfl⟩
  proper h := by
    obtain ⟨fileType, hmem⟩ := (entryTables_pathTable hl).mp h
    exact hl.2.1 _ hmem
  leaf h hfile rest := by
    refine eq_none_iff_forall_ne_some.mpr fun id hid => ?_
    obtain ⟨fileType, hmem⟩ := (entryTables_pathTable hl).mp hid
    refine hl.2.2 _ ((entryTables_fileTable hl).mp h).1 _ hmem hfile ⟨rest, ?_⟩
    rw [append_assoc]
    rfl

def pathOf (names : List Char) : Path := names.flatMap fun c => ['/', c]

def keysInUse : List Path :=
  [['a'], ['a', 'b'], ['a', 'b', 'b'], ['a', 'b', 'b', 'b'], ['a', 'x'], ['b'], ['b', 'x'], ['b', 'y']].map pathOf

def calmRename : RenameEnv where
  keys := keysInUse
  lookupError := none
  rereadError := none
  putError _ := none
  deleteError _ := none
  listError := none
  getError _ := none
  recheckError _ := none

def oneFile : List NameEntry := [(pathOf ['a'], 1, .regularFile)]

def oneDirectory : List NameEntry := [(pathOf ['a'], 1, .directory), (pathOf ['a', 'x'], 2, .regularFile)]

def twoDirectories : List NameEntry := oneDirectory ++ [(pathOf ['b'], 3, .directory), (pathOf ['b', 'y'], 4, .regularFile)]

def nestedDirectories : List NameEntry := [(pathOf ['a'], 1, .directory), (pathOf ['a', 'b'], 2, .directory),
  (pathOf ['a', 'b', 'b'], 3, .directory), (pathOf ['a', 'b', 'b', 'b'], 4, .regularFile)]

def renameIn (env : RenameEnv) (l : List NameEntry) (o n : List Char) : FileTables Nat × RenameResponse :=
  env.handleRenameFile (fun _ => false) (entryTables l) (pathOf o) (pathOf n)

theorem directory_renamed :
    RenameCorrect (entryTables oneDirectory) (renameIn calmRename oneDirectory ['a'] ['b']).1 (pathOf ['a']) (pathOf ['b'])
      (renameIn calmRename oneDirectory ['a'] ['b']).2 := by
  have hentries : TreeEntries oneDirectory := by decide
  have hentry : ∀ {p id}, (entryTables oneDirectory : FileTables Nat).pathTable p = some id →
      p = ['/', 'a'] ∨ p = ['/', 'a', '/', 'x'] := by
    intro p id h
    obtain ⟨fileType, hmem⟩ := (entryTables_pathTable hentries).mp h
    rcases mem_cons.mp hmem with hp | hmem
    · exact .inl (congrArg Prod.fst hp)
    · exact .inr (congrArg Prod.fst (List.mem_singleton.mp hmem))
  refine (rename_subtree_iff calmRename (fun _ => false) (entryTables oneDirectory) (entryTables_tree hentries) (pathOf ['a'])
    (pathOf ['b']) (by decide) ⟨by decide, fun {p} hp => ?_⟩).mpr
    fun m hstart => .inl ⟨⟨by decide, rfl, fun _ rest h => ?_, fun _ => rfl, fun _ => ⟨rfl, rfl, rfl⟩, fun _ _ h => ?_⟩, ?_⟩
  · rcases hp with rfl | hp
    · decide
    obtain ⟨id, hid⟩ := ne_none_iff_exists'.mp hp
    rcases hentry hid with rfl | rfl <;> decide
  · simp [pathOf, below] at h
  · simp [pathOf, below] at h
  intro rest hleft
  obtain ⟨id, hid⟩ := ne_none_iff_exists'.mp hleft
  rcases hentry hid with h | h <;> simp [pathOf, below] at h

/-- `mv /a /a` succeeds and `/a` is gone, so with `mv /a /a/b`; `mv /a /b` leaves `/b/y`; `mv /a/b /a` loses `/a/b/b`;
an old entry that cannot be removed still resolves; and an error leaves `/a` as `/b`. -/
theorem rename_goes_wrong :
    let undeletable := { calmRename with deleteError := fun _ => some "io" }
    let unwritable := { calmRename with putError := fun id => if id = 2 then some "io" else none }
    let ontoSelf := renameIn calmRename oneFile ['a'] ['a']
    let below := renameIn calmRename oneDirectory ['a'] ['a', 'b']
    let onto := renameIn calmRename twoDirectories ['a'] ['b']
    let upward := renameIn calmRename nestedDirectories ['a', 'b'] ['a']
    let left := renameIn undeletable oneFile ['a'] ['b']
    let halfway := renameIn unwritable oneDirectory ['a'] ['b']
    (TreeEntries oneFile ∧ ontoSelf.2 = .ok ∧ ontoSelf.1.resolve (pathOf ['a']) = none) ∧
      (TreeEntries oneDirectory ∧ below.2 = .ok ∧ below.1.resolve (pathOf ['a', 'b']) = none ∧
        below.1.resolve (pathOf ['a', 'b', 'b']) = some 1) ∧
      (TreeEntries twoDirectories ∧ onto.2 = .ok ∧ onto.1.resolve (pathOf ['b', 'y']) = some 4) ∧
      (TreeEntries nestedDirectories ∧ upward.2 = .ok ∧ upward.1.fileTable 3 = none) ∧
      (left.2 = .ok ∧ left.1.resolve (pathOf ['a']) = some 1) ∧
      halfway.2 = .error "Renamed directory but failed to move its contents: io" .internalError ∧
      halfway.1.resolve (pathOf ['a']) = none := by
  decide +kernel

end Dfs
