import Dfs.Lib.Relocate
import Dfs.Rename

/-!
# What a rename does to the tables

A record stored under another path is one change of the tables (`relocate`), the loop over a directory a sequence of
them (`Moves`).
-/

namespace Dfs

open List Function Option FileTables RenameEnv Relocate

variable {Id : Type} {t t' : FileTables Id} {tombstoned : FileId → Bool} {m : FileMetadata Id} {id : FileId} {p : Path}

/-! ## Prefixes -/

variable {q rest : Path} {listed : List (FileMetadata Id)}

lemma stripPrefix_eq_some {pre : Path} : stripPrefix pre p = some rest ↔ p = pre ++ rest := by
  unfold stripPrefix
  constructor
  · intro h
    split at h
    · rename_i hpre
      obtain ⟨r, rfl⟩ := isPrefixOf_iff_prefix.mp hpre
      rw [drop_left] at h
      rw [some.inj h]
    · cases h
  · rintro rfl
    rw [if_pos (List.isPrefixOf_iff_prefix.mpr (prefix_append _ _)), drop_left]

lemma stripPrefix_eq_none {pre : Path} (h : stripPrefix pre p = none) (rest : Path) : p ≠ pre ++ rest := by
  intro he
  rw [stripPrefix_eq_some.mpr he] at h
  cases h

/-! ## One record -/

def FileTables.relocate (t : FileTables Id) (m : FileMetadata Id) (p : Path) : FileTables Id where
  fileTable := update (t.withoutPathOwner p m.id) m.id
    (some { m with path := p, writeSeq := m.writeSeq + 1, chunkLocations := [] })
  pathTable := update t.pathTable p (some m.id)

structure FileTables.Filed (t : FileTables Id) (tombstoned : FileId → Bool) : Prop where
  ids : ∀ {id m}, t.fileTable id = some m → m.id = id
  live : ∀ {id m}, t.fileTable id = some m → tombstoned id = false

structure FileTables.Sound (t : FileTables Id) (tombstoned : FileId → Bool) : Prop extends t.Filed tombstoned where
  indexed : ∀ {id m}, t.fileTable id = some m → t.pathTable m.path = some id

lemma putRetrying_eq_relocate (ht : t.Filed tombstoned) (hm : t.fileTable id = some m) (p : Path) (attempts : Nat) :
    t.putRetrying tombstoned { m with path := p, writeSeq := m.writeSeq + 1 } (attempts + 1) = (t.relocate m p, .stored) := by
  obtain rfl := ht.ids hm
  have hput := putFile_of_not_stale (t := t) (m := { m with path := p, writeSeq := m.writeSeq + 1 }) (ht.live hm) (fun e he => by
    obtain rfl := some.inj (hm.symm.trans he)
    unfold isStale
    simp)
  unfold putRetrying
  rw [hput]
  rfl

lemma fileTable_relocate_self : (t.relocate m p).fileTable m.id
    = some { m with path := p, writeSeq := m.writeSeq + 1, chunkLocations := [] } :=
  update_self ..

lemma fileTable_relocate_of_ne (h : id ≠ m.id) :
    (t.relocate m p).fileTable id = if t.pathTable p = some id then none else t.fileTable id := by
  unfold relocate withoutPathOwner
  simp only [update_of_ne h]
  cases hp : t.pathTable p with
  | none => rfl
  | some old =>
    dsimp only
    rcases eq_or_ne old id with rfl | hne
    · rw [if_pos h, if_pos rfl, update_self]
    rw [if_neg fun he => hne (some.inj he)]
    split
    · exact update_of_ne hne.symm ..
    · rfl

lemma pathTable_relocate_self : (t.relocate m p).pathTable p = some m.id := update_self ..

lemma pathTable_relocate_of_ne (h : q ≠ p) : (t.relocate m p).pathTable q = t.pathTable q :=
  update_of_ne h ..

lemma fileTable_relocate_eq_none (hm : t.fileTable m.id = some m) (h : t.fileTable id = none) :
    (t.relocate m p).fileTable id = none := by
  have hne : id ≠ m.id := by
    rintro rfl
    rw [hm] at h
    cases h
  rw [fileTable_relocate_of_ne hne, h, ite_self]

lemma fileTable_relocate_cases {m' : FileMetadata Id} (h : (t.relocate m p).fileTable id = some m') :
    (id = m.id ∧ m'.id = m.id ∧ m'.path = p) ∨ (t.fileTable id = some m' ∧ t.pathTable p ≠ some id ∧ id ≠ m.id) := by
  rcases eq_or_ne id m.id with rfl | hne
  · rw [fileTable_relocate_self] at h
    cases h
    exact .inl ⟨rfl, rfl, rfl⟩
  rw [fileTable_relocate_of_ne hne] at h
  split at h
  · cases h
  rename_i hp
  exact .inr ⟨h, hp, hne⟩

lemma FileTables.Filed.relocate (ht : t.Filed tombstoned) (hm : t.fileTable id = some m) : (t.relocate m p).Filed tombstoned := by
  obtain rfl := ht.ids hm
  constructor
  · intro id' m' h
    rcases fileTable_relocate_cases h with ⟨rfl, hid, -⟩ | ⟨h', -⟩
    · exact hid
    · exact ht.ids h'
  · intro id' m' h
    rcases fileTable_relocate_cases h with ⟨rfl, -⟩ | ⟨h', -⟩
    · exact ht.live hm
    · exact ht.live h'

lemma FileTables.Sound.relocate (ht : t.Sound tombstoned) (hm : t.fileTable id = some m) : (t.relocate m p).Sound tombstoned := by
  refine ⟨ht.toFiled.relocate hm, fun {id' m'} h => ?_⟩
  rcases fileTable_relocate_cases h with ⟨rfl, -, hpath⟩ | ⟨h', hp, -⟩
  · rw [hpath]
    exact pathTable_relocate_self
  have hindexed := ht.indexed h'
  have hne : m'.path ≠ p := by
    rintro rfl
    exact hp hindexed
  rw [pathTable_relocate_of_ne hne]
  exact hindexed

lemma pathTable_relocate (hq : t.pathTable q = some id) :
    (t.relocate m p).pathTable q = some id ∨ (t.relocate m p).fileTable id = none := by
  rcases eq_or_ne q p with rfl | hne
  · rcases eq_or_ne id m.id with rfl | hid
    · exact .inl pathTable_relocate_self
    rw [fileTable_relocate_of_ne hid, if_pos hq]
    exact .inr rfl
  rw [pathTable_relocate_of_ne hne]
  exact .inl hq

/-! ## The loop -/

/-- Each file is left, without a record below the old prefix, or stored below the new one; with the old paths. -/
inductive Moves (env : RenameEnv) (pre new : Path) : FileTables Id → List FileId → FileTables Id → List Path → Prop
  | nil (t : FileTables Id) : Moves env pre new t [] t []
  | skip {t t' : FileTables Id} {id : FileId} {ids : List FileId} {ps : List Path} (hget : env.getError id = none)
    (hout : ∀ m, t.fileTable id = some m → ∀ rest, m.path ≠ pre ++ rest) :
    Moves env pre new t ids t' ps → Moves env pre new t (id :: ids) t' ps
  | move {t t' : FileTables Id} {id : FileId} {ids : List FileId} {ps : List Path} {m : FileMetadata Id} {rest : Path}
    (hget : env.getError id = none) (hput : env.putError id = none) (hm : t.fileTable id = some m)
    (hpath : m.path = pre ++ rest) :
    Moves env pre new (t.relocate m (new ++ rest)) ids t' ps → Moves env pre new t (id :: ids) t' (m.path :: ps)

def LoopEnds (env : RenameEnv) (pre new : Path) (t : FileTables Id) (listed : List (FileMetadata Id)) (t' : FileTables Id)
    (r : Except String (List Path)) : Prop :=
  (∃ ps, r = .ok ps ∧ Moves env pre new t (listed.map (·.id)) t' ps) ∨
    ∃ e done ps, r = .error e ∧ done <+: listed.map (·.id) ∧ Moves env pre new t done t' ps ∧
      ∃ l ∈ listed, env.getError l.id ≠ none ∨ env.putError l.id ≠ none

lemma moveDescendants_cases {env : RenameEnv} {pre new : Path} {r : Except String (List Path)} (ht : t.Filed tombstoned)
    (h : env.moveDescendants tombstoned pre new t listed = (t', r)) : LoopEnds env pre new t listed t' r := by
  induction listed generalizing t t' r with
  | nil =>
    simp only [moveDescendants] at h
    cases h
    exact .inl ⟨[], rfl, .nil _⟩
  | cons l listed ih =>
    -- the rest of the loop, from the tables that this round leaves
    have hrest : ∀ (t1 : FileTables Id) (old : Option Path), t1.Filed tombstoned →
        env.moveDescendant tombstoned pre new t l.id = (t1, .ok old) →
        (∀ {ids t' ps}, Moves env pre new t1 ids t' ps → Moves env pre new t (l.id :: ids) t' (old.toList ++ ps)) →
        LoopEnds env pre new t (l :: listed) t' r := by
      intro t1 old ht1 hone hcons
      cases hrec : env.moveDescendants tombstoned pre new t1 listed with
      | mk t2 r2 =>
        rcases ih ht1 hrec with ⟨ps, rfl, hmoves⟩ | ⟨e, done, ps, rfl, hdone, hmoves, l', hl', hfault⟩
        · simp only [moveDescendants, hone, hrec] at h
          cases h
          exact .inl ⟨_, rfl, hcons hmoves⟩
        simp only [moveDescendants, hone, hrec] at h
        cases h
        exact .inr ⟨e, l.id :: done, _, rfl, cons_prefix_cons.mpr ⟨rfl, hdone⟩, hcons hmoves, l', .tail _ hl', hfault⟩
    have hfault : ∀ e, env.moveDescendant tombstoned pre new t l.id = (t, .error e) →
        (env.getError l.id ≠ none ∨ env.putError l.id ≠ none) → LoopEnds env pre new t (l :: listed) t' r := by
      intro e hone hf
      simp only [moveDescendants, hone] at h
      cases h
      exact .inr ⟨e, [], [], rfl, nil_prefix, .nil _, l, .head _, hf⟩
    cases hget : env.getError l.id with
    | some e => exact hfault e (by simp only [moveDescendant, hget]) (.inl (by simp [hget]))
    | none =>
      cases hm : t.fileTable l.id with
      | none =>
        refine hrest t none ht (by simp only [moveDescendant, hget, hm]) (.skip hget fun m hm' => ?_)
        rw [hm] at hm'
        cases hm'
      | some m =>
        cases hstrip : stripPrefix pre m.path with
        | none =>
          refine hrest t none ht (by simp only [moveDescendant, hget, hm, hstrip]) (.skip hget fun m' hm' => ?_)
          obtain rfl := some.inj (hm.symm.trans hm')
          exact stripPrefix_eq_none hstrip
        | some rest =>
          cases hput : env.putError l.id with
          | some e =>
            exact hfault e (by simp only [moveDescendant, hget, hm, hstrip, hput]) (.inr (by simp [hput]))
          | none =>
            refine hrest (t.relocate m (new ++ rest)) (some m.path) (ht.relocate hm) ?_
              (.move hget hput hm (stripPrefix_eq_some.mp hstrip))
            simp only [moveDescendant, hget, hm, hstrip, hput]
            rw [show maxRenameStaleRetries = 4 + 1 from rfl, putRetrying_eq_relocate ht hm]

section Moves

variable {env : RenameEnv} {pre new : Path} {ids : List FileId} {ps : List Path}

section

variable (h : Moves env pre new t ids t' ps)

include h

/-- What no move of a record breaks holds after them all. -/
theorem Moves.keeps {P : FileTables Id → Prop} (ht : t.Filed tombstoned)
    (hstep : ∀ {t m p}, t.fileTable m.id = some m → P t → P (t.relocate m p)) (hP : P t) : P t' := by
  induction h with
  | nil => exact hP
  | skip _ _ _ ih => exact ih ht hP
  | move _ _ hm _ _ ih =>
    obtain rfl := ht.ids hm
    exact ih (ht.relocate hm) (hstep hm hP)

lemma Moves.sound (ht : t.Sound tombstoned) : t'.Sound tombstoned :=
  h.keeps (P := (Sound · tombstoned)) ht.toFiled (fun hm ht => ht.relocate hm) ht

lemma Moves.filed (ht : t.Filed tombstoned) : t'.Filed tombstoned :=
  h.keeps (P := (Filed · tombstoned)) ht (fun hm ht => ht.relocate hm) ht

lemma Moves.getError : ∀ id ∈ ids, env.getError id = none := by
  induction h with
  | nil => exact by simp
  | skip hget _ _ ih => exact forall_mem_cons.mpr ⟨hget, ih⟩
  | move hget _ _ _ _ ih => exact forall_mem_cons.mpr ⟨hget, ih⟩

lemma Moves.absent (ht : t.Filed tombstoned) (hid : t.fileTable id = none) : t'.fileTable id = none :=
  h.keeps (P := (fileTable · id = none)) ht fileTable_relocate_eq_none hid

lemma Moves.frame (ht : t.Filed tombstoned) (hid : id ∉ ids) : t'.fileTable id = t.fileTable id ∨ t'.fileTable id = none := by
  induction h with
  | nil => exact .inl rfl
  | skip _ _ _ ih => exact ih ht fun h => hid (.tail _ h)
  | move _ _ hm _ _ ih =>
    obtain rfl := ht.ids hm
    have hne : id ≠ _ := fun he => hid (he ▸ .head _)
    rcases ih (ht.relocate hm) fun h => hid (.tail _ h) with hsame | hgone
    · rw [fileTable_relocate_of_ne hne] at hsame
      split at hsame
      · exact .inr hsame
      · exact .inl hsame
    · exact .inr hgone

lemma Moves.entry (ht : t.Filed tombstoned) (hq : t.pathTable q = some id) :
    t'.pathTable q = some id ∨ t'.fileTable id = none := by
  refine h.keeps (P := fun t => t.pathTable q = some id ∨ t.fileTable id = none) ht (fun hm hP => ?_) (.inl hq)
  rcases hP with hq | hgone
  · exact pathTable_relocate hq
  · exact .inr (fileTable_relocate_eq_none hm hgone)

lemma Moves.outside (hq : ∀ rest, q ≠ new ++ rest) : t'.pathTable q = t.pathTable q := by
  induction h with
  | nil => rfl
  | skip _ _ _ ih => exact ih
  | move _ _ _ _ _ ih => exact ih.trans (pathTable_relocate_of_ne (hq _))

lemma Moves.mem_paths (ht : t.Filed tombstoned) (hnodup : ids.Nodup) (hq : q ∈ ps) :
    ∃ id ∈ ids, ∃ m rest, t.fileTable id = some m ∧ m.path = q ∧ q = pre ++ rest := by
  induction h with
  | nil => cases hq
  | skip _ _ _ ih =>
    obtain ⟨id, hid, hm⟩ := ih ht (nodup_cons.mp hnodup).2 hq
    exact ⟨id, .tail _ hid, hm⟩
  | @move t t' id0 ids ps m0 rest0 _ _ hm hpath hrest ih =>
    rcases mem_cons.mp hq with rfl | hq
    · exact ⟨id0, .head _, m0, rest0, hm, rfl, hpath⟩
    obtain ⟨id, hid, m, rest, hrecord, hmp, hpre⟩ := ih (ht.relocate hm) (nodup_cons.mp hnodup).2 hq
    have hne : id ≠ m0.id := by
      rintro rfl
      exact (nodup_cons.mp hnodup).1 (ht.ids hm ▸ hid)
    rw [fileTable_relocate_of_ne hne] at hrecord
    split at hrecord
    · cases hrecord
    · exact ⟨id, .tail _ hid, m, rest, hrecord, hmp, hpre⟩

lemma Moves.moved (ht : t.Filed tombstoned) (hnodup : ids.Nodup) (hid : id ∈ ids) (hm : t.fileTable id = some m)
    (hpath : m.path = pre ++ rest) (hend : t'.fileTable id ≠ none) :
    m.path ∈ ps ∧ env.putError id = none ∧ ∃ m', t'.fileTable id = some m' ∧ m'.path = new ++ rest := by
  induction h with
  | nil => cases hid
  | skip _ hout hrest ih =>
    rcases mem_cons.mp hid with rfl | hid
    · exact absurd hpath (hout m hm rest)
    · exact ih ht (nodup_cons.mp hnodup).2 hid hm hend
  | @move t t' id0 ids ps m0 rest0 _ hput hm0 hpath0 hrest ih =>
    obtain rfl := ht.ids hm0
    rcases mem_cons.mp hid with rfl | hid
    · obtain rfl := some.inj (hm0.symm.trans hm)
      obtain rfl : rest0 = rest := append_cancel_left (hpath0.symm.trans hpath)
      refine ⟨.head _, hput, ?_⟩
      rcases hrest.frame (ht.relocate hm) (nodup_cons.mp hnodup).1 with hsame | hgone
      · exact ⟨_, hsame.trans fileTable_relocate_self, rfl⟩
      · exact absurd hgone hend
    · have hne : id ≠ m0.id := fun he => (nodup_cons.mp hnodup).1 (he ▸ hid)
      have hkept : (t.relocate m0 (new ++ rest0)).fileTable id = some m := by
        rw [fileTable_relocate_of_ne hne]
        split
        · rename_i hevicted
          refine absurd (hrest.absent (ht.relocate hm0) ?_) hend
          rw [fileTable_relocate_of_ne hne, if_pos hevicted]
        · exact hm
      obtain ⟨hmem, hmoved⟩ := ih (ht.relocate hm0) (nodup_cons.mp hnodup).2 hid hkept hend
      exact ⟨.tail _ hmem, hmoved⟩

end

end Moves

/-! ## The removals -/

variable {ps : List Path}

@[simp] lemma without_nil (t : FileTables Id) : t.without [] = t := by
  simp [without]

lemma deletePathIndexes_cases {env : RenameEnv} {r : Except String Unit} (h : env.deletePathIndexes t ps = (t', r)) :
    ∃ done, t' = t.without done ∧ (∀ p ∈ done, env.deleteError p = none) ∧
      (r = .ok () ∧ done = ps ∨ ∃ e q rest, r = .error e ∧ ps = done ++ q :: rest ∧ env.deleteError q ≠ none) := by
  induction ps generalizing t with
  | nil =>
    simp only [deletePathIndexes] at h
    cases h
    exact ⟨[], by simp, by simp, .inl ⟨rfl, rfl⟩⟩
  | cons q ps ih =>
    cases hq : env.deleteError q with
    | some e =>
      simp only [deletePathIndexes, hq] at h
      cases h
      exact ⟨[], by simp, by simp, .inr ⟨e, q, ps, rfl, rfl, by simp [hq]⟩⟩
    | none =>
      simp only [deletePathIndexes, hq] at h
      obtain ⟨done, rfl, hdone, hend⟩ := ih h
      refine ⟨q :: done, ?_, forall_mem_cons.mpr ⟨hq, hdone⟩, ?_⟩
      · unfold without deletePathIndex
        congr 1
        funext p
        by_cases hp : p = q <;> simp [hp]
      · rcases hend with ⟨rfl, rfl⟩ | ⟨e, q', rest, rfl, rfl, hfault⟩
        · exact .inl ⟨rfl, rfl⟩
        · exact .inr ⟨e, q', rest, rfl, rfl, hfault⟩

/-! ## Moves that do not meet -/

structure FileTables.Consistent (t : FileTables Id) (tombstoned : FileId → Bool) : Prop extends t.Sound tombstoned where
  entry : ∀ {p id}, t.pathTable p = some id → ∃ m, t.fileTable id = some m ∧ m.path = p

lemma FileTables.Consistent.relocate_delete (ht : t.Consistent tombstoned) (hm : t.fileTable m.id = some m) (hp : p ≠ m.path) :
    ((t.relocate m p).deletePathIndex m.path).Consistent tombstoned ∧
      ((t.relocate m p).deletePathIndex m.path).pathTable = moveEntry t.pathTable m.path p := by
  have hpath : ((t.relocate m p).deletePathIndex m.path).pathTable = moveEntry t.pathTable m.path p := by
    funext q
    show update (t.relocate m p).pathTable m.path none q = _
    rcases eq_or_ne q m.path with rfl | hq
    · rw [update_self, moveEntry_old hp.symm]
    rw [update_of_ne hq]
    rcases eq_or_ne q p with rfl | hqp
    · rw [pathTable_relocate_self, moveEntry_new, ht.indexed hm]
    · rw [pathTable_relocate_of_ne hqp, moveEntry_of_ne hqp hq]
  have hsound := ht.toSound.relocate (p := p) hm
  refine ⟨⟨⟨⟨hsound.ids, hsound.live⟩, ?_⟩, ?_⟩, hpath⟩
  · intro id' m' h
    have hne : m'.path ≠ m.path := by
      intro he
      rcases fileTable_relocate_cases h with ⟨-, -, hpath'⟩ | ⟨hold, -, hid⟩
      · exact hp (hpath'.symm.trans he)
      have hindexed := ht.indexed hold
      rw [he, ht.indexed hm] at hindexed
      exact hid (some.inj hindexed).symm
    show update (t.relocate m p).pathTable m.path none m'.path = some id'
    rw [update_of_ne hne]
    exact hsound.indexed h
  · intro q id' hq
    show ∃ m', (t.relocate m p).fileTable id' = some m' ∧ m'.path = q
    rw [hpath] at hq
    rcases eq_or_ne q p with rfl | hqp
    · rw [moveEntry_new, ht.indexed hm] at hq
      cases hq
      exact ⟨_, fileTable_relocate_self, rfl⟩
    rcases eq_or_ne q m.path with rfl | hqm
    · rw [moveEntry_old hp.symm] at hq
      cases hq
    rw [moveEntry_of_ne hqp hqm] at hq
    obtain ⟨m', hm', rfl⟩ := ht.entry hq
    have hid : id' ≠ m.id := by
      rintro rfl
      exact hqm (congrArg FileMetadata.path (some.inj (hm'.symm.trans hm)))
    refine ⟨m', ?_, rfl⟩
    rw [fileTable_relocate_of_ne hid, if_neg, hm']
    intro hevicted
    obtain ⟨m'', hm'', hpath''⟩ := ht.entry hevicted
    obtain rfl := some.inj (hm'.symm.trans hm'')
    exact hqp hpath''

lemma relocate_without (hp : p ∉ ps) (q : Path) :
    (t.relocate m p).without (ps ++ [q]) = ((t.without ps).relocate m p).deletePathIndex q := by
  have howner : (t.without ps).withoutPathOwner p = t.withoutPathOwner p := by
    funext id
    unfold withoutPathOwner without
    simp only [if_neg hp]
  unfold deletePathIndex relocate
  rw [howner]
  unfold without
  congr 1
  funext q'
  rcases eq_or_ne q' q with rfl | hq
  · simp
  rcases eq_or_ne q' p with rfl | hqp
  · simp [hp, hq]
  · simp [hq, update_of_ne hqp]

def movedPath (pre new q : Path) : Path := new ++ q.drop pre.length

lemma moveDescendants_apart {env : RenameEnv} {pre new : Path} (ht : (t.without ps).Consistent tombstoned)
    (hlisted : ∀ l ∈ listed, t.fileTable l.id = some l) (hpre : ∀ l ∈ listed, pre <+: l.path)
    (hcalm : ∀ l ∈ listed, env.getError l.id = none ∧ env.putError l.id = none)
    (hps : ∀ l ∈ listed, movedPath pre new l.path ∉ ps)
    (hapart : Relocate.Apart (listed.map fun l => (l.path, movedPath pre new l.path))) :
    ∃ t', env.moveDescendants tombstoned pre new t listed = (t', .ok (listed.map (·.path))) ∧
      (t'.without (ps ++ listed.map (·.path))).Consistent tombstoned ∧ (t'.without (ps ++ listed.map (·.path))).pathTable
        = moveEntries (t.without ps).pathTable (listed.map fun l => (l.path, movedPath pre new l.path)) := by
  induction listed generalizing t ps with
  | nil => exact ⟨t, rfl, by simpa using ht, by simp [moveEntries]⟩
  | cons l listed ih =>
    obtain ⟨hl, hlisted⟩ := forall_mem_cons.mp hlisted
    obtain ⟨⟨rest, hrest⟩, hpre⟩ := forall_mem_cons.mp hpre
    obtain ⟨⟨hget, hput⟩, hcalm⟩ := forall_mem_cons.mp hcalm
    obtain ⟨hlps, hps⟩ := forall_mem_cons.mp hps
    have hnew : movedPath pre new l.path = new ++ rest := by
      rw [movedPath, ← hrest, drop_left]
    have hfiled : t.Filed tombstoned := ⟨ht.ids, ht.live⟩
    have hne : movedPath pre new l.path ≠ l.path := hapart.disjoint _ (.head _) _ (.head _)
    obtain ⟨hcons, htable⟩ := ht.relocate_delete hl hne
    rw [← relocate_without hlps] at hcons htable
    -- the entries that are still to be moved are not the one that this move replaces
    have hkept : ∀ l' ∈ listed, (t.relocate l (movedPath pre new l.path)).fileTable l'.id = some l' := by
      intro l' hl'
      have hid : l'.id ≠ l.id := by
        intro he
        have hsame : l' = l := some.inj ((hlisted l' hl').symm.trans (he ▸ hl))
        refine (nodup_cons.mp hapart.old).1 (mem_map.mpr ⟨_, mem_map_of_mem hl', ?_⟩)
        rw [hsame]
      rw [fileTable_relocate_of_ne hid, if_neg, hlisted l' hl']
      intro hevicted
      have hentry : (t.without ps).pathTable (movedPath pre new l.path) = some l'.id := by
        simp only [without, if_neg hlps]
        exact hevicted
      obtain ⟨m', hm', hpath⟩ := ht.entry hentry
      obtain rfl := some.inj ((hlisted l' hl').symm.trans hm')
      exact hapart.disjoint _ (.tail _ (mem_map_of_mem hl')) _ (.head _) hpath.symm
    have hps' : ∀ l' ∈ listed, movedPath pre new l'.path ∉ ps ++ [l.path] := by
      intro l' hl' hmem
      rcases mem_append.mp hmem with h | h
      · exact hps l' hl' h
      · exact hapart.disjoint _ (.head _) _ (.tail _ (mem_map_of_mem hl')) (List.mem_singleton.mp h)
    obtain ⟨t', hrun, hcons', htable'⟩ := ih hcons hkept hpre hcalm hps' hapart.tail
    rw [append_assoc, singleton_append] at hcons' htable'
    refine ⟨t', ?_, hcons', ?_⟩
    · have hone : env.moveDescendant tombstoned pre new t l.id =
        (t.relocate l (movedPath pre new l.path), .ok (some l.path)) := by
        simp only [moveDescendant, hget, hl, stripPrefix_eq_some.mpr hrest.symm, hput]
        rw [show maxRenameStaleRetries = 4 + 1 from rfl, putRetrying_eq_relocate hfiled hl, hnew]
      simp only [moveDescendants, hone, hrun]
      rfl
    · rw [map_cons, htable', htable]
      rfl

end Dfs
