import Dfs.MetadataBatch
import Dfs.Theorems.PathIndex

/-! # Is a batch put like its records one by one? -/

namespace Dfs

open List Function Option FileTables

variable {Id : Type}

/-! ## Merging three records of a file -/

def FileMetadata.stripped (m : FileMetadata Id) : FileMetadata Id := { m with chunkLocations := [] }

section Merge

variable {s m a n r : FileMetadata Id}

lemma writeSeq_of_stripped (h : m.stripped = n.stripped) : m.writeSeq = n.writeSeq := by
  have hseq := congrArg FileMetadata.writeSeq h
  exact hseq

lemma path_of_stripped (h : m.stripped = n.stripped) : m.path = n.path := by
  have hpath := congrArg FileMetadata.path h
  exact hpath

lemma isStale_iff : isStale s a = true ↔ 0 < a.writeSeq ∧ a.writeSeq < s.writeSeq := by
  simp only [isStale, Bool.and_eq_true, decide_eq_true_eq]
  omega

lemma mergeFileMetadata_some (s a : FileMetadata Id) : (mergeFileMetadata (some s) a).1 = if isStale s a then s else a := by
  dsimp only [mergeFileMetadata]
  split <;> rfl

/-- Merging reads only the sequences, which are stored. -/
theorem mergeFileMetadata_stripped (hs : s.stripped = r.stripped) (h : m.stripped = n.stripped) :
    (mergeFileMetadata (some s) m).1.stripped = (mergeFileMetadata (some r) n).1.stripped := by
  have hstale : isStale s m = isStale r n := by
    unfold isStale
    rw [writeSeq_of_stripped h, writeSeq_of_stripped hs]
  rw [mergeFileMetadata_some, mergeFileMetadata_some, hstale]
  split
  · exact hs
  · exact h

/-- A record that follows one with sequence zero is not older than the stored one. -/
def SeqSafe (stored : Option (FileMetadata Id)) (m a : FileMetadata Id) : Prop :=
  m.writeSeq = 0 → 0 < a.writeSeq → ∀ s, stored = some s → s.writeSeq ≤ a.writeSeq

lemma mergeFileMetadata_assoc_iff (stored : Option (FileMetadata Id)) (m a : FileMetadata Id) :
    (mergeFileMetadata (some (mergeFileMetadata stored m).1) a).1.stripped
      = (mergeFileMetadata stored (mergeFileMetadata (some m) a).1).1.stripped ↔ SeqSafe stored m a := by
  cases stored with
  | none =>
    refine iff_of_true rfl ?_
    rintro - - s hs
    cases hs
  | some s =>
    have hsafe : SeqSafe (some s) m a ↔ (m.writeSeq = 0 → 0 < a.writeSeq → s.writeSeq ≤ a.writeSeq) := by
      simp [SeqSafe]
    rw [hsafe]
    simp only [mergeFileMetadata_some, isStale_iff]
    constructor
    · intro heq hzero hpos
      by_contra hlt
      have hm : ¬ (0 < m.writeSeq ∧ m.writeSeq < s.writeSeq) := by omega
      have ha : ¬ (0 < a.writeSeq ∧ a.writeSeq < m.writeSeq) := by omega
      rw [if_neg hm, if_neg ha, if_pos ⟨hpos, by omega⟩] at heq
      have hseq := writeSeq_of_stripped heq
      omega
    · intro hseq
      by_cases hm : 0 < m.writeSeq ∧ m.writeSeq < s.writeSeq
      · rw [if_pos hm]
        by_cases ha : 0 < a.writeSeq ∧ a.writeSeq < m.writeSeq
        · rw [if_pos ha, if_pos hm, if_pos (by omega)]
        · rw [if_neg ha]
      · rw [if_neg hm]
        by_cases ha : 0 < a.writeSeq ∧ a.writeSeq < m.writeSeq
        · rw [if_pos ha, if_neg hm]
        · rw [if_neg ha, if_neg (by omega)]

end Merge

/-! ## Two puts -/

section Puts

variable {u : FileTables Id} {tombstoned : FileId → Bool} {m a b n : FileMetadata Id} {f g : FileId} {own other : List Path}

lemma fileTable_putFile_merged (hlive : tombstoned m.id = false) :
    (u.putFile tombstoned m).1.fileTable m.id = some (mergeFileMetadata (u.fileTable m.id) m).1.stripped := by
  unfold putFile
  simp only [hlive, Bool.false_eq_true, if_false]
  exact update_self ..

/-- Neither file has a path of the other, or has the entry of one. -/
structure ApartFrom (u : FileTables Id) (f g : FileId) (own other : List Path) : Prop where
  stored : ∀ r, u.fileTable f = some r → r.path ∈ own
  storedOther : ∀ r, u.fileTable g = some r → r.path ∈ other
  disjoint : ∀ p ∈ own, p ∉ other
  named : ∀ p ∈ own, u.pathTable p ≠ some g
  namedOther : ∀ p ∈ other, u.pathTable p ≠ some f

lemma ApartFrom.symm (h : ApartFrom u f g own other) : ApartFrom u g f other own :=
  ⟨h.storedOther, h.stored, fun p hp hown => h.disjoint p hown hp, h.namedOther, h.named⟩

lemma ApartFrom.storedPath_mem (h : ApartFrom u a.id g own other) (ha : a.path ∈ own) : u.storedPath a ∈ own := by
  unfold storedPath
  cases hs : u.fileTable a.id with
  | none => exact ha
  | some s =>
    rw [mergeFileMetadata_some]
    split
    · exact h.stored s hs
    · exact ha

lemma fileTable_putFile_eq_some {r : FileMetadata Id} (hg : g ≠ m.id) (h : (u.putFile tombstoned m).1.fileTable g = some r) :
    u.fileTable g = some r := by
  cases hdead : tombstoned m.id with
  | true => rwa [putFile_refused hdead] at h
  | false =>
    rw [fileTable_putFile_of_ne hdead hg] at h
    split at h
    · cases h
    · exact h

lemma pathTable_putFile_eq_some {p : Path} (hg : g ≠ m.id) (h : (u.putFile tombstoned m).1.pathTable p = some g) :
    u.pathTable p = some g := by
  cases hdead : tombstoned m.id with
  | true => rwa [putFile_refused hdead] at h
  | false =>
    rw [pathTable_putFile hdead] at h
    by_cases hp : p = u.storedPath m
    · rw [hp, update_self] at h
      exact absurd (some.inj h).symm hg
    · rwa [update_of_ne hp] at h

lemma ApartFrom.putFile_third (h : ApartFrom u f g own other) (hf : f ≠ b.id) (hg : g ≠ b.id) :
    ApartFrom (u.putFile tombstoned b).1 f g own other :=
  ⟨fun r hr => h.stored r (fileTable_putFile_eq_some hf hr), fun r hr => h.storedOther r (fileTable_putFile_eq_some hg hr),
    h.disjoint, fun p hp hn => h.named p hp (pathTable_putFile_eq_some hg hn),
    fun p hp hn => h.namedOther p hp (pathTable_putFile_eq_some hf hn)⟩

lemma ApartFrom.putFile_own (h : ApartFrom u a.id g own other) (hne : g ≠ a.id) (ha : a.path ∈ own) :
    ApartFrom (u.putFile tombstoned a).1 a.id g own other := by
  cases hdead : tombstoned a.id with
  | true => rwa [putFile_refused hdead]
  | false =>
    have hmem := h.storedPath_mem ha
    refine ⟨?_, fun r hr => h.storedOther r (fileTable_putFile_eq_some hne hr), h.disjoint,
      fun p hp hn => h.named p hp (pathTable_putFile_eq_some hne hn), ?_⟩
    · intro r hr
      rw [fileTable_putFile_merged hdead] at hr
      rw [← some.inj hr]
      exact hmem
    · intro p hp hn
      rw [pathTable_putFile hdead, update_of_ne] at hn
      · exact h.namedOther p hp hn
      · rintro rfl
        exact h.disjoint _ hmem hp

/-- The other file's put leaves the record, and what is named for the file. -/
theorem ApartFrom.putFile_other (h : ApartFrom u f b.id own other) (hne : f ≠ b.id) (hb : b.path ∈ other) :
    (u.putFile tombstoned b).1.fileTable f = u.fileTable f ∧
      ∀ p, (u.putFile tombstoned b).1.pathTable p = some f ↔ u.pathTable p = some f := by
  cases hdead : tombstoned b.id with
  | true =>
    rw [putFile_refused hdead]
    exact ⟨rfl, fun _ => Iff.rfl⟩
  | false =>
    have hnamed := h.namedOther _ (h.symm.storedPath_mem hb)
    refine ⟨by rw [fileTable_putFile_of_ne hdead hne, if_neg hnamed], fun p => ⟨pathTable_putFile_eq_some hne, fun hp => ?_⟩⟩
    rw [pathTable_putFile hdead, update_of_ne]
    · exact hp
    · rintro rfl
      exact hnamed hp

lemma FileTables.eq_of_tables {t t' : FileTables Id} (hfile : ∀ g, t.fileTable g = t'.fileTable g)
    (hpath : t.pathTable = t'.pathTable) : t = t' :=
  congr (congrArg FileTables.mk (funext hfile)) hpath

lemma ApartFrom.putFile_comm (h : ApartFrom u a.id b.id own other) (hne : a.id ≠ b.id) (ha : a.path ∈ own) (hb : b.path ∈ other) :
    ((u.putFile tombstoned a).1.putFile tombstoned b).1 = ((u.putFile tombstoned b).1.putFile tombstoned a).1 := by
  cases hdead : tombstoned a.id with
  | true => rw [putFile_refused hdead, putFile_refused hdead]
  | false =>
    cases hdead' : tombstoned b.id with
    | true => rw [putFile_refused hdead', putFile_refused hdead']
    | false =>
      have hrec : (u.putFile tombstoned b).1.fileTable a.id = u.fileTable a.id := (h.putFile_other hne hb).1
      have hrec' : (u.putFile tombstoned a).1.fileTable b.id = u.fileTable b.id := (h.symm.putFile_other hne.symm ha).1
      have hpa : (u.putFile tombstoned b).1.storedPath a = u.storedPath a := by
        unfold storedPath
        rw [hrec]
      have hpb : (u.putFile tombstoned a).1.storedPath b = u.storedPath b := by
        unfold storedPath
        rw [hrec']
      have hdiff : u.storedPath a ≠ u.storedPath b := by
        intro heq
        exact h.disjoint _ (h.storedPath_mem ha) (heq ▸ h.symm.storedPath_mem hb)
      refine eq_of_tables (fun g => ?_) ?_
      · by_cases hga : g = a.id
        · subst hga
          rw [fileTable_putFile_merged hdead, hrec, ← fileTable_putFile_merged hdead]
          exact ((h.putFile_own hne.symm ha).putFile_other hne hb).1
        by_cases hgb : g = b.id
        · subst hgb
          rw [fileTable_putFile_merged hdead', hrec', ← fileTable_putFile_merged hdead']
          exact ((h.symm.putFile_own hne hb).putFile_other hne.symm ha).1.symm
        rw [fileTable_putFile_of_ne hdead' hgb, fileTable_putFile_of_ne hdead hga, fileTable_putFile_of_ne hdead hga,
          fileTable_putFile_of_ne hdead' hgb, hpa, hpb, pathTable_putFile hdead, pathTable_putFile hdead', update_of_ne hdiff,
          update_of_ne hdiff.symm]
        split <;> split <;> rfl
      · rw [pathTable_putFile hdead', pathTable_putFile hdead, pathTable_putFile hdead, pathTable_putFile hdead', hpa, hpb]
        exact update_comm hdiff ..

/-- The later record of the file fits the batch's earlier one: it is not older than the stored record after sequence
zero, and it leaves no path but one that was the file's before. -/
structure Joins (u : FileTables Id) (m a : FileMetadata Id) : Prop where
  seq : SeqSafe (u.fileTable m.id) m a
  path : isStale (mergeFileMetadata (u.fileTable m.id) m).1 a = false → a.path ≠ u.storedPath m →
    u.pathTable (u.storedPath m) = some m.id

section Join

variable (hlive : tombstoned m.id = false) (hid : a.id = m.id) (hn : n.id = m.id)
  (hmerged : n.stripped = (mergeFileMetadata (some m) a).1.stripped)

include hlive hid

lemma fileTable_putFile_putFile : ((u.putFile tombstoned m).1.putFile tombstoned a).1.fileTable m.id
    = some (mergeFileMetadata (some (mergeFileMetadata (u.fileTable m.id) m).1) a).1.stripped := by
  have hlive' : tombstoned a.id = false := hid ▸ hlive
  rw [← hid, fileTable_putFile_merged hlive', hid, fileTable_putFile_merged hlive]
  exact congrArg some (mergeFileMetadata_stripped rfl rfl)

lemma storedPath_putFile : (u.putFile tombstoned m).1.storedPath a
    = (mergeFileMetadata (some (mergeFileMetadata (u.fileTable m.id) m).1) a).1.path := by
  unfold storedPath
  rw [hid, fileTable_putFile_merged hlive]
  exact path_of_stripped (mergeFileMetadata_stripped rfl rfl)

include hn hmerged

lemma fileTable_putFile_eq_iff : ((u.putFile tombstoned m).1.putFile tombstoned a).1.fileTable m.id
    = (u.putFile tombstoned n).1.fileTable m.id ↔ SeqSafe (u.fileTable m.id) m a := by
  have hbatch : (u.putFile tombstoned n).1.fileTable m.id
      = some (mergeFileMetadata (u.fileTable m.id) (mergeFileMetadata (some m) a).1).1.stripped := by
    rw [← hn, fileTable_putFile_merged (hn ▸ hlive)]
    cases u.fileTable n.id with
    | none => exact congrArg some hmerged
    | some s => exact congrArg some (mergeFileMetadata_stripped rfl hmerged)
  rw [fileTable_putFile_putFile hlive hid, hbatch, some_inj, mergeFileMetadata_assoc_iff]

lemma storedPath_of_seqSafe (h : SeqSafe (u.fileTable m.id) m a) : u.storedPath n = (u.putFile tombstoned m).1.storedPath a := by
  have hlive' : tombstoned n.id = false := hn ▸ hlive
  have hfile := (fileTable_putFile_eq_iff hlive hid hn hmerged).mpr h
  rw [fileTable_putFile_putFile hlive hid, ← hn, fileTable_putFile_merged hlive', hn] at hfile
  rw [storedPath_putFile hlive hid, storedPath, hn]
  exact (path_of_stripped (some.inj hfile)).symm

lemma Joins.putFile_putFile (h : Joins u m a) :
    ((u.putFile tombstoned m).1.putFile tombstoned a).1 = (u.putFile tombstoned n).1 := by
  have hlive' : tombstoned a.id = false := hid ▸ hlive
  have hlive'' : tombstoned n.id = false := hn ▸ hlive
  have hpath := storedPath_of_seqSafe hlive hid hn hmerged h.seq
  -- the path of the earlier record is the final one, or the file's already
  have hkept : (u.putFile tombstoned m).1.storedPath a = u.storedPath m ∨ u.pathTable (u.storedPath m) = some m.id := by
    rw [storedPath_putFile hlive hid, mergeFileMetadata_some]
    cases hs : isStale (mergeFileMetadata (u.fileTable m.id) m).1 a with
    | true => exact .inl rfl
    | false =>
      by_cases hp : a.path = u.storedPath m
      · exact .inl hp
      · exact .inr (h.path hs hp)
  refine eq_of_tables (fun g => ?_) ?_
  · by_cases hg : g = m.id
    · rw [hg]
      exact (fileTable_putFile_eq_iff hlive hid hn hmerged).mpr h.seq
    rw [fileTable_putFile_of_ne hlive' (hid ▸ hg), fileTable_putFile_of_ne hlive hg,
      fileTable_putFile_of_ne hlive'' (hn ▸ hg), hpath,
      pathTable_putFile hlive]
    rcases hkept with heq | hnamed
    · simp [heq, Ne.symm hg]
    · have hsame : update u.pathTable (u.storedPath m) (some m.id) = u.pathTable := update_eq_self_iff.mpr hnamed.symm
      rw [hsame, hnamed]
      simp [Ne.symm hg]
  · rw [pathTable_putFile hlive', pathTable_putFile hlive'', pathTable_putFile hlive, hpath, hid, hn]
    rcases hkept with heq | hnamed
    · rw [heq, update_idem]
    · have hsame : update u.pathTable (u.storedPath m) (some m.id) = u.pathTable := update_eq_self_iff.mpr hnamed.symm
      rw [hsame]

lemma joins_of_tables
    (hfile : ((u.putFile tombstoned m).1.putFile tombstoned a).1.fileTable m.id = (u.putFile tombstoned n).1.fileTable m.id)
    (hnamed : ∀ p, ((u.putFile tombstoned m).1.putFile tombstoned a).1.pathTable p = some m.id ↔
      (u.putFile tombstoned n).1.pathTable p = some m.id) : Joins u m a := by
  have hlive' : tombstoned a.id = false := hid ▸ hlive
  have hlive'' : tombstoned n.id = false := hn ▸ hlive
  have hseq := (fileTable_putFile_eq_iff hlive hid hn hmerged).mp hfile
  refine ⟨hseq, fun hs hp => ?_⟩
  have hfinal : (u.putFile tombstoned m).1.storedPath a = a.path := by
    rw [storedPath_putFile hlive hid, mergeFileMetadata_some, hs]
    rfl
  have hboth := hnamed (u.storedPath m)
  rw [pathTable_putFile hlive', pathTable_putFile hlive, pathTable_putFile hlive'',
    storedPath_of_seqSafe hlive hid hn hmerged hseq, hfinal,
    update_of_ne hp.symm, update_self, update_of_ne hp.symm] at hboth
  exact hboth.mp rfl

end Join

end Puts

/-- The paths the records and the stored record give a file. -/
def FileTables.pathsOf (u : FileTables Id) (f : FileId) (l : List (FileMetadata Id)) : List Path :=
  (l ++ (u.fileTable f).toList).map FileMetadata.path

lemma mem_pathsOf {u : FileTables Id} {f : FileId} {r : FileMetadata Id} (hr : u.fileTable f = some r)
    (l : List (FileMetadata Id)) :
    r.path ∈ u.pathsOf f l := by
  unfold pathsOf
  rw [hr]
  simp

/-! ## The batch -/

lemma putFilesBatch_append (t : FileTables Id) (tombstoned : FileId → Bool) (l l' : List (FileMetadata Id)) :
    t.putFilesBatch tombstoned (l ++ l') = (t.putFilesBatch tombstoned l).putFilesBatch tombstoned l' := foldl_append

/-- The records put after the file's own: of other files, each once, and apart from it. -/
structure Later (u : FileTables Id) (tombstoned : FileId → Bool) (f : FileId) (own : List Path) (post : List (FileMetadata Id)) :
    Prop where
  ids : ∀ b ∈ post, b.id ≠ f
  nodup : (post.map FileMetadata.id).Nodup
  apart : ∀ b ∈ post, tombstoned b.id = false → ∃ other, b.path ∈ other ∧ ApartFrom u f b.id own other

section Later

variable {u : FileTables Id} {tombstoned : FileId → Bool} {f : FileId} {a b : FileMetadata Id} {own : List Path}
  {post : List (FileMetadata Id)}

lemma Later.tail (h : Later u tombstoned f own (b :: post)) : Later (u.putFile tombstoned b).1 tombstoned f own post := by
  obtain ⟨hb, hnodup⟩ := nodup_cons.mp h.nodup
  refine ⟨fun c hc => h.ids c (mem_cons_of_mem _ hc), hnodup, fun c hc hlive => ?_⟩
  obtain ⟨other, hmem, hapart⟩ := h.apart c (mem_cons_of_mem _ hc) hlive
  exact ⟨other, hmem, hapart.putFile_third (h.ids b mem_cons_self).symm fun heq => hb (heq ▸ mem_map_of_mem hc)⟩

lemma Later.putFile_own (h : Later u tombstoned a.id own post) (ha : a.path ∈ own) :
    Later (u.putFile tombstoned a).1 tombstoned a.id own post := by
  refine ⟨h.ids, h.nodup, fun b hb hlive => ?_⟩
  obtain ⟨other, hmem, hapart⟩ := h.apart b hb hlive
  exact ⟨other, hmem, hapart.putFile_own (h.ids b hb) ha⟩

/-- A record of the file may as well be put before them. -/
theorem Later.putFile_putFilesBatch (h : Later u tombstoned a.id own post) (ha : a.path ∈ own) :
    ((u.putFilesBatch tombstoned post).putFile tombstoned a).1 = (u.putFile tombstoned a).1.putFilesBatch tombstoned post := by
  induction post generalizing u with
  | nil => rfl
  | cons b post ih =>
    have hcomm : ((u.putFile tombstoned b).1.putFile tombstoned a).1 = ((u.putFile tombstoned a).1.putFile tombstoned b).1 := by
      cases hdead : tombstoned b.id with
      | true => rw [putFile_refused hdead, putFile_refused hdead]
      | false =>
        obtain ⟨other, hmem, hapart⟩ := h.apart b mem_cons_self hdead
        exact (hapart.putFile_comm (h.ids b mem_cons_self).symm ha hmem).symm
    have htail := ih h.tail
    rw [hcomm] at htail
    exact htail

lemma Later.leaves (h : Later u tombstoned f own post) :
    (u.putFilesBatch tombstoned post).fileTable f = u.fileTable f ∧
      ∀ p, (u.putFilesBatch tombstoned post).pathTable p = some f ↔ u.pathTable p = some f := by
  induction post generalizing u with
  | nil => exact ⟨rfl, fun _ => Iff.rfl⟩
  | cons b post ih =>
    have hstep : (u.putFile tombstoned b).1.fileTable f = u.fileTable f ∧
        ∀ p, (u.putFile tombstoned b).1.pathTable p = some f ↔ u.pathTable p = some f := by
      cases hdead : tombstoned b.id with
      | true =>
        rw [putFile_refused hdead]
        exact ⟨rfl, fun _ => Iff.rfl⟩
      | false =>
        obtain ⟨other, hmem, hapart⟩ := h.apart b mem_cons_self hdead
        exact hapart.putFile_other (h.ids b mem_cons_self).symm hmem
    obtain ⟨hfile, hnamed⟩ := ih h.tail
    exact ⟨hfile.trans hstep.1, fun p => (hnamed p).trans (hstep.2 p)⟩

end Later

section Fold

variable {st : List FileId × (FileId → Option (FileMetadata Id))} {l pre post : List (FileMetadata Id)} {m a : FileMetadata Id}

/-- The fold's state stands for the list of the merged records. -/
structure Folded (st : List FileId × (FileId → Option (FileMetadata Id))) (l : List (FileMetadata Id)) : Prop where
  order : st.1 = l.map FileMetadata.id
  nodup : (l.map FileMetadata.id).Nodup
  acc : ∀ m ∈ l, st.2 m.id = some m
  none : ∀ f, f ∉ l.map FileMetadata.id → st.2 f = none

lemma Folded.filterMap (h : Folded st l) : st.1.filterMap st.2 = l := by
  rw [h.order, filterMap_map]
  calc l.filterMap (st.2 ∘ FileMetadata.id) = l.filterMap some := filterMap_congr h.acc
    _ = l := filterMap_some

variable [DecidableEq Id]

lemma id_mergeWithLocations (hid : m.id = a.id) : (mergeWithLocations (some m) a).1.id = a.id := by
  change (mergeFileMetadata (some m) a).1.id = a.id
  rw [mergeFileMetadata_some]
  split
  · exact hid
  · rfl

lemma Folded.new (h : Folded st l) (hnew : a.id ∉ l.map FileMetadata.id) : Folded (foldMetadataStep st a) (l ++ [a]) := by
  have hstep : foldMetadataStep st a = (st.1 ++ [a.id], update st.2 a.id (some a)) := by
    unfold foldMetadataStep
    rw [h.none _ hnew]
  rw [hstep]
  refine ⟨by simp [h.order], ?_, fun m hm => ?_, fun f hf => ?_⟩
  · rw [map_append]
    exact h.nodup.append (nodup_singleton _) (by simpa using hnew)
  · rcases mem_append.mp hm with hm | hm
    · dsimp only
      have hne : m.id ≠ a.id := fun heq => hnew (heq ▸ mem_map_of_mem hm)
      rw [update_of_ne hne, h.acc m hm]
    · rw [mem_singleton.mp hm]
      exact update_self ..
  · rw [map_append, mem_append, not_or] at hf
    have hne : f ≠ a.id := by simpa using hf.2
    dsimp only
    rw [update_of_ne hne, h.none f hf.1]

lemma Folded.again (h : Folded st (pre ++ m :: post)) (hid : m.id = a.id) :
    Folded (foldMetadataStep st a) (pre ++ (mergeWithLocations (some m) a).1 :: post) := by
  have hm := h.acc m (by simp)
  have hstep : foldMetadataStep st a = (st.1, update st.2 a.id (some (mergeWithLocations (some m) a).1)) := by
    unfold foldMetadataStep
    rw [← hid, hm]
  have hmap : (pre ++ (mergeWithLocations (some m) a).1 :: post).map FileMetadata.id =
    (pre ++ m :: post).map FileMetadata.id := by
    simp [id_mergeWithLocations hid, hid]
  have hnodup := h.nodup
  rw [map_append, map_cons, nodup_middle, nodup_cons] at hnodup
  rw [hstep]
  refine ⟨h.order.trans hmap.symm, hmap ▸ h.nodup, fun x hx => ?_, fun f hf => ?_⟩
  · by_cases hself : x = (mergeWithLocations (some m) a).1
    · rw [hself, id_mergeWithLocations hid]
      exact update_self ..
    · have hx : x ∈ pre ++ post := by simpa [hself] using hx
      have hne : x.id ≠ a.id := fun heq => hnodup.1 (by rw [hid, ← heq, ← map_append]; exact mem_map_of_mem hx)
      dsimp only
      rw [update_of_ne hne, h.acc x (by simp only [mem_append, mem_cons] at hx ⊢; tauto)]
  · rw [hmap] at hf
    have hne : f ≠ a.id := fun heq => hf (by simp [heq, hid])
    dsimp only
    rw [update_of_ne hne, h.none f hf]

end Fold

variable [DecidableEq Id]

lemma folded_foldl (items : List (FileMetadata Id)) :
    Folded (items.foldl foldMetadataStep ([], fun _ => none)) (foldMetadataBatch items) := by
  suffices h : ∃ l, Folded (items.foldl foldMetadataStep ([], fun _ => none)) l by
    obtain ⟨l, hl⟩ := h
    have heq : foldMetadataBatch items = l := hl.filterMap
    rwa [heq]
  induction items using reverseRecOn with
  | nil => exact ⟨[], rfl, nodup_nil, by simp, fun _ _ => rfl⟩
  | append_singleton items a ih =>
    obtain ⟨l, hl⟩ := ih
    rw [foldl_append]
    by_cases hnew : a.id ∈ l.map FileMetadata.id
    · obtain ⟨m, hm, hid⟩ := mem_map.mp hnew
      obtain ⟨pre, post, rfl⟩ := append_of_mem hm
      exact ⟨_, hl.again hid⟩
    · exact ⟨_, hl.new hnew⟩

section Batch

variable {items pre post : List (FileMetadata Id)} {m a : FileMetadata Id}

lemma foldMetadataBatch_new (hnew : a.id ∉ (foldMetadataBatch items).map FileMetadata.id) :
    foldMetadataBatch (items ++ [a]) = foldMetadataBatch items ++ [a] := by
  have h := (folded_foldl items).new hnew
  unfold foldMetadataBatch at h ⊢
  rw [foldl_append]
  exact h.filterMap

lemma foldMetadataBatch_again (hsplit : foldMetadataBatch items = pre ++ m :: post) (hid : m.id = a.id) :
    foldMetadataBatch (items ++ [a]) = pre ++ (mergeWithLocations (some m) a).1 :: post := by
  have h := folded_foldl items
  rw [hsplit] at h
  unfold foldMetadataBatch
  rw [foldl_append]
  exact (h.again hid).filterMap

end Batch

/-! ## One record more -/

/-- Where record `a` of a file already in the batch comes: `P` holds of the tables as the batch finds them at the
file's record `m`, of `m`, and of the records put after it. -/
def AtJoin (t : FileTables Id) (tombstoned : FileId → Bool) (before : List (FileMetadata Id)) (a : FileMetadata Id)
    (P : FileTables Id → FileMetadata Id → List (FileMetadata Id) → Prop) : Prop :=
  tombstoned a.id = false → ∀ pre m post, foldMetadataBatch before = pre ++ m :: post → m.id = a.id →
    P (t.putFilesBatch tombstoned pre) m post

/-- No record put after the file's own shares a path with it: not in the records, not in those stored, not in the index. -/
def RestApart (tombstoned : FileId → Bool) (a : FileMetadata Id) (u : FileTables Id) (m : FileMetadata Id)
    (post : List (FileMetadata Id)) : Prop :=
  ∀ b ∈ post, tombstoned b.id = false →
    (∀ p ∈ u.pathsOf m.id [m, a], p ∉ u.pathsOf b.id [b] ∧ u.pathTable p ≠ some b.id) ∧
      ∀ p ∈ u.pathsOf b.id [b], u.pathTable p ≠ some m.id

section Step

variable {t : FileTables Id} {tombstoned : FileId → Bool} {before : List (FileMetadata Id)} {a : FileMetadata Id}

lemma later_of_restApart {pre post : List (FileMetadata Id)} {m : FileMetadata Id}
    (hsplit : foldMetadataBatch before = pre ++ m :: post)
    {u : FileTables Id} (h : RestApart tombstoned a u m post) : Later u tombstoned m.id (u.pathsOf m.id [m, a]) post := by
  have hnodup := (folded_foldl before).nodup
  rw [hsplit, map_append, nodup_append] at hnodup
  obtain ⟨hm, hpost⟩ := nodup_cons.mp hnodup.2.1
  refine ⟨fun b hb heq => hm (heq ▸ mem_map_of_mem hb), hpost, fun b hb hlive => ?_⟩
  obtain ⟨hown, hother⟩ := h b hb hlive
  exact ⟨u.pathsOf b.id [b], by simp [pathsOf], fun r hr => mem_pathsOf hr _, fun r hr => mem_pathsOf hr _, fun p hp =>
    (hown p hp).1,
    fun p hp => (hown p hp).2, hother⟩

lemma batch_step_iff (hapart : AtJoin t tombstoned before a (RestApart tombstoned a))
    (hbefore : t.putFilesBatch tombstoned (foldMetadataBatch before) = t.putFilesBatch tombstoned before) :
    t.putFilesBatch tombstoned (foldMetadataBatch (before ++ [a])) = t.putFilesBatch tombstoned (before ++ [a]) ↔
      AtJoin t tombstoned before a fun u m _ => Joins u m a := by
  have hserial : t.putFilesBatch tombstoned (before ++ [a])
      = ((t.putFilesBatch tombstoned (foldMetadataBatch before)).putFile tombstoned a).1 := by
    rw [putFilesBatch_append, ← hbefore]
    rfl
  rw [hserial]
  by_cases hold : a.id ∈ (foldMetadataBatch before).map FileMetadata.id
  swap
  · rw [foldMetadataBatch_new hold, putFilesBatch_append]
    refine iff_of_true rfl fun _ pre m post hsplit hid => absurd ?_ hold
    rw [hsplit, ← hid]
    simp
  obtain ⟨m₀, hm₀, hid₀⟩ := mem_map.mp hold
  obtain ⟨pre₀, post₀, hsplit₀⟩ := append_of_mem hm₀
  cases hlive : tombstoned a.id with
  | true =>
    refine iff_of_true ?_ fun hlive' => ?_
    · rw [foldMetadataBatch_again hsplit₀ hid₀, putFile_refused hlive, hsplit₀, putFilesBatch_append, putFilesBatch_append]
      have hm : tombstoned m₀.id = true := hid₀ ▸ hlive
      have hn : tombstoned (mergeWithLocations (some m₀) a).1.id = true := by rwa [id_mergeWithLocations hid₀]
      change putFilesBatch (putFile _ tombstoned _).1 tombstoned post₀ = putFilesBatch (putFile _ tombstoned _).1 tombstoned post₀
      rw [putFile_refused hm, putFile_refused hn]
    · rw [hlive] at hlive'
      cases hlive'
  | false =>
    -- at any place of the file the equation is that of its two puts
    have hplace : ∀ pre m post, foldMetadataBatch before = pre ++ m :: post → m.id = a.id →
        (t.putFilesBatch tombstoned (foldMetadataBatch (before ++ [a]))
          = ((t.putFilesBatch tombstoned (foldMetadataBatch before)).putFile tombstoned a).1 ↔
        Joins (t.putFilesBatch tombstoned pre) m a) := by
      intro pre m post hsplit hid
      have hlater := later_of_restApart hsplit (hapart hlive pre m post hsplit hid)
      have hlive' : tombstoned m.id = false := hid ▸ hlive
      rw [foldMetadataBatch_again hsplit hid, hsplit, putFilesBatch_append, putFilesBatch_append]
      generalize t.putFilesBatch tombstoned pre = u at hlater ⊢
      have hn : (mergeWithLocations (some m) a).1.id = m.id := (id_mergeWithLocations hid).trans hid.symm
      have hmerged : (mergeWithLocations (some m) a).1.stripped = (mergeFileMetadata (some m) a).1.stripped := rfl
      generalize (mergeWithLocations (some m) a).1 = n at hn hmerged ⊢
      have hpath : n.path ∈ u.pathsOf m.id [m, a] := by
        rw [path_of_stripped hmerged, mergeFileMetadata_some]
        split <;> simp [pathsOf]
      change (u.putFile tombstoned n).1.putFilesBatch tombstoned post
        = (((u.putFile tombstoned m).1.putFilesBatch tombstoned post).putFile tombstoned a).1 ↔ _
      have hlater₁ := hlater.putFile_own (by simp [pathsOf])
      rw [hid] at hlater₁
      rw [hlater₁.putFile_putFilesBatch (by simp [pathsOf])]
      constructor
      · intro heq
        have hlater₂ := hlater₁.putFile_own (by simp [pathsOf])
        rw [← hn] at hlater
        have hlater₃ := hlater.putFile_own (by rwa [hn])
        rw [hn] at hlater₃
        rw [← hid] at hlater₂
        refine joins_of_tables hlive' hid.symm hn hmerged ?_ fun p => ?_
        · rw [← hlater₂.leaves.1, ← hlater₃.leaves.1, heq]
        · rw [← hlater₂.leaves.2, ← hlater₃.leaves.2, heq]
      · intro hjoins
        rw [hjoins.putFile_putFile hlive' hid.symm hn hmerged]
    constructor
    · intro heq _ pre m post hsplit hid
      exact (hplace pre m post hsplit hid).mp heq
    · intro hjoins
      exact (hplace pre₀ m₀ post₀ hsplit₀ hid₀).mpr (hjoins hlive pre₀ m₀ post₀ hsplit₀ hid₀)

end Step

def batchItem (id : FileId) (path : Path) (writeSeq : Nat) : FileMetadata Nat := ⟨id, path, 0, .regularFile, [], writeSeq⟩

def oneFileTables (writeSeq : Nat) : FileTables Nat where
  fileTable f := if f = 1 then some (batchItem 1 ['a'] writeSeq) else none
  pathTable p := if p = ['a'] then some 1 else none

end Dfs
