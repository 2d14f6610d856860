import Dfs.MetadataBatch
import Dfs.Theorems.StaleRecord

/-! # The positions of a merged record -/

namespace Dfs

open Option LocationMerge Function

open List hiding lookup

variable {c : Prop}

section Indices

variable {α κ : Type} {key : α → Option κ} {locs : List α} {index : κ → Option Nat} {idx : Nat} {old new : α}

/-- A position for a key only where an entry has it, and under `c` that of every entry. -/
def Indexes (c : Prop) (key : α → Option κ) (locs : List α) (index : κ → Option Nat) : Prop :=
  ∀ k i, (index k = some i → (locs[i]?).bind key = some k) ∧ (c → (locs[i]?).bind key = some k → index k = some i)

variable [DecidableEq κ]

/-- The index when an entry without a place in it has been put at a position. -/
def indexNew (key : α → Option κ) (index : κ → Option Nat) (new : α) (idx : Nat) : κ → Option Nat :=
  (key new).elim index fun k => update index k (some idx)

/-- The index when an entry has been replaced. -/
def indexSet (key : α → Option κ) (index : κ → Option Nat) (old new : α) (idx : Nat) : κ → Option Nat :=
  fun k => if key new = some k then some idx else if key old = some k then none else index k

lemma indexNew_apply (k : κ) : indexNew key index new idx k = if key new = some k then some idx else index k := by
  cases hkey : key new <;> simp [indexNew, hkey, update_apply, eq_comm]

lemma Indexes.append (h : Indexes c key locs index) (hfree : c → ∀ k, key new = some k → index k = none) :
    Indexes c key (locs ++ [new]) (indexNew key index new locs.length) := by
  intro k i
  obtain ⟨honly, hall⟩ := h k i
  rw [indexNew_apply]
  grind

lemma Indexes.set (h : Indexes c key locs index) (hold : locs[idx]? = some old)
    (hfree : c → ∀ k, key new = some k → key old = some k ∨ index k = none) :
    Indexes c key (locs.set idx new) (indexSet key index old new idx) := by
  intro k i
  obtain ⟨honly, hall⟩ := h k i
  have hidx := (h k idx).2
  grind [indexSet]

/-- Built up over a list in which no key comes twice. -/
theorem indexes_fold (locs : List α) (hc : c → locs.Pairwise fun a b => ∀ k, key a = some k → key b ≠ some k) :
    Indexes c key locs (locs.zipIdx.foldl (fun f x => indexNew key f x.1 x.2) fun _ => none) := by
  induction locs using reverseRecOn with
  | nil => intro k i; simp
  | append_singleton locs a ih =>
    have ih := ih fun h => (pairwise_append.mp (hc h)).1
    simp only [zipIdx_append, foldl_append, zipIdx_singleton, Nat.zero_add, foldl_cons, foldl_nil]
    refine ih.append fun h k hk => eq_none_iff_forall_ne_some.mpr fun i hi => ?_
    obtain ⟨l, hl, hkey⟩ := bind_eq_some_iff.mp ((ih k i).1 hi)
    exact (pairwise_append.mp (hc h)).2.2 l (mem_of_getElem? hl) a mem_cons_self k hkey hk

end Indices

variable {Id : Type}

/-- No identity is at two offsets. -/
def OneOffset (all : Locations Id) : Prop :=
  ∀ a ∈ all, ∀ b ∈ all, a.chunkId = b.chunkId → a.fileOffset = none ∨ b.fileOffset = none ∨ a.fileOffset = b.fileOffset

/-- Nor is one at an offset and without one. -/
def OnePlace (all : Locations Id) : Prop := ∀ a ∈ all, ∀ b ∈ all, a.chunkId = b.chunkId → a.fileOffset = b.fileOffset

variable (locs : Locations Id)

def HasOffset (offset : Nat) : Prop := ∃ l ∈ locs, l.fileOffset = some offset

def DistinctPlaces : Prop := locs.Pairwise fun a b => a.chunkId ≠ b.chunkId ∧ ∀ o, a.fileOffset = some o → b.fileOffset ≠ some o

variable [DecidableEq Id] {all : Locations Id} {st : LocationMerge Id} {loc : ChunkLocation Id}

/-- The entries have places of `all`, and the indices are right. -/
structure LocationMerge.Sound (c : Prop) (all : Locations Id) (st : LocationMerge Id) : Prop where
  places : ∀ l ∈ st.mergedLocs, ∃ a ∈ all, a.chunkId = l.chunkId ∧ a.fileOffset = l.fileOffset
  ids : Indexes c (fun l => some l.chunkId) st.mergedLocs st.idIndex
  offsets : Indexes c (·.fileOffset) st.mergedLocs st.offsetIndex

def LocationMerge.Adds (c : Prop) (all : Locations Id) (st : LocationMerge Id) (loc : ChunkLocation Id)
    (st' : LocationMerge Id) : Prop :=
  st'.Sound c all ∧ ∀ o, HasOffset st.mergedLocs o ∨ loc.fileOffset = some o → HasOffset st'.mergedLocs o

/-- An entry of the location's identity or of its offset is replaced. -/
theorem LocationMerge.Sound.replace {idx : Nat} {old new : ChunkLocation Id} {ids : Id → Option Nat} {offsets : Nat → Option Nat}
    (h : st.Sound c all) (hloc : loc ∈ all) (hold : st.mergedLocs[idx]? = some old)
    (hnew : new.chunkId = loc.chunkId ∧ new.fileOffset = loc.fileOffset)
    (hid : c → old.chunkId = loc.chunkId ∨ st.idIndex loc.chunkId = none) (hoff : c → old.fileOffset = loc.fileOffset)
    (hplace : old.fileOffset = none ∨ old.fileOffset = loc.fileOffset)
    (hids : ids = indexSet (fun l => some l.chunkId) st.idIndex old new idx)
    (hoffsets : offsets = indexSet (·.fileOffset) st.offsetIndex old new idx) :
    st.Adds c all loc ⟨st.mergedLocs.set idx new, ids, offsets⟩ := by
  subst hids hoffsets
  have hidx := (List.getElem?_eq_some_iff.mp hold).1
  refine ⟨⟨fun l hl => ?_, h.ids.set hold ?_, h.offsets.set hold ?_⟩, ?_⟩
  · rcases mem_or_eq_of_mem_set hl with hl | rfl
    · exact h.places l hl
    · exact ⟨loc, hloc, hnew.1.symm, hnew.2.symm⟩
  · grind
  · grind
  have hself : new ∈ st.mergedLocs.set idx new := mem_of_getElem? (getElem?_set_self hidx)
  rintro o (⟨l, hl, ho⟩ | ho)
  · obtain ⟨i, hi⟩ := mem_iff_getElem?.mp hl
    by_cases heq : idx = i
    · exact ⟨new, hself, by grind⟩
    · exact ⟨l, mem_of_getElem? ((getElem?_set_ne heq).trans hi), ho⟩
  · exact ⟨new, hself, hnew.2.trans ho⟩

variable (existing incoming : FileMetadata Id)

lemma LocationMerge.Sound.add (h : st.Sound c all) (hone : OneOffset all) (hplace : c → OnePlace all)
    (hloc : loc.fileOffset = none ∨ loc ∈ all) : st.Adds c all loc (st.add existing incoming loc) := by
  unfold LocationMerge.add
  cases hoff : loc.fileOffset with
  | none => exact ⟨h, by simp [hoff]⟩
  | some offset =>
    have hloc := hloc.resolve_left (by simp [hoff])
    dsimp only
    cases hid : st.idIndex loc.chunkId with
    | some idx =>
      obtain ⟨old, hold, hkey⟩ := bind_eq_some_iff.mp ((h.ids _ _).1 hid)
      obtain ⟨a, ha, haid, haoff⟩ := h.places old (mem_of_getElem? hold)
      have hsame : old.chunkId = loc.chunkId := some.inj hkey
      rw [bind_some, hold]
      refine h.replace hloc hold ⟨rfl, rfl⟩ (fun _ => .inl hsame) (fun hc => ?_) ?_ (funext fun k => ?_) (funext fun k => ?_)
      · rw [← haoff, hplace hc a ha loc hloc (haid.trans hsame)]
      · grind [OneOffset]
      · grind [indexSet]
      · cases ho : old.fileOffset <;> grind [indexSet, update_apply]
    | none =>
      dsimp only [bind_none]
      cases hio : st.offsetIndex offset with
      | some idx =>
        obtain ⟨old, hold, hkey⟩ := bind_eq_some_iff.mp ((h.offsets _ _).1 hio)
        rw [bind_some, hold, map_some]
        dsimp only [sameOffset]
        split
        · exact ⟨h, by grind [HasOffset]⟩
        refine h.replace hloc hold ⟨rfl, rfl⟩ (fun _ => .inr hid) (fun _ => hkey.trans hoff.symm) (.inr (hkey.trans hoff.symm))
          (funext fun k => ?_) (funext fun k => ?_)
        · grind [indexSet, update_apply]
        · grind [indexSet]
      | none =>
        have hslot : st.newSlot offset loc = ⟨st.mergedLocs ++ [loc], indexNew (fun l => some l.chunkId) st.idIndex loc
            st.mergedLocs.length, indexNew (·.fileOffset) st.offsetIndex loc st.mergedLocs.length⟩ := by
          simp [newSlot, indexNew, hoff]
        rw [bind_none, hslot]
        refine ⟨⟨fun l hl => ?_, h.ids.append ?_, h.offsets.append ?_⟩, ?_⟩
        · rcases mem_append.mp hl with hl | hl
          · exact h.places l hl
          · exact ⟨loc, hloc, by simp_all⟩
        · grind
        · grind
        · grind [HasOffset]

/-- What a run of the loop keeps. -/
theorem LocationMerge.Sound.run {locs : Locations Id} (h : st.Sound c all) (hone : OneOffset all)
    (hplace : c → OnePlace all) (hlocs : ∀ l ∈ locs, l.fileOffset = none ∨ l ∈ all) :
    let result := locs.foldl (LocationMerge.add existing incoming) st
    result.Sound c all ∧ ∀ o, HasOffset (st.mergedLocs ++ locs) o → HasOffset result.mergedLocs o := by
  induction locs generalizing st with
  | nil => exact ⟨h, by simp⟩
  | cons loc locs ih =>
    obtain ⟨hstep, hkeeps⟩ := h.add existing incoming hone hplace (hlocs loc mem_cons_self)
    obtain ⟨hrun, hhas⟩ := ih hstep fun l hl => hlocs l (mem_cons_of_mem _ hl)
    exact ⟨hrun, fun o ho => hhas o (by grind [HasOffset])⟩

omit [DecidableEq Id] in
lemma LocationMerge.Sound.distinctPlaces (h : st.Sound c all) (hc : c) : DistinctPlaces st.mergedLocs := by
  refine pairwise_iff_getElem.mpr fun i j hi hj hlt => ⟨fun hid => ?_, fun o ho ho' => ?_⟩
  · have hi := (h.ids st.mergedLocs[i].chunkId i).2 hc
    have hj := (h.ids st.mergedLocs[j].chunkId j).2 hc
    grind
  · have hi := (h.offsets o i).2 hc
    have hj := (h.offsets o j).2 hc
    grind

lemma LocationMerge.start_eq (locs : Locations Id) :
    start locs = ⟨locs, locs.zipIdx.foldl (fun f x => indexNew (fun l => some l.chunkId) f x.1 x.2) fun _ => none,
      locs.zipIdx.foldl (fun f x => indexNew (·.fileOffset) f x.1 x.2) fun _ => none⟩ := by
  refine mk.injEq .. ▸ ⟨?_, ?_, ?_⟩
  · exact (foldl_hom mergedLocs fun _ _ => rfl).symm.trans (foldl_fixed locs.zipIdx)
  · exact (foldl_hom idIndex fun _ _ => rfl).symm
  · exact (foldl_hom offsetIndex fun _ _ => rfl).symm

/-- A merge keeps every position if no identity is at two offsets; its list is sorted, and has no offset and no
identity twice if the stored one has none and each identity one place; its write sequence is at least both. -/
theorem merge_keeps_positions (existing incoming : FileMetadata Id) :
    let merged := (mergeWithLocations (some existing) incoming).1
    let all := existing.chunkLocations ++ incoming.chunkLocations.filter (·.fileOffset.isSome)
    (OneOffset all → ∀ o, HasOffset all o → HasOffset merged.chunkLocations o) ∧
      merged.chunkLocations.Pairwise (fun a b => a.fileOffset.getD u64Max ≤ b.fileOffset.getD u64Max) ∧
      (OnePlace all → DistinctPlaces existing.chunkLocations → DistinctPlaces merged.chunkLocations) ∧
      (0 < existing.writeSeq → 0 < incoming.writeSeq → max existing.writeSeq incoming.writeSeq ≤ merged.writeSeq) := by
  intro merged all
  have hperm := perm_insertionSort (fun a b : ChunkLocation Id => a.fileOffset.getD u64Max ≤ b.fileOffset.getD u64Max)
    (incoming.chunkLocations.foldl (add existing incoming) (.start existing.chunkLocations)).mergedLocs
  have hstart : (start existing.chunkLocations).Sound (OnePlace all ∧ DistinctPlaces existing.chunkLocations) all := by
    rw [start_eq]
    refine ⟨fun l hl => ⟨l, mem_append_left _ hl, rfl, rfl⟩, indexes_fold _ fun hc => ?_, indexes_fold _ fun hc => ?_⟩
    · exact hc.2.imp fun h k hk hk' => h.1 (some.inj (hk.trans hk'.symm))
    · exact hc.2.imp fun h => h.2
  have hlocs : ∀ l ∈ incoming.chunkLocations, l.fileOffset = none ∨ l ∈ all := by
    intro l hl
    cases ho : l.fileOffset <;> simp [all, hl, ho]
  have hrun (hone : OneOffset all) := hstart.run existing incoming hone (fun hc => hc.1) hlocs
  refine ⟨fun hone o hhas => ?_, sortByOffset_sorted _, fun hplace hd => ?_, fun he hi => ?_⟩
  · obtain ⟨l, hl, ho⟩ := (hrun hone).2 o (by rw [start_eq]; grind [HasOffset])
    exact ⟨l, hperm.mem_iff.mpr hl, ho⟩
  · have hdistinct := (hrun fun a ha b hb hid => .inr (.inr (hplace a ha b hb hid))).1.distinctPlaces ⟨hplace, hd⟩
    refine (hperm.pairwise_iff ?_).mpr hdistinct
    rintro a b ⟨hid, hoff⟩
    exact ⟨hid.symm, fun o hb ha => hoff o ha hb⟩
  show _ ≤ (mergeFileMetadata (some existing) incoming).1.writeSeq
  simp only [mergeFileMetadata, isStale, he, hi, decide_true, Bool.true_and, decide_eq_true_eq]
  split <;> dsimp only <;> omega

/-- A chunk back at another offset loses its old position, and has the new one twice. -/
theorem moved_chunk_loses_position :
    ((mergeWithLocations (some (recordOf [slotStart 10 0, slotStart 11 1])) (recordOf [slotStart 10 1])).1.chunkLocations.map
      fun l => (l.chunkId, l.fileOffset)) = [(10, some chunkSize), (11, some chunkSize)] := by
  decide +kernel

end Dfs
