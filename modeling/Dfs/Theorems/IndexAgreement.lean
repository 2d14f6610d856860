import Dfs.Theorems.MapOrder

/-! # Does the reverse index agree with the chunk map? -/

namespace Dfs

open KeyedList Function Option Node
open List hiding lookup

variable {Id : Type}

def HasId (locs : Locations Id) (id : Id) : Prop := ∃ l ∈ locs, l.chunkId = id

/-- It names the file of every chunk in the map, and only chunks in that file's list. -/
structure IndexedNode.Agrees (n : IndexedNode Id) : Prop where
  indexed : ∀ file, ∀ l ∈ n.node.locsOf file, n.chunkToFile l.chunkId = some file
  listed : ∀ id file, n.chunkToFile id = some file → HasId (n.node.locsOf file) id

def LiesAt (place : Id → Slot) (file : FileId) (loc : ChunkLocation Id) : Prop :=
  slotOf loc = some (place loc.chunkId).2 ∧ (place loc.chunkId).1 = file

/-! ## One list and the index -/

variable {file : FileId} [DecidableEq Id]

omit [DecidableEq Id] in
lemma IndexedNode.Agrees.congr {n n' : IndexedNode Id} (h : n.Agrees) (hindex : n'.chunkToFile = n.chunkToFile)
    (hids : ∀ file, (n'.node.locsOf file).map (·.chunkId) = (n.node.locsOf file).map (·.chunkId)) : n'.Agrees := by
  have hhas : ∀ file id, HasId (n'.node.locsOf file) id ↔ HasId (n.node.locsOf file) id := by
    intro file id
    have : id ∈ (n'.node.locsOf file).map (·.chunkId) ↔ id ∈ (n.node.locsOf file).map (·.chunkId) := by rw [hids]
    simpa [HasId] using this
  constructor
  · intro file l hl
    obtain ⟨l', hl', hid⟩ := (hhas file l.chunkId).mp ⟨l, hl, rfl⟩
    rw [hindex, ← hid]
    exact h.indexed file l' hl'
  · intro id file hid
    rw [hindex] at hid
    exact (hhas file id).mpr (h.listed id file hid)

variable (index : Id → Option FileId)

lemma indexInsertAll_apply (file : FileId) (locs : Locations Id) (id : Id) :
    (HasId locs id → indexInsertAll index file locs id = some file) ∧
      (¬HasId locs id → indexInsertAll index file locs id = index id) := by
  unfold indexInsertAll
  induction locs generalizing index with
  | nil => exact ⟨fun ⟨_, h, _⟩ => (nomatch h), fun _ => rfl⟩
  | cons l locs ih =>
    rw [foldl_cons]
    by_cases htail : HasId locs id
    · exact ⟨fun _ => (ih _).1 htail, fun h => absurd (htail.imp fun _ hx => ⟨mem_cons_of_mem _ hx.1, hx.2⟩) h⟩
    rw [(ih _).2 htail]
    by_cases hid : l.chunkId = id
    · subst hid
      exact ⟨fun _ => update_self .., fun h => absurd ⟨l, mem_cons_self, rfl⟩ h⟩
    rw [update_of_ne (Ne.symm hid)]
    refine ⟨fun ⟨x, hx, hxid⟩ => ?_, fun _ => rfl⟩
    rcases mem_cons.mp hx with rfl | hx
    · exact absurd hxid hid
    · exact absurd ⟨x, hx, hxid⟩ htail

lemma indexEraseAll_apply (ids : List Id) (id : Id) : indexEraseAll index ids id = if id ∈ ids then none else index id := by
  unfold indexEraseAll
  induction ids generalizing index with
  | nil => simp
  | cons i ids ih =>
    rw [foldl_cons, ih]
    by_cases hmem : id ∈ ids
    · simp [hmem]
    · by_cases hid : id = i <;> simp [hmem, hid]

lemma indexAfterRemove_eq (locs : Locations Id) :
    indexAfterRemove index locs = indexEraseAll index (locs.map (·.chunkId)) := by
  unfold indexAfterRemove indexEraseAll
  rw [foldl_map]

/-! ## What a put supersedes -/

variable {l : ChunkLocation Id}
  {cidx : Nat} {id : Id} {old : ChunkLocation Id} {drop : ChunkLocation Id → Bool} {mapLocs : Locations Id}

lemma guardLocation_snd {onDisk : Id → Bool} {existing : Locations Id}
    (h : (guardLocation onDisk existing l).2 = some id) :
    (guardLocation onDisk existing l).1 = l ∧ ∃ cidx old, slotOf l = some cidx ∧ lookup cidxOf existing cidx = some old ∧
      old.chunkId = id ∧ l.chunkId ≠ id := by
  rcases guardLocation_cases onDisk (lookup cidxOf) existing l with ⟨hg, -⟩ | ⟨cidx, old, hslot, hold, hid, hg⟩
  · rw [guardLocation, hg] at h
    cases h
  rw [guardLocation, hg] at h ⊢
  split at h
  · cases h
  rename_i hstale
  rw [if_neg hstale]
  cases h
  exact ⟨rfl, cidx, old, hslot, hold, rfl, Ne.symm hid⟩

lemma guardLocation_occupant (onDisk : Id → Bool) {existing : Locations Id} (hslot : slotOf l = some cidx)
    (hold : lookup cidxOf existing cidx = some old) :
    (guardLocation onDisk existing l).1.chunkId = old.chunkId ∨ (guardLocation onDisk existing l).2 = some old.chunkId := by
  unfold guardLocation guardLocationBy
  simp only [hslot, hold]
  split_ifs with hid
  · exact .inl hid.symm
  · exact .inl rfl
  · exact .inr rfl

omit [DecidableEq Id] in
lemma mem_droppedUnmentioned {locs : Locations Id} (h : id ∈ droppedUnmentioned drop locs mapLocs) :
    ∃ l ∈ mapLocs, l.chunkId = id ∧ ∃ cidx, slotOf l = some cidx ∧ mentioned locs cidx = false ∧ drop l = true := by
  induction mapLocs generalizing locs with
  | nil => cases h
  | cons l mapLocs ih =>
    have htail {locs' : Locations Id} (hsub : ∀ cidx, mentioned locs' cidx = false → mentioned locs cidx = false)
        (h : id ∈ droppedUnmentioned drop locs' mapLocs) :
        ∃ l' ∈ l :: mapLocs, l'.chunkId = id ∧ ∃ cidx, slotOf l' = some cidx ∧ mentioned locs cidx = false ∧ drop l' = true := by
      obtain ⟨l', hl', hid, cidx, hslot, hm, hd⟩ := ih h
      exact ⟨l', mem_cons_of_mem _ hl', hid, cidx, hslot, hsub cidx hm, hd⟩
    unfold droppedUnmentioned at h
    split at h
    · exact htail (fun _ hm => hm) h
    rename_i cidx hslot
    split at h
    · exact htail (fun _ hm => hm) h
    rename_i hm
    split at h
    · rename_i hd
      rcases mem_cons.mp h with rfl | h
      · exact ⟨l, mem_cons_self, rfl, cidx, hslot, by simpa using hm, hd⟩
      · exact htail (fun _ hm => hm) h
    refine htail (fun c hc => ?_) h
    rw [mentioned_append, Bool.or_eq_false_iff] at hc
    exact hc.1

omit [DecidableEq Id] in
lemma droppedUnmentioned_of_mem {locs : Locations Id} (hslots : mapLocs.Pairwise fun a b => slotOf a ≠ slotOf b)
    (hl : l ∈ mapLocs) (hslot : slotOf l = some cidx) (hm : mentioned locs cidx = false) (hd : drop l = true) :
    l.chunkId ∈ droppedUnmentioned drop locs mapLocs := by
  induction mapLocs generalizing locs with
  | nil => cases hl
  | cons x mapLocs ih =>
    obtain ⟨hx, hrest⟩ := pairwise_cons.mp hslots
    unfold droppedUnmentioned
    rcases mem_cons.mp hl with rfl | hl
    · simp [hslot, hm, hd]
    have hne : slotOf x ≠ some cidx := hslot ▸ hx l hl
    cases hxs : slotOf x with
    | none => exact ih hrest hl hm
    | some c =>
      dsimp only
      split
      · exact ih hrest hl hm
      split
      · exact mem_cons_of_mem _ (ih hrest hl hm)
      refine ih hrest hl ?_
      rw [mentioned_append, hm, Bool.false_or]
      simp only [mentioned, any_cons, any_nil, Bool.or_false, decide_eq_false_iff_not]
      exact hne

variable {locs : Locations Id}

omit [DecidableEq Id] in
lemma Ordered.slots_ne (h : Ordered locs) : locs.Pairwise fun a b => slotOf a ≠ slotOf b := by
  refine List.Pairwise.imp_of_mem (fun {a b} ha hb hlt heq => ?_) h.sorted
  rw [slotOf_of_isSome (h.placed a ha), slotOf_of_isSome (h.placed b hb), some.injEq] at heq
  exact hlt.ne heq

section Put

variable {place : Id → Slot} {onDisk : Id → Bool} {m : FileMetadata Id} {existing : Locations Id} {mapSeq : Nat}

def putLocations (onDisk : Id → Bool) (m : FileMetadata Id) (entry : Option (Locations Id × Nat)) : Locations Id :=
  (mergedLocations onDisk m entry).filter (·.fileOffset.isSome)

variable {x : ChunkLocation Id}

lemma mem_putLocations {entry : Option (Locations Id × Nat)} (h : x ∈ putLocations onDisk m entry) :
    x.fileOffset.isSome = true ∧ (x ∈ m.chunkLocations ∨ x ∈ entry.elim [] Prod.fst) := by
  obtain ⟨hx, hsome⟩ := List.mem_filter.mp h
  refine ⟨hsome, ?_⟩
  cases entry with
  | none => exact .inl hx
  | some e =>
    obtain ⟨existing, mapSeq⟩ := e
    have hx : x ∈ addUnmentioned (shrinkDrops m mapSeq) (m.chunkLocations.map fun l =>
      (guardLocation onDisk existing l).1) existing :=
      (mem_insertionSort _).mp hx
    obtain ⟨added, heq, hsub⟩ := addUnmentioned_eq_append (shrinkDrops m mapSeq)
      (m.chunkLocations.map fun l => (guardLocation onDisk existing l).1) existing
    rw [heq] at hx
    rcases mem_append.mp hx with hx | hx
    · obtain ⟨l, hl, rfl⟩ := mem_map.mp hx
      rcases guardLocation_cases onDisk (lookup cidxOf) existing l with ⟨hg, -⟩ | ⟨cidx, old, -, hold, -, hg⟩
      · rw [guardLocation, hg]
        exact .inl hl
      rw [guardLocation, hg]
      split
      · exact .inr (mem_of_lookup hold)
      · exact .inl hl
    · exact .inr (hsub hx)

lemma mem_putLocations_slot (hplaced : ∀ l ∈ existing, l.fileOffset.isSome = true) (hslot : slotOf x = some cidx) :
    x ∈ putLocations onDisk m (some (existing, mapSeq)) ↔
      x ∈ if mentioned m.chunkLocations cidx then (slotLocs m.chunkLocations cidx).map fun l =>
        (guardLocation onDisk existing l).1
        else (firstKept (shrinkDrops m mapSeq) existing cidx).toList := by
  have hguard : ∀ l ∈ m.chunkLocations, slotOf (guardLocation onDisk existing l).1 = slotOf l := fun l _ =>
    slotOf_guardLocation_of_placed onDisk hplaced l
  have hslots := slotLocs_addUnmentioned (shrinkDrops m mapSeq)
    (m.chunkLocations.map fun l => (guardLocation onDisk existing l).1) existing cidx
  rw [mentioned_map hguard, slotLocs_map hguard] at hslots
  rw [← hslots]
  have hsome : x.fileOffset.isSome = true := by
    obtain ⟨o, ho, -⟩ := map_eq_some_iff.mp hslot
    rw [ho]
    rfl
  unfold putLocations mergedLocations mergedLocationsBy slotLocs sortByOffset
  simp [hsome, hslot]

omit [DecidableEq Id] in
lemma Ordered.lookup_of_slotOf (h : Ordered locs) (hl : l ∈ locs) (hslot : slotOf l = some cidx) :
    lookup cidxOf locs cidx = some l := by
  rw [slotOf_of_isSome (h.placed l hl), some.injEq] at hslot
  exact hslot ▸ lookup_of_mem h.sorted hl

omit [DecidableEq Id] in
lemma slotLocs_eq_singleton (hone : (slotLocs locs cidx).length ≤ 1) (hl : l ∈ locs) (hslot : slotOf l = some cidx) :
    slotLocs locs cidx = [l] := by
  have hmem : l ∈ slotLocs locs cidx := List.mem_filter.mpr ⟨hl, by simpa using hslot⟩
  match hlocs : slotLocs locs cidx, hone with
  | [], _ =>
    rw [hlocs] at hmem
    cases hmem
  | [x], _ =>
    rw [hlocs] at hmem
    rw [List.mem_singleton.mp hmem]

variable (hlist : Ordered existing) (hplace : ∀ l ∈ existing, place l.chunkId = (m.id, cidxOf l))
  (hrecord : ∀ l ∈ m.chunkLocations, l.fileOffset.isSome = true → LiesAt place m.id l)
  (hone : ∀ cidx, (slotLocs m.chunkLocations cidx).length ≤ 1)

include hplace hrecord in
omit [DecidableEq Id] in
lemma place_of_mem (hsome : x.fileOffset.isSome = true) (hx : x ∈ m.chunkLocations ∨ x ∈ existing) :
    place x.chunkId = (m.id, cidxOf x) := by
  rcases hx with hx | hx
  · obtain ⟨hslot, hfile⟩ := hrecord x hx hsome
    rw [slotOf_of_isSome hsome, some.injEq] at hslot
    exact Prod.ext hfile hslot.symm
  · exact hplace x hx

include hlist hplace hrecord hone in
lemma not_hasId_of_superseded (h : id ∈ supersededChunkIds onDisk m (some (existing, mapSeq))) :
    HasId existing id ∧ ¬HasId (putLocations onDisk m (some (existing, mapSeq))) id := by
  -- what is inserted with an identity lies in the slot that the identity names
  have hslotOf : ∀ x ∈ putLocations onDisk m (some (existing, mapSeq)), ∀ cidx, place x.chunkId = (m.id, cidx) →
    slotOf x = some cidx := by
    intro x hx cidx hcidx
    obtain ⟨hsome, hmem⟩ := mem_putLocations hx
    rw [place_of_mem hplace hrecord hsome hmem] at hcidx
    rw [slotOf_of_isSome hsome, (Prod.mk.inj hcidx).2]
  rcases mem_append.mp h with h | h
  · obtain ⟨l, hl, hsnd⟩ := mem_filterMap.mp h
    obtain ⟨htaken, cidx, old, hslot, hold, rfl, hne⟩ := guardLocation_snd hsnd
    refine ⟨⟨old, mem_of_lookup hold, rfl⟩, ?_⟩
    rintro ⟨x, hx, hid⟩
    have hxslot : slotOf x = some cidx := by
      refine hslotOf x hx cidx ?_
      rw [hid, hplace old (mem_of_lookup hold), key_of_lookup hold]
    rw [mem_putLocations_slot hlist.placed hxslot, if_pos (mentioned_iff.mpr ⟨l, hl, hslot⟩),
      slotLocs_eq_singleton (hone cidx) hl hslot, map_singleton, htaken] at hx
    exact hne (List.mem_singleton.mp hx ▸ hid)
  · obtain ⟨l, hl, rfl, cidx, hslot, hm, hd⟩ := mem_droppedUnmentioned h
    rw [mentioned_map fun x _ => slotOf_guardLocation_of_placed onDisk hlist.placed x] at hm
    refine ⟨⟨l, hl, rfl⟩, ?_⟩
    rintro ⟨x, hx, hid⟩
    have hlookup := hlist.lookup_of_slotOf hl hslot
    have hxslot : slotOf x = some cidx := by
      refine hslotOf x hx cidx ?_
      rw [hid, hplace l hl, key_of_lookup hlookup]
    rw [mem_putLocations_slot hlist.placed hxslot, hm, if_neg Bool.false_ne_true, mem_toList] at hx
    -- the only location of the slot is cut off
    obtain ⟨hkept, hxmem⟩ := And.intro (find?_some hx) (mem_of_find?_eq_some hx)
    have hxl : x = l := some.inj ((hlist.lookup_of_slotOf hxmem hxslot).symm.trans hlookup)
    subst hxl
    simp [hd] at hkept

include hlist hone in
lemma superseded_of_lost (hin : HasId existing id) (hout : ¬HasId (putLocations onDisk m (some (existing, mapSeq))) id) :
    id ∈ supersededChunkIds onDisk m (some (existing, mapSeq)) := by
  obtain ⟨l, hl, rfl⟩ := hin
  have hslot : slotOf l = some (cidxOf l) := slotOf_of_isSome (hlist.placed l hl)
  have hlookup := hlist.lookup_of_slotOf hl hslot
  cases hm : mentioned m.chunkLocations (cidxOf l) with
  | true =>
    obtain ⟨x, hx, hxslot⟩ := mentioned_iff.mp hm
    refine mem_append_left _ (mem_filterMap.mpr ⟨x, hx, ?_⟩)
    refine (guardLocation_occupant onDisk hxslot hlookup).resolve_left fun hsame => hout ⟨_, ?_, hsame⟩
    rw [mem_putLocations_slot hlist.placed ((slotOf_guardLocation_of_placed onDisk hlist.placed x).trans hxslot), if_pos hm,
      slotLocs_eq_singleton (hone _) hx hxslot]
    exact List.mem_singleton.mpr rfl
  | false =>
    refine mem_append_right _ (droppedUnmentioned_of_mem hlist.slots_ne hl hslot ?_ ?_)
    · rw [mentioned_map fun x _ => slotOf_guardLocation_of_placed onDisk hlist.placed x]
      exact hm
    · by_contra hkept
      refine hout ⟨l, ?_, rfl⟩
      rw [mem_putLocations_slot hlist.placed hslot, hm, if_neg Bool.false_ne_true, mem_toList]
      -- the first of the slot that is kept is the only one there
      have hfound : (firstKept (shrinkDrops m mapSeq) existing (cidxOf l)).isSome = true := by
        unfold firstKept
        rw [find?_isSome]
        exact ⟨l, hl, by simpa [hslot] using hkept⟩
      obtain ⟨y, hy⟩ := isSome_iff_exists.mp hfound
      have hyslot : slotOf y = some (cidxOf l) := by
        have := find?_some hy
        simp only [Bool.and_eq_true, decide_eq_true_eq] at this
        exact this.1
      have hyl := (hlist.lookup_of_slotOf (mem_of_find?_eq_some hy) hyslot).symm.trans hlookup
      rw [hy, some.inj hyl]

end Put

/-! ## Each call -/

omit [DecidableEq Id] in
def patchTarget [BEq Id] (idx : Option Nat) (old : Id) : ChunkLocation Id → Bool :=
  match idx with
  | some c => fun l => slotOf l == some c
  | none => fun l => l.chunkId == old

/-- A location lies where its identity says, a record is in order, one without an offset is new to the list, a patch
keeps the identity.
-/
def IndexedNode.KeepsIndex (place : Id → Slot) (n : IndexedNode Id) : MapAction Id → Prop
  | .update m => (∀ l ∈ m.chunkLocations, l.fileOffset.isSome = true → LiesAt place m.id l) ∧
    RecordInOrder m (n.node.chunkMap m.id)
  | .updateLocation walk loc => ∀ f, n.node.walkedTo walk loc = some f → LiesAt place f loc
  | .updateLocationForFile _ file loc =>
    LiesAt place file loc ∨ loc.fileOffset = none ∧ ∀ l ∈ n.node.locsOf file, l.chunkId ≠ loc.chunkId
  | .afterPatch file idx old new _ _ seq => new = old ∨ ∀ loc, (n.node.locsOf file).find? (patchTarget idx old) = some loc →
    staleUpdate seq loc.clientWriteSeq = true ∨ loc.chunkId = new
  | .remove _ | .elsewhere _ => True

structure IndexedNode.Kept (place : Id → Slot) (n : IndexedNode Id) : Prop where
  ordered : n.node.MapOrdered
  place_eq : ∀ file, ∀ l ∈ n.node.locsOf file, place l.chunkId = (file, cidxOf l)
  agrees : n.Agrees

section Kept

variable {place : Id → Slot} {n n' : IndexedNode Id}

section

omit [DecidableEq Id]

lemma IndexedNode.Kept.replaced (h : n.Kept place) (hordered : n'.node.MapOrdered)
    (hother : ∀ f, f ≠ file → n'.node.locsOf f = n.node.locsOf f)
    (hplace : ∀ l ∈ n'.node.locsOf file, place l.chunkId = (file, cidxOf l))
    (hin : ∀ l ∈ n'.node.locsOf file, n'.chunkToFile l.chunkId = some file)
    (hgone : ∀ id, ¬HasId (n'.node.locsOf file) id → HasId (n.node.locsOf file) id → n'.chunkToFile id = none)
    (hrest : ∀ id, ¬HasId (n'.node.locsOf file) id → ¬HasId (n.node.locsOf file) id → n'.chunkToFile id = n.chunkToFile id) :
    n'.Kept place := by
  -- an identity of another list is not in this one
  have hapart : ∀ {f l}, f ≠ file → l ∈ n.node.locsOf f → ∀ {x : ChunkLocation Id}, place x.chunkId = (file, cidxOf x) →
      x.chunkId ≠ l.chunkId := by
    intro f l hf hl x hx hid
    rw [hid, h.place_eq f l hl] at hx
    exact hf (Prod.mk.inj hx).1
  refine ⟨hordered, fun f l hl => ?_, fun f l hl => ?_, fun id f hid => ?_⟩
  · by_cases hf : f = file
    · subst hf
      exact hplace l hl
    · exact h.place_eq f l (hother f hf ▸ hl)
  · by_cases hf : f = file
    · subst hf
      exact hin l hl
    rw [hother f hf] at hl
    rw [hrest _ (fun ⟨x, hx, hid⟩ => hapart hf hl (hplace x hx) hid) fun ⟨x, hx, hid⟩ => hapart hf hl (h.place_eq file x hx) hid]
    exact h.agrees.indexed f l hl
  by_cases hnew : HasId (n'.node.locsOf file) id
  · obtain ⟨x, hx, rfl⟩ := hnew
    rw [hin x hx, some.injEq] at hid
    exact hid ▸ ⟨x, hx, rfl⟩
  by_cases hold : HasId (n.node.locsOf file) id
  · rw [hgone id hnew hold] at hid
    cases hid
  rw [hrest id hnew hold] at hid
  have hlisted := h.agrees.listed id f hid
  rwa [hother f fun heq => hold (heq ▸ hlisted)]

lemma IndexedNode.Kept.congr (h : n.Kept place) (hordered : n'.node.MapOrdered) (hindex : n'.chunkToFile = n.chunkToFile)
    (hlocs : ∀ file, (n'.node.locsOf file).map (fun l => (l.chunkId, cidxOf l)) = (n.node.locsOf file).map fun l =>
    (l.chunkId, cidxOf l)) :
    n'.Kept place := by
  refine ⟨hordered, fun file l hl => ?_, h.agrees.congr hindex fun file => ?_⟩
  · have hmem : (l.chunkId, cidxOf l) ∈ (n.node.locsOf file).map fun l => (l.chunkId, cidxOf l) := by
      rw [← hlocs]
      exact mem_map_of_mem hl
    obtain ⟨l', hl', heq⟩ := mem_map.mp hmem
    obtain ⟨hid, hcidx⟩ := Prod.mk.inj heq
    rw [← hid, ← hcidx]
    exact h.place_eq file l' hl'
  · have := congrArg (List.map Prod.fst) (hlocs file)
    simpa [List.map_map, comp_def] using this

lemma map_updateFirst_of_find {β : Type} {p : ChunkLocation Id → Bool} {f : ChunkLocation Id → ChunkLocation Id}
    {g : ChunkLocation Id → β} (h : ∀ l, locs.find? p = some l → g (f l) = g l) : (updateFirst p f locs).map g = locs.map g := by
  induction locs with
  | nil => rfl
  | cons a locs ih =>
    unfold updateFirst
    by_cases ha : p a = true
    · rw [if_pos ha, map_cons, map_cons, h a (by rw [find?_cons_of_pos ha])]
    · rw [if_neg ha, map_cons, map_cons, ih fun l hl => h l (by rwa [find?_cons_of_neg ha])]

end

section

variable (h : n.Kept place)

include h

lemma IndexedNode.Kept.cleared (hordered : n'.node.MapOrdered)
    (hother : ∀ f, f ≠ file → n'.node.locsOf f = n.node.locsOf f) (hempty : n'.node.locsOf file = [])
    (hindex : ∀ id, n'.chunkToFile id = if id ∈ (n.node.locsOf file).map (·.chunkId) then none else n.chunkToFile id) :
    n'.Kept place := by
  refine h.replaced hordered hother ?_ ?_ (fun id _ hid => ?_) (fun id _ hid => ?_)
  · rw [hempty]
    exact fun l hl => (nomatch hl)
  · rw [hempty]
    exact fun l hl => (nomatch hl)
  · rw [hindex, if_pos (by simpa [HasId] using hid)]
  · rw [hindex, if_neg (by simpa [HasId] using hid)]

lemma IndexedNode.Kept.remove (file : FileId) : (n.mapStep (.remove file)).Kept place := by
  have hlocs : ∀ f, (n.mapStep (.remove file)).node.locsOf f = if f = file then [] else n.node.locsOf f :=
    locsOf_setEntry n.node file none
  refine h.cleared ((mapOrdered_mapStep_iff n.node (.remove file) h.ordered).mpr trivial) (fun f hf => by rw [hlocs, if_neg hf])
    (by rw [hlocs, if_pos rfl]) fun id => ?_
  show indexAfterRemove n.chunkToFile (n.node.locsOf file) id = _
  rw [indexAfterRemove_eq, indexEraseAll_apply]

lemma IndexedNode.Kept.afterPatch {idx : Option Nat} {old new : Id} {size writtenAt : Nat}
    {seq : Option Nat} (hkeeps : n.KeepsIndex place (.afterPatch file idx old new size writtenAt seq)) :
    (n.mapStep (.afterPatch file idx old new size writtenAt seq)).Kept place := by
  refine h.congr (mapOrdered_updateChunkMapAfterPatch h.ordered file idx old new size writtenAt seq) rfl fun f => ?_
  show ((n.node.updateChunkMapAfterPatch file idx old new size writtenAt seq).1.locsOf f).map _ = _
  unfold updateChunkMapAfterPatch
  split
  · rfl
  rename_i hne
  split
  · rfl
  rename_i locs w hentry
  have hlocs : n.node.locsOf file = locs := locsOf_of_entry hentry
  dsimp only
  split
  · rfl
  rename_i loc hfind
  split
  · rfl
  rename_i hstale
  rw [locsOf_setEntry]
  split
  · rename_i hf
    subst hf
    rw [hlocs, elim_some]
    refine map_updateFirst_of_find fun l hl => ?_
    rw [hfind, some.injEq] at hl
    subst hl
    have hid : loc.chunkId = new := ((hkeeps.resolve_left hne) loc (by rw [hlocs]; exact hfind)).resolve_left hstale
    exact Prod.ext hid.symm rfl
  · rfl

variable {loc : ChunkLocation Id}

lemma IndexedNode.Kept.updateLocation {walk : List FileId}
    (hkeeps : n.KeepsIndex place (.updateLocation walk loc)) : (n.mapStep (.updateLocation walk loc)).Kept place := by
  have hsame : ∀ f, n.node.walkedTo walk loc = some f → ∀ l ∈ n.node.locsOf f, l.chunkId = loc.chunkId →
    cidxOf l = cidxOf loc := by
    intro f hf l hl hid
    have hl := h.place_eq f l hl
    rw [hid] at hl
    rw [cidxOf_of_fileOffset (hkeeps f hf).1, hl]
  have hfits : n.node.KeepsOrder (.updateLocation walk loc) := by
    intro f hf
    refine ⟨?_, fun pre old post heq hpre hold => ?_⟩
    · obtain ⟨o, ho, -⟩ := map_eq_some_iff.mp (hkeeps f hf).1
      rw [ho]
      rfl
    · have hsorted := (h.ordered.ordered f).sorted
      have hcidx := hsame f hf old (by rw [heq]; simp) hold
      rw [heq] at hsorted
      obtain ⟨-, hpost, hcross⟩ := pairwise_append.mp hsorted
      rw [← hcidx]
      exact ⟨fun x hx => hcross x hx old mem_cons_self, (pairwise_cons.mp hpost).1⟩
  have hordered : (n.mapStep (.updateLocation walk loc)).node.MapOrdered :=
    (mapOrdered_mapStep_iff n.node (.updateLocation walk loc) h.ordered).mpr hfits
  have hwalk : (walk.find? fun f => (n.node.locsOf f).any (sameChunk loc)) = n.node.walkedTo walk loc := rfl
  refine h.congr hordered ?_ fun f => ?_
  · -- the identity is in the index already
    show n.node.indexAfterUpdateLocation n.chunkToFile walk loc = _
    unfold indexAfterUpdateLocation
    rw [hwalk]
    cases hto : n.node.walkedTo walk loc with
    | none => rfl
    | some f =>
      obtain ⟨l, hl, hid⟩ := any_eq_true.mp (any_of_walkedTo hto)
      have hindex := h.agrees.indexed f l hl
      rw [of_decide_eq_true hid] at hindex
      exact update_eq_self_iff.mpr hindex.symm
  · show ((n.node.chunkMapUpdateLocation walk loc).locsOf f).map _ = _
    rw [locsOf_chunkMapUpdateLocation]
    split
    · rename_i hto
      refine map_updateFirst_of_find fun l hl => ?_
      have hid : l.chunkId = loc.chunkId := by simpa using find?_some hl
      exact Prod.ext hid.symm (hsame f hto l (mem_of_find?_eq_some hl) hid).symm
    · rfl

variable {pre post : Locations Id}

lemma IndexedNode.Kept.replacedAt (hordered : n'.node.MapOrdered)
    (hother : ∀ f, f ≠ file → n'.node.locsOf f = n.node.locsOf f) (hl : n.node.locsOf file = pre ++ old :: post)
    (hnew : n'.node.locsOf file = pre ++ loc :: post) (hloc : place loc.chunkId = (file, cidxOf loc))
    (hindex : n'.chunkToFile = update (update n.chunkToFile old.chunkId none) loc.chunkId (some file)) : n'.Kept place := by
  have hkept : ∀ x ∈ pre ++ post, x ∈ n.node.locsOf file := by
    intro x hx
    rw [hl]
    rcases mem_append.mp hx with hx | hx <;> simp [hx]
  have hfrom : ∀ x ∈ pre ++ loc :: post, x = loc ∨ x ∈ pre ++ post := by
    intro x hx
    rcases mem_append.mp hx with hx | hx
    · exact .inr (mem_append_left _ hx)
    · exact (mem_cons.mp hx).imp_right (mem_append_right _)
  -- the location that goes is the only one with its identity
  have honly : ∀ x ∈ pre ++ post, x.chunkId ≠ old.chunkId := by
    intro x hx hid
    have hcidx : cidxOf x = cidxOf old := by
      have hx := h.place_eq file x (hkept x hx)
      rw [hid, h.place_eq file old (by rw [hl]; simp)] at hx
      exact (Prod.mk.inj hx).2.symm
    have hsorted := (h.ordered.ordered file).sorted
    rw [hl] at hsorted
    obtain ⟨-, hpost, hcross⟩ := pairwise_append.mp hsorted
    rcases mem_append.mp hx with hx | hx
    · exact (hcross x hx old mem_cons_self).ne hcidx
    · exact ((pairwise_cons.mp hpost).1 x hx).ne' hcidx
  refine h.replaced hordered hother ?_ ?_ ?_ ?_ <;> rw [hnew]
  · intro x hx
    rcases hfrom x hx with rfl | hx
    · exact hloc
    · exact h.place_eq file x (hkept x hx)
  · intro x hx
    rw [hindex]
    by_cases hid : x.chunkId = loc.chunkId
    · rw [hid, update_self]
    have hx := (hfrom x hx).resolve_left fun heq => hid (heq ▸ rfl)
    rw [update_of_ne hid, update_of_ne (honly x hx)]
    exact h.agrees.indexed file x (hkept x hx)
  · rintro id hnot ⟨x, hx, rfl⟩
    have hne : x.chunkId ≠ loc.chunkId := fun hid => hnot ⟨loc, by simp, hid.symm⟩
    have hxold : x = old := by
      by_contra hxne
      rw [hl] at hx
      refine hnot ⟨x, ?_, rfl⟩
      rcases mem_append.mp hx with hx | hx
      · exact mem_append_left _ hx
      · exact mem_append_right _ (mem_cons_of_mem _ ((mem_cons.mp hx).resolve_left hxne))
    rw [hindex, update_of_ne hne, hxold, update_self]
  · intro id hnot hnotOld
    have hne : id ≠ loc.chunkId := fun hid => hnot ⟨loc, by simp, hid.symm⟩
    have hneOld : id ≠ old.chunkId := fun hid => hnotOld ⟨old, by rw [hl]; simp, hid.symm⟩
    rw [hindex, update_of_ne hne, update_of_ne hneOld]

lemma IndexedNode.Kept.insertedAt (hordered : n'.node.MapOrdered)
    (hother : ∀ f, f ≠ file → n'.node.locsOf f = n.node.locsOf f) (hl : n.node.locsOf file = pre ++ post)
    (hnew : n'.node.locsOf file = pre ++ loc :: post) (hloc : place loc.chunkId = (file, cidxOf loc))
    (hindex : n'.chunkToFile = update n.chunkToFile loc.chunkId (some file)) : n'.Kept place := by
  have hmem : ∀ x, x ∈ pre ++ loc :: post ↔ x = loc ∨ x ∈ n.node.locsOf file := by
    intro x
    rw [hl]
    simp only [mem_append, mem_cons]
    tauto
  refine h.replaced hordered hother ?_ ?_ ?_ ?_ <;> rw [hnew]
  · intro x hx
    rcases (hmem x).mp hx with rfl | hx
    · exact hloc
    · exact h.place_eq file x hx
  · intro x hx
    rw [hindex]
    by_cases hid : x.chunkId = loc.chunkId
    · rw [hid, update_self]
    rw [update_of_ne hid]
    exact h.agrees.indexed file x (((hmem x).mp hx).resolve_left fun heq => hid (heq ▸ rfl))
  · rintro id hnot ⟨x, hx, rfl⟩
    exact absurd ⟨x, (hmem x).mpr (.inr hx), rfl⟩ hnot
  · intro id hnot _
    rw [hindex, update_of_ne fun hid => hnot ⟨loc, by simp, hid.symm⟩]

lemma IndexedNode.Kept.syncAt (floor : Nat) (hlies : LiesAt place file loc) :
    (n.mapStep (.updateLocationForFile floor file loc)).Kept place := by
  obtain ⟨o, ho, -⟩ := map_eq_some_iff.mp hlies.1
  have hsome : loc.fileOffset.isSome = true := by
    rw [ho]
    rfl
  have hordered : (n.mapStep (.updateLocationForFile floor file loc)).node.MapOrdered :=
    (mapOrdered_mapStep_iff n.node (.updateLocationForFile floor file loc) h.ordered).mpr (.inl hsome)
  have hlocs : ∀ f, (n.mapStep (.updateLocationForFile floor file loc)).node.locsOf f = if f = file
      then upsert cidxOf (arbitrateBy n.node.foldResultChunkIds n.node.chunkGenerations floor) (n.node.locsOf file) loc
      else n.node.locsOf f := fun f => locsOf_syncLocation floor hlies.1 f
  have hother : ∀ f, f ≠ file → (n.mapStep (.updateLocationForFile floor file loc)).node.locsOf f = n.node.locsOf f :=
    fun f hf => by
    rw [hlocs, if_neg hf]
  have hindex : (n.mapStep (.updateLocationForFile floor file loc)).chunkToFile = indexAfterSync n.node.foldResultChunkIds
      n.node.chunkGenerations floor n.chunkToFile file (n.node.locsOf file) loc := rfl
  unfold indexAfterSync at hindex
  rw [ho] at hindex
  have hloc : place loc.chunkId = (file, cidxOf loc) := Prod.ext hlies.2 (cidxOf_of_fileOffset hlies.1).symm
  obtain ⟨pre, post, -, ⟨old, -, hlook, hl, hup⟩ | ⟨hlook, hl, hup, -⟩⟩ := upsert_split cidxOf
    (arbitrateBy n.node.foldResultChunkIds n.node.chunkGenerations floor) (n.node.locsOf file) loc
  · rw [hlook] at hindex
    dsimp only at hindex
    by_cases hupdate : shouldUpdate n.node.foldResultChunkIds n.node.chunkGenerations floor old loc = true
    · rw [if_pos hupdate] at hindex
      refine h.replacedAt hordered hother hl ?_ hloc hindex
      rw [hlocs, if_pos rfl, hup]
      simp [arbitrateBy, hupdate]
    rw [if_neg hupdate] at hindex
    refine h.congr hordered hindex fun f => ?_
    rw [hlocs]
    split
    · rename_i hf
      subst hf
      rw [hup, hl]
      simp [arbitrateBy, hupdate]
    · rfl
  · rw [hlook] at hindex
    exact h.insertedAt hordered hother hl (by rw [hlocs, if_pos rfl, hup]) hloc hindex

lemma IndexedNode.Kept.updateLocationForFile {floor : Nat} (hkeeps : n.KeepsIndex place (.updateLocationForFile floor file loc)) :
    (n.mapStep (.updateLocationForFile floor file loc)).Kept place := by
  rcases hkeeps with hlies | ⟨hnone, hnot⟩
  · exact h.syncAt floor hlies
  have hordered : (n.mapStep (.updateLocationForFile floor file loc)).node.MapOrdered :=
    (mapOrdered_mapStep_iff n.node (.updateLocationForFile floor file loc) h.ordered).mpr (.inr hnot)
  have hany : ((n.node.locsOf file).any (sameChunk loc)) = false := by simpa using hnot
  refine h.congr hordered ?_ fun f => ?_
  · show indexAfterSync _ _ floor n.chunkToFile file (n.node.locsOf file) loc = _
    unfold indexAfterSync
    rw [hnone, hany]
    rfl
  · show ((n.node.syncLocation floor file loc).locsOf f).map _ = _
    unfold syncLocation
    rw [locsOf_setEntry, elim_some]
    split
    · rename_i hf
      subst hf
      unfold chunkMapUpdateLocationForFileSync
      rw [hnone]
      dsimp only
      rw [getD_chunkMap_fst, updateFirst_of_none fun l hl => by simpa using hnot l hl]
    · rfl

variable {m : FileMetadata Id}

lemma IndexedNode.Kept.updateEmpty (hnil : m.chunkLocations = []) : (n.mapStep (.update m)).Kept place := by
  have hordered : (n.mapStep (.update m)).node.MapOrdered :=
    (mapOrdered_mapStep_iff n.node (.update m) h.ordered).mpr (recordInOrder_of_nil hnil _)
  have hstay (hnode : (n.node.chunkMapUpdate m) = n.node) (hindex : n.node.indexAfterUpdate n.chunkToFile m = n.chunkToFile) :
      (n.mapStep (.update m)).Kept place :=
    h.congr hordered hindex fun f => by
      show ((n.node.chunkMapUpdate m).locsOf f).map _ = _
      rw [hnode]
  by_cases hsize : m.size = 0
  · cases hentry : n.node.chunkMap m.id with
    | none => exact hstay (by simp [chunkMapUpdateBy, hnil, hentry]) (by simp [indexAfterUpdate, hnil, hentry])
    | some e =>
      by_cases hseq : e.2 < m.writeSeq
      · have hlocs : n.node.locsOf m.id = e.1 := locsOf_of_entry hentry
        have hnode : ∀ f, (n.mapStep (.update m)).node.locsOf f = if f = m.id then [] else n.node.locsOf f := by
          intro f
          have hcleared : n.node.chunkMapUpdate m = n.node.setChunkMap (update n.node.chunkMap m.id (some ([], m.writeSeq))) := by
            simp [chunkMapUpdateBy, hnil, hsize, hentry, hseq]
          show (n.node.chunkMapUpdate m).locsOf f = _
          rw [hcleared, locsOf_setEntry]
          rfl
        have hindex : ∀ id, (n.mapStep (.update m)).chunkToFile id
            = if id ∈ (n.node.locsOf m.id).map (·.chunkId) then none else n.chunkToFile id := by
          intro id
          show n.node.indexAfterUpdate n.chunkToFile m id = _
          rw [hlocs, ← indexEraseAll_apply, ← indexAfterRemove_eq]
          simp [indexAfterUpdate, hnil, hsize, hentry, hseq]
        have hempty : (n.mapStep (.update m)).node.locsOf m.id = [] := by rw [hnode, if_pos rfl]
        exact h.cleared hordered (fun f hf => by rw [hnode, if_neg hf]) hempty hindex
      · exact hstay (by simp [chunkMapUpdateBy, hnil, hentry, hseq]) (by simp [indexAfterUpdate, hnil, hentry, hseq])
  · exact hstay (by simp [chunkMapUpdateBy, hnil, hsize]) (by simp [indexAfterUpdate, hnil, hsize])

lemma IndexedNode.Kept.update (hkeeps : n.KeepsIndex place (.update m)) : (n.mapStep (.update m)).Kept place := by
  by_cases hnil : m.chunkLocations = []
  · exact h.updateEmpty hnil
  obtain ⟨hrecord, horder⟩ := hkeeps
  have hne : (!m.chunkLocations.isEmpty) = true := by simpa using hnil
  obtain ⟨onDisk, honDisk⟩ : ∃ onDisk : Id → Bool, onDisk = fun id => (n.node.files id).isSome := ⟨_, rfl⟩
  have hordered : (n.mapStep (.update m)).node.MapOrdered := (mapOrdered_mapStep_iff n.node (.update m) h.ordered).mpr horder
  have hnode : ∀ f, (n.mapStep (.update m)).node.locsOf f
      = if f = m.id then putLocations onDisk m (n.node.chunkMap m.id) else n.node.locsOf f := by
    intro f
    show (n.node.chunkMapUpdate m).locsOf f = _
    unfold chunkMapUpdate chunkMapUpdateBy
    rw [if_pos hne, locsOf_setEntry, honDisk]
    rfl
  have hindex : ∀ id, (n.mapStep (.update m)).chunkToFile id = if id ∈ supersededChunkIds onDisk m (n.node.chunkMap m.id) then
    none
      else indexInsertAll n.chunkToFile m.id (putLocations onDisk m (n.node.chunkMap m.id)) id := by
    intro id
    show n.node.indexAfterUpdate n.chunkToFile m id = _
    unfold indexAfterUpdate
    rw [if_pos hne, indexEraseAll_apply, honDisk]
    rfl
  have hnew : (n.mapStep (.update m)).node.locsOf m.id = putLocations onDisk m (n.node.chunkMap m.id) := by rw [hnode, if_pos rfl]
  have hold : n.node.locsOf m.id = (n.node.chunkMap m.id).elim [] Prod.fst := rfl
  -- what is superseded is what the list loses
  have hsuper : ∀ id, id ∈ supersededChunkIds onDisk m (n.node.chunkMap m.id) ↔
      HasId (n.node.locsOf m.id) id ∧ ¬HasId (putLocations onDisk m (n.node.chunkMap m.id)) id := by
    intro id
    have hlist := h.ordered.ordered m.id
    have hplace := h.place_eq m.id
    rw [hold] at hlist hplace ⊢
    cases hentry : n.node.chunkMap m.id with
    | none => exact ⟨fun hmem => (nomatch hmem), fun ⟨⟨_, hmem, _⟩, _⟩ => (nomatch hmem)⟩
    | some e =>
      rw [hentry] at hlist hplace horder
      exact ⟨not_hasId_of_superseded hlist hplace hrecord horder, fun hlost => superseded_of_lost hlist horder hlost.1 hlost.2⟩
  refine h.replaced hordered (fun f hf => by rw [hnode, if_neg hf]) ?_ ?_ ?_ ?_ <;> rw [hnew]
  · intro x hx
    obtain ⟨hsome, hmem⟩ := mem_putLocations hx
    exact place_of_mem (h.place_eq m.id) hrecord hsome hmem
  · intro x hx
    have hhas : HasId (putLocations onDisk m (n.node.chunkMap m.id)) x.chunkId := ⟨x, hx, rfl⟩
    rw [hindex, if_neg fun hmem => ((hsuper _).mp hmem).2 hhas]
    exact (indexInsertAll_apply ..).1 hhas
  · intro id hnot hin
    rw [hindex, if_pos ((hsuper id).mpr ⟨hin, hnot⟩)]
  · intro id hnot hnotOld
    rw [hindex, if_neg fun hmem => hnotOld ((hsuper id).mp hmem).1]
    exact (indexInsertAll_apply ..).2 hnot

end

lemma IndexedNode.Kept.mapStep (n : IndexedNode Id) (a : MapAction Id) (h : n.Kept place) (hkeeps : n.KeepsIndex place a) :
    (n.mapStep a).Kept place := by
  cases a with
  | update m => exact h.update hkeeps
  | updateLocation walk loc => exact h.updateLocation hkeeps
  | updateLocationForFile floor file loc => exact h.updateLocationForFile hkeeps
  | afterPatch file idx old new size writtenAt seq => exact h.afterPatch hkeeps
  | remove file => exact h.remove file
  | elsewhere t => exact h.congr (mapOrdered_iff.mpr h.ordered.ordered) rfl fun _ => rfl

end Kept

/-- The index agrees with the map in every state of a run whose calls meet their conditions. -/
theorem index_agrees_of_keepsIndex (place : Id → Slot) (l : List (MapAction Id))
    (h : Transition.Meets IndexedNode.mapStep (IndexedNode.KeepsIndex place) (IndexedNode.empty : IndexedNode Id) l) :
    (Transition.run IndexedNode.mapStep (IndexedNode.empty : IndexedNode Id) l).Agrees := by
  have hempty : (IndexedNode.empty : IndexedNode Id).Kept place :=
    ⟨mapOrdered_iff.mpr fun _ => ordered_nil, fun _ _ hl =>
      (nomatch hl), ⟨fun _ _ hl => (nomatch hl), fun _ _ hid => (nomatch hid)⟩⟩
  exact (Transition.invariant_run IndexedNode.Kept.mapStep hempty h).agrees

def fixturePlace (id : Nat) : Slot := (7, id - 10)

theorem put_and_location_agree : (Transition.run IndexedNode.mapStep (IndexedNode.empty : IndexedNode Nat)
    [.update oneSlotRecord, .updateLocationForFile 1 7 (slotStart 11 1)]).Agrees := by
  refine index_agrees_of_keepsIndex fixturePlace _ ⟨⟨fun l hl _ => ?_, ?_⟩, .inl ?_, trivial⟩
  · obtain rfl := List.mem_singleton.mp hl
    exact ⟨by decide +kernel, rfl⟩
  · exact pairwise_singleton _ _
  · exact ⟨by decide +kernel, rfl⟩

def patchedSlot : IndexedNode Nat := Transition.run IndexedNode.mapStep (IndexedNode.empty : IndexedNode Nat)
  [.updateLocationForFile 1 7 (slotStart 10 0), .afterPatch 7 (some 0) 10 20 5 0 (some 2)]

theorem patched_chunk_not_indexed :
    (patchedSlot.node.locsOf 7).map (·.chunkId) = [20] ∧ patchedSlot.chunkToFile 20 = none ∧
      patchedSlot.chunkToFile 10 = some 7 := by
  refine ⟨?_, ?_, ?_⟩ <;> decide +kernel

end Dfs
