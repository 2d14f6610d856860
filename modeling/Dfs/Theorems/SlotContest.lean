import Dfs.Register

/-!
# The contest for a slot

The records that are committed for a slot take it from each other one after the other (`occupant_commitEach`). Rivals,
who compete by their sequences alone, leave the latest of them in every order (`winner_commitEach`).
-/

namespace Dfs

open KeyedList Option Node

variable {Id : Type} [DecidableEq Id]

section Contest

variable (s : Node Id) (env : RegisterEnv Id) (slot : Slot) (occ : ChunkLocation Id)

/-- A chunk's generation, or else the slot's sequence, which the occupant is credited with when another chunk comes. -/
def Node.credited (id : Id) : Option Nat := (s.chunkGenerations id).or (s.readChunkSeq env.seqReadable slot)

/-- Does the record take the slot from the occupant? -/
def Node.wins (record : ChunkLocation Id) : Bool :=
  decide (occ.chunkId = record.chunkId) ||
    locationSupersedes record occ (s.foldResultChunkIds record.chunkId) (s.foldResultChunkIds occ.chunkId)
      (s.chunkGenerations record.chunkId) (s.credited env slot occ.chunkId) env.durabilityFloor

def Node.contend (record : ChunkLocation Id) : ChunkLocation Id := if s.wins env slot occ record then record else occ

variable {s slot occ} in
lemma arbitrateBy_backfilled (hocc : s.occupant slot = some occ) (record : ChunkLocation Id) :
    arbitrateBy s.foldResultChunkIds (s.backfilled env.seqReadable slot record.chunkId) env.durabilityFloor occ record
      = s.contend env slot occ record := by
  unfold arbitrateBy contend wins shouldUpdate credited
  by_cases hid : occ.chunkId = record.chunkId
  · simp [hid]
  · rw [backfilled_occupant env.seqReadable hocc hid, backfilled_incoming]

end Contest

/-! ## Committing records -/

variable {env : RegisterEnv Id} {place : Id → Slot} {slot : Slot}

structure CommitFrame (place : Id → Slot) (s s' : Node Id) : Prop where
  seq : s'.chunkSeq = s.chunkSeq
  fold : s'.foldResultChunkIds = s.foldResultChunkIds
  deleted : ∀ f, s'.fileRecentlyDeleted f = s.fileRecentlyDeleted f
  placed : s.Placed place → s'.Placed place

variable {record : ChunkLocation Id}

/-- Nothing is committed for a deleted file; for another, what is of another slot is left. -/
theorem commitLocation_frame (env : RegisterEnv Id) {s : Node Id} (hrec : AtPlace place record) :
    CommitFrame place s (s.commitLocation env record.fileId record).1 ∧ (s.Placed place → place record.chunkId ≠ slot →
      (s.commitLocation env record.fileId record).1.occupant slot = s.occupant slot ∧
      ∀ id, place id = slot → (s.commitLocation env record.fileId record).1.chunkGenerations id = s.chunkGenerations id) := by
  unfold commitLocation
  rw [hrec.1]
  dsimp only
  by_cases hdel : s.fileRecentlyDeleted (place record.chunkId).1 = true
  · unfold Node.chunkMapUpdateLocationForFile
    rw [if_pos hdel]
    exact ⟨⟨rfl, rfl, fun _ => rfl, id⟩, fun _ _ => ⟨rfl, fun _ _ => rfl⟩⟩
  rw [chunkMapUpdateLocationForFile_eq env.durabilityFloor env.seqReadable (by simpa using hdel) hrec.2]
  refine ⟨⟨rfl, rfl, fun _ => rfl, fun hs => Placed.syncLocation ?_ _ hrec⟩,
    fun hs hslot => ⟨occupant_syncLocation_of_ne _ (hs.sorted _) hrec.2 hslot, fun id hid => ?_⟩⟩
  · exact hs.congr rfl
  show s.backfilled env.seqReadable (place record.chunkId) record.chunkId id = s.chunkGenerations id
  unfold backfilled
  rw [if_neg]
  rintro ⟨hocc, -⟩
  obtain ⟨existing, hex, rfl⟩ := map_eq_some_iff.mp hocc
  exact hslot ((hs.occupant hex).symm.trans hid)

lemma commitLocation_same (env : RegisterEnv Id) {s : Node Id} (hrec : AtPlace place record)
    (hslot : place record.chunkId = slot) (hfile : s.fileRecentlyDeleted slot.1 = false) :
    (s.commitLocation env record.fileId record).1.occupant slot = merged (s.contend env slot) (s.occupant slot) record ∧
      (s.commitLocation env record.fileId record).1.chunkGenerations = s.backfilled env.seqReadable slot record.chunkId := by
  obtain ⟨hfid, hidx⟩ := hrec
  rw [hslot] at hfid hidx
  unfold commitLocation
  rw [hfid]
  constructor
  · refine (occupant_chunkMapUpdateLocationForFile env.durabilityFloor env.seqReadable hfile hidx).trans ?_
    cases hocc : s.occupant slot with
    | none => rfl
    | some occ => exact congrArg some (arbitrateBy_backfilled env hocc record)
  · rw [chunkMapUpdateLocationForFile_eq env.durabilityFloor env.seqReadable hfile hidx]
    rfl

def Node.commitEach (env : RegisterEnv Id) (s : Node Id) (records : Locations Id) : Node Id :=
  records.foldl (fun s r => (s.commitLocation env r.fileId r).1) s

variable {records : Locations Id} {s t : Node Id} {ids : List Id}

/-- None of the chunks of the slot is credited with the slot's sequence when another one comes. -/
def Uncredited (s : Node Id) (env : RegisterEnv Id) (place : Id → Slot) (slot : Slot) (ids : List Id) : Prop :=
  ∀ x ∈ ids, ∀ z ∈ ids, place x = slot → place z = slot → x ≠ z → s.credited env slot z = s.chunkGenerations z

/-- The chunks compete on the second node as they did on the first. -/
structure SameContest (env : RegisterEnv Id) (place : Id → Slot) (slot : Slot) (ids : List Id) (s t : Node Id) : Prop where
  frame : CommitFrame place s t
  own : ∀ id ∈ ids, place id = slot → t.chunkGenerations id = s.chunkGenerations id
  credited : ∀ id, place id = slot → t.credited env slot id = s.credited env slot id

omit [DecidableEq Id] in
lemma SameContest.refl (s : Node Id) : SameContest env place slot ids s s :=
  ⟨⟨rfl, rfl, fun _ => rfl, id⟩, fun _ _ _ => rfl, fun _ _ => rfl⟩

lemma SameContest.commit (hs : s.Placed place) (halive : s.fileRecentlyDeleted slot.1 = false)
    (hun : Uncredited s env place slot ids) (h : SameContest env place slot ids s t) (hmem : record.chunkId ∈ ids)
    (hrec : AtPlace place record) : SameContest env place slot ids s (t.commitLocation env record.fileId record).1 ∧
      (t.commitLocation env record.fileId record).1.occupant slot =
        if place record.chunkId = slot then merged (s.contend env slot) (t.occupant slot) record else t.occupant slot := by
  obtain ⟨hstep, hother⟩ := @commitLocation_frame _ _ place slot _ env t hrec
  have hframe : CommitFrame place s (t.commitLocation env record.fileId record).1 :=
    ⟨hstep.seq.trans h.frame.seq, hstep.fold.trans h.frame.fold, fun f => (hstep.deleted f).trans (h.frame.deleted f),
      fun hs => hstep.placed (h.frame.placed hs)⟩
  have hread : (t.commitLocation env record.fileId record).1.readChunkSeq env.seqReadable slot =
      t.readChunkSeq env.seqReadable slot := by
    unfold readChunkSeq
    rw [hstep.seq]
  by_cases hslot : place record.chunkId = slot
  · obtain ⟨hocc, hgens⟩ := commitLocation_same env hrec hslot ((h.frame.deleted _).trans halive)
    refine ⟨⟨hframe, fun id hid hat => ?_, fun id hat => ?_⟩, ?_⟩
    · rw [hgens]
      unfold backfilled
      split
      · rename_i hcredit
        exact (h.credited id hat).trans (hun record.chunkId hmem id hid hslot hat hcredit.2.symm)
      · exact h.own id hid hat
    · rw [← h.credited id hat]
      unfold Node.credited
      rw [hgens, hread]
      unfold backfilled
      split
      · rw [Option.or_assoc, Option.or_self]
      · rfl
    · rw [hocc, if_pos hslot]
      cases hold : t.occupant slot with
      | none => rfl
      | some occ =>
        have hat := (h.frame.placed hs).occupant hold
        have hwins : t.wins env slot occ record = s.wins env slot occ record := by
          unfold wins
          rw [h.frame.fold, h.own record.chunkId hmem hslot, h.credited occ.chunkId hat]
        rw [merged, merged, contend, contend, hwins]
  · obtain ⟨hocc, hgens⟩ := hother (h.frame.placed hs) hslot
    refine ⟨⟨hframe, fun id hid hat => (hgens _ hat).trans (h.own id hid hat), fun id hat => ?_⟩, by rw [hocc, if_neg hslot]⟩
    rw [← h.credited id hat]
    unfold Node.credited
    rw [hgens _ hat, hread]

/-- A slot is left to the records of the slot, one after the other. -/
theorem occupant_commitEach (hs : s.Placed place) (halive : s.fileRecentlyDeleted slot.1 = false)
    (hrecs : ∀ r ∈ records, AtPlace place r) (hun : Uncredited s env place slot (records.map (·.chunkId))) :
    (s.commitEach env records).occupant slot =
      (records.filter fun r => place r.chunkId = slot).foldl (merged (s.contend env slot)) (s.occupant slot) := by
  suffices h : ∀ l ⊆ records, ∀ t, SameContest env place slot (records.map (·.chunkId)) s t → (t.commitEach env l).occupant slot =
      (l.filter fun r => place r.chunkId = slot).foldl (merged (s.contend env slot)) (t.occupant slot) from
    h records (List.Subset.refl _) s (.refl s)
  intro l
  induction l with
  | nil => exact fun _ _ _ => rfl
  | cons r l ih =>
    intro hl t ht
    have hmem := hl List.mem_cons_self
    obtain ⟨hnext, hocc⟩ := ht.commit hs halive hun (List.mem_map_of_mem hmem) (hrecs r hmem)
    refine (ih (fun x hx => hl (List.mem_cons_of_mem r hx)) _ hnext).trans ?_
    rw [hocc]
    by_cases hslot : place r.chunkId = slot
    · rw [if_pos hslot, List.filter_cons_of_pos (by simpa using hslot), List.foldl_cons]
    · rw [if_neg hslot, List.filter_cons_of_neg (by simpa using hslot)]

lemma commitEach_setChunkTable (table : Id → Option (ChunkLocation Id)) (s : Node Id) (records : Locations Id) :
    (s.setChunkTable table).commitEach env records = (s.commitEach env records).setChunkTable table := by
  have hstep (s : Node Id) (r : ChunkLocation Id) : ((s.setChunkTable table).commitLocation env r.fileId r).1 =
      (s.commitLocation env r.fileId r).1.setChunkTable table := by
    unfold commitLocation
    cases r.fileId with
    | none =>
      simp only [chunkMapUpdateLocation, setChunkTable_chunkMap]
      split
      · rfl
      · split <;> rfl
    | some file =>
      simp only [Node.chunkMapUpdateLocationForFile, backfillOccupant_eq]
      by_cases hdel : s.fileRecentlyDeleted file = true
      · rw [if_pos hdel, if_pos (show (s.setChunkTable table).fileRecentlyDeleted file = true from hdel)]
      · rw [if_neg hdel, if_neg (show ¬(s.setChunkTable table).fileRecentlyDeleted file = true from hdel)]
        cases r.fileOffset <;> rfl
  induction records generalizing s with
  | nil => rfl
  | cons r records ih =>
    show ((s.setChunkTable table).commitLocation env r.fileId r).1.commitEach env records = _
    rw [hstep, ih]
    rfl

lemma foldl_putChunkLocation_frame (records : Locations Id) (s : Node Id) :
    records.foldl putChunkLocation s = s.setChunkTable (records.foldl putChunkLocation s).chunkTable := by
  induction records generalizing s with
  | nil => rfl
  | cons r records ih =>
    rw [List.foldl_cons, ih (s.putChunkLocation r)]
    rfl

lemma commitAll_fst (s : Node Id) (records : Locations Id) : (s.commitAll env records).1 = s.commitEach env records := by
  unfold commitAll
  generalize (fun _ : Id => (none : Option (Bool × Option Id))) = results
  induction records generalizing s results with
  | nil => rfl
  | cons r records ih => exact ih _ _

/-! ## Records of a batch by identity -/

section Pending

variable {pending : Locations Id} {m : ChunkLocation Id}

/-- A record takes the place of that of its identity, or is the last one. -/
theorem pendingInsert_spec (h : (pending.map (·.chunkId)).Nodup) (m : ChunkLocation Id) :
    ((pendingInsert pending m).map (·.chunkId)).Nodup ∧
      ∀ x, x ∈ pendingInsert pending m ↔ x = m ∨ x ∈ pending ∧ x.chunkId ≠ m.chunkId := by
  unfold pendingInsert
  by_cases hid : ∃ a ∈ pending, a.chunkId = m.chunkId
  · obtain ⟨a, ha, hid⟩ := hid
    obtain ⟨pre, post, rfl⟩ := List.append_of_mem ha
    have hpre : ∀ x ∈ pre, decide (x.chunkId = m.chunkId) = false := by grind
    rw [if_pos (by simp [hid]), updateFirst_append_cons hpre (by simp [hid])]
    grind
  · rw [if_neg (by simpa using hid)]
    grind

end Pending

/-! ## Rivals for a slot -/

/-- Two records of a slot that compete by their sequences alone: these are there and differ, both have enough nodes
and no generation, and one of the occupant's own identity is not older than the occupant. -/
structure Node.Rivals (s : Node Id) (env : RegisterEnv Id) (slot : Slot) (x y : ChunkLocation Id) : Prop where
  ids : x.chunkId ≠ y.chunkId
  seqs : ∃ p q, x.clientWriteSeq = some p ∧ y.clientWriteSeq = some q ∧ p ≠ q
  nodes : env.durabilityFloor ≤ x.nodes.length ∧ env.durabilityFloor ≤ y.nodes.length
  generations : s.chunkGenerations x.chunkId = none ∧ s.chunkGenerations y.chunkId = none ∧
    s.readChunkSeq env.seqReadable slot = none
  own : ∀ occ, s.occupant slot = some occ → ∀ p ∈ occ.clientWriteSeq,
    (x.chunkId = occ.chunkId → ∃ q ∈ x.clientWriteSeq, p ≤ q) ∧ (y.chunkId = occ.chunkId → ∃ q ∈ y.clientWriteSeq, p ≤ q)

variable {x y a occ : ChunkLocation Id} {p q : Nat}

omit [DecidableEq Id] in
lemma Node.Rivals.symm (h : s.Rivals env slot x y) : s.Rivals env slot y x := by
  obtain ⟨p, q, hx, hy, hne⟩ := h.seqs
  exact ⟨h.ids.symm, ⟨q, p, hy, hx, hne.symm⟩, h.nodes.symm, ⟨h.generations.2.1, h.generations.1, h.generations.2.2⟩,
    fun occ hocc p hp => (h.own occ hocc p hp).symm⟩

omit [DecidableEq Id] in
/-- Rivals are told by their identities, sequences and numbers of nodes. -/
theorem Node.Rivals.congr {x' y' : ChunkLocation Id} (h : s.Rivals env slot x y) (hx : x'.chunkId = x.chunkId)
    (hy : y'.chunkId = y.chunkId) (hxs : ∀ p ∈ x.clientWriteSeq, x'.clientWriteSeq = some p)
    (hys : ∀ p ∈ y.clientWriteSeq, y'.clientWriteSeq = some p)
    (hnodes : env.durabilityFloor ≤ x'.nodes.length ∧ env.durabilityFloor ≤ y'.nodes.length) : s.Rivals env slot x' y' := by
  obtain ⟨p, q, hp, hq, hne⟩ := h.seqs
  have hxs := hxs p hp
  have hys := hys q hq
  refine ⟨by rw [hx, hy]; exact h.ids, ⟨p, q, hxs, hys, hne⟩, hnodes, by rw [hx, hy]; exact h.generations, ?_⟩
  rw [hxs, hys, hx, hy, ← hp, ← hq]
  exact h.own

omit [DecidableEq Id] in
lemma Node.Rivals.uncredited (h : s.Rivals env slot x y) : s.credited env slot y.chunkId = s.chunkGenerations y.chunkId := by
  unfold credited
  rw [h.generations.2.1, h.generations.2.2]
  rfl

/-- A later record with enough nodes takes the slot. -/
theorem wins_of_later (hgen : s.chunkGenerations a.chunkId = none) (hnodes : env.durabilityFloor ≤ a.nodes.length)
    (ha : a.clientWriteSeq = some q) (hlater : ∀ p ∈ x.clientWriteSeq, p < q) : s.wins env slot x a = true := by
  unfold wins
  rw [Bool.or_eq_true, locationSupersedes_iff, hgen]
  exact .inr ⟨.inr (.inl hnodes), by simp, fun _ => .inl ⟨q, ha, hlater⟩⟩

lemma seq_le_of_wins (hgen : s.chunkGenerations x.chunkId = none) (hid : occ.chunkId = x.chunkId → ∃ q ∈ x.clientWriteSeq, p ≤ q)
    (hp : occ.clientWriteSeq = some p) (h : s.wins env slot occ x = true) : ∃ q ∈ x.clientWriteSeq, p ≤ q := by
  unfold wins at h
  rw [Bool.or_eq_true, decide_eq_true_iff, locationSupersedes_iff, hgen] at h
  rcases h with h | ⟨-, -, h⟩
  · exact hid h
  rcases h (by simp) with ⟨q, hq, hlt⟩ | ⟨heq, -⟩
  · exact ⟨q, hq, (hlt p hp).le⟩
  · exact ⟨p, heq.trans hp, le_rfl⟩

/-- The later of two rivals takes the slot from the other, from whom it is not taken back, and from whomever the other
takes it. -/
theorem Node.Rivals.wins (h : s.Rivals env slot x a) (hx : x.clientWriteSeq = some p) (ha : a.clientWriteSeq = some q)
    (hlt : p < q) :
    s.wins env slot x a = true ∧ s.wins env slot a x = false ∧
      ∀ occ, s.occupant slot = some occ → s.wins env slot occ x = true → s.wins env slot occ a = true := by
  have hlater (occ : ChunkLocation Id) (h' : ∀ p' ∈ occ.clientWriteSeq, p' < q) : s.wins env slot occ a = true :=
    wins_of_later h.generations.2.1 h.nodes.2 ha h'
  refine ⟨hlater x (by simpa [hx] using hlt), ?_, fun occ hocc hwins => hlater occ fun p' hp' => ?_⟩
  · rw [← Bool.not_eq_true]
    intro hwins
    obtain ⟨p', hp', hle⟩ := seq_le_of_wins h.generations.1 (fun hid => absurd hid h.ids.symm) ha hwins
    rw [hx, mem_some] at hp'
    omega
  · obtain ⟨p'', hp'', hle⟩ := seq_le_of_wins h.generations.1 (fun hid => (h.own occ hocc p' hp').1 hid.symm) hp' hwins
    rw [hx, mem_some] at hp''
    omega

/-- What the records have left in the slot: the occupant from before, or the latest of them if it takes the slot from it. -/
def Winner (s : Node Id) (env : RegisterEnv Id) (slot : Slot) (records : Locations Id) (left : Option (ChunkLocation Id)) :
    Prop :=
  records = [] ∧ left = s.occupant slot ∨ ∃ a ∈ records, left = merged (s.contend env slot) (s.occupant slot) a ∧
    ∀ x ∈ records, x = a ∨ ∃ p q, x.clientWriteSeq = some p ∧ a.clientWriteSeq = some q ∧ p < q

/-- One more rival. -/
theorem Winner.step {left : Option (ChunkLocation Id)} {m : ChunkLocation Id} (h : Winner s env slot records left)
    (hrival : ∀ x ∈ records, s.Rivals env slot x m) :
    Winner s env slot (records ++ [m]) (merged (s.contend env slot) left m) := by
  refine .inr ?_
  rcases h with ⟨rfl, rfl⟩ | ⟨a, ha, rfl, hlatest⟩
  · exact ⟨m, by simp, rfl, by simp⟩
  obtain ⟨p, q, hp, hq, hne⟩ := (hrival a ha).seqs
  rcases lt_or_gt_of_ne hne with hlt | hlt
  · -- it is the latest now
    obtain ⟨hover, -, htakes⟩ := (hrival a ha).wins hp hq hlt
    refine ⟨m, by simp, ?_, fun x hx => ?_⟩
    · cases hocc : s.occupant slot with
      | none => simp [merged, contend, hover]
      | some occ =>
        by_cases hwins : s.wins env slot occ a = true
        · simp [merged, contend, hwins, hover, htakes occ hocc hwins]
        · simp [merged, contend, hwins]
    · rcases List.mem_append.mp hx with hx | hx
      · rcases hlatest x hx with rfl | ⟨p', q', hp', hq', hlt'⟩
        · exact .inr ⟨p, q, hp, hq, hlt⟩
        · rw [hp, some.injEq] at hq'
          exact .inr ⟨p', q, hp', hq, hlt'.trans (hq' ▸ hlt)⟩
      · exact .inl (List.mem_singleton.mp hx)
  · obtain ⟨-, hback, htakes⟩ := (hrival a ha).symm.wins hq hp hlt
    refine ⟨a, by simp [ha], ?_, fun x hx => ?_⟩
    · cases hocc : s.occupant slot with
      | none => simp [merged, contend, hback]
      | some occ =>
        by_cases hwins : s.wins env slot occ a = true
        · simp [merged, contend, hwins, hback]
        · have hlose : s.wins env slot occ m ≠ true := fun h => hwins (htakes occ hocc h)
          simp [merged, contend, hwins, hlose]
    · rcases List.mem_append.mp hx with hx | hx
      · exact hlatest x hx
      · exact .inr ⟨q, p, List.mem_singleton.mp hx ▸ hq, hp, hlt⟩

/-- Rivals leave the latest of them, in whatever order they come. -/
theorem winner_foldl (hrivals : records.Pairwise (s.Rivals env slot)) :
    Winner s env slot records (records.foldl (merged (s.contend env slot)) (s.occupant slot)) := by
  induction records using List.reverseRecOn with
  | nil => exact .inl ⟨rfl, rfl⟩
  | append_singleton records m ih =>
    obtain ⟨hrecords, -, hm⟩ := List.pairwise_append.mp hrivals
    rw [List.foldl_append]
    exact (ih hrecords).step fun x hx => hm x hx m (List.mem_singleton_self m)

/-- What the records leave in the slot when they are stored and then committed in some order. -/
theorem winner_commitEach (hs : s.Placed place) (halive : s.fileRecentlyDeleted slot.1 = false)
    (hrecs : ∀ r ∈ records, AtPlace place r)
    (hrivals : (records.filter fun r => place r.chunkId = slot).Pairwise (s.Rivals env slot)) :
    Winner s env slot (records.filter fun r => place r.chunkId = slot)
      (((records.foldl putChunkLocation s).commitEach env records).occupant slot) := by
  have : Std.Symm (s.Rivals env slot) := ⟨fun _ _ => Rivals.symm⟩
  have hun : Uncredited s env place slot (records.map (·.chunkId)) := by
    simp only [Uncredited, List.forall_mem_map]
    intro x hx z hz hxs hzs hne
    have hrival := hrivals.forall (List.mem_filter.mpr ⟨hx, by simpa using hxs⟩) (List.mem_filter.mpr ⟨hz, by simpa using hzs⟩)
      fun h => hne (h ▸ rfl)
    exact hrival.uncredited
  rw [foldl_putChunkLocation_frame, commitEach_setChunkTable]
  show Winner s env slot _ ((s.commitEach env records).occupant slot)
  rw [occupant_commitEach hs halive hrecs hun]
  exact winner_foldl hrivals

end Dfs
