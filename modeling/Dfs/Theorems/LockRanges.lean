import Dfs.Theorems.LockExclusion

/-! # Unlocking a range, locking it anew, and asking for a conflict -/

namespace Dfs

open LockManager

def LockedAt (fileLocks : List FileLock) (owner : Nat) (kind : FileLock → Prop) (i : Nat) : Prop :=
  ∃ l ∈ fileLocks, l.owner = owner ∧ kind l ∧ l.Covers i

/-- What an owner's unlock, or lock, of a range leaves. -/
def retained (fileLocks : List FileLock) (range : FileLock) : List FileLock :=
  fileLocks.filter fun lock => !(decide (lock.owner = range.owner) && lock.overlaps range)

/-- Every byte outside the range is covered by another lock of the owner and kind, apart from the range. -/
def FileLock.Spared (l range : FileLock) (fileLocks : List FileLock) (kind : FileLock → Prop) : Prop :=
  l.overlaps range = true → ∀ i < u64Max, l.Covers i → ¬ range.Covers i →
    ∃ l' ∈ fileLocks, l'.owner = range.owner ∧ kind l' ∧ l'.Covers i ∧ l'.overlaps range = false

lemma mem_retained {fileLocks : List FileLock} {range l : FileLock} :
    l ∈ retained fileLocks range ↔ l ∈ fileLocks ∧ (l.owner = range.owner → l.overlaps range = false) := by
  unfold retained
  rw [List.mem_filter, Bool.not_eq_true', Bool.and_eq_false_imp, decide_eq_true_iff]

variable {fileLocks : List FileLock} {range : FileLock} {kind : FileLock → Prop}

lemma remains_iff {l : FileLock} (hl : l ∈ fileLocks) (howner : l.owner = range.owner) (hkind : kind l) :
    (∀ i < u64Max, l.Covers i → ¬ range.Covers i → LockedAt (retained fileLocks range) range.owner kind i) ↔
      l.Spared range fileLocks kind := by
  constructor
  · intro h _ i hi hcov hout
    obtain ⟨l', hl', ho, hk, hcov'⟩ := h i hi hcov hout
    obtain ⟨hmem, hfree⟩ := mem_retained.1 hl'
    exact ⟨l', hmem, ho, hk, hcov', hfree ho⟩
  · intro h i hi hcov hout
    cases hover : l.overlaps range with
    | false => exact ⟨l, mem_retained.2 ⟨hl, fun _ => hover⟩, howner, hkind, hcov⟩
    | true =>
      obtain ⟨l', hl', ho, hk, hcov', hfree⟩ := h hover i hi hcov hout
      exact ⟨l', mem_retained.2 ⟨hl', fun _ => hfree⟩, ho, hk, hcov'⟩

lemma lockedAt_retained {i : Nat} (hi : i < u64Max) (h : LockedAt (retained fileLocks range) range.owner kind i) :
    LockedAt fileLocks range.owner kind i ∧ ¬ range.Covers i := by
  obtain ⟨l, hl, ho, hk, hcov⟩ := h
  obtain ⟨hmem, hfree⟩ := mem_retained.1 hl
  refine ⟨⟨l, hmem, ho, hk, hcov⟩, fun hin => ?_⟩
  have hover := overlaps_of_covers hcov hin (.inl hi)
  rw [hfree ho] at hover
  cases hover

lemma held_unlock (m : LockManager) (ino owner : Nat) (start len : UInt64) (other : Nat) :
    (m.unlock ino owner start len).held other =
      if other = ino then retained (m.held ino) ⟨owner, 0, .shared, start, len⟩ else m.held other := by
  have hheld : m.held ino = (m.locks ino).getD [] := rfl
  unfold unlock
  cases hentry : m.locks ino with
  | none =>
    by_cases h : other = ino
    · simp [h, hheld, hentry, retained]
    · simp [h]
  | some fileLocks =>
    simp only [held_update, keepEntry_getD, hheld, hentry, Option.getD_some]
    rfl

lemma held_tryLock_granted {m : LockManager} {ino : Nat} {new : FileLock} (h : (m.tryLock ino new).2 = true) :
    (m.tryLock ino new).1.held ino = retained (m.held ino) new ++ [new] := by
  unfold tryLock at h ⊢
  dsimp only at h ⊢
  split at h
  · cases h
  · rename_i hfree
    rw [if_neg hfree, held_update, if_pos rfl]
    rfl

/-- An unlock is exact below `u64::MAX` exactly if every lock of the owner is spared, and touches no other's. A
granted lock leaves the rest of its owner's exactly if spared by locks of the mode. -/
theorem relock_exact_iff (m : LockManager) (ino owner : Nat) (start len : UInt64) (new : FileLock) :
    let range : FileLock := ⟨owner, 0, .shared, start, len⟩
    let after := (m.unlock ino owner start len).held
    ((∀ i < u64Max, LockedAt (after ino) owner (fun _ => True) i ↔
        LockedAt (m.held ino) owner (fun _ => True) i ∧ ¬ range.Covers i) ↔
      ∀ l ∈ m.held ino, l.owner = owner → l.Spared range (m.held ino) fun _ => True) ∧
    ((after ino).filter (fun l => decide (l.owner ≠ owner)) = (m.held ino).filter (fun l => decide (l.owner ≠ owner)) ∧
      ∀ other, other ≠ ino → after other = m.held other) ∧
    ((m.tryLock ino new).2 = true → ∀ l ∈ m.held ino, l.owner = new.owner →
      ((∀ i < u64Max, l.Covers i → ¬ new.Covers i →
          LockedAt ((m.tryLock ino new).1.held ino) new.owner (fun l' => l'.lockType = l.lockType) i) ↔
        l.Spared new (m.held ino) fun l' => l'.lockType = l.lockType)) := by
  have hafter : (m.unlock ino owner start len).held ino = retained (m.held ino) ⟨owner, 0, .shared, start, len⟩ := by
    rw [held_unlock, if_pos rfl]
  refine ⟨?_, ⟨?_, fun other hother => by rw [held_unlock, if_neg hother]⟩, fun hgranted l hl howner => ?_⟩
  · rw [hafter]
    constructor
    · intro h l hl howner
      refine (remains_iff hl howner trivial).1 fun i hi hcov hout => ?_
      exact (h i hi).2 ⟨⟨l, hl, howner, trivial, hcov⟩, hout⟩
    · rintro h i hi
      refine ⟨lockedAt_retained hi, ?_⟩
      rintro ⟨⟨l, hl, howner, -, hcov⟩, hout⟩
      exact (remains_iff hl howner trivial).2 (h l hl howner) i hi hcov hout
  · rw [hafter, retained, List.filter_filter]
    refine List.filter_congr fun l _ => ?_
    by_cases h : l.owner = owner <;> simp [h]
  · have hsame : (fun l' : FileLock => l'.lockType = l.lockType) l := rfl
    rw [← remains_iff hl howner hsame, held_tryLock_granted hgranted]
    refine forall₄_congr fun i _ _ hout => ⟨?_, ?_⟩
    · rintro ⟨l', hl', ho, hk, hcov⟩
      rcases List.mem_append.1 hl' with hl' | hl'
      · exact ⟨l', hl', ho, hk, hcov⟩
      rw [List.mem_singleton.1 hl'] at hcov
      exact absurd hcov hout
    · rintro ⟨l', hl', h⟩
      exact ⟨l', List.mem_append_left _ hl', h⟩

/-- Bytes 0 to 9 are locked; unlocking or relocking 4 and 5 leaves the first byte free. -/
theorem unlocked_part_frees_the_rest :
    let m := LockManager.after [.tryLock 1 ⟨100, 100, .exclusive, 0, 10⟩]
    m.held 1 = [⟨100, 100, .exclusive, 0, 10⟩] ∧ (m.unlock 1 100 4 2).held 1 = [] ∧
      (m.tryLock 1 ⟨100, 100, .shared, 4, 2⟩).1.held 1 = [⟨100, 100, .shared, 4, 2⟩] := by
  decide +kernel

/-! ## The query -/

/-- `get_conflict` finds nothing exactly if `try_lock` grants; what it finds is a rival held lock; a refusal changes none. -/
theorem lock_query_sound (m : LockManager) (ino : Nat) (l : FileLock) :
    (m.getConflict ino l = none ↔ (m.tryLock ino l).2 = true) ∧
    (∀ c, m.getConflict ino l = some c → c ∈ m.held ino ∧ c.Rival l ∧ ∃ i, l.Covers i ∧ c.Covers i) ∧
    ((m.tryLock ino l).2 = false → ∀ other, (m.tryLock ino l).1.held other = m.held other) := by
  refine ⟨getConflict_eq_none_iff m ino l, fun c hc => ?_, held_tryLock_refused m ino l⟩
  obtain ⟨fileLocks, hentry, hc⟩ := Option.bind_eq_some_iff.mp hc
  have hheld : m.held ino = fileLocks := by rw [held, hentry, Option.getD_some]
  have hfound := List.find?_some hc
  simp only [Bool.and_eq_true, Bool.not_eq_true', FileLock.conflictsWith] at hfound
  obtain ⟨hprocess, hconflict⟩ := hfound
  split at hconflict
  · cases hconflict
  rename_i howner
  split at hconflict
  · cases hconflict
  rename_i hover
  refine ⟨hheld ▸ List.mem_of_find?_eq_some hc, ⟨Ne.symm howner, hprocess, ?_⟩, ?_⟩
  · simpa [or_comm] using hconflict
  · exact exists_covers_of_overlaps (by simpa using hover)

/-! ## The locks of one owner -/

/-- If they are of one owner, the two cover no common byte below `u64::MAX`. -/
def FileLock.OwnApart (a b : FileLock) : Prop := a.owner = b.owner → ∀ i < u64Max, ¬(a.Covers i ∧ b.Covers i)

/-- In no run does an owner hold two locks that cover a common byte below `u64::MAX`. -/
theorem own_locks_apart (ops : List LockOp) (ino : Nat) : ((LockManager.after ops).held ino).Pairwise FileLock.OwnApart := by
  have hstep (m : LockManager) (op : LockOp) (h : ∀ ino, (m.held ino).Pairwise FileLock.OwnApart) (_ : True) (other : Nat) :
      ((m.step op).held other).Pairwise FileLock.OwnApart := by
    cases op with
    | tryLock ino new =>
      rcases held_tryLock m ino new other with hheld | ⟨rfl, hgranted, -⟩
      · rw [LockManager.step, hheld]
        exact h other
      rw [LockManager.step, held_tryLock_granted hgranted]
      refine List.pairwise_append.mpr ⟨(h other).sublist List.filter_sublist, List.pairwise_singleton _ _, fun a ha b hb => ?_⟩
      rw [List.mem_singleton.mp hb]
      -- what is kept of the owner's does not overlap the new lock, so it shares no byte below the last with it
      rintro howner i hi ⟨hia, hib⟩
      have hoverlap := overlaps_of_covers hia hib (.inl hi)
      rw [(mem_retained.mp ha).2 howner] at hoverlap
      cases hoverlap
    | unlock ino owner start len => exact (h other).sublist (held_unlock_sublist m ino owner start len other)
    | releaseAll ino owner => exact (h other).sublist (held_releaseAll_sublist m ino owner other)
  exact Transition.invariant_run hstep (fun _ => .nil) (Transition.meets_of_forall fun _ _ _ => trivial) ino

end Dfs
