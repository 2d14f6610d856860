import Dfs.Client.Locks
import Mathlib.Data.List.Pairwise

/-! # Locks of different processes keep apart -/

namespace Dfs

open FileLock

/-- `start..start+len`, or from `start` on if `len` is 0. -/
def FileLock.Covers (l : FileLock) (i : Nat) : Prop := l.start.toNat ≤ i ∧ (l.len = 0 ∨ i < l.start.toNat + l.len.toNat)

instance (l : FileLock) (i : Nat) : Decidable (l.Covers i) := inferInstanceAs (Decidable (_ ∧ _))

/-- Of different owners and processes, one of them exclusive. -/
def FileLock.Rival (a b : FileLock) : Prop :=
  a.owner ≠ b.owner ∧ a.sameProcess b.pid = false ∧ (a.lockType = .exclusive ∨ b.lockType = .exclusive)

instance (a b : FileLock) : Decidable (a.Rival b) := inferInstanceAs (Decidable (_ ∧ _))

/-- No byte at offset `i` of an inode is covered by two rival locks. -/
def LockManager.ExcludesAt (m : LockManager) (ino i : Nat) : Prop :=
  ∀ a ∈ m.held ino, ∀ b ∈ m.held ino, a.Rival b → ¬(a.Covers i ∧ b.Covers i)

instance (m : LockManager) (ino i : Nat) : Decidable (m.ExcludesAt ino i) :=
  inferInstanceAs (Decidable (∀ a ∈ _, ∀ b ∈ _, _ → _))

/-- Every rival of a granted lock is apart from it, by `overlaps`. -/
def FileLock.KeepsApart (a b : FileLock) : Prop := a.Rival b → a.overlaps b = false

/-! ## The test -/

lemma FileLock.overlaps_comm (a b : FileLock) : a.overlaps b = b.overlaps a := by
  unfold overlaps
  rw [Bool.and_comm]

variable {a b : FileLock} {i : Nat} {m : LockManager}

lemma FileLock.Rival.symm (h : a.Rival b) : b.Rival a := by
  obtain ⟨howner, hprocess, htype⟩ := h
  refine ⟨howner.symm, ?_, htype.symm⟩
  simp only [sameProcess, Bool.and_eq_false_iff, decide_eq_false_iff_not] at hprocess ⊢
  omega

lemma FileLock.KeepsApart.symm (h : a.KeepsApart b) : b.KeepsApart a := by
  intro hrival
  rw [overlaps_comm]
  exact h hrival.symm

instance : Std.Symm FileLock.KeepsApart := ⟨fun _ _ h => h.symm⟩

lemma FileLock.keepsApart_self (a : FileLock) : a.KeepsApart a := fun hrival => absurd rfl hrival.1

lemma keepsApart_of_granted {ino : Nat} {newLock : FileLock} (h : (m.tryLock ino newLock).2 = true) :
    ∀ l ∈ m.held ino, l.KeepsApart newLock := by
  intro l hl hrival
  have hconflict := (tryLock_granted_iff m ino newLock).mp h l hl hrival.2.1
  rw [overlaps_comm]
  cases hoverlap : newLock.overlaps l with
  | false => rfl
  | true => rcases hrival.2.2 with htype | htype <;> simp [conflictsWith, hrival.1.symm, hoverlap, htype] at hconflict

lemma FileLock.Covers.lt_stop {l : FileLock} (h : l.Covers i) : min i (u64Max - 1) < l.stop := by
  obtain ⟨-, h⟩ := h
  have hpos : 0 < u64Max := by decide
  unfold stop
  split
  · omega
  rename_i hlen
  have := h.resolve_left hlen
  omega

lemma overlaps_of_covers (ha : a.Covers i) (hb : b.Covers i)
    (hi : i < u64Max ∨ (a.start.toNat < u64Max ∧ b.start.toNat < u64Max)) : a.overlaps b = true := by
  have hstopA := ha.lt_stop
  have hstopB := hb.lt_stop
  have hstartA := ha.1
  have hstartB := hb.1
  simp only [overlaps, Bool.and_eq_true, decide_eq_true_eq]
  omega

lemma FileLock.stop_cases (l : FileLock) : l.len = 0 ∧ l.stop = u64Max ∨
    0 < l.len.toNat ∧ l.stop = min (l.start.toNat + l.len.toNat) u64Max := by
  unfold stop
  split
  · rename_i hlen
    exact .inl ⟨hlen, rfl⟩
  rename_i hlen
  exact .inr ⟨Nat.pos_of_ne_zero fun h => hlen (UInt64.toNat_inj.1 h), rfl⟩

lemma exists_covers_of_overlaps (h : a.overlaps b = true) : ∃ i, a.Covers i ∧ b.Covers i := by
  simp only [overlaps, Bool.and_eq_true, decide_eq_true_eq] at h
  refine ⟨max a.start.toNat b.start.toNat, ⟨by omega, ?_⟩, by omega, ?_⟩
  · rcases a.stop_cases with ⟨hlen, -⟩ | ha
    · exact .inl hlen
    · rcases b.stop_cases with hb | hb <;> omega
  · rcases b.stop_cases with ⟨hlen, -⟩ | hb
    · exact .inl hlen
    · rcases a.stop_cases with ha | ha <;> omega

/-! ## The runs of the manager -/

def LockManager.Apart (m : LockManager) : Prop := ∀ ino, (m.held ino).Pairwise FileLock.KeepsApart

lemma apart_new : LockManager.new.Apart := fun _ => List.Pairwise.nil

lemma LockManager.Apart.step (h : m.Apart) (op : LockOp) : (m.step op).Apart := by
  intro other
  cases op with
  | tryLock ino newLock =>
    rcases held_tryLock m ino newLock other with hheld | ⟨rfl, hgranted, kept, hkept, hheld⟩
    · simp only [LockManager.step, hheld]
      exact h other
    simp only [LockManager.step, hheld]
    have hnew : ∀ l ∈ kept, l.KeepsApart newLock := fun l hl => keepsApart_of_granted hgranted l (hkept.subset hl)
    refine List.pairwise_append.mpr ⟨(h other).sublist hkept, List.pairwise_singleton _ _, ?_⟩
    intro l hl l' hl'
    rw [List.mem_singleton.mp hl']
    exact hnew l hl
  | unlock ino owner start len => exact (h other).sublist (held_unlock_sublist m ino owner start len other)
  | releaseAll ino owner => exact (h other).sublist (held_releaseAll_sublist m ino owner other)

lemma apart_after (ops : List LockOp) : (LockManager.after ops).Apart := by
  have hstep : ∀ (m : LockManager) (op : LockOp), m.Apart → True → (m.step op).Apart := fun m op h _ => h.step op
  exact Transition.invariant_run hstep apart_new (Transition.meets_of_forall fun _ _ _ => trivial)

lemma LockManager.Apart.keepsApart (h : m.Apart) {ino : Nat} (ha : a ∈ m.held ino) (hb : b ∈ m.held ino) : a.KeepsApart b :=
  (h ino).forall_of_forall (fun l _ => l.keepsApart_self) ha hb

/-- No two rivals cover a common byte below `u64::MAX`, and none at all unless a lock starts there. -/
theorem locks_exclude (ops : List LockOp) (ino : Nat) : (∀ i < u64Max, (LockManager.after ops).ExcludesAt ino i) ∧
      ((∀ l ∈ (LockManager.after ops).held ino, l.start.toNat < u64Max) → ∀ i, (LockManager.after ops).ExcludesAt ino i) := by
  have hapart := apart_after ops
  constructor
  · rintro i hi a ha b hb hrival ⟨hia, hib⟩
    have hoverlap := overlaps_of_covers hia hib (.inl hi)
    rw [hapart.keepsApart ha hb hrival] at hoverlap
    cases hoverlap
  · rintro hstart i a ha b hb hrival ⟨hia, hib⟩
    have hoverlap := overlaps_of_covers hia hib (.inr ⟨hstart a ha, hstart b hb⟩)
    rw [hapart.keepsApart ha hb hrival] at hoverlap
    cases hoverlap

def lastOffsetLocks : List LockOp :=
  [.tryLock 1 ⟨100, 100, .exclusive, 18446744073709551615, 1⟩, .tryLock 1 ⟨200, 200, .exclusive, 18446744073709551615, 1⟩]

theorem last_offset_is_locked_twice : ¬(LockManager.after lastOffsetLocks).ExcludesAt 1 u64Max := by decide +kernel

theorem locks_exclude_before_the_last_offset : (LockManager.after [.tryLock 1 ⟨100, 100, .exclusive, 18446744073709551614, 0⟩,
        .tryLock 1 ⟨200, 200, .exclusive, 18446744073709551614, 1⟩]).ExcludesAt 1 u64Max :=
  (locks_exclude _ 1).2 (by decide +kernel) u64Max

end Dfs
