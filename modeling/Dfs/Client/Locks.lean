import Dfs.Types
import Dfs.Lib.Transition

/-!
# Byte-range locks

The `fcntl` locks of the client's processes: when two conflict, and the `LockManager`.
-/

namespace Dfs

open Function

inductive LockType where
  | shared
  | exclusive
  deriving DecidableEq, Repr

/-- `FileLock`, without the time it was acquired at, which nothing reads. -/
structure FileLock where
  owner : Nat
  pid : Nat
  lockType : LockType
  start : UInt64
  len : UInt64
  deriving DecidableEq, Repr

/-- `u64::MAX` to the end of the file, else `start.saturating_add(len)`. -/
def FileLock.stop (l : FileLock) : Nat :=
  if l.len = 0 then u64Max else min (l.start.toNat + l.len.toNat) u64Max

def FileLock.overlaps (l other : FileLock) : Bool :=
  decide (l.start.toNat < other.stop) && decide (other.start.toNat < l.stop)

def FileLock.conflictsWith (l other : FileLock) : Bool :=
  if l.owner = other.owner then false
  else if !l.overlaps other then false
  else decide (l.lockType = .exclusive) || decide (other.lockType = .exclusive)

def FileLock.sameProcess (existing : FileLock) (pid : Nat) : Bool :=
  decide (existing.pid ≠ 0) && decide (pid ≠ 0) && decide (existing.pid = pid)

structure LockManager where
  locks : Nat → Option (List FileLock)

def LockManager.new : LockManager := ⟨fun _ => none⟩

def LockManager.held (m : LockManager) (ino : Nat) : List FileLock := (m.locks ino).getD []

def keepEntry (fileLocks : List FileLock) : Option (List FileLock) := if fileLocks.isEmpty then none else some fileLocks

/-- `try_lock`. The first lock of another process that conflicts refuses the call, which leaves the entry it made,
without a lock. -/
def LockManager.tryLock (m : LockManager) (ino : Nat) (newLock : FileLock) : LockManager × Bool :=
  let fileLocks := m.held ino
  if fileLocks.any fun existing => !existing.sameProcess newLock.pid && newLock.conflictsWith existing then
    (⟨update m.locks ino (some fileLocks)⟩, false)
  else
    let kept := fileLocks.filter fun lock => !(decide (lock.owner = newLock.owner) && lock.overlaps newLock)
    (⟨update m.locks ino (some (kept ++ [newLock]))⟩, true)

/-- `get_conflict`, with a loop of its own. -/
def LockManager.getConflict (m : LockManager) (ino : Nat) (testLock : FileLock) : Option FileLock :=
  (m.locks ino).bind fun fileLocks =>
    fileLocks.find? fun existing => !existing.sameProcess testLock.pid && testLock.conflictsWith existing

def LockManager.unlock (m : LockManager) (ino owner : Nat) (start len : UInt64) : LockManager :=
  match m.locks ino with
  | none => m
  | some fileLocks =>
    let unlockRange : FileLock := ⟨owner, 0, .shared, start, len⟩
    let kept := fileLocks.filter (fun lock => !(decide (lock.owner = owner) && lock.overlaps unlockRange))
    ⟨update m.locks ino (keepEntry kept)⟩

def LockManager.releaseAll (m : LockManager) (ino owner : Nat) : LockManager :=
  match m.locks ino with
  | none => m
  | some fileLocks => ⟨update m.locks ino (keepEntry (fileLocks.filter (fun lock => decide (lock.owner ≠ owner))))⟩

inductive LockOp where
  | tryLock (ino : Nat) (newLock : FileLock)
  | unlock (ino owner : Nat) (start len : UInt64)
  | releaseAll (ino owner : Nat)
  deriving DecidableEq, Repr

def LockManager.step (m : LockManager) : LockOp → LockManager
  | .tryLock ino newLock => (m.tryLock ino newLock).1
  | .unlock ino owner start len => m.unlock ino owner start len
  | .releaseAll ino owner => m.releaseAll ino owner

def LockManager.after (ops : List LockOp) : LockManager := Transition.run LockManager.step LockManager.new ops

/-! ## What a call does to the locks held -/

@[simp] lemma keepEntry_getD (fileLocks : List FileLock) : (keepEntry fileLocks).getD [] = fileLocks := by
  cases fileLocks <;> rfl

variable (m : LockManager) (ino : Nat) (l : FileLock)

open LockManager

lemma held_update (entry : Option (List FileLock)) (other : Nat) :
    (mk (update m.locks ino entry)).held other = if other = ino then entry.getD [] else m.held other := by
  unfold held
  by_cases h : other = ino
  · subst h
    simp
  · simp [h]

/-- A lock is granted exactly if no lock of another process conflicts with it. -/
theorem tryLock_granted_iff : (m.tryLock ino l).2 = true ↔
    ∀ e ∈ m.held ino, e.sameProcess l.pid = false → l.conflictsWith e = false := by
  unfold tryLock
  dsimp only
  split
  · rename_i h
    simpa using h
  · rename_i h
    simpa using h

lemma held_tryLock_refused (h : (m.tryLock ino l).2 = false) (other : Nat) : (m.tryLock ino l).1.held other = m.held other := by
  unfold tryLock at h ⊢
  dsimp only at h ⊢
  split at h
  · rename_i hblock
    rw [if_pos hblock, held_update]
    split
    · rename_i heq
      rw [heq]
      rfl
    · rfl
  · cases h

lemma held_tryLock (newLock : FileLock) (other : Nat) : (m.tryLock ino newLock).1.held other = m.held other ∨
      other = ino ∧ (m.tryLock ino newLock).2 = true ∧ ∃ kept, kept.Sublist (m.held ino) ∧
        (m.tryLock ino newLock).1.held other = kept ++ [newLock] := by
  cases hgranted : (m.tryLock ino newLock).2 with
  | false => exact .inl (held_tryLock_refused m ino newLock hgranted other)
  | true =>
    unfold tryLock at hgranted ⊢
    dsimp only at hgranted ⊢
    split at hgranted
    · cases hgranted
    rename_i hfree
    rw [if_neg hfree, held_update]
    split
    · rename_i h
      exact .inr ⟨h, rfl, _, List.filter_sublist, rfl⟩
    · exact .inl rfl

variable {fileLocks : List FileLock}

lemma held_retain_sublist {m : LockManager} {ino : Nat} (hentry : m.locks ino = some fileLocks) (keep : FileLock → Bool)
    (other : Nat) : ((mk (update m.locks ino (keepEntry (fileLocks.filter keep)))).held other).Sublist (m.held other) := by
  rw [held_update]
  split
  · rename_i h
    rw [keepEntry_getD, held, h, hentry]
    exact List.filter_sublist
  · exact List.Sublist.refl _

lemma held_unlock_sublist (owner : Nat) (start len : UInt64) (other : Nat) :
    ((m.unlock ino owner start len).held other).Sublist (m.held other) := by
  unfold unlock
  cases hentry : m.locks ino with
  | none => exact List.Sublist.refl _
  | some fileLocks => exact held_retain_sublist hentry _ other

lemma held_releaseAll_sublist (owner other : Nat) : ((m.releaseAll ino owner).held other).Sublist (m.held other) := by
  unfold releaseAll
  cases hentry : m.locks ino with
  | none => exact List.Sublist.refl _
  | some fileLocks => exact held_retain_sublist hentry _ other

/-- The query finds nothing exactly if the lock would be granted. -/
theorem getConflict_eq_none_iff : m.getConflict ino l = none ↔ (m.tryLock ino l).2 = true := by
  rw [tryLock_granted_iff]
  unfold getConflict held
  cases m.locks ino <;> simp

end Dfs
