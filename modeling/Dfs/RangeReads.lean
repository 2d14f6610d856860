import Dfs.Node

/-!
# Reads of a part of a chunk

`read_chunk_range_partial` slices the cached bytes, or reads the file into a buffer. Offsets and lengths wrap; what
one `read` returns and how much memory there is is open; reads do not fail.
-/

namespace Dfs

open Node

variable {Id : Type}

inductive ReadError where
  | beyond (offset size : Nat)
  | openFailed
  | seekFailed
  deriving DecidableEq

abbrev Ended (α : Type) := Option (Except ReadError α)

def isizeMax : Nat := 2 ^ 63 - 1

def sliced (data : Bytes) (start stop : Nat) : Ended Bytes :=
  if start ≤ stop then some (.ok ((data.take stop).drop start)) else none

/-- `rest` is the file from its position, `length` what is left of the buffer. A read returns a byte if there is one. -/
def readLoop (reads : Nat → Nat) : Nat → Bytes → Nat → Bytes
  | 0, _, _ => []
  | calls + 1, rest, length =>
    let n := min (max (reads calls) 1) (min rest.length length)
    if n = 0 then [] else rest.take n ++ readLoop reads calls (rest.drop n) (length - n)

def Node.readChunkRangeArc (s : Node Id) (id : Id) (offset length : UInt64) : Ended (Bytes × Nat × Nat) :=
  match s.readChunkArc id with
  | none => some (.error .openFailed)
  | some data =>
    if data.length ≤ offset.toNat then some (.error (.beyond offset.toNat data.length))
    else some (.ok (data, offset.toNat, min (offset + length).toNat data.length))

def Node.readChunkRangePartial (s : Node Id) (reads : Nat → Nat) (memory : Nat) (id : Id) (offset length : UInt64) :
    Ended Bytes :=
  match s.cache id, s.files id with
  | some data, _ =>
    if data.length ≤ offset.toNat then some (.error (.beyond offset.toNat data.length))
    else sliced data offset.toNat (min (offset + length).toNat data.length)
  | none, none => some (.error .openFailed)
  | none, some data =>
    if isizeMax < offset.toNat then some (.error .seekFailed)
    -- `vec![0u8; length]`
    else if min memory isizeMax < length.toNat then none
    else some (.ok (readLoop reads length.toNat (data.drop offset.toNat) length.toNat))

lemma readLoop_eq_take (reads : Nat → Nat) {calls length : Nat} (h : length ≤ calls) (rest : Bytes) :
    readLoop reads calls rest length = rest.take length := by
  induction calls generalizing rest length with
  | zero => simp [readLoop, Nat.le_zero.mp h]
  | succ calls ih =>
    simp only [readLoop]
    split
    · have hend : rest.length = 0 ∨ length = 0 := by omega
      rcases hend with h | h <;> simp [List.length_eq_zero_iff.mp, h]
    rw [ih (by omega), ← List.take_add]
    congr 1
    omega

lemma sliced_sum (data : Bytes) {offset length : UInt64} (h : offset.toNat < data.length) :
    sliced data offset.toNat (min (offset + length).toNat data.length) =
      if offset.toNat + length.toNat ≤ u64Max then some (.ok ((data.drop offset.toNat).take length.toNat)) else none := by
  have hlength := length.toNat_lt
  have hoffset := offset.toNat_lt
  rw [sliced, UInt64.toNat_add, u64Max]
  by_cases hsum : offset.toNat + length.toNat ≤ 2 ^ 64 - 1
  · rw [Nat.mod_eq_of_lt (by omega), if_pos (by omega), if_pos hsum, List.drop_take]
    congr 2
    rw [List.take_eq_take_iff, List.length_drop]
    omega
  · rw [Nat.mod_eq_sub_mod (by omega), Nat.mod_eq_of_lt (by omega), if_neg (by omega), if_neg hsum]

/-- A partial read returns the bytes from the offset to the end of range or chunk, cached or not, exactly if the
offset is inside the chunk and the length can be allocated. -/
theorem partial_read_exact_iff (id : Id) (data : Bytes) (offset length : UInt64) (memory : Nat) :
    (∀ s : Node Id, s.files id = some data → (s.cache id = none ∨ s.cache id = some data) → ∀ reads,
      s.readChunkRangePartial reads memory id offset length = some (.ok ((data.drop offset.toNat).take length.toNat)) ∧
      ∀ arc start stop, s.readChunkRangeArc id offset length = some (.ok (arc, start, stop)) →
        s.readChunkRangePartial reads memory id offset length = sliced arc start stop) ↔
    offset.toNat < data.length ∧ offset.toNat ≤ isizeMax ∧ length.toNat ≤ min memory isizeMax := by
  constructor
  · intro hexact
    have hcached := (hexact { empty with files := fun _ => some data, cache := fun _ => some data } rfl (.inr rfl) fun n => n).1
    have huncached := (hexact { empty with files := fun _ => some data } rfl (.inl rfl) fun n => n).1
    simp only [readChunkRangePartial, empty] at hcached huncached
    refine ⟨?_, ?_, ?_⟩
    · by_contra hbeyond
      simp [Nat.le_of_not_lt hbeyond] at hcached
    · by_contra hseek
      simp [Nat.lt_of_not_le hseek] at huncached
    by_contra hmemory
    rw [if_pos (Nat.lt_of_not_le hmemory)] at huncached
    split at huncached <;> simp at huncached
  · rintro ⟨hinside, hseek, hmemory⟩ s hfile hcache reads
    have hsum : offset.toNat + length.toNat ≤ u64Max := by
      simp only [isizeMax, u64Max] at *
      omega
    have hpart : s.readChunkRangePartial reads memory id offset length =
        some (.ok ((data.drop offset.toNat).take length.toNat)) := by
      rcases hcache with h | h
      · simp [readChunkRangePartial, h, hfile, Nat.not_lt.mpr hseek, Nat.not_lt.mpr hmemory, readLoop_eq_take]
      · simp only [readChunkRangePartial, h, if_neg (Nat.not_le.mpr hinside), sliced_sum data hinside, if_pos hsum]
    have harc : s.readChunkArc id = some data := by
      rcases hcache with h | h <;> simp [readChunkArc, h, hfile]
    refine ⟨hpart, fun arc start stop h => ?_⟩
    simp only [readChunkRangeArc, harc, if_neg (Nat.not_le.mpr hinside), Option.some.injEq, Except.ok.injEq, Prod.mk.injEq] at h
    obtain ⟨rfl, rfl, rfl⟩ := h
    rw [hpart, sliced_sum data hinside, if_pos hsum]

/-- At the chunk's end the cache gives an error and the file no bytes; a range whose end wraps panics. -/
theorem cached_read_differs :
    let cold : Node Nat := { Node.empty with files := fun _ => some [1, 2, 3] }
    let warm : Node Nat := { cold with cache := fun _ => some [1, 2, 3] }
    cold.readChunkRangePartial id 8 7 3 1 = some (.ok []) ∧ warm.readChunkRangePartial id 8 7 3 1 = some (.error (.beyond 3 3)) ∧
      warm.readChunkRangePartial id 8 7 1 18446744073709551615 = none := by
  decide +kernel

end Dfs
