import Mathlib.Data.List.Basic
import Mathlib.Data.List.GetD
import Mathlib.Order.Lattice

/-!
# Overlaying ranges on a buffer

`overlay` writes ranges into a buffer in order, extending it. Its length is the largest end (`length_overlay`), each
element the last covering range's (`getD_overlay`).
-/

namespace Overlay

open List

variable {α : Type*} [Inhabited α]

/-- The buffer is extended with the default element up to the end. -/
def writeAt (buf : List α) (off : Nat) (data : List α) : List α :=
  let padded := buf ++ List.replicate (off + data.length - buf.length) default
  padded.take off ++ data ++ padded.drop (off + data.length)

def overlay (base : List α) (rs : List (Nat × List α)) : List α :=
  rs.foldl (fun b r => writeAt b r.1 r.2) base

def extent (rs : List (Nat × List α)) : Nat :=
  rs.foldr (fun r m => max (r.1 + r.2.length) m) 0

variable (r : Nat × List α)

def elemIn (i : Nat) : Option α := if r.1 ≤ i then r.2[i - r.1]? else none

def lastAt : List (Nat × List α) → Nat → Option α
  | [], _ => none
  | r :: rs, i => (lastAt rs i).or (elemIn r i)

/-! ## Buffers by length and elements -/

variable (buf : List α)

lemma getD_append_replicate (n i : Nat) : (buf ++ replicate n default).getD i default = buf.getD i default := by
  by_cases hi : i < buf.length
  · rw [getD_append _ _ _ _ hi]
  rw [getD_append_right _ _ _ _ (by omega), getD_eq_default buf _ (by omega)]
  by_cases hn : i - buf.length < n
  · rw [getD_eq_getElem _ _ (by simpa using hn), getElem_replicate]
  · rw [getD_eq_default _ _ (by simpa using hn)]

omit [Inhabited α] in
lemma elemIn_eq_none_iff (i : Nat) : elemIn r i = none ↔ i < r.1 ∨ r.1 + r.2.length ≤ i := by
  unfold elemIn
  split
  · rw [getElem?_eq_none_iff]
    omega
  simp only [true_iff]
  omega

lemma ext_getD {a b : List α} (hl : a.length = b.length) (h : ∀ i, a.getD i default = b.getD i default) : a = b := by
  apply ext_getElem hl
  intro i ha hb
  have := h i
  rwa [getD_eq_getElem _ _ ha, getD_eq_getElem _ _ hb] at this

@[simp] lemma length_writeAt (off : Nat) (data : List α) :
    (writeAt buf off data).length = max buf.length (off + data.length) := by
  simp only [writeAt, length_append, length_take, length_drop, length_replicate]
  omega

lemma getD_writeAt (off : Nat) (data : List α) (i : Nat) :
    (writeAt buf off data).getD i default = (elemIn (off, data) i).getD (buf.getD i default) := by
  have hlen : off + data.length ≤ (buf ++ replicate (off + data.length - buf.length) default).length := by
    simp only [length_append, length_replicate]
    omega
  rw [← getD_append_replicate buf (off + data.length - buf.length) i]
  simp only [writeAt]
  generalize buf ++ replicate (off + data.length - buf.length) default = p at hlen
  rcases Nat.lt_trichotomy i off with h | h | h
  · rw [(elemIn_eq_none_iff _ _).2 (Or.inl h), append_assoc, getD_append _ _ _ _ (by simp; omega)]
    simp [getD_eq_getElem?_getD, h]
  all_goals
    rw [append_assoc, getD_append_right _ _ _ _ (by simp; omega)]
    have ht : (p.take off).length = off := by simp; omega
    rw [ht]
    by_cases hd : i - off < data.length
    · rw [getD_append _ _ _ _ hd]
      have he : elemIn (off, data) i = some data[i - off] := by
        simp only [elemIn]
        rw [if_pos (by omega), getElem?_eq_getElem hd]
      rw [he, getD_eq_getElem _ _ hd, Option.getD_some]
    rw [(elemIn_eq_none_iff _ _).2 (Or.inr (by simp; omega)), getD_append_right _ _ _ _ (by omega)]
    simp only [Option.getD_none, getD_eq_getElem?_getD, getElem?_drop]
    congr 2
    omega

/-! ## Overlays -/

variable (base : List α)

@[simp] lemma overlay_nil : overlay base [] = base := rfl

@[simp] lemma overlay_cons (rs : List (Nat × List α)) : overlay base (r :: rs) = overlay (writeAt base r.1 r.2) rs := rfl

lemma overlay_append (rs ss : List (Nat × List α)) : overlay base (rs ++ ss) = overlay (overlay base rs) ss := foldl_append

omit [Inhabited α] in
@[simp] lemma extent_cons (rs : List (Nat × List α)) : extent (r :: rs) = max (r.1 + r.2.length) (extent rs) := rfl

omit [Inhabited α] in
lemma extent_append (rs ss : List (Nat × List α)) : extent (rs ++ ss) = max (extent rs) (extent ss) := by
  induction rs with
  | nil => simp [extent]
  | cons r rs ih => rw [cons_append, extent_cons, extent_cons, ih, max_assoc]

variable {rs : List (Nat × List α)}

omit [Inhabited α] in
lemma extent_perm {ss : List (Nat × List α)} (h : rs.Perm ss) : extent rs = extent ss := by
  induction h with
  | nil => rfl
  | cons r _ ih => rw [extent_cons, extent_cons, ih]
  | swap r s rs => rw [extent_cons, extent_cons, extent_cons, extent_cons, max_left_comm]
  | trans _ _ ih₁ ih₂ => exact ih₁.trans ih₂

@[simp] lemma length_overlay (rs : List (Nat × List α)) : (overlay base rs).length = max base.length (extent rs) := by
  induction rs generalizing base with
  | nil => simp [extent]
  | cons r rs ih => rw [overlay_cons, ih, length_writeAt, extent_cons, max_assoc]

omit [Inhabited α] in
lemma lastAt_append (rs ss : List (Nat × List α)) (i : Nat) : lastAt (rs ++ ss) i = (lastAt ss i).or (lastAt rs i) := by
  induction rs with
  | nil => simp [lastAt]
  | cons r rs ih => rw [cons_append, lastAt, lastAt, ih, Option.or_assoc]

lemma getD_overlay (rs : List (Nat × List α)) (i : Nat) :
    (overlay base rs).getD i default = (lastAt rs i).getD (base.getD i default) := by
  induction rs generalizing base with
  | nil => simp [lastAt]
  | cons r rs ih =>
    rw [overlay_cons, ih, getD_writeAt, lastAt]
    cases lastAt rs i <;> simp

omit [Inhabited α] in
lemma lastAt_eq_none_iff (rs : List (Nat × List α)) (i : Nat) : lastAt rs i = none ↔ ∀ r ∈ rs, elemIn r i = none := by
  induction rs with
  | nil => simp [lastAt]
  | cons r rs ih => simp [lastAt, Option.or_eq_none_iff, ih, and_comm]

omit [Inhabited α] in
lemma lt_extent_of_lastAt {i : Nat} (h : lastAt rs i ≠ none) : i < extent rs := by
  induction rs with
  | nil => simp [lastAt] at h
  | cons r rs ih =>
    rw [extent_cons]
    by_cases hr : lastAt rs i = none
    · have he : elemIn r i ≠ none := by
        intro hn
        exact h (by rw [lastAt, hr, hn]; rfl)
      rw [Ne, elemIn_eq_none_iff] at he
      omega
    have := ih hr
    omega

/-! ## Resizing first, then copying in place -/

def resize (buf : List α) (n : Nat) : List α := buf.take n ++ List.replicate (n - buf.length) default

/-- Copy `data` over the elements at `off`; the range lies within the buffer. -/
def copyAt (buf : List α) (off : Nat) (data : List α) : List α :=
  buf.take off ++ data ++ buf.drop (off + data.length)

@[simp] lemma length_resize (n : Nat) : (resize buf n).length = n := by
  simp only [resize, length_append, length_take, length_replicate]
  omega

lemma getD_resize {buf : List α} {n : Nat} (h : buf.length ≤ n) (i : Nat) :
    (resize buf n).getD i default = buf.getD i default := by
  rw [resize, take_of_length_le h, getD_append_replicate]

lemma copyAt_eq_writeAt {buf : List α} {off : Nat} {data : List α} (h : off + data.length ≤ buf.length) :
    copyAt buf off data = writeAt buf off data := by
  simp [copyAt, writeAt, Nat.sub_eq_zero_of_le h]

lemma copyAt_resize (off : Nat) (data : List α) :
    copyAt (resize buf (max (off + data.length) buf.length)) off data = writeAt buf off data := by
  have hpad : resize buf (max (off + data.length) buf.length) = buf ++ replicate (off + data.length - buf.length) default := by
    rw [resize, take_of_length_le (le_max_right _ _)]
    congr 2
    omega
  rw [hpad, copyAt, writeAt]

lemma foldl_copyAt {buf : List α} (h : extent rs ≤ buf.length) : rs.foldl (fun b r => copyAt b r.1 r.2) buf = overlay buf rs := by
  induction rs generalizing buf with
  | nil => rfl
  | cons r rs ih =>
    rw [extent_cons] at h
    rw [foldl_cons, overlay_cons, copyAt_eq_writeAt (by omega), ih (by rw [length_writeAt]; omega)]

lemma foldl_copyAt_resize (rs : List (Nat × List α)) :
    rs.foldl (fun b r => copyAt b r.1 r.2) (resize base (max (extent rs) base.length)) = overlay base rs := by
  rw [foldl_copyAt (by simp)]
  apply ext_getD
  · simp only [length_overlay, length_resize]
    omega
  · intro i
    rw [getD_overlay, getD_overlay, getD_resize (le_max_right _ _)]

end Overlay
