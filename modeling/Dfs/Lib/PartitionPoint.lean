import Mathlib.Data.List.TakeWhile
import Mathlib.Order.Lattice

/-!
# The partition point of a list

Binary search for the first element that misses a predicate: where those that meet it come first, their number
(`partitionPoint_eq`); for a key in a sorted list `binarySearch_split`.
-/

namespace Dfs

open List

variable {α : Type}

/-- The halving loop: `size` elements from `base` on are left. -/
def bisect (p : α → Bool) (l : List α) : (fuel base size : Nat) → Nat
  | 0, base, _ => base
  | fuel + 1, base, size =>
    if 1 < size then
      let half := size / 2
      bisect p l fuel (if l[base + half]?.any p then base + half else base) (size - half)
    else base

/-- The position after the last probe if the element there meets the predicate, else that one. -/
def partitionPoint (p : α → Bool) (l : List α) : Nat :=
  let base := bisect p l l.length 0 l.length
  if l[base]?.any p then base + 1 else base

def Partitioned (p : α → Bool) (l : List α) : Prop := l.Pairwise fun a b => p b = true → p a = true

variable {p : α → Bool} {l : List α}

lemma any_getElem?_iff (h : Partitioned p l) (i : Nat) : l[i]?.any p = true ↔ i < (l.takeWhile p).length := by
  induction l generalizing i with
  | nil => simp
  | cons a l ih =>
    obtain ⟨ha, hl⟩ := pairwise_cons.mp h
    cases hp : p a with
    | false =>
      cases i with
      | zero => simp [hp]
      | succ i =>
        have hnone : ∀ b ∈ l[i]?, p b = false := by
          intro b hb
          cases hpb : p b with
          | false => rfl
          | true => exact (ha b (mem_of_getElem? hb) hpb).symm.trans hp
        cases hi : l[i]? with
        | none => simp [hp, hi]
        | some b => simp [hp, hi, hnone b hi]
    | true =>
      cases i with
      | zero => simp [hp]
      | succ i => simpa [hp] using ih hl i

lemma bisect_bounds (h : Partitioned p l) (fuel base size : Nat) (hfuel : size ≤ fuel + 1)
    (hlo : base ≤ (l.takeWhile p).length) (hhi : (l.takeWhile p).length ≤ base + size) :
    bisect p l fuel base size ≤ (l.takeWhile p).length ∧ (l.takeWhile p).length ≤ bisect p l fuel base size + 1 := by
  fun_induction bisect p l fuel base size with
  | case1 base size => omega
  | case2 fuel base size hsize half ih =>
    have hprobe := any_getElem?_iff h (base + half)
    by_cases hany : l[base + half]?.any p = true
    · have hlt := hprobe.mp hany
      rw [if_pos hany] at ih ⊢
      exact ih (by omega) (by omega) (by omega)
    have hle := mt hprobe.mpr hany
    rw [if_neg hany] at ih ⊢
    exact ih (by omega) (by omega) (by omega)
  | case3 fuel base size hsize => omega

lemma partitionPoint_eq (h : Partitioned p l) : partitionPoint p l = (l.takeWhile p).length := by
  have hle : (l.takeWhile p).length ≤ l.length := (takeWhile_sublist p).length_le
  obtain ⟨hlo, hhi⟩ := bisect_bounds h l.length 0 l.length (by omega) (by omega) (by omega)
  have hprobe := any_getElem?_iff h (bisect p l l.length 0 l.length)
  simp only [partitionPoint]
  split
  · rename_i hany
    have := hprobe.mp hany
    omega
  rename_i hany
  have := mt hprobe.mpr hany
  omega

lemma drop_partitionPoint (h : Partitioned p l) : l.drop (partitionPoint p l) = l.dropWhile p := by
  have hsplit : l.takeWhile p ++ l.dropWhile p = l := takeWhile_append_dropWhile
  calc l.drop (partitionPoint p l)
      = (l.takeWhile p ++ l.dropWhile p).drop (l.takeWhile p).length := by rw [partitionPoint_eq h, hsplit]
    _ = l.dropWhile p := drop_left

/-! ## Searching a key -/

variable {κ : Type} [LinearOrder κ]

/-- The position of an element with the key, or where one is to be inserted. -/
def binarySearch (key : α → κ) (l : List α) (k : κ) : Except Nat Nat :=
  let base := bisect (fun a => decide (key a ≤ k)) l l.length 0 l.length
  match l[base]? with
  | none => .error 0 -- an empty list
  | some a => if key a = k then .ok base else .error (if key a < k then base + 1 else base)

lemma any_bisect (p : α → Bool) (l : List α) (fuel base size : Nat) :
    bisect p l fuel base size = base ∨ l[bisect p l fuel base size]?.any p = true := by
  fun_induction bisect p l fuel base size with
  | case1 base size => exact .inl rfl
  | case2 fuel base size hsize half ih =>
    by_cases hany : l[base + half]?.any p = true
    · rw [if_pos hany] at ih ⊢
      rcases ih with ih | ih
      · right
        rw [ih]
        exact hany
      · exact .inr ih
    · rw [if_neg hany] at ih ⊢
      exact ih
  | case3 fuel base size hsize => exact .inl rfl

variable {key : α → κ} {upTo beyond : List α}

lemma bisect_append (hyes : ∀ x ∈ upTo, p x = true) (hno : ∀ x ∈ beyond, p x = false) :
    bisect p (upTo ++ beyond) (upTo ++ beyond).length 0 (upTo ++ beyond).length = upTo.length - 1 := by
  have hpart : Partitioned p (upTo ++ beyond) := by
    refine pairwise_append.mpr ⟨?_, ?_, fun a ha _ _ _ => hyes a ha⟩
    · exact pairwise_of_forall_mem_list fun a ha _ _ _ => hyes a ha
    · exact pairwise_of_forall_mem_list fun a _ b hb h => absurd h (by simp [hno b hb])
  have htake : (upTo ++ beyond).takeWhile p = upTo := by
    rw [takeWhile_append_of_pos hyes]
    cases beyond with
    | nil => simp
    | cons b rest => simp [hno b]
  obtain ⟨hlo, hhi⟩ := bisect_bounds hpart (upTo ++ beyond).length 0 (upTo ++ beyond).length (by omega) (by omega)
    (by simp [htake])
  have hprobe := any_getElem?_iff hpart (bisect p (upTo ++ beyond) (upTo ++ beyond).length 0 (upTo ++ beyond).length)
  rw [htake] at hlo hhi hprobe
  rcases any_bisect p (upTo ++ beyond) (upTo ++ beyond).length 0 (upTo ++ beyond).length with hzero | hany
  · omega
  have := hprobe.mp hany
  omega

lemma exists_keyCut (h : l.Pairwise fun a b => key a ≤ key b) (k : κ) :
    ∃ upTo beyond, l = upTo ++ beyond ∧ (∀ x ∈ upTo, key x ≤ k) ∧ ∀ x ∈ beyond, k < key x := by
  induction l with
  | nil => exact ⟨[], [], rfl, by simp, by simp⟩
  | cons a l ih =>
    obtain ⟨ha, hl⟩ := pairwise_cons.mp h
    by_cases hk : key a ≤ k
    · obtain ⟨upTo, beyond, hcut, hupTo, hbeyond⟩ := ih hl
      exact ⟨a :: upTo, beyond, by rw [hcut]; rfl, forall_mem_cons.mpr ⟨hk, hupTo⟩, hbeyond⟩
    have hlt : k < key a := not_le.mp hk
    exact ⟨[], a :: l, rfl, by simp, forall_mem_cons.mpr ⟨hlt, fun x hx => hlt.trans_le (ha x hx)⟩⟩

lemma binarySearch_append {k : κ} (hupTo : ∀ x ∈ upTo, key x ≤ k) (hbeyond : ∀ x ∈ beyond, k < key x) :
    binarySearch key (upTo ++ beyond) k =
      if upTo.getLast?.any (fun a => decide (key a = k)) then .ok (upTo.length - 1) else .error upTo.length := by
  have hbase := @bisect_append α (fun a => decide (key a ≤ k)) upTo beyond (by simpa using hupTo) (by simpa using hbeyond)
  simp only [binarySearch, hbase]
  rcases eq_nil_or_concat upTo with rfl | ⟨pre, a, rfl⟩
  · cases beyond with
    | nil => rfl
    | cons b rest =>
      have hb : k < key b := hbeyond b (by simp)
      simp [hb.ne', hb.not_gt]
  have ha : key a ≤ k := hupTo a (by simp)
  by_cases hk : key a = k
  · simp [hk]
  · simp [hk, lt_of_le_of_ne ha hk]

lemma binarySearch_split (h : l.Pairwise fun a b => key a ≤ key b) (k : κ) :
    (∃ pre a post, l = pre ++ a :: post ∧ key a = k ∧ (∀ x ∈ pre, key x ≤ k) ∧ (∀ x ∈ post, k < key x) ∧
      binarySearch key l k = .ok pre.length) ∨ ∃ pre post, l = pre ++ post ∧ (∀ x ∈ pre, key x < k) ∧ (∀ x ∈ post, k < key x) ∧
      binarySearch key l k = .error pre.length := by
  obtain ⟨upTo, beyond, rfl, hupTo, hbeyond⟩ := exists_keyCut h k
  have hfound := binarySearch_append hupTo hbeyond
  rcases eq_nil_or_concat upTo with rfl | ⟨pre, a, rfl⟩
  · exact .inr ⟨[], beyond, rfl, by simp, hbeyond, by simpa using hfound⟩
  rw [concat_eq_append] at h hupTo hfound ⊢
  have hpre : ∀ x ∈ pre, key x ≤ key a := by
    intro x hx
    exact (pairwise_append.mp (pairwise_append.mp h).1).2.2 x hx a (by simp)
  have ha : key a ≤ k := hupTo a (by simp)
  by_cases hk : key a = k
  · exact .inl ⟨pre, a, beyond, by simp, hk, fun x hx => (hpre x hx).trans ha, hbeyond, by simpa [hk] using hfound⟩
  have hlt : key a < k := lt_of_le_of_ne ha hk
  refine .inr ⟨pre ++ [a], beyond, rfl, ?_, hbeyond, by simpa [hk] using hfound⟩
  intro x hx
  rcases mem_append.mp hx with hx | hx
  · exact (hpre x hx).trans_lt hlt
  rw [List.mem_singleton.mp hx]
  exact hlt

end Dfs
