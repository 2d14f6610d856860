import Dfs.Lib.Overlay
import Mathlib.Algebra.GroupWithZero.Nat
import Mathlib.Data.List.TakeWhile
import Mathlib.Order.Interval.Finset.Nat

/-!
# Separated runs

Runs from `lo` to `hi`, sorted with gaps (`Separated`). An interval put in takes in every run it overlaps or touches
(`absorb`): a write (`elemIn_mergeRuns`).
-/

namespace Runs

open Overlay List
open Option hiding or_assoc

variable {i m : Nat}

section Intervals

variable {α : Type*} (lo hi : α → Nat)

/-- What is left of a list, what the interval took in, and how far it reaches then. -/
structure Absorbed (α : Type*) where
  kept : List α
  taken : List α
  start : Nat
  stop : Nat

def absorb : List α → Nat → Nat → Absorbed α
  | [], s, e => ⟨[], [], s, e⟩
  | a :: l, s, e =>
    if hi a < s ∨ e < lo a then { absorb l s e with kept := a :: (absorb l s e).kept }
    else
      let r := absorb l (min s (lo a)) (max e (hi a))
      { r with taken := a :: r.taken }

def Covers (l : List α) (i : Nat) : Prop := ∃ a ∈ l, lo a ≤ i ∧ i < hi a

/-- Sorted, with a gap between any two runs. -/
def Separated (l : List α) : Prop := l.Pairwise (fun a b => hi a < lo b)

variable {lo hi} {l : List α} {s e : Nat} {a : α}

lemma mem_absorb : a ∈ l ↔ a ∈ (absorb lo hi l s e).kept ∨ a ∈ (absorb lo hi l s e).taken := by
  induction l generalizing s e with
  | nil => simp [absorb]
  | cons b l ih =>
    rw [absorb]
    split
    · simp only [mem_cons, ih (s := s) (e := e)]
      exact or_assoc.symm
    simp only [mem_cons, ih (s := min s (lo b)) (e := max e (hi b))]
    exact or_left_comm

variable (lo hi l s e) in
lemma absorb_sublist : (absorb lo hi l s e).kept.Sublist l ∧ (absorb lo hi l s e).taken.Sublist l := by
  induction l generalizing s e with
  | nil => simp [absorb]
  | cons b l ih =>
    rw [absorb]
    split
    · exact ⟨(ih s e).1.cons_cons b, (ih s e).2.cons b⟩
    · exact ⟨(ih _ _).1.cons b, (ih _ _).2.cons_cons b⟩

variable (lo hi l s e) in
lemma absorb_grows : (absorb lo hi l s e).start ≤ s ∧ e ≤ (absorb lo hi l s e).stop := by
  induction l generalizing s e with
  | nil => simp [absorb]
  | cons b l ih =>
    rw [absorb]
    split
    · exact ih s e
    have := ih (min s (lo b)) (max e (hi b))
    exact ⟨by dsimp only; omega, by dsimp only; omega⟩

variable (lo hi) in
lemma absorb_interval (hse : s ≤ e) (hvalid : ∀ a ∈ l, lo a ≤ hi a) (i : Nat) :
    ((absorb lo hi l s e).start ≤ i ∧ i < (absorb lo hi l s e).stop) ↔
      (s ≤ i ∧ i < e) ∨ Covers lo hi (absorb lo hi l s e).taken i := by
  induction l generalizing s e with
  | nil => simp [absorb, Covers]
  | cons b l ih =>
    have hb := hvalid b (by simp)
    have hl := fun a ha => hvalid a (mem_cons_of_mem b ha)
    rw [absorb]
    split
    · exact ih hse hl
    rename_i htouch
    have hgrow : (min s (lo b) ≤ i ∧ i < max e (hi b)) ↔ (s ≤ i ∧ i < e) ∨ (lo b ≤ i ∧ i < hi b) := by omega
    dsimp only
    rw [ih (s := min s (lo b)) (e := max e (hi b)) (by omega) hl, hgrow]
    simp [Covers, or_assoc]

lemma absorb_taken_within : ∀ a ∈ (absorb lo hi l s e).taken, (absorb lo hi l s e).start ≤ lo a ∧
    hi a ≤ (absorb lo hi l s e).stop := by
  induction l generalizing s e with
  | nil => simp [absorb]
  | cons b l ih =>
    rw [absorb]
    split
    · exact ih
    intro a ha
    dsimp only
    rcases mem_cons.1 ha with rfl | ha
    · have hgrows := absorb_grows lo hi l (min s (lo a)) (max e (hi a))
      omega
    · exact ih a ha

lemma lt_absorb_start (hs : m < s) (hl : ∀ a ∈ l, m < lo a) : m < (absorb lo hi l s e).start := by
  induction l generalizing s e with
  | nil => exact hs
  | cons b l ih =>
    have hl' := fun a ha => hl a (mem_cons_of_mem b ha)
    have hb := hl b (by simp)
    rw [absorb]
    split
    · exact ih hs hl'
    · exact ih (by omega) hl'

lemma absorb_stop_le (he : e ≤ m) (hl : ∀ a ∈ l, hi a ≤ m) : (absorb lo hi l s e).stop ≤ m := by
  induction l generalizing s e with
  | nil => exact he
  | cons b l ih =>
    have hl' := fun a ha => hl a (mem_cons_of_mem b ha)
    have hb := hl b (by simp)
    rw [absorb]
    split
    · exact ih he hl'
    · exact ih (by omega) hl'

lemma absorb_of_after (hl : ∀ a ∈ l, e < lo a) : absorb lo hi l s e = ⟨l, [], s, e⟩ := by
  induction l with
  | nil => rfl
  | cons b l ih =>
    rw [absorb, if_pos (Or.inr (hl b (by simp))), ih (fun a ha => hl a (mem_cons_of_mem b ha))]

variable (lo hi s e) in
lemma absorb_kept_apart (hsep : Separated lo hi l) (hvalid : ∀ a ∈ l, lo a ≤ hi a) :
    ∀ a ∈ (absorb lo hi l s e).kept, hi a < (absorb lo hi l s e).start ∨ (absorb lo hi l s e).stop < lo a := by
  induction l generalizing s e with
  | nil => simp [absorb]
  | cons b l ih =>
    obtain ⟨hb, hsep'⟩ := pairwise_cons.1 hsep
    have hvalid' := fun a ha => hvalid a (mem_cons_of_mem b ha)
    rw [absorb]
    split
    · rename_i hout
      intro a ha
      rcases mem_cons.1 ha with rfl | ha
      · rcases hout with hbefore | hafter
        · exact .inl (lt_absorb_start hbefore hb)
        right
        have hla := hvalid a (by simp)
        rw [absorb_of_after (fun c hc => by have := hb c hc; omega)]
        exact hafter
      · exact ih _ _ hsep' hvalid' a ha
    · exact ih _ _ hsep' hvalid'

structure Absorbed.Spec (lo hi : α → Nat) (l : List α) (s e : Nat) (r : Absorbed α) : Prop where
  start_le : r.start ≤ s
  le_stop : e ≤ r.stop
  interval : ∀ i, (r.start ≤ i ∧ i < r.stop) ↔ (s ≤ i ∧ i < e) ∨ Covers lo hi r.taken i
  mem : ∀ a, a ∈ l ↔ a ∈ r.kept ∨ a ∈ r.taken
  kept : r.kept.Sublist l
  taken : r.taken.Sublist l
  within : ∀ a ∈ r.taken, r.start ≤ lo a ∧ hi a ≤ r.stop
  apart : Separated lo hi l → ∀ a ∈ r.kept, hi a < r.start ∨ r.stop < lo a
  stop_le : ∀ m, e ≤ m → (∀ a ∈ l, hi a ≤ m) → r.stop ≤ m

lemma absorb_spec (lo hi : α → Nat) (hse : s ≤ e) (hvalid : ∀ a ∈ l, lo a ≤ hi a) :
    Absorbed.Spec lo hi l s e (absorb lo hi l s e) where
  start_le := (absorb_grows lo hi l s e).1
  le_stop := (absorb_grows lo hi l s e).2
  interval := absorb_interval lo hi hse hvalid
  mem _ := mem_absorb
  kept := (absorb_sublist lo hi l s e).1
  taken := (absorb_sublist lo hi l s e).2
  within := absorb_taken_within
  apart hsep := absorb_kept_apart lo hi s e hsep hvalid
  stop_le _ he hl := absorb_stop_le he hl

lemma separated_insert {kept : List α} {x : α} (hx : lo x ≤ hi x) (hsep : Separated lo hi kept)
    (hvalid : ∀ a ∈ kept, lo a ≤ hi a) (hapart : ∀ a ∈ kept, hi a < lo x ∨ hi x < lo a) :
    Separated lo hi (kept.insertIdx (kept.findIdx (fun a => lo x < lo a)) x) := by
  induction kept with
  | nil => simp [Separated]
  | cons a kept ih =>
    obtain ⟨ha, hsep'⟩ := pairwise_cons.1 hsep
    have hva := hvalid a (by simp)
    have hax := hapart a (by simp)
    rw [findIdx_cons]
    by_cases hlt : lo x < lo a
    · rw [decide_eq_true hlt, cond_true, insertIdx_zero]
      refine pairwise_cons.2 ⟨fun b hb => ?_, hsep⟩
      rcases mem_cons.1 hb with rfl | hb
      · omega
      have hab := ha b hb
      have hbx := hapart b (mem_cons_of_mem a hb)
      have hvb := hvalid b (mem_cons_of_mem a hb)
      omega
    rw [decide_eq_false hlt, cond_false, insertIdx_succ_cons]
    refine pairwise_cons.2 ⟨fun b hb => ?_, ih hsep' (fun b hb => hvalid b (mem_cons_of_mem a hb))
      (fun b hb => hapart b (mem_cons_of_mem a hb))⟩
    rcases (mem_insertIdx findIdx_le_length).1 hb with rfl | hb
    · omega
    · exact ha b hb

lemma separated_of_sorted (hsorted : l.Pairwise fun a b => lo a ≤ lo b) (hapart : l.Pairwise fun a b => hi a < lo b ∨ hi b < lo a)
    (hvalid : ∀ a ∈ l, lo a ≤ hi a) : Separated lo hi l := by
  refine (hsorted.and hapart).imp_of_mem ?_
  rintro a b - hb ⟨hle, hab | hba⟩
  · exact hab
  have := hvalid b hb
  omega

lemma covers_tail_iff (hsep : Separated lo hi (a :: l)) (hvalid : lo a ≤ hi a) :
    Covers lo hi l i ↔ Covers lo hi (a :: l) i ∧ hi a < i := by
  obtain ⟨ha, -⟩ := pairwise_cons.mp hsep
  constructor
  · rintro ⟨b, hb, hlo, hhi⟩
    exact ⟨⟨b, mem_cons_of_mem a hb, hlo, hhi⟩, (ha b hb).trans_le hlo⟩
  · rintro ⟨⟨b, hb, hlo, hhi⟩, hlt⟩
    rcases mem_cons.mp hb with rfl | hb
    · omega
    · exact ⟨b, hb, hlo, hhi⟩

lemma head_le_of_covers (hsep : Separated lo hi (a :: l)) (hvalid : lo a ≤ hi a) (hcov : Covers lo hi (a :: l) i) : lo a ≤ i := by
  obtain ⟨b, hb, hlo, -⟩ := hcov
  rcases mem_cons.mp hb with rfl | hb
  · exact hlo
  have := (pairwise_cons.mp hsep).1 b hb
  omega

lemma not_covers_stop (hsep : Separated lo hi (a :: l)) : ¬Covers lo hi (a :: l) (hi a) := by
  rintro ⟨b, hb, hlo, hhi⟩
  rcases mem_cons.mp hb with rfl | hb
  · omega
  have := (pairwise_cons.mp hsep).1 b hb
  omega

lemma intervals_unique {β : Type*} {lo' hi' : β → Nat} {l' : List β} (hsep : Separated lo hi l) (hsep' : Separated lo' hi' l')
    (hvalid : ∀ a ∈ l, lo a < hi a) (hvalid' : ∀ b ∈ l', lo' b < hi' b) (h : ∀ i, Covers lo hi l i ↔ Covers lo' hi' l' i) :
    l.map (fun a => (lo a, hi a)) = l'.map (fun b => (lo' b, hi' b)) := by
  induction l generalizing l' with
  | nil =>
    cases l' with
    | nil => rfl
    | cons b l' =>
      obtain ⟨a, ha, -⟩ := (h (lo' b)).mpr ⟨b, by simp, le_rfl, hvalid' b (by simp)⟩
      cases ha
  | cons a l ih =>
    have ha := hvalid a (by simp)
    have hcova : Covers lo hi (a :: l) (lo a) := ⟨a, by simp, le_rfl, ha⟩
    cases l' with
    | nil =>
      obtain ⟨b, hb, -⟩ := (h (lo a)).mp hcova
      cases hb
    | cons b l' =>
      have hb := hvalid' b (by simp)
      have hcovb : Covers lo' hi' (b :: l') (lo' b) := ⟨b, by simp, le_rfl, hb⟩
      have hlo : lo a = lo' b := by
        have hle := head_le_of_covers hsep ha.le ((h _).mpr hcovb)
        have hge := head_le_of_covers hsep' hb.le ((h _).mp hcova)
        omega
      -- the run that ends first would end at a place that the other one covers
      have hhi : hi a = hi' b := by
        rcases lt_trichotomy (hi a) (hi' b) with hlt | heq | hgt
        · exact absurd ((h _).mpr ⟨b, by simp, by omega, hlt⟩) (not_covers_stop hsep)
        · exact heq
        · exact absurd ((h _).mp ⟨a, by simp, by omega, hgt⟩) (not_covers_stop hsep')
      have htail : l.map (fun a => (lo a, hi a)) = l'.map (fun b => (lo' b, hi' b)) := by
        refine ih (pairwise_cons.mp hsep).2 (pairwise_cons.mp hsep').2 (fun x hx => hvalid x (by simp [hx]))
          (fun x hx => hvalid' x (by simp [hx])) (fun i => ?_)
        rw [covers_tail_iff hsep ha.le, covers_tail_iff hsep' hb.le, h i, hhi]
      rw [map_cons, map_cons, htail, hlo, hhi]

end Intervals

section Elements

variable {β : Type*}

def stop (r : Nat × List β) : Nat := r.1 + r.2.length

variable {r : Nat × List β}

lemma elemIn_isSome_iff : (elemIn r i).isSome ↔ r.1 ≤ i ∧ i < stop r := by
  rw [isSome_iff_ne_none, Ne, elemIn_eq_none_iff, stop]
  omega

variable {l : List (Nat × List β)} {lo s hi : Nat}

lemma lastAt_isSome_iff : (lastAt l i).isSome ↔ Covers Prod.fst stop l i := by
  rw [isSome_iff_ne_none, Ne, lastAt_eq_none_iff]
  push Not
  simp only [Covers, ← elemIn_isSome_iff, isSome_iff_ne_none]

lemma extent_le_of_forall (h : ∀ r ∈ l, stop r ≤ m) : extent l ≤ m := by
  induction l with
  | nil => exact Nat.zero_le m
  | cons r l ih =>
    rw [extent_cons]
    exact max_le (h r (by simp)) (ih (fun r hr => h r (mem_cons_of_mem _ hr)))

lemma lastAt_of_mem (hsep : Separated Prod.fst stop l) (hr : r ∈ l) (hi : (elemIn r i).isSome) : lastAt l i = elemIn r i := by
  induction l with
  | nil => cases hr
  | cons a l ih =>
    obtain ⟨ha, hsep'⟩ := pairwise_cons.1 hsep
    rw [lastAt]
    rcases mem_cons.1 hr with rfl | hr
    · have hnone : lastAt l i = none := by
        rw [lastAt_eq_none_iff]
        intro b hb
        rw [elemIn_eq_none_iff]
        have := ha b hb
        have := elemIn_isSome_iff.1 hi
        omega
      rw [hnone, none_or]
    · rw [ih hsep' hr]
      exact or_of_isSome hi

def places (l : List (Nat × List β)) (m : Nat) : Finset Nat := (Finset.range m).filter fun i => (lastAt l i).isSome

lemma sum_length_eq_card (hsep : Separated Prod.fst stop l) (hbound : ∀ r ∈ l, stop r ≤ m) :
    (l.map (·.2.length)).sum = (places l m).card := by
  induction l with
  | nil => simp [places, lastAt]
  | cons a l ih =>
    obtain ⟨ha, hsep'⟩ := pairwise_cons.mp hsep
    have hstop := hbound a (by simp)
    have hsplit : places (a :: l) m = Finset.Ico a.1 (stop a) ∪ places l m := by
      ext i
      simp only [places, lastAt, Finset.mem_filter, Finset.mem_range, Finset.mem_union, Finset.mem_Ico, isSome_or,
        Bool.or_eq_true, elemIn_isSome_iff]
      constructor
      · rintro ⟨hi, hl | ha⟩
        · exact .inr ⟨hi, hl⟩
        · exact .inl ha
      · rintro (ha | ⟨hi, hl⟩)
        · exact ⟨ha.2.trans_le hstop, .inr ha⟩
        · exact ⟨hi, .inl hl⟩
    have hdisjoint : Disjoint (Finset.Ico a.1 (stop a)) (places l m) := by
      refine Finset.disjoint_left.mpr fun i hi hplace => ?_
      obtain ⟨b, hb, hlo, -⟩ := lastAt_isSome_iff.mp (Finset.mem_filter.mp hplace).2
      have := ha b hb
      have := (Finset.mem_Ico.mp hi).2
      omega
    have htail := ih hsep' (fun r hr => hbound r (by simp [hr]))
    rw [map_cons, sum_cons, htail, hsplit, Finset.card_union_of_disjoint hdisjoint, Nat.card_Ico]
    simp [stop]

lemma elemIn_sub (hr : lo ≤ r.1) (hi : lo ≤ i) : elemIn (r.1 - lo, r.2) (i - lo) = elemIn r i := by
  unfold elemIn
  dsimp only
  by_cases h : r.1 ≤ i
  · rw [if_pos (by omega), if_pos h]
    congr 1
    omega
  · rw [if_neg (by omega), if_neg h]

lemma elemIn_append (r : Nat × List β) (data : List β) (i : Nat) :
    elemIn (r.1, r.2 ++ data) i = (elemIn (stop r, data) i).or (elemIn r i) := by
  unfold elemIn stop
  dsimp only
  by_cases hlo : r.1 ≤ i
  · by_cases hhi : r.1 + r.2.length ≤ i
    · rw [if_pos hlo, if_pos hhi, if_pos hlo, getElem?_append_right (by omega), getElem?_eq_none (l := r.2) (by omega),
        or_none, Nat.sub_sub]
    · rw [if_pos hlo, if_neg hhi, if_pos hlo, getElem?_append_left (by omega), none_or]
  · rw [if_neg hlo, if_neg (by omega), if_neg hlo, none_or]

variable [Inhabited β]

lemma elemIn_eq_some_getD (hr : r.1 ≤ i) (hi : i < stop r) : elemIn r i = some (r.2.getD (i - r.1) default) := by
  unfold stop at hi
  have hbound : i - r.1 < r.2.length := by omega
  rw [elemIn, if_pos hr, getElem?_eq_getElem hbound, getD_eq_getElem _ _ hbound]

variable {data : List β}

lemma elemIn_copyAt (hs : r.1 ≤ s) (he : s + data.length ≤ stop r) (i : Nat) :
    elemIn (r.1, copyAt r.2 (s - r.1) data) i = (elemIn (s, data) i).or (elemIn r i) := by
  have hcopy : copyAt r.2 (s - r.1) data = writeAt r.2 (s - r.1) data := copyAt_eq_writeAt (by unfold stop at he; omega)
  have hstop : stop (r.1, copyAt r.2 (s - r.1) data) = stop r := by
    rw [stop, hcopy, length_writeAt, stop]
    unfold stop at he
    omega
  by_cases hin : r.1 ≤ i ∧ i < stop r
  · have hleft : elemIn (r.1, copyAt r.2 (s - r.1) data) i = some ((copyAt r.2 (s - r.1) data).getD (i - r.1) default) :=
      elemIn_eq_some_getD hin.1 (by rw [hstop]; exact hin.2)
    rw [hleft, elemIn_eq_some_getD hin.1 hin.2, hcopy, getD_writeAt, elemIn_sub (r := (s, data)) hs hin.1]
    cases elemIn (s, data) i <;> rfl
  have hnone : elemIn (s, data) i = none ∧ elemIn r i = none := by
    rw [elemIn_eq_none_iff, elemIn_eq_none_iff]
    unfold stop at he hin
    dsimp only
    omega
  rw [hnone.1, hnone.2, none_or, ← not_isSome_iff_eq_none, elemIn_isSome_iff, hstop]
  exact hin

/-- The elements from `lo` to `hi` of the runs, and over them the new ones. -/
def mergeRuns (lo hi : Nat) (taken : List (Nat × List β)) (s : Nat) (data : List β) : List β :=
  copyAt (taken.foldl (fun buf r => copyAt buf (r.1 - lo) r.2) (List.replicate (hi - lo) default)) (s - lo) data

def shift (lo : Nat) (l : List (Nat × List β)) : List (Nat × List β) := l.map (fun r => (r.1 - lo, r.2))

omit [Inhabited β] in
lemma lastAt_shift (hl : ∀ r ∈ l, lo ≤ r.1) (hi : lo ≤ i) : lastAt (shift lo l) (i - lo) = lastAt l i := by
  induction l with
  | nil => rfl
  | cons r l ih =>
    have hr := hl r (by simp)
    rw [shift, map_cons, lastAt, lastAt, elemIn_sub hr hi]
    exact congrArg (Option.or · _) (ih (fun r hr => hl r (mem_cons_of_mem _ hr)))

omit [Inhabited β] in
lemma extent_shift_le (hl : ∀ r ∈ l, lo ≤ r.1 ∧ stop r ≤ hi) : extent (shift lo l) ≤ hi - lo := by
  refine extent_le_of_forall fun r' hr' => ?_
  obtain ⟨r, hr, rfl⟩ := mem_map.1 hr'
  have hbounds := hl r hr
  simp only [stop] at hbounds ⊢
  omega

variable {taken : List (Nat × List β)}

lemma mergeRuns_eq_overlay (he : s - lo + data.length ≤ hi - lo) (htaken : ∀ r ∈ taken, lo ≤ r.1 ∧ stop r ≤ hi) :
    mergeRuns lo hi taken s data = overlay (replicate (hi - lo) default) (shift lo (taken ++ [(s, data)])) := by
  have hextent := extent_shift_le htaken
  have hfold : taken.foldl (fun buf r => copyAt buf (r.1 - lo) r.2) (replicate (hi - lo) default)
      = overlay (replicate (hi - lo) default) (shift lo taken) := by
    rw [← foldl_copyAt (by simpa using hextent), shift, foldl_map]
  have hlen : (overlay (replicate (hi - lo) (default : β)) (shift lo taken)).length = hi - lo := by
    rw [length_overlay, length_replicate]
    omega
  have hshift : shift lo (taken ++ [(s, data)]) = shift lo taken ++ [(s - lo, data)] := by simp [shift]
  rw [mergeRuns, hfold, copyAt_eq_writeAt (by rw [hlen]; omega), hshift, overlay_append, overlay_cons, overlay_nil]

lemma length_mergeRuns (hs : lo ≤ s) (he : s + data.length ≤ hi) (htaken : ∀ r ∈ taken, lo ≤ r.1 ∧ stop r ≤ hi) :
    (mergeRuns lo hi taken s data).length = hi - lo := by
  have hextent : extent (shift lo (taken ++ [(s, data)])) ≤ hi - lo := by
    refine extent_shift_le (fun r hr => ?_)
    rcases mem_append.1 hr with hr | hr
    · exact htaken r hr
    rw [List.mem_singleton.1 hr]
    exact ⟨hs, he⟩
  rw [mergeRuns_eq_overlay (by omega) htaken, length_overlay, length_replicate]
  omega

lemma elemIn_mergeRuns (hs : lo ≤ s) (he : s + data.length ≤ hi) (htaken : ∀ r ∈ taken, lo ≤ r.1 ∧ stop r ≤ hi)
    (hcover : ∀ i, lo ≤ i ∧ i < hi → (s ≤ i ∧ i < s + data.length) ∨ Covers Prod.fst stop taken i) (i : Nat) :
    elemIn (lo, mergeRuns lo hi taken s data) i = (elemIn (s, data) i).or (lastAt taken i) := by
  have hall : ∀ r ∈ taken ++ [(s, data)], lo ≤ r.1 ∧ stop r ≤ hi := by
    intro r hr
    rcases mem_append.1 hr with hr | hr
    · exact htaken r hr
    rw [List.mem_singleton.1 hr]
    exact ⟨hs, he⟩
  have hmerged : mergeRuns lo hi taken s data = _ := mergeRuns_eq_overlay (by omega) htaken
  have hlen := length_mergeRuns hs he htaken
  have hlast : (elemIn (s, data) i).or (lastAt taken i) = lastAt (taken ++ [(s, data)]) i := by
    rw [lastAt_append]
    simp [lastAt]
  rw [hlast]
  by_cases hin : lo ≤ i ∧ i < hi
  · have hsome : (lastAt (taken ++ [(s, data)]) i).isSome := by
      rw [← hlast, isSome_or, Bool.or_eq_true]
      exact (hcover i hin).imp elemIn_isSome_iff.2 lastAt_isSome_iff.2
    obtain ⟨x, hx⟩ := isSome_iff_exists.1 hsome
    have hget : (mergeRuns lo hi taken s data).getD (i - lo) default = x := by
      rw [hmerged, getD_overlay, lastAt_shift (fun r hr => (hall r hr).1) hin.1, hx]
      rfl
    rw [hx, ← hget]
    exact elemIn_eq_some_getD hin.1 (by rw [stop, hlen]; omega)
  · have hnone : lastAt (taken ++ [(s, data)]) i = none := by
      rw [lastAt_eq_none_iff]
      intro r hr
      rw [elemIn_eq_none_iff]
      have := hall r hr
      unfold stop at this
      omega
    rw [hnone, elemIn_eq_none_iff, hlen]
    omega

end Elements

end Runs
