import Mathlib.Data.List.Pairwise
import Mathlib.Data.List.Sort
import Dfs.Lib.Overlay

/-!
# Stable order by a stamp

`sortBy` does not depend on how blocks with distinct keys arrived (`sortBy_eq_of_perm`); for stamped ranges it decides
what an overlay shows after one more block (`lastAt_ranges_append_block`).
-/

namespace Stamped

open List

variable {β γ κ : Type*} [LinearOrder κ]

def sortBy (key : β → κ) (l : List β) : List β := l.insertionSort (fun a b => key a ≤ key b)

lemma sortBy_perm (key : β → κ) (l : List β) : (sortBy key l).Perm l := perm_insertionSort _ l

variable {key : β → κ}

@[simp] lemma mem_sortBy {l : List β} {x : β} : x ∈ sortBy key l ↔ x ∈ l :=
  (sortBy_perm key l).mem_iff

lemma sortBy_pairwise (key : β → κ) (l : List β) : (sortBy key l).Pairwise (fun a b => key a ≤ key b) := by
  have : Std.Total (fun a b : β => key a ≤ key b) := ⟨fun a b => le_total (key a) (key b)⟩
  have : IsTrans β (fun a b => key a ≤ key b) := ⟨fun _ _ _ h h' => h.trans h'⟩
  exact pairwise_insertionSort _ l

lemma filter_sortBy (key : β → κ) (k : κ) (l : List β) :
    (sortBy key l).filter (fun b => decide (key b = k)) = l.filter (fun b => decide (key b = k)) := by
  have hone : (l.filter (fun b => decide (key b = k))).Pairwise (fun a b => key a ≤ key b) := by
    refine pairwise_of_forall_mem_list (fun a ha b hb => ?_)
    have hka : key a = k := by simpa using (List.mem_filter.1 ha).2
    have hkb : key b = k := by simpa using (List.mem_filter.1 hb).2
    exact (hka.trans hkb.symm).le
  have hsub : (l.filter (fun b => decide (key b = k))).Sublist (sortBy key l) := sublist_insertionSort hone filter_sublist
  have hsub' := hsub.filter (fun b => decide (key b = k))
  rw [filter_filter] at hsub'
  simp only [Bool.and_self] at hsub'
  refine (hsub'.eq_of_length ?_).symm
  exact ((sortBy_perm key l).filter _).length_eq.symm

variable {i : Nat} {m : List β} {b : β}

lemma sortBy_eq_of_perm {l : List β} (h : l.Perm m) (hd : l.Pairwise (fun a b => key a ≠ key b)) :
    sortBy key l = sortBy key m := by
  have hp : (sortBy key l).Perm (sortBy key m) := (sortBy_perm key l).trans (h.trans (sortBy_perm key m).symm)
  refine hp.eq_of_pairwise ?_ (sortBy_pairwise key l) (sortBy_pairwise key m)
  intro a b ha hb hab hba
  by_contra hne
  have : Std.Symm (fun a b : β => key a ≠ key b) := ⟨fun _ _ hk => hk.symm⟩
  exact hd.forall (mem_sortBy.1 ha) (h.mem_iff.2 (mem_sortBy.1 hb)) hne (le_antisymm hab hba)

/-! ## Inserting a block of one key -/

section Insert

variable {r : β → β → Prop} [DecidableRel r]

lemma orderedInsert_append_of_rel {a : β} (l : List β) (h : ∀ b ∈ m, r a b) :
    (l ++ m).orderedInsert r a = l.orderedInsert r a ++ m := by
  induction l with
  | nil =>
    cases m with
    | nil => rfl
    | cons b m => exact orderedInsert_cons_of_le r m (h b (by simp))
  | cons b l ih =>
    rw [cons_append, orderedInsert_cons, orderedInsert_cons]
    split
    · rfl
    · rw [ih, cons_append]

lemma orderedInsert_append_of_not_rel {a : β} {l : List β} (m : List β) (h : ∀ b ∈ l, ¬r a b) :
    (l ++ m).orderedInsert r a = l ++ m.orderedInsert r a := by
  induction l with
  | nil => rfl
  | cons b l ih =>
    rw [cons_append, orderedInsert_of_not_le r _ (h b (by simp)), ih (fun c hc => h c (by simp [hc])), cons_append]

end Insert

/-- The elements whose key is at most `s`, and those whose key is larger. -/
def upTo (key : β → κ) (s : κ) (l : List β) : List β := l.filter (fun b => decide (key b ≤ s))

@[inherit_doc upTo]
def above (key : β → κ) (s : κ) (l : List β) : List β := l.filter (fun b => decide (s < key b))

lemma mem_upTo {s : κ} {l : List β} : b ∈ upTo key s l ↔ b ∈ l ∧ key b ≤ s := by
  simp [upTo]

lemma mem_above {s : κ} {l : List β} : b ∈ above key s l ↔ b ∈ l ∧ s < key b := by
  simp [above]

lemma sortBy_append_block {s : κ} (l : List β) {block : List β} (h : ∀ b ∈ block, key b = s) :
    sortBy key (l ++ block) = sortBy key (upTo key s l) ++ block ++ sortBy key (above key s l) := by
  induction l with
  | nil =>
    have hb : block.Pairwise (fun a b => key a ≤ key b) :=
      (pairwise_of_forall (fun _ _ => trivial)).imp_of_mem (fun ha hb _ => (h _ ha).le.trans (h _ hb).ge)
    simpa [sortBy, upTo, above] using hb.insertionSort_eq
  | cons a l ih =>
    have e : sortBy key (a :: l ++ block) = (sortBy key (l ++ block)).orderedInsert (fun a b => key a ≤ key b) a := rfl
    rw [e, ih, append_assoc]
    by_cases ha : key a ≤ s
    · -- everything from the block on has a key at least `s`
      have hr : ∀ b ∈ block ++ sortBy key (above key s l), key a ≤ key b := by
        intro b hb
        rcases mem_append.1 hb with hb | hb
        · exact ha.trans (h b hb).ge
        · exact ha.trans (mem_above.1 (mem_sortBy.1 hb)).2.le
      have h1 : upTo key s (a :: l) = a :: upTo key s l := by simp [upTo, ha]
      have h2 : above key s (a :: l) = above key s l := by simp [above, not_lt.2 ha]
      rw [orderedInsert_append_of_rel _ hr, h1, h2, ← append_assoc]
      rfl
    · have hlt : s < key a := not_le.1 ha
      have hr : ∀ b ∈ sortBy key (upTo key s l) ++ block, ¬key a ≤ key b := by
        intro b hb
        rcases mem_append.1 hb with hb | hb
        · exact not_le.2 ((mem_upTo.1 (mem_sortBy.1 hb)).2.trans_lt hlt)
        · exact not_le.2 ((h b hb).trans_lt hlt)
      have h1 : upTo key s (a :: l) = upTo key s l := by simp [upTo, ha]
      have h2 : above key s (a :: l) = a :: above key s l := by simp [above, hlt]
      rw [← append_assoc, orderedInsert_append_of_not_rel _ hr, h1, h2]
      rfl

lemma sortBy_split (key : β → κ) (s : κ) (l : List β) :
    sortBy key l = sortBy key (upTo key s l) ++ sortBy key (above key s l) := by
  have h : ∀ b ∈ ([] : List β), key b = s := by simp
  simpa using sortBy_append_block l h

lemma foldr_orderedInsert_block {s : κ} {l₁ l₂ block : List β} (h₁ : ∀ b ∈ l₁, key b < s)
    (h₂ : ∀ b ∈ l₂, s ≤ key b) (h : ∀ b ∈ block, key b = s) :
    block.foldr (orderedInsert (fun a b => key a ≤ key b)) (l₁ ++ l₂) = l₁ ++ (block ++ l₂) := by
  induction block with
  | nil => rfl
  | cons a block ih =>
    have ha : key a = s := h a (by simp)
    have hr : ∀ b ∈ block ++ l₂, key a ≤ key b := by
      intro b hb
      rcases mem_append.1 hb with hb | hb
      · exact ha.le.trans (h b (by simp [hb])).ge
      · exact ha.le.trans (h₂ b hb)
    rw [foldr_cons, ih (fun b hb => h b (by simp [hb])), orderedInsert_append_of_not_rel (r := fun a b => key a ≤ key b) _
        (fun b hb => not_le.2 ((h₁ b hb).trans_eq ha.symm))]
    exact congrArg (l₁ ++ ·) (orderedInsert_append_of_rel [] hr)

lemma exists_split_of_pairwise (s : κ) {l : List β} (h : l.Pairwise (fun a b => key a ≤ key b)) :
    ∃ l₁ l₂, l = l₁ ++ l₂ ∧ (∀ b ∈ l₁, key b < s) ∧ ∀ b ∈ l₂, s ≤ key b := by
  induction l with
  | nil => exact ⟨[], [], rfl, by simp, by simp⟩
  | cons a l ih =>
    by_cases ha : key a < s
    · obtain ⟨l₁, l₂, rfl, h₁, h₂⟩ := ih (pairwise_cons.1 h).2
      exact ⟨a :: l₁, l₂, rfl, by simpa using ⟨ha, h₁⟩, h₂⟩
    refine ⟨[], a :: l, rfl, by simp, ?_⟩
    intro b hb
    rcases mem_cons.1 hb with rfl | hb
    · exact not_lt.1 ha
    · exact (not_lt.1 ha).trans ((pairwise_cons.1 h).1 b hb)

lemma sortBy_flatMap {key' : γ → κ} (f : β → List γ) (l : List β)
    (h : ∀ b ∈ l, ∀ c ∈ f b, key' c = key b) : sortBy key' (l.flatMap f) = (sortBy key l).flatMap f := by
  induction l with
  | nil => rfl
  | cons b l ih =>
    have hl : ∀ x ∈ l, ∀ c ∈ f x, key' c = key x := fun x hx => h x (by simp [hx])
    have e₁ : sortBy key' ((b :: l).flatMap f)
        = (f b).foldr (orderedInsert (fun a b => key' a ≤ key' b)) ((sortBy key l).flatMap f) := by
      rw [flatMap_cons, ← ih hl]
      exact foldr_append ..
    have e₂ : sortBy key (b :: l) = (sortBy key l).orderedInsert (fun a b => key a ≤ key b) b := rfl
    obtain ⟨l₁, l₂, hs, h₁, h₂⟩ := exists_split_of_pairwise (key b) (sortBy_pairwise key l)
    have hmem : ∀ x ∈ l₁ ++ l₂, x ∈ l := fun x hx => mem_sortBy.1 (hs ▸ hx)
    have h₁' : ∀ c ∈ l₁.flatMap f, key' c < key b := by
      intro c hc
      obtain ⟨x, hx, hc⟩ := mem_flatMap.1 hc
      rw [hl x (hmem x (by simp [hx])) c hc]
      exact h₁ x hx
    have h₂' : ∀ c ∈ l₂.flatMap f, key b ≤ key' c := by
      intro c hc
      obtain ⟨x, hx, hc⟩ := mem_flatMap.1 hc
      rw [hl x (hmem x (by simp [hx])) c hc]
      exact h₂ x hx
    have hins : (l₁ ++ l₂).orderedInsert (fun a b => key a ≤ key b) b = l₁ ++ b :: l₂ := by
      rw [orderedInsert_append_of_not_rel (r := fun a b => key a ≤ key b) _ (fun x hx => not_le.2 (h₁ x hx))]
      exact congrArg (l₁ ++ ·) (orderedInsert_append_of_rel [] h₂)
    rw [e₁, e₂, hs, flatMap_append, foldr_orderedInsert_block h₁' h₂' (h b (by simp)), hins, flatMap_append, flatMap_cons]

/-! ## Overlays in stamp order -/

open Overlay

variable {α : Type*}

def ranges (l : List (κ × Nat × List α)) : List (Nat × List α) := (sortBy Prod.fst l).map Prod.snd

def CoveredAbove (l : List (κ × Nat × List α)) (s : κ) (i : Nat) : Prop :=
  ∃ r ∈ l, s < r.1 ∧ elemIn r.2 i ≠ none

lemma CoveredAbove.mono {l m : List (κ × Nat × List α)} (h : ∀ r ∈ l, r ∈ m) {s : κ} (hc : CoveredAbove l s i) :
    CoveredAbove m s i := by
  obtain ⟨r, hr, hs, hi⟩ := hc
  exact ⟨r, h r hr, hs, hi⟩

section

variable (l : List (κ × Nat × List α))

include l

lemma lastAt_above_eq_none_iff (s : κ) (i : Nat) : lastAt (ranges (above Prod.fst s l)) i = none ↔ ¬CoveredAbove l s i := by
  rw [lastAt_eq_none_iff]
  simp only [ranges, mem_map, mem_sortBy, mem_above, CoveredAbove]
  constructor
  · rintro h ⟨r, hr, hs, hi⟩
    exact hi (h r.2 ⟨r, ⟨hr, hs⟩, rfl⟩)
  · rintro h _ ⟨r, ⟨hr, hs⟩, rfl⟩
    by_contra hi
    exact h ⟨r, hr, hs, hi⟩

lemma lastAt_ranges_split (s : κ) (i : Nat) :
    lastAt (ranges l) i = (lastAt (ranges (above Prod.fst s l)) i).or (lastAt (ranges (upTo Prod.fst s l)) i) := by
  rw [ranges, sortBy_split _ s l, map_append, lastAt_append]
  rfl

lemma lastAt_ranges_append_block {s : κ} {block : List (κ × Nat × List α)} (h : ∀ r ∈ block, r.1 = s) (i : Nat) :
    lastAt (ranges (l ++ block)) i = (lastAt (ranges (above Prod.fst s l)) i).or
      ((lastAt (block.map Prod.snd) i).or (lastAt (ranges (upTo Prod.fst s l)) i)) := by
  rw [ranges, sortBy_append_block l h, map_append, map_append, lastAt_append, lastAt_append]
  rfl

lemma extent_ranges : extent (ranges l) = extent (l.map Prod.snd) :=
  extent_perm ((sortBy_perm _ l).map _)

end

section Overlay

variable [Inhabited α] (base : List α) (l : List (κ × Nat × List α))

lemma length_overlay_append_block (block : List (κ × Nat × List α)) : (overlay base (ranges (l ++ block))).length
      = max (overlay base (ranges l)).length (extent (block.map Prod.snd)) := by
  simp only [length_overlay, extent_ranges, map_append, extent_append, max_assoc]

variable {s : κ} {block : List (κ × Nat × List α)} (h : ∀ r ∈ block, r.1 = s)

include h

lemma getD_overlay_append_block_of_coveredAbove (hc : CoveredAbove l s i) :
    (overlay base (ranges (l ++ block))).getD i default = (overlay base (ranges l)).getD i default := by
  obtain ⟨v, hv⟩ := Option.ne_none_iff_exists'.1 (mt (lastAt_above_eq_none_iff l s i).1 (not_not.2 hc))
  rw [getD_overlay, getD_overlay, lastAt_ranges_append_block l h, lastAt_ranges_split l s, hv]
  rfl

lemma getD_overlay_append_block_of_not_coveredAbove (hc : ¬CoveredAbove l s i) :
    (overlay base (ranges (l ++ block))).getD i default
      = (lastAt (block.map Prod.snd) i).getD ((overlay base (ranges l)).getD i default) := by
  have hnone := (lastAt_above_eq_none_iff l s i).2 hc
  rw [getD_overlay, getD_overlay, lastAt_ranges_append_block l h, lastAt_ranges_split l s, hnone]
  cases lastAt (block.map Prod.snd) i <;> rfl

lemma overlay_append_block_eq_self (hl : extent (block.map Prod.snd) ≤ (overlay base (ranges l)).length)
    (hv : ∀ i v, lastAt (block.map Prod.snd) i = some v → v = (overlay base (ranges l)).getD i default) :
    overlay base (ranges (l ++ block)) = overlay base (ranges l) := by
  apply ext_getD
  · rw [length_overlay_append_block base l, max_eq_left hl]
  · intro i
    by_cases hc : CoveredAbove l s i
    · exact getD_overlay_append_block_of_coveredAbove base l h hc
    rw [getD_overlay_append_block_of_not_coveredAbove base l h hc]
    cases hb : lastAt (block.map Prod.snd) i with
    | none => rfl
    | some v => exact hv i v hb

/-- Two lists of stamped ranges with the same overlay, one part of the other: a block appended to both keeps the
overlays equal exactly when the block writes what is there wherever the larger list alone covers it with a larger
stamp. -/
theorem overlay_append_block_eq_iff {m : List (κ × Nat × List α)} (hsub : ∀ r ∈ l, r ∈ m)
    (heq : overlay base (ranges l) = overlay base (ranges m)) :
    overlay base (ranges (l ++ block)) = overlay base (ranges (m ++ block)) ↔
      ∀ i v, lastAt (block.map Prod.snd) i = some v → CoveredAbove m s i →
        CoveredAbove l s i ∨ v = (overlay base (ranges l)).getD i default := by
  constructor
  · intro happ i v hv hm
    by_cases hc : CoveredAbove l s i
    · exact .inl hc
    right
    have hl := getD_overlay_append_block_of_not_coveredAbove base l h hc
    rw [happ, getD_overlay_append_block_of_coveredAbove base m h hm, ← heq, hv] at hl
    exact hl.symm
  · intro hcond
    apply ext_getD
    · rw [length_overlay_append_block base l, length_overlay_append_block base m, heq]
    · intro i
      by_cases hc : CoveredAbove l s i
      · rw [getD_overlay_append_block_of_coveredAbove base l h hc,
          getD_overlay_append_block_of_coveredAbove base m h (hc.mono hsub), heq]
      by_cases hm : CoveredAbove m s i
      · rw [getD_overlay_append_block_of_not_coveredAbove base l h hc, getD_overlay_append_block_of_coveredAbove base m h hm,
          ← heq]
        cases hb : lastAt (block.map Prod.snd) i with
        | none => rfl
        | some v => exact (hcond i v hb hm).resolve_left hc
      rw [getD_overlay_append_block_of_not_coveredAbove base l h hc,
        getD_overlay_append_block_of_not_coveredAbove base m h hm, heq]

end Overlay

end Stamped
