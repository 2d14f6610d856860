import Dfs.Theorems.Truncation

/-!
# The slots of a merged list

What `chunk_map_update` merges for each slot, the record's locations or the map's first not dropped, and where in the sorted list.
-/

namespace Dfs

open KeyedList
open List hiding lookup

variable {Id : Type}

def slotLocs (locs : Locations Id) (cidx : Nat) : Locations Id := locs.filter fun l => slotOf l = some cidx

variable {locs : Locations Id} {cidx : Nat}

lemma slotLocs_eq_nil (h : mentioned locs cidx = false) : slotLocs locs cidx = [] := by
  refine filter_eq_nil_iff.mpr fun l hl hslot => ?_
  have : mentioned locs cidx = true := mentioned_iff.mpr ⟨l, hl, by simpa using hslot⟩
  rw [h] at this
  cases this

lemma mentioned_eq_false (h : slotLocs locs cidx = []) : mentioned locs cidx = false := by
  rw [Bool.eq_false_iff]
  intro hm
  obtain ⟨l, hl, hslot⟩ := mentioned_iff.mp hm
  exact filter_eq_nil_iff.mp h l hl (by simpa using hslot)

lemma slotLocs_append {locs' : Locations Id} :
    slotLocs (locs ++ locs') cidx = slotLocs locs cidx ++ slotLocs locs' cidx := filter_append ..

lemma slotLocs_map {f : ChunkLocation Id → ChunkLocation Id} (hf : ∀ l ∈ locs, slotOf (f l) = slotOf l) :
    slotLocs (locs.map f) cidx = (slotLocs locs cidx).map f := by
  unfold slotLocs
  rw [filter_map]
  refine congrArg _ (filter_congr fun l hl => ?_)
  simp only [Function.comp_apply, hf l hl]

def firstKept (drop : ChunkLocation Id → Bool) (mapLocs : Locations Id) (cidx : Nat) : Option (ChunkLocation Id) :=
  mapLocs.find? fun l => decide (slotOf l = some cidx) && !drop l

lemma slotLocs_addUnmentioned (drop : ChunkLocation Id → Bool) (locs mapLocs : Locations Id) (cidx : Nat) :
    slotLocs (addUnmentioned drop locs mapLocs) cidx
      = if mentioned locs cidx then slotLocs locs cidx else (firstKept drop mapLocs cidx).toList := by
  induction mapLocs generalizing locs with
  | nil =>
    show slotLocs locs cidx = _
    split
    · rfl
    rename_i h
    exact slotLocs_eq_nil (Bool.not_eq_true _ ▸ h)
  | cons l mapLocs ih =>
    unfold firstKept
    rw [find?_cons]
    rcases addUnmentioned_cons drop locs l mapLocs with ⟨heq, hskip⟩ | ⟨c, hslot, hm, hd, heq⟩
    · rw [heq, ih]
      by_cases hm : mentioned locs cidx = true
      · rw [if_pos hm, if_pos hm]
      -- the location is not in the slot, or it is dropped
      have hnot : (decide (slotOf l = some cidx) && !drop l) = false := by
        by_cases hc : slotOf l = some cidx
        · simp [(hskip cidx hc).resolve_left hm]
        · simp [hc]
      rw [if_neg hm, if_neg hm, hnot]
      rfl
    · rw [heq, ih]
      by_cases hc : c = cidx
      · -- the location is added, and is the only one in its slot
        subst hc
        have hself : mentioned (locs ++ [l]) c = true := by
          rw [mentioned_append]
          simp [mentioned, hslot]
        rw [if_pos hself, hm, slotLocs_append, slotLocs_eq_nil hm]
        simp [slotLocs, hslot, hd]
      · have hne : (decide (slotOf l = some cidx) && !drop l) = false := by simp [hslot, hc]
        have hnot : mentioned [l] cidx = false := by simp [mentioned, hslot, hc]
        rw [hne, mentioned_append, hnot, Bool.or_false, slotLocs_append, slotLocs_eq_nil hnot, append_nil]
        rfl

lemma sortByOffset_sorted (locs : Locations Id) :
    (sortByOffset locs).Pairwise fun a b => a.fileOffset.getD u64Max ≤ b.fileOffset.getD u64Max := by
  have : Std.Total (fun a b : ChunkLocation Id => a.fileOffset.getD u64Max ≤ b.fileOffset.getD u64Max) :=
    ⟨fun _ _ => le_total _ _⟩
  have : IsTrans (ChunkLocation Id) (fun a b => a.fileOffset.getD u64Max ≤ b.fileOffset.getD u64Max) := ⟨fun _ _ _ => le_trans⟩
  exact pairwise_insertionSort _ _

lemma pairwise_sortByOffset (locs : Locations Id) :
    ((sortByOffset locs).filter (·.fileOffset.isSome)).Pairwise fun a b => cidxOf a ≤ cidxOf b := by
  refine List.Pairwise.imp_of_mem (fun {a b} ha hb hab => ?_) ((sortByOffset_sorted locs).filter _)
  obtain ⟨oa, hoa⟩ := Option.isSome_iff_exists.mp (List.mem_filter.mp ha).2
  obtain ⟨ob, hob⟩ := Option.isSome_iff_exists.mp (List.mem_filter.mp hb).2
  unfold cidxOf slotOf
  rw [hoa, hob] at hab ⊢
  exact Nat.div_le_div_right hab

lemma lookup_sortByOffset (h : (slotLocs locs cidx).length ≤ 1) :
    lookup cidxOf ((sortByOffset locs).filter (·.fileOffset.isSome)) cidx = (slotLocs locs cidx).head? := by
  have hpred : ∀ l : ChunkLocation Id, decide (l.fileOffset.isSome = true ∧ decide (cidxOf l = cidx) = true)
      = decide (slotOf l = some cidx) := by
    intro l
    unfold cidxOf slotOf
    cases l.fileOffset <;> simp
  have hperm : slotLocs (sortByOffset locs) cidx = slotLocs locs cidx := by
    have hp : (slotLocs (sortByOffset locs) cidx).Perm (slotLocs locs cidx) := (perm_insertionSort ..).filter _
    match hl : slotLocs locs cidx, h with
    | [], _ => exact perm_nil.mp (hl ▸ hp)
    | [x], _ => exact perm_singleton.mp (hl ▸ hp)
  rw [lookup_eq_find?_of_le (pairwise_sortByOffset locs), find?_filter, ← hperm, slotLocs, head?_filter]
  exact congrArg (find? · (sortByOffset locs)) (funext hpred)

end Dfs
