import Dfs.Lib.KeyedList

/-!
# Scanning the file table in batches

`scan_all_files` reads a batch of records, gives them to the visitor, and reads on behind the last key that it saw.
The rows are in the order of their keys. The visitor has a state of its own and may fail.
-/

namespace Dfs

open KeyedList
open List hiding lookup

variable {κ ν μ σ ε : Type} (scanBatch : Nat) (decode : ν → Option μ)

/-- The loop over the rows: the batch, and the last key that was seen. -/
def readBatch : List (κ × ν) → List μ → Option κ → List μ × Option κ
  | [], batch, lastKey => (batch, lastKey)
  | row :: rows, batch, _ =>
    let batch := batch ++ (decode row.2).toList
    if scanBatch ≤ batch.length then (batch, some row.1) else readBatch rows batch (some row.1)

/-- The calls of the visitor and the count. -/
def visitAll (f : σ → μ → Except ε σ) (st : σ × Nat) (batch : List μ) : Except ε (σ × Nat) :=
  batch.foldlM (fun st m => (f st.1 m).map fun s => (s, st.2 + 1)) st

lemma readBatch_cons (row : κ × ν) (rows : List (κ × ν)) (batch : List μ) (lastKey : Option κ) :
    ∃ pre last rest, row :: rows = pre ++ last :: rest ∧ readBatch scanBatch decode (row :: rows) batch lastKey =
        (batch ++ (pre ++ [last]).filterMap fun r => decode r.2, some last.1) := by
  induction rows generalizing row batch lastKey with
  | nil =>
    refine ⟨[], row, [], rfl, ?_⟩
    cases h : decode row.2 <;> simp [readBatch, h]
  | cons next rows ih =>
    rw [readBatch]
    split
    · exact ⟨[], row, next :: rows, rfl, by cases h : decode row.2 <;> simp [h]⟩
    obtain ⟨pre, last, rest, hsplit, hread⟩ := ih next (batch ++ (decode row.2).toList) (some row.1)
    refine ⟨row :: pre, last, rest, by rw [hsplit, cons_append], ?_⟩
    rw [hread]
    cases h : decode row.2 <;> simp [h]

variable [LinearOrder κ] (table : List (κ × ν))

/-- The rows of `range(k..)` without the row of the key itself. -/
def rowsAfter : Option κ → List (κ × ν)
  | none => table
  | some k => (table.filter fun row => k ≤ row.1).filter fun row => row.1 ≠ k

/-- The outer loop; `none` if the fuel runs out. -/
def scanFrom (table : List (κ × ν)) (f : σ → μ → Except ε σ) : Nat → Option κ → σ × Nat → Option (Except ε (σ × Nat))
  | 0, _, _ => none
  | fuel + 1, resumeAfter, st =>
    match readBatch scanBatch decode (rowsAfter table resumeAfter) [] none with
    | (_, none) => some (.ok st)
    | (batch, some lastKey) =>
      match visitAll f st batch with
      | .error e => some (.error e)
      | .ok st => scanFrom table f fuel (some lastKey) st

def scanAllFiles (f : σ → μ → Except ε σ) (init : σ) : Option (Except ε (σ × Nat)) :=
  scanFrom scanBatch decode table f (table.length + 1) none (init, 0)

lemma rowsAfter_append {pre rest : List (κ × ν)} {row : κ × ν} (h : Sorted Prod.fst (pre ++ row :: rest)) :
    rowsAfter (pre ++ row :: rest) (some row.1) = rest := by
  obtain ⟨-, hrest, hpre⟩ := pairwise_append.mp h
  have hlow : ∀ r ∈ pre, ¬row.1 < r.1 := fun r hr => not_lt.mpr (hpre r hr row mem_cons_self).le
  have hhigh : ∀ r ∈ rest, row.1 < r.1 := (pairwise_cons.mp hrest).1
  have hlt : rowsAfter (pre ++ row :: rest) (some row.1) = (pre ++ row :: rest).filter fun r => row.1 < r.1 := by
    rw [rowsAfter, filter_filter]
    refine filter_congr fun r _ => ?_
    simp [lt_iff_le_and_ne, and_comm, eq_comm]
  rw [hlt, filter_append, filter_eq_nil_iff.mpr (by simpa using hlow), nil_append, filter_cons_of_neg (by simp),
    filter_eq_self.mpr (by simpa using hhigh)]

lemma scanFrom_eq {table : List (κ × ν)} (h : Sorted Prod.fst table) (f : σ → μ → Except ε σ) (fuel : Nat) :
    ∀ resumeAfter front st, table = front ++ rowsAfter table resumeAfter → (rowsAfter table resumeAfter).length < fuel →
      scanFrom scanBatch decode table f fuel resumeAfter st =
        some (visitAll f st ((rowsAfter table resumeAfter).filterMap fun r => decode r.2)) := by
  induction fuel with
  | zero => exact fun _ _ _ _ hlen => absurd hlen (Nat.not_lt_zero _)
  | succ fuel ih =>
    intro resumeAfter front st htable hlen
    unfold scanFrom
    cases hrows : rowsAfter table resumeAfter with
    | nil => rfl
    | cons row rows =>
      obtain ⟨pre, last, rest, hsplit, hread⟩ := readBatch_cons scanBatch decode row rows [] none
      rw [hrows] at htable hlen
      rw [hsplit] at htable hlen
      have hafter : rowsAfter table (some last.1) = rest := by
        rw [htable, ← append_assoc] at h ⊢
        exact rowsAfter_append h
      have hvisit : (row :: rows).filterMap (fun r => decode r.2) =
          (pre ++ [last]).filterMap (fun r => decode r.2) ++ rest.filterMap fun r => decode r.2 := by
        rw [hsplit, ← filterMap_append, append_assoc, singleton_append]
      rw [hread, hvisit, nil_append, visitAll, foldlM_append, ← visitAll]
      dsimp only
      cases visitAll f st ((pre ++ [last]).filterMap fun r => decode r.2) with
      | error e => rfl
      | ok st =>
        refine (ih (some last.1) (front ++ pre ++ [last]) st ?_ ?_).trans (by rw [hafter]; rfl)
        · rw [hafter, htable]
          simp
        · rw [hafter]
          simp at hlen
          omega

/-- The scan ends, and the visitor is called for the records that decode, in the order of the keys, each once,
whatever the size of a batch. -/
theorem scan_visits_once (h : Sorted Prod.fst table) (f : σ → μ → Except ε σ) (init : σ) :
    scanAllFiles scanBatch decode table f init = some ((table.filterMap fun r => decode r.2).foldlM
      (fun st m => (f st.1 m).map fun s => (s, st.2 + 1)) (init, 0)) :=
  scanFrom_eq scanBatch decode h f _ none [] _ rfl (Nat.lt_succ_self _)

theorem undecodable_rows_are_passed :
    scanAllFiles 2 id [(1, none), (2, some 5), (3, some 6), (4, none), (6, none), (7, some 7), (9, some 8), (10, none)]
      (fun seen m => (.ok (seen ++ [m]) : Except Unit (List Nat))) [] = some (.ok ([5, 6, 7, 8], 4)) :=
  scan_visits_once 2 id _ (by simp [Sorted]) _ []

end Dfs
