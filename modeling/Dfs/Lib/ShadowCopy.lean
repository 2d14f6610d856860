import Mathlib.Logic.Function.Basic

/-!
# A shadow copy that is caught up by marked keys

A writer commits, then marks the keys changed; a pass drains marks, then copies. The copy differs only in keys marked,
drained or still to be marked.
-/

namespace ShadowCopy

open List

variable {κ ν : Type*}

/-- The keys still to be marked, the marked ones, and those a pass has drained. -/
structure Marks (κ : Type*) where
  pending : List κ
  dirty : List κ
  drained : List κ

namespace Marks

def none : Marks κ := ⟨[], [], []⟩

variable (m : Marks κ)

def commit (keys : List κ) : Marks κ := { m with pending := m.pending ++ keys }

def mark (i : Nat) : Marks κ :=
  match m.pending[i]? with
  | some k => { m with pending := m.pending.eraseIdx i, dirty := k :: m.dirty }
  | Option.none => m

def clear : Marks κ := { m with dirty := [] }

def drain : Marks κ := { m with dirty := [], drained := m.dirty ++ m.drained }

def done : Marks κ := { m with drained := [] }

end Marks

def diffByKeys [DecidableEq κ] (source copy : κ → ν) (keys : List κ) : κ → ν := fun k => if k ∈ keys then source k else copy k

/-- The copy differs only where a mark is, or is to come. -/
def Tracked (live copy : κ → ν) (m : Marks κ) : Prop :=
  ∀ k, copy k ≠ live k → k ∈ m.pending ∨ k ∈ m.dirty ∨ k ∈ m.drained

lemma tracked_self (live : κ → ν) (m : Marks κ) : Tracked live live m := fun _ h => absurd rfl h

section

variable {live live' copy : κ → ν} {m : Marks κ}

section

variable (h : Tracked live copy m)

include h

lemma Tracked.commit {keys : List κ} (hkeys : ∀ k, live' k ≠ live k → k ∈ keys) : Tracked live' copy (m.commit keys) := by
  intro k hk
  by_cases hlive : live' k = live k
  · rw [hlive] at hk
    exact (h k hk).imp_left fun hp => mem_append_left _ hp
  · exact .inl (mem_append_right _ (hkeys k hlive))

lemma Tracked.mark (i : Nat) : Tracked live copy (m.mark i) := by
  unfold Marks.mark
  split
  · rename_i k hget
    intro x hx
    rcases h x hx with hp | hd | hr
    · by_cases hxk : x = k
      · exact .inr (.inl (hxk ▸ mem_cons_self))
      refine .inl (mem_eraseIdx_iff_getElem?.mpr ?_)
      obtain ⟨j, hj⟩ := mem_iff_getElem?.mp hp
      refine ⟨j, ?_, hj⟩
      rintro rfl
      exact hxk (Option.some.inj (hj.symm.trans hget))
    · exact .inr (.inl (mem_cons_of_mem _ hd))
    · exact .inr (.inr hr)
  · exact h

lemma Tracked.drain : Tracked live copy m.drain := by
  intro k hk
  rcases h k hk with hp | hd | hr
  · exact .inl hp
  · exact .inr (.inr (mem_append_left _ hd))
  · exact .inr (.inr (mem_append_right _ hr))

variable [DecidableEq κ]

lemma Tracked.catchUp : Tracked live (diffByKeys live copy m.drained) m.done := by
  intro k hk
  unfold diffByKeys at hk
  split at hk
  · exact absurd rfl hk
  rename_i hnot
  rcases h k hk with hp | hd | hr
  · exact .inl hp
  · exact .inr (.inl hd)
  · exact absurd hr hnot

lemma Tracked.finish (hpending : m.pending = []) (hdrained : m.drained = []) : diffByKeys live copy m.dirty = live := by
  funext k
  unfold diffByKeys
  split
  · rfl
  rename_i hnot
  by_contra hne
  rcases h k hne with hp | hd | hr
  · rw [hpending] at hp
    cases hp
  · exact hnot hd
  rw [hdrained] at hr
  cases hr

end

end

end ShadowCopy
