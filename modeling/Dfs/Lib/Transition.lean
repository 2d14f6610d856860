import Mathlib.Logic.Relation

/-!
# Runs of a machine

A machine takes actions one after the other. A run in which each meets a condition (`Meets`) keeps what each such action keeps.
-/

namespace Transition

variable {σ α : Type*} (step : σ → α → σ) (ok : σ → α → Prop)

def run (s : σ) (l : List α) : σ := l.foldl step s

/-- Every action meets the condition in the state it is taken in. -/
def Meets : σ → List α → Prop
  | _, [] => True
  | s, a :: l => ok s a ∧ Meets (step s a) l

variable {step ok} {Inv : σ → Prop} {l : List α} {s : σ} {right : σ → α → Prop}

/-- What every action that meets the condition keeps holds in the end. -/
theorem invariant_run (hstep : ∀ s a, Inv s → ok s a → Inv (step s a)) (hs : Inv s) (hl : Meets step ok s l) :
    Inv (run step s l) := by
  induction l generalizing s with
  | nil => exact hs
  | cons a l ih => exact ih (hstep s a hs hl.1) hl.2

lemma run_append (s : σ) (l l' : List α) : run step s (l ++ l') = run step (run step s l) l' := List.foldl_append

lemma meets_append {l' : List α} : Meets step ok s (l ++ l') ↔ Meets step ok s l ∧ Meets step ok (run step s l) l' := by
  induction l generalizing s with
  | nil => exact ⟨fun h => ⟨trivial, h⟩, fun h => h.2⟩
  | cons a l ih => exact (and_congr_right fun _ => ih).trans and_assoc.symm

lemma meets_of_forall (h : ∀ a ∈ l, ∀ s, ok s a) : Meets step ok s l := by
  induction l generalizing s with
  | nil => trivial
  | cons a l ih => exact ⟨h a (by simp) s, ih fun b hb => h b (by simp [hb])⟩

lemma meets_congr {ok' : σ → α → Prop} (h : ∀ s, ∀ a ∈ l, ok s a ↔ ok' s a) : Meets step ok s l ↔ Meets step ok' s l := by
  induction l generalizing s with
  | nil => exact Iff.rfl
  | cons a l ih => exact and_congr (h s a (by simp)) (ih fun s b hb => h s b (by simp [hb]))

lemma meets_of_invariant (hright : ∀ s a, Inv s → ok s a → right s a) (hstep : ∀ s a, Inv s → ok s a → Inv (step s a))
    (hs : Inv s) (hl : Meets step ok s l) : Meets step right s l := by
  induction l generalizing s with
  | nil => trivial
  | cons a l ih => exact ⟨hright s a hs hl.1, ih (hstep s a hs hl.1) hl.2⟩

lemma meets_iff (hright : ∀ s a, Inv s → (right s a ↔ ok s a)) (hstep : ∀ s a, Inv s → ok s a → Inv (step s a)) (hs : Inv s) :
    Meets step right s l ↔ Meets step ok s l := by
  constructor
  · refine meets_of_invariant (fun s a hs ha => (hright s a hs).mp ha) (fun s a hs ha => ?_) hs
    exact hstep s a hs ((hright s a hs).mp ha)
  · exact meets_of_invariant (fun s a hs ha => (hright s a hs).mpr ha) hstep hs

/-- An invariant that an action keeps exactly if it meets a condition holds all along exactly the runs that meet it. -/
theorem meets_invariant_iff (hstep : ∀ s a, Inv s → (Inv (step s a) ↔ ok s a)) (hs : Inv s) :
    Meets step (fun s a => Inv (step s a)) s l ↔ Meets step ok s l :=
  meets_iff hstep (fun s a hs hok => (hstep s a hs).mpr hok) hs

end Transition
