import Mathlib.Data.List.Basic

/-!
# Programs that share a transaction

A program reads and writes in a transaction, and each access may fail, which ends the program and undoes nothing.
Programs that share a transaction run one after another, each on what the ones before it left.
-/

namespace SharedTransaction

inductive Program (σ ε α : Type*) where
  | done (result : Except ε α)
  | read (next : σ → Program σ ε α)
  | write (f : σ → σ) (next : Program σ ε α)
  /-- A write whose failure is passed over. -/
  | attempt (f : σ → σ) (next : Program σ ε α)

/-- The result of a program and the state it leaves. -/
structure Execution (σ ε α : Type*) where
  result : Except ε α
  state : σ

variable {σ ε α : Type*}

namespace Program

/-- Run against the answers to the accesses in turn: the error that an access fails with, if it does. Where there is
no answer none fails. -/
def exec : Program σ ε α → List (Option ε) → σ → Execution σ ε α
  | done result, _, s => ⟨result, s⟩
  | read next, answers, s => match answers.head?.join with
    | some e => ⟨.error e, s⟩
    | none => exec (next s) answers.tail s
  | write f next, answers, s => match answers.head?.join with
    | some e => ⟨.error e, s⟩
    | none => exec next answers.tail (f s)
  | attempt f next, answers, s => match answers.head?.join with
    | some _ => exec next answers.tail s
    | none => exec next answers.tail (f s)

/-- Every result and every write of the program has a property. -/
def All (P : Except ε α → Prop) (Q : (σ → σ) → Prop) : Program σ ε α → Prop
  | done result => P result
  | read next => ∀ s, (next s).All P Q
  | write f next => Q f ∧ next.All P Q
  | attempt f next => Q f ∧ next.All P Q

variable {p : Program σ ε α} {answers : List (Option ε)} {s : σ}

/-- Answers none of which is an error are like no answers. -/
theorem exec_eq_of_clean (h : ∀ a ∈ answers, a = none) : p.exec answers s = p.exec [] s := by
  have hhead {answers : List (Option ε)} (h : ∀ a ∈ answers, a = none) : answers.head?.join = none := by
    cases answers with
    | nil => rfl
    | cons a answers => exact h a List.mem_cons_self
  induction p generalizing answers s with
  | done result => rfl
  | read next ih =>
    simp only [exec, hhead h]
    exact ih _ fun a ha => h a (List.mem_of_mem_tail ha)
  | write f next ih =>
    simp only [exec, hhead h]
    exact ih fun a ha => h a (List.mem_of_mem_tail ha)
  | attempt f next ih =>
    simp only [exec, hhead h]
    exact ih fun a ha => h a (List.mem_of_mem_tail ha)

/-- The program fails and leaves the state, or it ends as `Q` says. -/
def CleanOr (Q : Execution σ ε α → Prop) (s : σ) (p : Program σ ε α) : Prop :=
  ∀ answers, (∃ e, p.exec answers s = ⟨.error e, s⟩) ∨ Q (p.exec answers s)

variable {Q : Execution σ ε α → Prop} {f : σ → σ}

lemma cleanOr_read {next : σ → Program σ ε α} (h : (next s).CleanOr Q s) : (read next).CleanOr Q s := by
  intro answers
  simp only [exec]
  split
  · exact .inl ⟨_, rfl⟩
  · exact h _

lemma cleanOr_write {next : Program σ ε α} (h : ∀ answers, Q (next.exec answers (f s))) : (write f next).CleanOr Q s := by
  intro answers
  simp only [exec]
  split
  · exact .inl ⟨_, rfl⟩
  · exact .inr (h _)

section All

variable {P : Except ε α → Prop} {Q : (σ → σ) → Prop} (h : p.All P Q)
include h

/-- Where no access fails the result is one of the program's. -/
theorem All.result : P (p.exec [] s).result := by
  induction p generalizing s with
  | done result => exact h
  | read next ih => exact ih s (h s)
  | write f next ih => exact ih h.2
  | attempt f next ih => exact ih h.2

/-- What no write of the program changes is the same after it, whatever fails. -/
theorem All.state {β : Type*} {get : σ → β} (hQ : ∀ f, Q f → ∀ s, get (f s) = get s) : get (p.exec answers s).state = get s := by
  induction p generalizing answers s with
  | done result => rfl
  | read next ih =>
    cases ha : answers.head?.join <;> simp only [exec, ha]
    exact ih s (h s)
  | write f next ih =>
    cases ha : answers.head?.join <;> simp only [exec, ha]
    exact (ih h.2).trans (hQ f h.1 s)
  | attempt f next ih =>
    cases ha : answers.head?.join <;> simp only [exec, ha]
    · exact (ih h.2).trans (hQ f h.1 s)
    · exact ih h.2

end All

end Program

/-- The state after the programs, each on what the ones before it left. -/
def after (s : σ) (calls : List (Program σ ε α × List (Option ε))) : σ := calls.foldl (fun s c => (c.1.exec c.2 s).state) s

/-- The results of the programs. -/
def results : σ → List (Program σ ε α × List (Option ε)) → List (Except ε α)
  | _, [] => []
  | s, c :: calls => (c.1.exec c.2 s).result :: results (c.1.exec c.2 s).state calls

variable {s : σ} {c : Program σ ε α × List (Option ε)} {calls : List (Program σ ε α × List (Option ε))} {i : Nat}

/-- One more program runs on what the ones before it left. -/
theorem after_take_succ (h : calls[i]? = some c) :
    after s (calls.take (i + 1)) = (c.1.exec c.2 (after s (calls.take i))).state := by
  rw [List.take_add_one, h, after, List.foldl_append]
  rfl

lemma results_getElem? (h : calls[i]? = some c) :
    (results s calls)[i]? = some (c.1.exec c.2 (after s (calls.take i))).result := by
  induction calls generalizing s i with
  | nil => cases h
  | cons d calls ih =>
    cases i with
    | zero =>
      cases h
      rfl
    | succ i => exact ih h

lemma length_results : (results s calls).length = calls.length := by
  induction calls generalizing s with
  | nil => rfl
  | cons c calls ih => exact congrArg (· + 1) ih

end SharedTransaction
