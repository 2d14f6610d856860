import Dfs.Resolve

/-!
# Aliases and redirects

`ShardedAliasMap::resolve` finds the end of a chain of aliases and nothing else, on maps with cycles too. A read is
redirected a bounded number of times.
-/

namespace Dfs

open Node

variable {Id : Type} {alias_ : Id → Option Id} {a t : Id} {path : List Id}

/-- The aliases lead from one identity along the path to another. -/
def Leads (alias_ : Id → Option Id) : Id → List Id → Id → Prop
  | a, [], t => a = t
  | a, b :: path, t => alias_ a = some b ∧ Leads alias_ b path t

lemma Leads.mem (h : Leads alias_ a path t) : t ∈ a :: path := by
  induction path generalizing a with
  | nil => exact List.mem_singleton.mpr (Eq.symm h)
  | cons b path ih => exact List.mem_cons_of_mem _ (ih h.2)

variable [DecidableEq Id]

lemma aliasWalk_eq_some_iff (hops : Nat) (visited : List Id) (moved : Bool) : aliasWalk alias_ hops visited a moved = some t ↔
      ∃ path, Leads alias_ a path t ∧ alias_ t = none ∧ path.length ≤ hops ∧ path.Nodup ∧ (∀ b ∈ path, b ∉ visited) ∧
        (moved = true ∨ path ≠ []) := by
  induction hops generalizing visited a moved with
  | zero =>
    unfold aliasWalk
    simp only [Nat.le_zero_eq, List.length_eq_zero_iff]
    cases halias : alias_ a with
    | none => cases moved <;> simp [Leads]; grind
    | some b => simp [Leads]; grind
  | succ hops ih =>
    unfold aliasWalk
    cases halias : alias_ a with
    | none =>
      constructor
      · intro h
        cases moved
        · cases h
        cases h
        exact ⟨[], rfl, halias, by simp⟩
      · rintro ⟨path, hleads, -, -, -, -, hmoved⟩
        cases path with
        | nil => simp_all [Leads]
        | cons b path => cases halias.symm.trans hleads.1
    | some b =>
      by_cases hseen : b ∈ visited
      · simp only [hseen, if_true, reduceCtorEq, false_iff]
        rintro ⟨path, hleads, hend, -, -, hnew, -⟩
        cases path with
        | nil => cases halias.symm.trans ((congrArg alias_ hleads).trans hend)
        | cons c path =>
          cases halias.symm.trans hleads.1
          exact hnew b List.mem_cons_self hseen
      simp only [hseen, if_false, ih]
      constructor
      · rintro ⟨path, hleads, hend, hlen, hnodup, hnew, -⟩
        exact ⟨b :: path, ⟨halias, hleads⟩, hend, Nat.succ_le_succ hlen,
          List.nodup_cons.mpr ⟨fun hb => hnew b hb List.mem_cons_self, hnodup⟩,
          List.forall_mem_cons.mpr ⟨hseen, fun c hc hv => hnew c hc (List.mem_cons_of_mem _ hv)⟩, .inr (by simp)⟩
      · rintro ⟨path, hleads, hend, hlen, hnodup, hnew, -⟩
        cases path with
        | nil => cases halias.symm.trans ((congrArg alias_ hleads).trans hend)
        | cons c path =>
          cases halias.symm.trans hleads.1
          refine ⟨path, hleads.2, hend, Nat.le_of_succ_le_succ hlen, hnodup.of_cons, fun c hc hv => ?_, .inl trivial⟩
          rcases List.mem_cons.mp hv with rfl | hv
          · exact (List.nodup_cons.mp hnodup).1 hc
          · exact hnew c (List.mem_cons_of_mem _ hc) hv

/-- A read that comes to `resolve_forwarded`. -/
def Node.forwards (s : Node Id) (id : Id) : Bool :=
  (s.readChunkArc id).isNone &&
    match s.pendingPatchIds id with
    | none => (s.resolveViaDurablePatchState id).isNone
    | some _ => (s.patchState id).isNone

/-- The identities that a read is redirected to, each from within the one before. -/
def redirectsAtDepth (at_ : Nat → Node Id) : Nat → Id → List Id
  | 0, _ => []
  | depth + 1, id =>
    if (at_ (depth + 1)).forwards id then
      ((at_ (depth + 1)).resolveAlias id).elim [] fun target => target :: redirectsAtDepth at_ depth target
    else []

omit [DecidableEq Id] in
lemma resolveHere_eq (s : Node Id) (id : Id) (forwarded : Option Bytes) :
    s.resolveHere id forwarded = if s.forwards id then forwarded else s.resolveHere id none := by
  unfold forwards resolveHere
  cases hp : s.pendingPatchIds id with
  | none => cases hr : s.readChunkArc id <;> cases hd : s.resolveViaDurablePatchState id <;> simp
  | some slot => cases hr : s.readChunkArc id <;> rcases hs : s.patchState id with _ | _ | _ <;> simp

/-- The depth counts down, so the last call is at what the redirects leave. -/
lemma resolveAtDepth_redirects (at_ : Nat → Node Id) (depth : Nat) (id : Id) : (redirectsAtDepth at_ depth id).length ≤ depth ∧
    resolveAtDepth at_ depth id =
      (at_ (depth - (redirectsAtDepth at_ depth id).length)).resolveHere ((redirectsAtDepth at_ depth id).getLastD id) none := by
  induction depth generalizing id with
  | zero => exact ⟨Nat.le_refl 0, rfl⟩
  | succ depth ih =>
    rw [resolveAtDepth, redirectsAtDepth, resolveHere_eq]
    split
    · rename_i hforwards
      cases (at_ (depth + 1)).resolveAlias id with
      | none => exact ⟨Nat.zero_le _, ((resolveHere_eq _ id none).trans (if_pos hforwards)).symm⟩
      | some target =>
        rw [Option.elim_some, List.getLastD_cons, List.length_cons, Nat.succ_sub_succ]
        exact ⟨Nat.succ_le_succ (ih target).1, (ih target).2⟩
    · exact ⟨Nat.zero_le _, rfl⟩

/-- An alias resolves to the end of its chain exactly if the chain ends within the hops and without an identity twice. A read is
redirected at most `MAX_RESOLVE_DEPTH` times, whatever each call finds, and returns what the last finds itself. -/
theorem redirects_exact (s : Node Id) (at_ : Nat → Node Id) (id : Id) :
    (∀ t, s.resolveAlias id = some t ↔ ∃ path, Leads s.retiredChunkAliases id path t ∧ s.retiredChunkAliases t = none ∧ t ≠ id ∧
      path.length ≤ maxHops ∧ (id :: path).Nodup) ∧
    let redirects := redirectsAtDepth at_ maxResolveDepth id
    redirects.length ≤ maxResolveDepth ∧
      resolveAtDepth at_ maxResolveDepth id =
        (at_ (maxResolveDepth - redirects.length)).resolveHere (redirects.getLastD id) none := by
  refine ⟨fun t => ?_, resolveAtDepth_redirects at_ maxResolveDepth id⟩
  rw [resolveAlias, aliasWalk_eq_some_iff]
  refine exists_congr fun path => and_congr_right fun hleads => and_congr_right fun _ => ?_
  cases path with
  | nil => simp [show id = t from hleads]
  | cons b path =>
    have hmem := hleads.2.mem
    simp only [List.nodup_cons]
    grind

end Dfs
