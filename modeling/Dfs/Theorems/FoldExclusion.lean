import Dfs.FoldLease
import Dfs.Lib.Transition

/-! # Does the lease let one replica fold at a time? -/

namespace Dfs

open Function ReplicaSlot CallPhase ProposalStage

variable {Id : Type}

def CallPhase.claim : CallPhase Id → Option Nat
  | .proposed _ ms _ | .folding _ ms | .releasing ms _ => some ms
  | _ => none

def CallPhase.Holds (r : NodeId) : CallPhase Id → Prop
  | .proposed _ _ stage => (stage r).accepted = true
  | .folding .. => True
  | .releasing _ left => r ∈ left
  | _ => False

/-- Past the step in which every peer granted, before the release. -/
def CallPhase.Past : CallPhase Id → Prop
  | .folding .. => True
  | _ => False

instance (p : CallPhase Id) : Decidable p.Past := match p with
  | .folding .. => .isTrue trivial
  | .idle | .checked | .reseeded | .prepared _ | .proposed .. | .releasing .. => .isFalse id

/-- Nothing, or a call that waits for answers to a later claim than `k`. -/
def CallPhase.Yields (r : NodeId) (k : Nat × NodeId) : CallPhase Id → Prop
  | .idle => True
  | .proposed _ ms _ => claimBefore k (ms, r)
  | _ => False

/-- Step 0 is passed only without another call; a proposal is answered only if the lease is free, a pending row is
known, and own calls yield. -/
def FoldCluster.Orderly (s : FoldCluster Id) : FoldAction → Prop
  | .enter c => s.call c = .idle → ∀ i, s.call (c.1, i) = .idle
  | .answer c peer => ∀ fp ms stage, s.call c = .proposed fp ms stage → stage peer = .passed →
    ((s.slot peer).foldLockGrants = none ∨ (s.slot peer).foldLockGrants = some c.1) ∧
      ((s.slot peer).pending.isSome = true → (s.slot peer).dirtyPatchSlot = true) ∧
      ∀ i, (s.call (peer, i)).Yields peer (ms, c.1)
  | _ => True

/-! ## What a grant keeps out -/

/-- Its own claim is later, or it will find nothing to fold. -/
def CallPhase.Behind (r : NodeId) (k : Nat × NodeId) (pending : Option (FoldFingerprint Id)) (p : CallPhase Id) : Prop :=
  p = .idle ∨ (∃ ms, p.claim = some ms ∧ claimBefore k (ms, r)) ∨ ((p = .checked ∨ p = .reseeded) ∧ pending = none)

/-- The lease is out to `k` or nothing is pending, and its own calls are behind. -/
def FoldCluster.Barred (s : FoldCluster Id) (r : NodeId) (k : Nat × NodeId) : Prop :=
  ((s.slot r).foldLockGrants = some k.2 ∨ (s.slot r).pending = none) ∧
    ∀ i, (s.call (r, i)).Behind r k (s.slot r).pending

/-- One call at a time, and a peer whose grant a call has keeps out of its way. -/
structure FoldCluster.Exclusive (s : FoldCluster Id) : Prop where
  alone : ∀ n i j, s.call (n, i) ≠ .idle → s.call (n, j) ≠ .idle → i = j
  held : ∀ c r ms, r ∈ s.peers c.1 → (s.call c).Holds r → (s.call c).claim = some ms → s.Barred r (ms, c.1)

lemma claimBefore_asymm {a b : Nat × NodeId} (h : claimBefore a b) : ¬claimBefore b a := by
  rcases h with h | ⟨h, hn⟩
  · rintro (h' | ⟨h', -⟩)
    · exact Nat.lt_asymm h h'
    · exact Nat.ne_of_gt h h'
  rintro (h' | ⟨-, hn'⟩)
  · exact Nat.ne_of_gt h' h
  · exact Nat.lt_asymm hn hn'

variable {p : CallPhase Id} {ms : Nat} {k : Nat × NodeId}

lemma CallPhase.Yields.behind {r : NodeId} (h : p.Yields r k) (pending : Option (FoldFingerprint Id)) : p.Behind r k pending := by
  cases p with
  | idle => exact .inl rfl
  | proposed fp ms stage => exact .inr (.inl ⟨ms, rfl, h⟩)
  | checked => exact h.elim
  | reseeded => exact h.elim
  | prepared fp => exact h.elim
  | folding fp ms => exact h.elim
  | releasing ms left => exact h.elim

lemma CallPhase.Behind.of_claim {r : NodeId} {pending : Option (FoldFingerprint Id)} {p' : CallPhase Id}
    (h : p.Behind r k pending) (hp : p.claim = some ms) (hp' : p'.claim = some ms) : p'.Behind r k pending := by
  rcases h with rfl | ⟨ms', hms', hk⟩ | ⟨rfl | rfl, -⟩
  · cases hp
  · exact .inr (.inl ⟨ms', by rw [hp', ← hp, hms'], hk⟩)
  · cases hp
  · cases hp

namespace FoldCluster

variable {s : FoldCluster Id} {n : NodeId} {r r' : ReplicaSlot Id} {d : NodeId × Nat} {fp : FoldFingerprint Id}
    {q : ProposeFold Id}
  {outcome : ProposeFoldOutcome}

lemma mem_peers {m : NodeId} : m ∈ s.peers n ↔ m ∈ s.replicas ∧ m ≠ n := by simp [peers]

@[simp] lemma slot_setCall (c : NodeId × Nat) (p : CallPhase Id) : (s.setCall c p).slot = s.slot := rfl

@[simp] lemma call_setSlot (n : NodeId) (r : ReplicaSlot Id) : (s.setSlot n r).call = s.call := rfl

@[simp] lemma call_setCall_self (c : NodeId × Nat) (p : CallPhase Id) : (s.setCall c p).call c = p :=
  update_self ..

lemma call_setCall_of_ne {c : NodeId × Nat} (h : d ≠ c) (p : CallPhase Id) : (s.setCall c p).call d = s.call d :=
  update_of_ne h ..

section

variable (h : s.Exclusive)

include h

lemma Exclusive.setSlot
    (hgrant : ∀ d : NodeId × Nat, n ∈ s.peers d.1 → (s.call d).Holds n → (s.slot n).foldLockGrants = some d.1 →
    r.foldLockGrants = some d.1)
    (hpending : (s.slot n).pending = none → r.pending = none) : (s.setSlot n r).Exclusive := by
  refine ⟨h.alone, fun c m ms hm hholds hclaim => ?_⟩
  obtain ⟨hlease, hbehind⟩ := h.held c m ms hm hholds hclaim
  by_cases hmn : m = n
  · subst hmn
    have hslot : (s.setSlot m r).slot m = r := update_self ..
    unfold Barred
    rw [hslot]
    refine ⟨hlease.imp (hgrant c hm hholds) hpending, fun i => ?_⟩
    exact (hbehind i).imp_right (Or.imp_right (And.imp_right hpending))
  · have hslot : (s.setSlot n r).slot m = s.slot m := update_of_ne hmn ..
    unfold Barred
    rw [hslot]
    exact ⟨hlease, hbehind⟩

lemma Exclusive.setSlot_same (hgrant : r.foldLockGrants = (s.slot n).foldLockGrants)
    (hpending : r.pending = (s.slot n).pending) : (s.setSlot n r).Exclusive :=
  h.setSlot (fun _ _ _ hd => hgrant.trans hd) (fun hp => hpending.trans hp)

variable {c : NodeId × Nat}

lemma Exclusive.setCall (halone : p ≠ .idle → ∀ i, s.call (c.1, i) ≠ .idle → i = c.2)
    (hheld : ∀ r ms, r ∈ s.peers c.1 → p.Holds r → p.claim = some ms → s.Barred r (ms, c.1))
    (hbehind : ∀ k, ((s.slot c.1).foldLockGrants = some k.2 ∨ (s.slot c.1).pending = none) →
    (s.call c).Behind c.1 k (s.slot c.1).pending → p.Behind c.1 k (s.slot c.1).pending) :
    (s.setCall c p).Exclusive := by
  have hbar : ∀ r k, s.Barred r k → (s.setCall c p).Barred r k := by
    intro r k hr
    refine ⟨hr.1, fun i => ?_⟩
    by_cases hi : (r, i) = c
    · subst hi
      rw [call_setCall_self]
      exact hbehind k hr.1 (hr.2 i)
    rw [call_setCall_of_ne hi]
    exact hr.2 i
  constructor
  · intro n i j hni hnj
    by_cases hi : (n, i) = c <;> by_cases hj : (n, j) = c
    · exact (Prod.mk.inj (hi.trans hj.symm)).2
    · subst hi
      rw [call_setCall_self] at hni
      rw [call_setCall_of_ne hj] at hnj
      exact (halone hni j hnj).symm
    · subst hj
      rw [call_setCall_self] at hnj
      rw [call_setCall_of_ne hi] at hni
      exact halone hnj i hni
    rw [call_setCall_of_ne hi] at hni
    rw [call_setCall_of_ne hj] at hnj
    exact h.alone n i j hni hnj
  · intro d r ms hr hholds hclaim
    apply hbar
    by_cases hd : d = c
    · subst hd
      rw [call_setCall_self] at hholds hclaim
      exact hheld r ms hr hholds hclaim
    rw [call_setCall_of_ne hd] at hholds hclaim
    exact h.held d r ms hr hholds hclaim

lemma Exclusive.only (hc : s.call c ≠ .idle) : ∀ i, s.call (c.1, i) ≠ .idle → i = c.2 := fun i hi => h.alone c.1 i c.2 hi hc

lemma Exclusive.return (c : NodeId × Nat) : (s.setCall c .idle).Exclusive :=
  h.setCall (fun hne => absurd rfl hne) (fun _ _ _ hholds => hholds.elim) (fun _ _ _ => .inl rfl)

lemma Exclusive.continue (hc : (s.call c).claim = some ms) (hp : p.claim = some ms)
    (hholds : ∀ r ∈ s.peers c.1, p.Holds r → (s.call c).Holds r) : (s.setCall c p).Exclusive := by
  have hrun : s.call c ≠ .idle := by
    intro hidle
    rw [hidle] at hc
    cases hc
  refine h.setCall (fun _ => h.only hrun) (fun r ms' hr hr' hms' => ?_) (fun _ _ hb => hb.of_claim hc hp)
  obtain rfl := Option.some.inj (hp.symm.trans hms')
  exact h.held c r ms hr (hholds r hr hr') hc

/-! ## The actions -/

lemma Exclusive.enter (hok : s.Orderly (.enter c)) : (s.enter c).Exclusive := by
  unfold FoldCluster.enter
  split
  · rename_i hidle
    split
    · exact h
    rename_i hfree
    refine h.setCall (fun _ i hi => absurd (hok hidle i) hi) (fun _ _ _ hholds => hholds.elim) (fun k hlease _ => ?_)
    rcases hlease with hlease | hnone
    · rw [hlease] at hfree
      exact absurd rfl hfree
    · exact .inr (.inr ⟨.inl rfl, hnone⟩)
  · exact h

lemma Exclusive.prepare (hc : s.call c = .checked ∨ s.call c = .reseeded) (hfp : (s.slot c.1).localFoldFingerprint = some fp) :
    (s.setCall c (.prepared fp)).Exclusive := by
  have hrun : s.call c ≠ .idle := by rcases hc with hc | hc <;> rw [hc] <;> nofun
  have hpending : (s.slot c.1).pending ≠ none := by
    intro hnone
    simp [localFoldFingerprint, hnone] at hfp
  refine h.setCall (fun _ => h.only hrun) (fun _ _ _ hholds => hholds.elim) (fun k _ hb => ?_)
  rcases hb with hidle | ⟨ms, hclaim, -⟩ | ⟨-, hnone⟩
  · exact absurd hidle hrun
  · rcases hc with hc | hc <;> rw [hc] at hclaim <;> cases hclaim
  · exact absurd hnone hpending

lemma Exclusive.read (c : NodeId × Nat) : (s.read c).Exclusive := by
  unfold FoldCluster.read
  split
  · exact h
  split
  · rename_i hc hfp
    exact h.prepare (.inl hc) hfp
  · rename_i hc hfp
    split
    · rename_i fp hpending
      have hslot : (s.setSlot c.1 { s.slot c.1 with dirtyPatchSlot := true }).Exclusive := h.setSlot_same rfl rfl
      refine hslot.setCall (fun _ => h.only (by rw [hc]; nofun)) (fun _ _ _ hholds => hholds.elim) (fun k _ hb => ?_)
      rw [call_setSlot, hc] at hb
      rcases hb with hidle | ⟨ms, hclaim, -⟩ | ⟨-, hnone⟩
      · cases hidle
      · cases hclaim
      · exact .inr (.inr ⟨.inr rfl, hnone⟩)
    · exact h.return c
  · rename_i hc hfp
    exact h.prepare (.inr hc) hfp
  · exact h.return c
  · exact h

lemma Exclusive.fail (c : NodeId × Nat) : (s.fail c).Exclusive := by
  unfold FoldCluster.fail
  split
  · exact h.return c
  · exact h

lemma Exclusive.propose (c : NodeId × Nat) (ms : Nat) : (s.propose c ms).Exclusive := by
  unfold FoldCluster.propose
  split
  · rename_i fp hc
    split
    · exact h.return c
    have hslot : (s.setSlot c.1 { s.slot c.1 with outboundFoldClaims := some ms }).Exclusive := h.setSlot_same rfl rfl
    refine hslot.setCall (fun _ => h.only (by rw [hc]; nofun)) (fun _ _ _ hholds => absurd hholds (by simp [Holds,
      accepted])) (fun k _ hb => ?_)
    rw [call_setSlot, hc] at hb
    rcases hb with hidle | ⟨ms', hclaim, -⟩ | ⟨hphase | hphase, -⟩
    · cases hidle
    · cases hclaim
    · cases hphase
    · cases hphase
  · exact h

end

lemma proposeCheck_spec {declined : Option ProposeFoldOutcome} (h : r.proposeCheck n q = (r', declined)) :
    r'.foldLockGrants = r.foldLockGrants ∧ r'.pending = r.pending ∧ ((declined.map answered).getD .passed).accepted = false := by
  unfold proposeCheck at h
  split at h
  · cases h
    exact ⟨rfl, rfl, rfl⟩
  split at h
  · cases h
    exact ⟨rfl, rfl, rfl⟩
  split at h
  · split at h <;> cases h <;> exact ⟨rfl, rfl, rfl⟩
  cases h
  exact ⟨rfl, rfl, rfl⟩

lemma Exclusive.deliver (h : s.Exclusive) (c : NodeId × Nat) (peer : NodeId) : (s.deliver c peer).Exclusive := by
  unfold FoldCluster.deliver
  split
  · rename_i fp ms stage hc
    split
    · rcases hcheck : (s.slot peer).proposeCheck peer ⟨c.1, ms, fp⟩ with ⟨slot', declined⟩
      obtain ⟨hgrant, hpending, hstage⟩ := proposeCheck_spec hcheck
      dsimp only
      refine (h.setSlot_same hgrant hpending).continue (by rw [call_setSlot, hc]; rfl) rfl (fun r _ hr => ?_)
      rw [call_setSlot, hc]
      by_cases hrp : r = peer
      · subst hrp
        rw [Holds, update_self, hstage] at hr
        cases hr
      · rwa [Holds, update_of_ne hrp] at hr
    · exact h
  · exact h

lemma proposeAnswer_spec [DecidableEq Id] (h : r.proposeAnswer q = (r', outcome)) :
    r'.pending = r.pending ∧ (r'.foldLockGrants = r.foldLockGrants ∨ r'.foldLockGrants = some q.proposer) ∧
      (outcome.accepted = true → r'.foldLockGrants = some q.proposer ∨ r.localFoldFingerprint = none) := by
  unfold proposeAnswer at h
  split at h
  · rename_i hnone
    cases h
    exact ⟨rfl, .inl rfl, fun _ => .inr hnone⟩
  split at h
  · cases h
    exact ⟨rfl, .inl rfl, nofun⟩
  split at h
  · cases h
    exact ⟨rfl, .inr rfl, fun _ => .inl rfl⟩
  split at h
  · cases h
    exact ⟨rfl, .inr rfl, fun _ => .inl rfl⟩
  · split at h <;> cases h <;> exact ⟨rfl, .inl rfl, nofun⟩

section

variable (h : s.Exclusive)

include h

lemma Exclusive.takeAnswer {stage : NodeId → ProposalStage} {peer : NodeId} (hc : s.call c = .proposed fp ms stage)
    (hbarred : outcome.accepted = true → s.Barred peer (ms, c.1)) :
    (s.setCall c (.proposed fp ms (update stage peer (.answered outcome)))).Exclusive := by
  refine h.setCall (fun _ => h.only (by rw [hc]; nofun)) (fun r ms' hr hr' hms' => ?_) (fun k _ hb => ?_)
  · cases hms'
    by_cases hrp : r = peer
    · subst hrp
      rw [Holds, update_self] at hr'
      exact hbarred hr'
    rw [Holds, update_of_ne hrp] at hr'
    exact h.held c r ms hr (by rwa [hc]) (by rw [hc]; rfl)
  · exact hb.of_claim (by rw [hc]; rfl) rfl

lemma Exclusive.answer [DecidableEq Id] {peer : NodeId} (hok : s.Orderly (.answer c peer)) : (s.answer c peer).Exclusive := by
  unfold FoldCluster.answer
  split
  · rename_i fp ms stage hc
    split
    · rename_i hpassed
      obtain ⟨hfree, hdirty, hyields⟩ := hok fp ms stage hc hpassed.1
      rcases hans : (s.slot peer).proposeAnswer ⟨c.1, ms, fp⟩ with ⟨slot', outcome⟩
      obtain ⟨hpending, hgrant, haccepted⟩ := proposeAnswer_spec hans
      dsimp only at hgrant haccepted ⊢
      have hslot : (s.setSlot peer slot').slot peer = slot' := update_self ..
      refine (h.setSlot (fun d _ _ hd => ?_) (fun hp => hpending.trans hp)).takeAnswer hc (fun hacc => ⟨?_, fun i => ?_⟩)
      · -- the lease was free or the proposer's own, so no other holder loses it
        rcases hgrant with hgrant | hgrant
        · rw [hgrant, hd]
        rcases hfree with hfree | hfree
        · rw [hfree] at hd
          cases hd
        · rw [hgrant, ← hfree, hd]
      · rw [hslot]
        refine (haccepted hacc).imp_right fun hnone => ?_
        rw [hpending]
        by_contra hsome
        have hd := hdirty (Option.isSome_iff_ne_none.mpr hsome)
        rw [localFoldFingerprint, if_pos hd] at hnone
        exact hsome hnone
      · exact (hyields i).behind _
    · exact h
  · exact h

lemma Exclusive.collect (c : NodeId × Nat) : (s.collect c).Exclusive := by
  unfold FoldCluster.collect
  split
  · rename_i fp ms stage hc
    split
    · have hslot : (s.setSlot c.1 { s.slot c.1 with outboundFoldClaims := none }).Exclusive := h.setSlot_same rfl rfl
      by_cases hall : ((s.peers c.1).all fun n => (stage n).accepted) = true
      · rw [if_pos hall]
        refine hslot.continue (by rw [call_setSlot, hc]; rfl) rfl (fun r hr _ => ?_)
        rw [call_setSlot, hc]
        exact List.all_eq_true.mp hall r hr
      rw [if_neg hall]
      exact hslot.return c
    · exact h
  · exact h

lemma Exclusive.fold (c : NodeId × Nat) : (s.fold c).Exclusive := by
  unfold FoldCluster.fold
  split
  · rename_i fp ms hc
    refine h.continue (by rw [hc]; rfl) rfl (fun r _ _ => ?_)
    rw [hc]
    exact trivial
  · exact h

lemma Exclusive.release (c : NodeId × Nat) (peer : NodeId) : (s.release c peer).Exclusive := by
  unfold FoldCluster.release
  split
  · rename_i ms left hc
    split
    · obtain ⟨p, hp⟩ : ∃ p, p = if left.filter (· ≠ peer) = [] then .idle
        else (releasing ms (left.filter (· ≠ peer)) : CallPhase Id) := ⟨_, rfl⟩
      rw [← hp]
      have hcall : (s.setCall c p).Exclusive ∧ ¬p.Holds peer := by
        rw [hp]
        split
        · exact ⟨h.return c, id⟩
        refine ⟨h.continue (by rw [hc]; rfl) rfl (fun r _ hr => ?_), fun hr => ?_⟩
        · rw [hc]
          exact (List.mem_filter.mp hr).1
        · simp [Holds] at hr
      refine hcall.1.setSlot (n := peer) (fun d hd hholds hlease => ?_) (fun hnone => ?_)
      · have hdc : d ≠ c := by
          rintro rfl
          rw [call_setCall_self] at hholds
          exact hcall.2 hholds
        rw [call_setCall_of_ne hdc] at hholds
        have hnode : d.1 ≠ c.1 := by
          intro hnode
          have hrun : s.call (c.1, d.2) ≠ .idle := by
            rw [← hnode]
            intro hidle
            rw [hidle] at hholds
            exact hholds
          exact hdc (Prod.ext hnode (h.only (by rw [hc]; nofun) d.2 hrun))
        rw [slot_setCall] at hlease
        rw [handleReleaseFoldLock, if_neg (by rw [hlease]; exact fun he => hnode (Option.some.inj he)), hlease]
      · rw [slot_setCall] at hnone
        unfold handleReleaseFoldLock
        split <;> exact hnone
    · exact h
  · exact h

lemma Exclusive.step [DecidableEq Id] {a : FoldAction} (hok : s.Orderly a) : (s.step a).Exclusive := by
  cases a with
  | enter c => exact h.enter hok
  | read c => exact h.read c
  | fail c => exact h.fail c
  | propose c ms => exact h.propose c ms
  | deliver c peer => exact h.deliver c peer
  | answer c peer => exact h.answer hok
  | collect c => exact h.collect c
  | fold c => exact h.fold c
  | release c peer => exact h.release c peer
  | lock n => exact h.setSlot_same rfl rfl
  | unlock n => exact h.setSlot_same rfl rfl
  | settle n => exact h.setSlot (fun _ _ _ hd => hd) (fun _ => rfl)

lemma Exclusive.past {c : NodeId × Nat} (hcr : c.1 ∈ s.replicas) (hdr : d.1 ∈ s.replicas) (hc : (s.call c).Past)
    (hd : (s.call d).Past) : c.1 = d.1 := by
  by_contra hne
  have hfold : ∀ {e : NodeId × Nat}, (s.call e).Past → ∃ fp ms, s.call e = .folding fp ms := by
    intro e he
    cases hphase : s.call e with
    | folding fp ms => exact ⟨fp, ms, rfl⟩
    | _ =>
      rw [hphase] at he
      exact he.elim
  obtain ⟨fpc, msc, hcall⟩ := hfold hc
  obtain ⟨fpd, msd, hdall⟩ := hfold hd
  have key : ∀ {e f : NodeId × Nat} {fp fp' : FoldFingerprint Id} {ms ms' : Nat}, f.1 ∈ s.replicas → f.1 ≠ e.1 →
      s.call e = .folding fp ms → s.call f = .folding fp' ms' → claimBefore (ms, e.1) (ms', f.1) := by
    intro e f fp fp' ms ms' hf hfe he hf'
    have hb := (h.held e f.1 ms (mem_peers.mpr ⟨hf, hfe⟩) (by rw [he]; exact trivial) (by rw [he]; rfl)).2 f.2
    rw [show s.call (f.1, f.2) = .folding fp' ms' from hf'] at hb
    rcases hb with hidle | ⟨ms'', hms'', hk⟩ | ⟨hphase | hphase, -⟩
    · cases hidle
    · cases hms''
      exact hk
    · cases hphase
    · cases hphase
  exact claimBefore_asymm (key hdr (Ne.symm hne) hcall hdall) (key hcr hne hdall hcall)

end

end FoldCluster

/-- In every run whose actions meet the condition at most one replica folds. -/
theorem one_replica_folds [DecidableEq Id] (s : FoldCluster Id) (actions : List FoldAction) (hidle : ∀ c, s.call c = .idle)
    (hok : Transition.Meets FoldCluster.step FoldCluster.Orderly s actions) (c d : NodeId × Nat)
    (hcr : c.1 ∈ (Transition.run FoldCluster.step s actions).replicas)
    (hdr : d.1 ∈ (Transition.run FoldCluster.step s actions).replicas)
    (hc : ((Transition.run FoldCluster.step s actions).call c).Past)
    (hd : ((Transition.run FoldCluster.step s actions).call d).Past) : c.1 = d.1 := by
  have hinit : s.Exclusive := by
    refine ⟨fun n i j hi => absurd (hidle _) hi, fun c r ms _ hholds => ?_⟩
    rw [hidle c] at hholds
    exact hholds.elim
  exact (Transition.invariant_run (fun _ _ hs ha => hs.step ha) hinit hok).past hcr hdr hc hd

def twoReplicas : FoldCluster FreeId where
  replicas := [1, 2]
  slot _ := ⟨none, none, false, true, some ⟨.content [1] 0 7, .content [2] 0 7, 1⟩⟩
  call _ := .idle

def firstFolds : List FoldAction :=
  [.enter (1, 0), .read (1, 0), .propose (1, 0) 10, .deliver (1, 0) 2, .answer (1, 0) 2, .collect (1, 0)]

theorem first_replica_folds :
    let after := Transition.run FoldCluster.step twoReplicas firstFolds
    (after.call (1, 0)).Past ∧ ∀ d, d.1 ∈ after.replicas → (after.call d).Past → d.1 = 1 := by
  have hpast : ((Transition.run FoldCluster.step twoReplicas firstFolds).call (1, 0)).Past := by decide +kernel
  refine ⟨hpast, fun d hd hdp => ?_⟩
  refine one_replica_folds twoReplicas firstFolds (fun _ => rfl) ?_ d (1, 0) hd (by decide +kernel) hdp hpast
  refine ⟨fun _ _ => rfl, trivial, trivial, trivial, fun fp ms stage hc _ => ⟨.inl rfl, fun _ => rfl, fun i => trivial⟩, trivial,
    trivial⟩

/-- Replica 2 checks its lease before replica 1 proposes, and proposes after it has its answer. -/
theorem both_replicas_fold :
    let after := Transition.run FoldCluster.step twoReplicas
      [.enter (1, 0), .read (1, 0), .enter (2, 0), .read (2, 0), .propose (1, 0) 10, .deliver (1, 0) 2, .answer (1, 0) 2,
        .collect (1, 0), .propose (2, 0) 11, .deliver (2, 0) 1, .answer (2, 0) 1, .collect (2, 0)]
    (after.call (1, 0)).Past ∧ (after.call (2, 0)).Past := by
  decide +kernel

end Dfs
