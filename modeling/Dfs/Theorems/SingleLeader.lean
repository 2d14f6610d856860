import Mathlib.Data.Finset.Card
import Mathlib.Data.List.MinMax
import Dfs.Cluster

/-! # One leader per partition -/

namespace Dfs

open List ClusterManager

variable {l l' : List NodeId} {members : Finset NodeId}

namespace ClusterManager

def measuredSize (s : ClusterManager) : Nat := max s.nodes.values.length s.knownClusterSize

def SameOnline (s t : ClusterManager) : Prop := ∀ id, id ∈ s.onlineIds ↔ id ∈ t.onlineIds

/-! ## The leader -/

lemma nodup_onlineIds (s : ClusterManager) : s.onlineIds.Nodup := s.nodes.distinct.sublist (filter_sublist.map NodeInfo.id)

variable {s t : ClusterManager}

lemma majority_of_leader (h : s.leaderWithQuorum ≠ none) : s.measuredSize < 2 * s.onlineIds.length := by
  unfold leaderWithQuorum at h
  split at h
  · exact absurd rfl h
  rename_i hquorum
  simp only [quorumOf] at hquorum
  unfold measuredSize
  omega

lemma min?_congr (h : ∀ id, id ∈ l ↔ id ∈ l') : l.min? = l'.min? := by
  apply Option.ext
  intro id
  rw [min?_eq_some_iff, min?_eq_some_iff, h id]
  exact and_congr_right fun _ => forall_congr' fun b => by rw [h b]

lemma SameOnline.length_eq (h : s.SameOnline t) : s.onlineIds.length = t.onlineIds.length :=
  ((perm_ext_iff_of_nodup s.nodup_onlineIds t.nodup_onlineIds).mpr h).length_eq

lemma leader_eq_min (h : s.leaderWithQuorum ≠ none) : s.leaderWithQuorum = s.onlineIds.min? := by
  unfold leaderWithQuorum at h ⊢
  split at h
  · exact absurd rfl h
  rename_i hquorum
  exact if_neg hquorum

lemma SameOnline.leader_eq (h : s.SameOnline t) (hs : s.leaderWithQuorum ≠ none) (ht : t.leaderWithQuorum ≠ none) :
    s.leaderWithQuorum = t.leaderWithQuorum := by
  rw [leader_eq_min hs, leader_eq_min ht]
  exact min?_congr h

lemma SameOnline.answer_eq (h : s.SameOnline t) (hsize : s.measuredSize = t.measuredSize) :
    s.leaderWithQuorum = t.leaderWithQuorum := by
  have hquorum : s.quorumOf s.nodes.values.length = t.quorumOf t.nodes.values.length := congrArg (· / 2 + 1) hsize
  unfold leaderWithQuorum
  rw [h.length_eq, hquorum, min?_congr h]

/-! ## The size -/

lemma knownClusterSize_mergeClusterGossip (s : ClusterManager) (gossip : List NodeHealthGossip) :
    (s.mergeClusterGossip gossip).knownClusterSize = s.knownClusterSize := by
  induction gossip generalizing s with
  | nil => rfl
  | cons e rest ih =>
    refine (ih (s.mergeGossipEntry e)).trans ?_
    unfold mergeGossipEntry
    split <;> rfl

lemma knownClusterSize_step (s : ClusterManager) (c : ClusterCall) : s.knownClusterSize ≤ (s.step c).knownClusterSize ∨
      (c = .forgetClusterMember ∧ s.knownClusterSize ≤ (s.step c).knownClusterSize + 1) := by
  cases c with
  | addNode info => exact .inl (Nat.le_max_left ..)
  | removeNode id =>
    left
    simp only [step, removeNode]
    split <;> exact Nat.le_refl _
  | updateHeartbeat id now => exact .inl (Nat.le_refl _)
  | mergeClusterGossip gossip => exact .inl (knownClusterSize_mergeClusterGossip s gossip).ge
  | setLeaving id now => exact .inl (Nat.le_refl _)
  | announceLeaving now => exact .inl (Nat.le_refl _)
  | announceRecovery => exact .inl (Nat.le_refl _)
  | checkFailedNodes now => exact .inl (Nat.le_refl _)
  | markNodeRecovered id now => exact .inl (Nat.le_refl _)
  | initKnownClusterSize persisted membersHint => exact .inl (Nat.le_trans (Nat.le_max_left ..) (Nat.le_max_left ..))
  | noteClusterSize n => exact .inl (Nat.le_max_left ..)
  | forgetClusterMember =>
    right
    refine ⟨rfl, ?_⟩
    simp only [step, forgetClusterMember]
    omega

end ClusterManager

/-! ## Partitions -/

/-- In groups: a node sees itself and none of another group, and knows of no smaller cluster. -/
structure Divided {γ : Type*} (members : Finset NodeId) (group : NodeId → γ) (manager : NodeId → ClusterManager) : Prop where
  within : ∀ i ∈ members, ∀ id ∈ (manager i).onlineIds, id ∈ members ∧ group id = group i
  itself : ∀ i ∈ members, i ∈ (manager i).onlineIds
  size : ∀ i ∈ members, members.card ≤ (manager i).knownClusterSize

lemma length_add_le_of_disjoint (hl : l.Nodup) (hl' : l'.Nodup) (hdisjoint : List.Disjoint l l')
    (hsub : ∀ id ∈ l, id ∈ members) (hsub' : ∀ id ∈ l', id ∈ members) : l.length + l'.length ≤ members.card := by
  have hnodup : (l ++ l').Nodup := List.Nodup.append hl hl' hdisjoint
  have hsubset : (l ++ l').toFinset ⊆ members := by
    intro id hid
    rcases mem_append.mp (mem_toFinset.mp hid) with hid | hid
    · exact hsub id hid
    · exact hsub' id hid
  calc l.length + l'.length
      = (l ++ l').toFinset.card := by rw [toFinset_card_of_nodup hnodup, length_append]
    _ ≤ members.card := Finset.card_le_card hsubset

lemma Divided.group_eq {γ : Type*} {group : NodeId → γ} {manager : NodeId → ClusterManager}
    (h : Divided members group manager) {i j : NodeId} (hi : i ∈ members) (hj : j ∈ members)
    (hleader : (manager i).leaderWithQuorum ≠ none) (hleader' : (manager j).leaderWithQuorum ≠ none) : group i = group j := by
  by_contra hne
  have hdisjoint : List.Disjoint (manager i).onlineIds (manager j).onlineIds := by
    intro id hid hid'
    exact hne ((h.within i hi id hid).2.symm.trans (h.within j hj id hid').2)
  have hcount := length_add_le_of_disjoint (manager i).nodup_onlineIds (manager j).nodup_onlineIds hdisjoint
    (fun id hid => (h.within i hi id hid).1) (fun id hid => (h.within j hj id hid).1)
  have hmajority := majority_of_leader hleader
  have hmajority' := majority_of_leader hleader'
  have hsize := h.size i hi
  have hsize' := h.size j hj
  unfold measuredSize at hmajority hmajority'
  omega

/-- At most one group gets a leader; those with one view get the same if both get one, and the same answer for the same size. The
recorded size drops only by forgetting a member. -/
theorem single_leader {γ : Type*} {members : Finset NodeId} {group : NodeId → γ} {manager : NodeId → ClusterManager}
    (h : Divided members group manager) :
    (∀ i ∈ members, ∀ j ∈ members, (manager i).leaderWithQuorum ≠ none → (manager j).leaderWithQuorum ≠ none →
      group i = group j) ∧
      (∀ i ∈ members, ∀ j ∈ members, (manager i).SameOnline (manager j) →
        ((manager i).leaderWithQuorum ≠ none → (manager j).leaderWithQuorum ≠ none →
          (manager i).leaderWithQuorum = (manager j).leaderWithQuorum) ∧
        ((manager i).measuredSize = (manager j).measuredSize → (manager i).leaderWithQuorum = (manager j).leaderWithQuorum)) ∧
      ∀ (s : ClusterManager) (calls : List ClusterCall), Transition.Meets ClusterManager.step
        (fun s c => s.knownClusterSize ≤ (s.step c).knownClusterSize ∨
          (c = .forgetClusterMember ∧ s.knownClusterSize ≤ (s.step c).knownClusterSize + 1)) s calls := by
  refine ⟨?_, ?_, ?_⟩
  · intro i hi j hj hleader hleader'
    exact h.group_eq hi hj hleader hleader'
  · intro i _ j _ hsame
    exact ⟨hsame.leader_eq, hsame.answer_eq⟩
  · intro s calls
    exact Transition.meets_of_forall fun c _ s => s.knownClusterSize_step c

def splitView (i : NodeId) : ClusterManager :=
  [1, 2, 3, 4, 5].foldl
    (fun s id => s.addNode ⟨id, if decide (id ≤ 3) = decide (i ≤ 3) then .online else .failed, 0, 0⟩) (.new i 30 0)

theorem single_leader_of_split : (splitView 1).leaderWithQuorum = some 1 ∧ (splitView 4).leaderWithQuorum = none := by
  have hdivided : Divided {1, 2, 3, 4, 5} (fun i => decide (i ≤ 3)) splitView := ⟨by decide, by decide, by decide⟩
  refine ⟨by decide, ?_⟩
  by_contra hleader
  exact absurd ((single_leader hdivided).1 1 (by decide) 4 (by decide) (by decide) hleader) (by decide)

/-- Three of six are removed. The node asked forgets them, the others hear that they leave. -/
def shrunkView (asked i : NodeId) : ClusterManager :=
  let joins := [1, 2, 3, 4, 5, 6].map fun id => ClusterCall.addNode (NodeInfo.new id 0)
  let leaves := [4, 5, 6].flatMap fun id =>
    if i = asked then [ClusterCall.removeNode id, ClusterCall.forgetClusterMember] else [ClusterCall.removeNode id]
  Transition.run ClusterManager.step (.new i 30 0) (joins ++ leaves)

theorem quorum_sizes_differ : Divided {1, 2, 3} (fun _ => ()) (shrunkView 2) ∧ (shrunkView 2 1).SameOnline (shrunkView 2 2) ∧
      (shrunkView 2 1).leaderWithQuorum = none ∧ (shrunkView 2 2).leaderWithQuorum = some 1 := by
  have honline : (shrunkView 2 1).onlineIds = (shrunkView 2 2).onlineIds := by decide
  refine ⟨⟨by decide, by decide, by decide⟩, fun id => ?_, by decide, by decide⟩
  rw [honline]

end Dfs
