import Dfs.Cluster

/-! # The members of the hash ring -/

namespace Dfs

open Registry ClusterManager

/-- A node that has a place in the ring: it is online or only suspected. -/
def NodeInfo.Live (n : NodeInfo) : Prop := n.status = .online ∨ n.status = .suspected

/-- Every node online is in the ring, no failed or leaving one is. -/
def ClusterManager.RingFollows (s : ClusterManager) : Prop :=
  ∀ n ∈ s.nodes, (n.status = .online → n.id ∈ s.hashRing) ∧ (n.status = .failed ∨ n.status = .leaving → n.id ∉ s.hashRing)

instance (s : ClusterManager) : Decidable s.RingFollows :=
  inferInstanceAs (Decidable (∀ n ∈ s.nodes.values,
    (n.status = .online → n.id ∈ s.hashRing) ∧ (n.status = .failed ∨ n.status = .leaving → n.id ∉ s.hashRing)))

/-- Nodes are added live, heartbeats are of live nodes, and this node leaves when it is not live. -/
def ClusterCall.RingSafe (s : ClusterManager) : ClusterCall → Prop
  | .addNode info => info.Live
  | .updateHeartbeat id _ => ∀ n ∈ s.nodes, n.id = id → n.Live
  | .announceLeaving _ => ∀ n ∈ s.nodes, n.id = s.localNodeId → ¬ n.Live
  | _ => True

/-- The members of the ring among the nodes of a registry are the live ones. -/
def RingTracks (nodes : Registry NodeInfo.id) (ring : List NodeId) : Prop := ∀ n ∈ nodes, n.id ∈ ring ↔ n.Live

def ClusterManager.RingTracked (s : ClusterManager) : Prop := RingTracks s.nodes s.hashRing

namespace RingTracks

variable {nodes : Registry NodeInfo.id} {ring : List NodeId}

lemma modify (h : RingTracks nodes ring) {id : NodeId} {f : NodeInfo → NodeInfo} (hf : ∀ n, (f n).id = n.id) {ring' : List NodeId}
    (hring : ∀ k, k ≠ id → (k ∈ ring' ↔ k ∈ ring)) (hself : ∀ n ∈ nodes, n.id = id → (id ∈ ring' ↔ (f n).Live)) :
    RingTracks (nodes.modify id f hf) ring' := by
  intro n hn
  rcases mem_modify.mp hn with ⟨hmem, hne⟩ | ⟨m, hm, hid, rfl⟩
  · rw [hring n.id hne]
    exact h n hmem
  rw [hf m, hid]
  exact hself m hm hid

end RingTracks

lemma ClusterManager.RingTracked.ringFollows {s : ClusterManager} (h : s.RingTracked) : s.RingFollows := by
  intro n hn
  refine ⟨fun honline => (h n hn).mpr (.inl honline), fun hdown hmem => ?_⟩
  rcases (h n hn).mp hmem with hlive | hlive <;> rw [hlive] at hdown <;> simp at hdown

namespace ClusterManager

variable {s : ClusterManager}

lemma ringTracked_new (id : NodeId) (failureTimeout now : Nat) : (new id failureTimeout now).RingTracked := by
  intro n hn
  rw [mem_singleton.mp hn]
  exact iff_of_true (List.mem_singleton.mpr rfl) (.inl rfl)

/-! ## The calls -/

section

variable (h : s.RingTracked)

include h

lemma ringTracked_addNode {info : NodeInfo} (hlive : info.Live) : (s.addNode info).RingTracked := by
  intro n hn
  show n.id ∈ ringAdd s.hashRing info.id ↔ n.Live
  rw [mem_ringAdd]
  rcases mem_insert.mp hn with rfl | ⟨hmem, hne⟩
  · exact iff_of_true (.inr rfl) hlive
  rw [or_iff_left hne]
  exact h n hmem

lemma ringTracked_removeNode (id : NodeId) : (s.removeNode id).RingTracked := by
  unfold removeNode
  split
  · intro n hn
    obtain ⟨hmem, hne⟩ := mem_remove.mp hn
    rw [mem_ringRemove, and_iff_left hne]
    exact h n hmem
  · exact h

lemma ringTracked_updateHeartbeat {id : NodeId} (now : Nat)
    (hlive : ∀ n ∈ s.nodes, n.id = id → n.Live) : (s.updateHeartbeat id now).RingTracked := by
  refine RingTracks.modify h (fun _ => by rfl) (fun _ _ => Iff.rfl) fun n hn hid => ?_
  rw [← hid]
  exact iff_of_true ((h n hn).mpr (hlive n hn hid)) (.inl rfl)

lemma ringTracked_mergeGossipEntry (e : NodeHealthGossip) : (s.mergeGossipEntry e).RingTracked := by
  unfold mergeGossipEntry
  split
  · exact h
  dsimp only
  refine RingTracks.modify h (NodeInfo.id_heard e) (fun k hk => ?_) fun n hn hid => ?_
  · split
    · rw [mem_ringAdd, or_iff_left hk]
    · exact Iff.rfl
  · have hring := h n hn
    rw [hid] at hring
    have hresurrected := any_key_iff hn hid fun m : NodeInfo =>
      m.lastHeartbeat < e.lastSeen ∧ e.status = .online ∧ m.status = .failed
    by_cases hres : n.lastHeartbeat < e.lastSeen ∧ e.status = .online ∧ n.status = .failed
    · rw [if_pos (hresurrected.mpr hres)]
      refine iff_of_true (mem_ringAdd.mpr (.inr rfl)) (.inl ?_)
      simp [NodeInfo.heard, hres]
    rw [if_neg (mt hresurrected.mp hres), hring]
    unfold NodeInfo.heard NodeInfo.Live
    split
    · rename_i hnewer
      cases hs : n.status <;> simp_all [Classical.em]
    · exact Iff.rfl

lemma ringTracked_mergeClusterGossip (gossip : List NodeHealthGossip) : (s.mergeClusterGossip gossip).RingTracked := by
  induction gossip generalizing s with
  | nil => exact h
  | cons e rest ih => exact ih (ringTracked_mergeGossipEntry h e)

lemma ringTracked_setLeaving (id : NodeId) (now : Nat) : (s.setLeaving id now).RingTracked := by
  simp only [RingTracked, setLeaving]
  refine RingTracks.modify h (fun _ => by rfl) (fun k hk => ?_) fun n _ _ => ?_
  · rw [mem_ringRemove, and_iff_left hk]
  · exact iff_of_false (fun hmem => (mem_ringRemove.mp hmem).2 rfl) nofun

lemma ringTracked_announceLeaving (now : Nat) (hdown : ∀ n ∈ s.nodes, n.id = s.localNodeId → ¬ n.Live) :
    (s.announceLeaving now).RingTracked := by
  refine RingTracks.modify h (fun _ => by rfl) (fun _ _ => Iff.rfl) fun n hn hid => ?_
  rw [← hid]
  exact iff_of_false (mt (h n hn).mp (hdown n hn hid)) nofun

lemma ringTracked_announceRecovery : s.announceRecovery.RingTracked := by
  simp only [RingTracked, announceRecovery]
  refine RingTracks.modify h (fun _ => by rfl) (fun k hk => ?_) fun n _ _ => ?_
  · rw [mem_ringAdd, or_iff_left hk]
  · exact iff_of_true (mem_ringAdd.mpr (.inr rfl)) (.inl rfl)

end

lemma live_check_iff (failureTimeout now : Nat) (n : NodeInfo) : (n.check failureTimeout now).1.Live ↔
      (n.check failureTimeout now).2 = .recovers ∨ (n.Live ∧ (n.check failureTimeout now).2 ≠ .fails) := by
  unfold NodeInfo.check NodeInfo.Live
  cases hs : n.status <;> dsimp only <;> split <;> (try split) <;> simp [hs]

lemma live_judge_iff (s : ClusterManager) (now : Nat) (n : NodeInfo) :
    (s.judge now n).1.Live ↔ (s.judge now n).2 = .recovers ∨ (n.Live ∧ (s.judge now n).2 ≠ .fails) := by
  unfold judge
  split
  · simp
  · exact live_check_iff s.failureTimeout now n

variable {ids : List NodeId} {k : NodeId} {c : ClusterCall}

lemma mem_foldl_ringRemove {ring : List NodeId} : k ∈ ids.foldl ringRemove ring ↔ k ∈ ring ∧ k ∉ ids := by
  induction ids generalizing ring with
  | nil => simp
  | cons id rest ih => rw [List.foldl_cons, ih, mem_ringRemove, List.mem_cons, not_or, and_assoc]

lemma ringTracked_checkFailedNodes (h : s.RingTracked) (now : Nat) : (s.checkFailedNodes now).RingTracked := by
  intro n' hn'
  obtain ⟨hmem, -⟩ := mem_filter.mp hn'
  obtain ⟨n, hn, rfl⟩ := mem_mapValues.mp hmem
  show (s.judge now n).1.id ∈ (s.judged now .recovers).foldl ringAdd ((s.judged now .fails).foldl ringRemove s.hashRing) ↔ _
  rw [id_judge, mem_foldl_ringAdd, mem_foldl_ringRemove, mem_judged_iff now .recovers hn, mem_judged_iff now .fails hn, h n hn,
    live_judge_iff, or_comm]

lemma ringTracked_markNodeRecovered (h : s.RingTracked) (id : NodeId) (now : Nat) : (s.markNodeRecovered id now).RingTracked := by
  unfold markNodeRecovered
  dsimp only
  refine RingTracks.modify h (fun n => by split <;> rfl) (fun k hk => ?_) fun n hn hid => ?_
  · split
    · rw [mem_ringAdd, or_iff_left hk]
    · exact Iff.rfl
  · have hrecovered := any_key_iff hn hid fun m : NodeInfo => m.status = .failed
    by_cases hfailed : n.status = .failed
    · rw [if_pos hfailed, if_pos (hrecovered.mpr hfailed)]
      exact iff_of_true (mem_ringAdd.mpr (.inr rfl)) (.inl rfl)
    rw [if_neg hfailed, if_neg (mt hrecovered.mp hfailed), ← hid]
    exact h n hn

lemma ringTracked_step (h : s.RingTracked) (hsafe : c.RingSafe s) : (s.step c).RingTracked := by
  cases c with
  | addNode info => exact ringTracked_addNode h hsafe
  | removeNode id => exact ringTracked_removeNode h id
  | updateHeartbeat id now => exact ringTracked_updateHeartbeat h now hsafe
  | mergeClusterGossip gossip => exact ringTracked_mergeClusterGossip h gossip
  | setLeaving id now => exact ringTracked_setLeaving h id now
  | announceLeaving now => exact ringTracked_announceLeaving h now hsafe
  | announceRecovery => exact ringTracked_announceRecovery h
  | checkFailedNodes now => exact ringTracked_checkFailedNodes h now
  | markNodeRecovered id now => exact ringTracked_markNodeRecovered h id now
  | initKnownClusterSize persisted membersHint => exact h
  | noteClusterSize n => exact h
  | forgetClusterMember => exact h

/-! ## What breaks it -/

lemma not_live_iff {n : NodeInfo} : ¬ n.Live ↔ n.status = .failed ∨ n.status = .leaving := by
  unfold NodeInfo.Live
  cases n.status <;> simp

lemma ringSafe_of_ringFollows (h : s.RingTracked) (hfollows : (s.step c).RingFollows) : c.RingSafe s := by
  cases c with
  | addNode info =>
    by_contra hdown
    have hout := (hfollows info (mem_insert.mpr (.inl rfl))).2 (not_live_iff.mp hdown)
    exact hout (mem_ringAdd.mpr (.inr rfl))
  | updateHeartbeat id now =>
    intro n hn hid
    have hmem : { n with lastHeartbeat := now, status := .online } ∈ (s.updateHeartbeat id now).nodes := by
      simp only [updateHeartbeat, mem_modify]
      exact .inr ⟨n, hn, hid, rfl⟩
    exact (h n hn).mp ((hfollows _ hmem).1 rfl)
  | announceLeaving now =>
    intro n hn hid hlive
    have hmem : { n with status := .leaving, leavingAt := now } ∈ (s.announceLeaving now).nodes := by
      simp only [announceLeaving, mem_modify]
      exact .inr ⟨n, hn, hid, rfl⟩
    exact (hfollows _ hmem).2 (.inr rfl) ((h n hn).mpr hlive)
  | _ => trivial

end ClusterManager

/-- The ring follows the status exactly if calls add only live nodes, update only their heartbeats, and do not
announce this node leaving while live. -/
theorem ring_follows_status (id : NodeId) (failureTimeout now : Nat) (calls : List ClusterCall) :
    Transition.Meets ClusterManager.step (fun s c => (s.step c).RingFollows) (.new id failureTimeout now) calls ↔
      Transition.Meets ClusterManager.step (fun s c => c.RingSafe s) (.new id failureTimeout now) calls := by
  refine Transition.meets_iff (fun s c h => ?_) (fun s c h hsafe => ?_) (ringTracked_new id failureTimeout now)
  · exact ⟨ringSafe_of_ringFollows h, fun hsafe => (ringTracked_step h hsafe).ringFollows⟩
  · exact ringTracked_step h hsafe

/-- A join response adds a failed node; a leave comes between the two calls for a heartbeat. -/
theorem ring_misses_revived : ¬ ((ClusterManager.new 1 30 5).addNode ⟨2, .failed, 0, 0⟩).RingFollows ∧
      ¬ (Transition.run ClusterManager.step (.new 1 30 5)
          [.addNode (NodeInfo.new 2 5), .setLeaving 2 6, .updateHeartbeat 2 6]).RingFollows := by decide

end Dfs
