import Dfs.Theorems.LeavingNode

/-! # Gossip in either order -/

namespace Dfs

open NodeInfo ClusterManager

/-- The newest word, newer than what is known, says it is online. -/
def NodeInfo.NewestOnline (n : NodeInfo) (gossip : List NodeHealthGossip) : Prop :=
  ∃ e ∈ gossip, e.nodeId = n.id ∧ e.status = .online ∧ n.lastHeartbeat < e.lastSeen ∧
    ∀ e' ∈ gossip, e'.nodeId = n.id → e'.lastSeen ≤ e.lastSeen

namespace NodeInfo

variable {localNodeId : NodeId} {n : NodeInfo}

lemma lastHeartbeat_heardAll_le_iff (hlocal : n.id ≠ localNodeId) (gossip : List NodeHealthGossip) (t : Nat) :
    (n.heardAll localNodeId gossip).lastHeartbeat ≤ t ↔ n.lastHeartbeat ≤ t ∧ ∀ e ∈ gossip, e.nodeId = n.id → e.lastSeen ≤ t := by
  induction gossip generalizing n with
  | nil => simp [heardAll]
  | cons e rest ih =>
    have hhead : (n.heardEntry localNodeId e).lastHeartbeat ≤ t ↔ n.lastHeartbeat ≤ t ∧ (e.nodeId = n.id → e.lastSeen ≤ t) := by
      by_cases hid : n.id = e.nodeId
      · rw [heardEntry_of_eq hlocal hid, heard]
        split <;> simp [hid] <;> omega
      · simp [heardEntry_of_ne hid, Ne.symm hid]
    have htail := ih (n := n.heardEntry localNodeId e) (by rwa [id_heardEntry])
    rw [id_heardEntry] at htail
    simp only [List.forall_mem_cons, ← and_assoc, ← hhead]
    exact htail

lemma status_heardAll_cases (localNodeId : NodeId) (gossip : List NodeHealthGossip) (n : NodeInfo) :
    (n.heardAll localNodeId gossip).status = .online ∨ (n.heardAll localNodeId gossip).status = n.status := by
  induction gossip generalizing n with
  | nil => exact .inr rfl
  | cons e rest ih =>
    have hhead : (n.heardEntry localNodeId e).status = .online ∨ (n.heardEntry localNodeId e).status = n.status := by
      unfold heardEntry heard
      split_ifs <;> simp
    rcases ih (n.heardEntry localNodeId e) with h | h
    · exact .inl h
    · exact hhead.imp h.trans h.trans

lemma status_heardAll_eq_iff (hlocal : n.id ≠ localNodeId) (g₁ g₂ : List NodeHealthGossip) :
    (n.heardAll localNodeId g₁).status = (n.heardAll localNodeId g₂).status ↔ (n.status = .failed ∨ n.status = .suspected →
        (OnlineNews n.id n.lastHeartbeat g₁ ↔ OnlineNews n.id n.lastHeartbeat g₂)) := by
  by_cases hout : n.status = .online
  · simp [hout, status_heardAll_of_online]
  have honline : ∀ g, (n.heardAll localNodeId g).status = .online ↔ _ := fun g => status_heardAll_iff hlocal hout
  have h₁ := honline g₁
  have h₂ := honline g₂
  rcases n.status_heardAll_cases localNodeId g₁ with h | h <;> rcases n.status_heardAll_cases localNodeId g₂ with h' | h' <;>
    simp only [h, h', hout, Ne.symm hout, false_iff, true_iff] at h₁ h₂ ⊢ <;> tauto

end NodeInfo

/-- Gossip leaves the same times in both orders. It leaves the same status, and no node failed whose newest word is
online, exactly if of each node down both orders or none have it online, and a failed one last reported online has
news. -/
theorem gossip_commutes_iff (s : ClusterManager) (g₁ g₂ : List NodeHealthGossip) :
    let before := (s.mergeClusterGossip g₁).mergeClusterGossip g₂
    let after := (s.mergeClusterGossip g₂).mergeClusterGossip g₁
    ((∀ a ∈ before.nodes, ∀ b ∈ after.nodes, a.id = b.id → a.lastHeartbeat = b.lastHeartbeat) ∧
    ((∀ a ∈ before.nodes, ∀ b ∈ after.nodes, a.id = b.id → a.status = b.status) ∧
      (∀ n ∈ s.nodes, n.id ≠ s.localNodeId → n.NewestOnline (g₁ ++ g₂) → ∀ a ∈ before.nodes, a.id = n.id → a.status ≠ .failed) ↔
    ∀ n ∈ s.nodes, n.id ≠ s.localNodeId →
      (n.status = .failed ∨ n.status = .suspected →
        (OnlineNews n.id n.lastHeartbeat (g₁ ++ g₂) ↔ OnlineNews n.id n.lastHeartbeat (g₂ ++ g₁))) ∧
      (n.status = .failed → n.NewestOnline (g₁ ++ g₂) → OnlineNews n.id n.lastHeartbeat (g₁ ++ g₂)))) := by
  intro before after
  have hbefore {a} : a ∈ before.nodes ↔ ∃ m ∈ s.nodes, m.heardAll s.localNodeId (g₁ ++ g₂) = a := by
    rw [← mem_mergeClusterGossip, mergeClusterGossip, List.foldl_append]
    rfl
  have hafter {a} : a ∈ after.nodes ↔ ∃ m ∈ s.nodes, m.heardAll s.localNodeId (g₂ ++ g₁) = a := by
    rw [← mem_mergeClusterGossip, mergeClusterGossip, List.foldl_append]
    rfl
  -- entries with the same id come from one node
  have hpairs (P : NodeInfo → NodeInfo → Prop) : (∀ a ∈ before.nodes, ∀ b ∈ after.nodes, a.id = b.id → P a b) ↔
      ∀ n ∈ s.nodes, P (n.heardAll s.localNodeId (g₁ ++ g₂)) (n.heardAll s.localNodeId (g₂ ++ g₁)) := by
    constructor
    · intro h n hn
      exact h _ (hbefore.mpr ⟨n, hn, rfl⟩) _ (hafter.mpr ⟨n, hn, rfl⟩) (by simp [id_heardAll])
    · intro h a ha b hb hid
      obtain ⟨m, hm, rfl⟩ := hbefore.mp ha
      obtain ⟨m', hm', rfl⟩ := hafter.mp hb
      rw [id_heardAll, id_heardAll] at hid
      exact Registry.eq_of_key_eq hm hm' hid ▸ h m hm
  rw [hpairs, hpairs]
  refine ⟨fun n hn => ?_, ?_⟩
  · by_cases hlocal : n.id = s.localNodeId
    · simp [heardAll_local hlocal]
    have hle (t) : (n.heardAll s.localNodeId (g₁ ++ g₂)).lastHeartbeat ≤ t ↔
        (n.heardAll s.localNodeId (g₂ ++ g₁)).lastHeartbeat ≤ t := by
      simp only [lastHeartbeat_heardAll_le_iff hlocal, List.mem_append, or_comm]
    exact Nat.le_antisymm ((hle _).mpr (Nat.le_refl _)) ((hle _).mp (Nat.le_refl _))
  constructor
  · rintro ⟨hsame, hrevived⟩ n hn hlocal
    refine ⟨(status_heardAll_eq_iff hlocal _ _).mp (hsame n hn), fun hfailed hnewest => ?_⟩
    have hup := hrevived n hn hlocal hnewest _ (hbefore.mpr ⟨n, hn, rfl⟩) (n.id_heardAll _ _)
    rcases n.status_heardAll_cases s.localNodeId (g₁ ++ g₂) with h | h
    · exact ((status_heardAll_iff hlocal (by simp [hfailed])).mp h).2
    · exact absurd (h.trans hfailed) hup
  · intro hall
    refine ⟨fun n hn => ?_, fun n hn hlocal hnewest a ha hid hfailed => ?_⟩
    · by_cases hlocal : n.id = s.localNodeId
      · simp [heardAll_local hlocal]
      · exact (status_heardAll_eq_iff hlocal _ _).mpr (hall n hn hlocal).1
    · obtain ⟨m, hm, rfl⟩ := hbefore.mp ha
      obtain rfl := Registry.eq_of_key_eq hm hn ((m.id_heardAll _ _).symm.trans hid)
      have hdown : m.status = .failed := by
        rcases m.status_heardAll_cases s.localNodeId (g₁ ++ g₂) with h | h <;> simp_all
      have hup := (status_heardAll_iff hlocal (by simp [hdown])).mpr ⟨.inl hdown, (hall m hm hlocal).2 hdown hnewest⟩
      simp [hfailed] at hup

/-- Failed node 2, online at 5 in one list and failed at 10 in the other, comes back only if the first comes first;
reported failed and online at one time, it stays failed. -/
theorem gossip_order_decides :
    let s := (ClusterManager.new 1 30 0).addNode ⟨2, .failed, 0, 0⟩
    let merged (a b : NodeHealthGossip) := ((s.mergeClusterGossip [a]).mergeClusterGossip [b]).nodes.get 2
    merged ⟨2, .online, 5⟩ ⟨2, .failed, 10⟩ = some ⟨2, .online, 10, 0⟩ ∧
      merged ⟨2, .failed, 10⟩ ⟨2, .online, 5⟩ = some ⟨2, .failed, 10, 0⟩ ∧
      merged ⟨2, .failed, 10⟩ ⟨2, .online, 10⟩ = some ⟨2, .failed, 10, 0⟩ := by
  decide +kernel

end Dfs
