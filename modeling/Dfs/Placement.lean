import Dfs.Cluster
import Mathlib.Data.List.Sort

/-!
# Capacity-aware placement

`get_nodes_with_capacity_awareness`, with the random keys and the disk reports as parameters.
-/

namespace Dfs

open List ClusterManager

structure NodeCapacity where
  available : Nat
  total : Nat
  lastUpdated : Nat
  deriving DecidableEq, Repr

def minFreeBytes : Nat := 20 * 1024 * 1024 * 1024

/-- `node_capacities`, the clock, and the keys. -/
structure PlacementEnv where
  capacities : NodeId → Option NodeCapacity
  now : Nat
  key : NodeId → Nat

/-- The available and the total bytes that `node_caps` has for a node. -/
def PlacementEnv.nodeCap (env : PlacementEnv) (id : NodeId) : Nat × Nat :=
  match env.capacities id with
  | some cap =>
    if 0 < cap.total ∧ env.now - cap.lastUpdated < 300 then (cap.available, cap.total) else (cap.total / 2, cap.total)
  | none => (1000000000000, 2000000000000)

def PlacementEnv.eligible (env : PlacementEnv) (id : NodeId) : Bool :=
  decide ((env.nodeCap id).2 = 0) || decide (minFreeBytes ≤ (env.nodeCap id).1)

/-- A node is online, or not registered. -/
def ClusterManager.placeable (s : ClusterManager) (id : NodeId) : Bool :=
  (s.nodes.get id).elim true fun n => decide (n.status = .online)

/-- The offline ones come last, if there are too few others. -/
def ClusterManager.allNodes (s : ClusterManager) (count : Nat) : List NodeId :=
  let online := s.hashRing.filter s.placeable
  if online.length < count then online ++ s.hashRing.filter (fun id => !s.placeable id) else online

/-- The candidates of a call with more nodes than it needs. -/
def ClusterManager.candidates (s : ClusterManager) (env : PlacementEnv) (count : Nat) : List NodeId :=
  let eligible := (s.allNodes count).filter env.eligible
  if count ≤ eligible.length then eligible else (s.allNodes count).insertionSort fun a b => (env.nodeCap b).1 ≤ (env.nodeCap a).1

/-- `none`: the call panics, at the remainder by the number of nodes. -/
def ClusterManager.getNodesWithCapacityAwareness (s : ClusterManager) (env : PlacementEnv) (seed count : Nat) :
    Option (List NodeId) :=
  let allNodes := s.allNodes count
  if allNodes.length ≤ count then
    if allNodes.length = 0 then none
    else
      let offset := seed % allNodes.length
      some (allNodes.drop offset ++ allNodes.take offset)
  else some (((s.candidates env count).insertionSort fun a b => env.key b ≤ env.key a).take count)

/-- A report younger than 300 seconds is below the floor. -/
def PlacementEnv.belowFloor (env : PlacementEnv) (id : NodeId) : Bool :=
  (env.capacities id).any fun cap => decide (env.now - cap.lastUpdated < 300) && decide (cap.available < minFreeBytes)

/-- The online or unregistered nodes of the ring with no report below the floor. -/
def ClusterManager.roomy (s : ClusterManager) (env : PlacementEnv) : List NodeId :=
  (s.hashRing.filter s.placeable).filter fun id => !env.belowFloor id

/-- What a placement is to be. -/
structure WellPlaced (s : ClusterManager) (env : PlacementEnv) (count : Nat) (result : List NodeId) : Prop where
  length : result.length = min count s.hashRing.length
  members : result ⊆ s.hashRing
  distinct : s.hashRing.Nodup → result.Nodup
  online : count ≤ (s.hashRing.filter s.placeable).length → ∀ id ∈ result, s.placeable id = true
  roomy : count ≤ (s.roomy env).length → ∀ id ∈ result, env.belowFloor id = false

variable {s : ClusterManager} {env : PlacementEnv} {seed count : Nat} {result : List NodeId}

/-- The candidates are among the members, and as many as wanted where the ring has so many. -/
theorem subperm_allNodes (s : ClusterManager) (count : Nat) :
    (s.allNodes count).Subperm s.hashRing ∧ min count (s.allNodes count).length = min count s.hashRing.length := by
  unfold allNodes
  have hperm : (s.hashRing.filter s.placeable ++ s.hashRing.filter fun id => !s.placeable id).Perm s.hashRing :=
    filter_append_perm s.placeable s.hashRing
  have hle := length_filter_le s.placeable s.hashRing
  dsimp only
  split
  · exact ⟨hperm.subperm, by rw [hperm.length_eq]⟩
  · exact ⟨filter_sublist.subperm, by omega⟩

lemma allNodes_of_le (h : count ≤ (s.hashRing.filter s.placeable).length) : s.allNodes count = s.hashRing.filter s.placeable :=
  if_neg (Nat.not_lt.mpr h)

lemma subperm_candidates (env : PlacementEnv) (h : count ≤ (s.allNodes count).length) :
    (s.candidates env count).Subperm (s.allNodes count) ∧ count ≤ (s.candidates env count).length := by
  unfold candidates
  dsimp only
  split
  · rename_i hle
    exact ⟨filter_sublist.subperm, hle⟩
  have hperm := perm_insertionSort (fun a b => (env.nodeCap b).1 ≤ (env.nodeCap a).1) (s.allNodes count)
  exact ⟨hperm.subperm, hperm.length_eq ▸ h⟩

/-- What a call that does not panic returns: `count` of its nodes, of the candidates if it has more nodes than that. -/
theorem getNodes_spec (h : s.getNodesWithCapacityAwareness env seed count = some result) :
    result.Subperm (s.allNodes count) ∧ result.length = min count (s.allNodes count).length ∧
      (count < (s.allNodes count).length → result.Subperm (s.candidates env count)) := by
  unfold getNodesWithCapacityAwareness at h
  dsimp only at h
  split at h
  · rename_i hle
    split at h
    · cases h
    cases h
    have hperm := perm_append_comm.trans (Perm.of_eq (take_append_drop (seed % (s.allNodes count).length) (s.allNodes count)))
    exact ⟨hperm.subperm, hperm.length_eq.trans (Nat.min_eq_right hle).symm, fun hlt => absurd hle (Nat.not_le.mpr hlt)⟩
  rename_i hlt
  cases h
  obtain ⟨hsub, hcount⟩ := subperm_candidates env (Nat.le_of_not_le hlt)
  have hperm := perm_insertionSort (fun a b => env.key b ≤ env.key a) (s.candidates env count)
  have htake := (take_sublist count _).subperm.trans hperm.subperm
  refine ⟨htake.trans hsub, ?_, fun _ => htake⟩
  rw [length_take, hperm.length_eq]
  omega

lemma getNodes_isSome (env : PlacementEnv) (seed : Nat) (h : s.allNodes count ≠ []) :
    ∃ result, s.getNodesWithCapacityAwareness env seed count = some result := by
  unfold getNodesWithCapacityAwareness
  dsimp only
  split
  · exact ⟨_, if_neg (by simpa using h)⟩
  · exact ⟨_, rfl⟩

/-- The candidates when enough nodes are online or unregistered. -/
def ClusterManager.vetted (s : ClusterManager) (env : PlacementEnv) (count : Nat) : List NodeId :=
  let online := s.hashRing.filter s.placeable
  if count ≤ (online.filter env.eligible).length then online.filter env.eligible else online

variable {id : NodeId}

lemma mem_candidates_iff_vetted (h : count ≤ (s.hashRing.filter s.placeable).length) :
    id ∈ s.candidates env count ↔ id ∈ s.vetted env count := by
  unfold candidates vetted
  rw [allNodes_of_le h]
  dsimp only
  split
  · rfl
  · exact (perm_insertionSort ..).mem_iff

lemma belowFloor_of_roomy (h : (s.hashRing.filter s.placeable).length ≤ (s.roomy env).length)
    (hid : id ∈ s.hashRing.filter s.placeable) : env.belowFloor id = false := by
  rw [← filter_sublist.eq_of_length_le h] at hid
  simpa using (mem_filter.mp hid).2

/-- The node with the largest key comes first. -/
theorem mem_take_of_top {key : NodeId → Nat} {l : List NodeId} (hid : id ∈ l) (htop : ∀ n ∈ l, key id ≤ key n → n = id)
    (hpos : 0 < count) : id ∈ (l.insertionSort fun a b => key b ≤ key a).take count := by
  have hperm := perm_insertionSort (fun a b => key b ≤ key a) l
  have : Std.Total (fun a b : NodeId => key b ≤ key a) := ⟨fun _ _ => le_total _ _⟩
  have : IsTrans NodeId (fun a b => key b ≤ key a) := ⟨fun _ _ _ hab hbc => hbc.trans hab⟩
  have hsorted := pairwise_insertionSort (fun a b => key b ≤ key a) l
  obtain ⟨count, rfl⟩ := Nat.exists_eq_succ_of_ne_zero hpos.ne'
  cases hs : l.insertionSort fun a b => key b ≤ key a with
  | nil => exact absurd (hs ▸ hperm.mem_iff.mpr hid) not_mem_nil
  | cons a rest =>
    rw [hs] at hperm hsorted
    have ha : a = id := by
      rcases mem_cons.mp (hperm.mem_iff.mpr hid) with rfl | hrest
      · rfl
      · exact htop a (hperm.mem_iff.mp mem_cons_self) ((pairwise_cons.mp hsorted).1 id hrest)
    simp [ha]

/-- Placement is well formed for all keys exactly if there is a node to place on and, where enough have no report
below the floor, none of those past the veto has one, or of all nodes if too few pass. -/
theorem placement_well_formed_iff (s : ClusterManager) (env : PlacementEnv) (seed count : Nat) :
    (∀ key, ∃ result, s.getNodesWithCapacityAwareness { env with key := key } seed count = some result ∧
        WellPlaced s { env with key := key } count result) ↔
      (s.hashRing ≠ [] ∧ (count = 0 → s.hashRing.filter s.placeable ≠ [])) ∧
        (0 < count → count ≤ (s.roomy env).length → ∀ id ∈ s.vetted env count, env.belowFloor id = false) := by
  have hroomy : (s.roomy env).length ≤ (s.hashRing.filter s.placeable).length := length_filter_le ..
  refine ⟨fun h => ⟨?_, fun hpos hcount id hid => ?_⟩, fun hcond key => ?_⟩
  · have hne : s.allNodes count ≠ [] := by
      intro hnil
      obtain ⟨result, hresult, -⟩ := h fun _ => 0
      simp [getNodesWithCapacityAwareness, hnil] at hresult
    unfold allNodes at hne
    constructor
    · intro hnil
      simp [hnil] at hne
    · rintro rfl
      simpa using hne
  · have honline := hcount.trans hroomy
    rcases Nat.lt_or_ge count (s.hashRing.filter s.placeable).length with hlt | hge
    · -- a key that puts the node first
      obtain ⟨result, hresult, hwell⟩ := h fun n => if n = id then 1 else 0
      refine hwell.roomy hcount id ?_
      simp only [getNodesWithCapacityAwareness, allNodes_of_le honline, if_neg (Nat.not_le.mpr hlt)] at hresult
      cases hresult
      exact mem_take_of_top ((mem_candidates_iff_vetted honline).mpr hid) (by simp; grind) hpos
    have hmem : id ∈ s.hashRing.filter s.placeable := by
      unfold vetted at hid
      dsimp only at hid
      split at hid
      · exact (mem_filter.mp hid).1
      · exact hid
    exact belowFloor_of_roomy (hge.trans hcount) hmem
  · obtain ⟨⟨hring, hzero⟩, hfloor⟩ := hcond
    have hne : s.allNodes count ≠ [] := by
      intro hnil
      obtain ⟨-, hlen⟩ := subperm_allNodes s count
      rcases Nat.eq_zero_or_pos count with rfl | hpos
      · exact hzero rfl (allNodes_of_le (Nat.zero_le _) ▸ hnil)
      have := length_pos_iff.mpr hring
      rw [hnil, length_nil] at hlen
      omega
    obtain ⟨result, hresult⟩ := getNodes_isSome { env with key := key } seed hne
    obtain ⟨hsub, hlen, hcand⟩ := getNodes_spec hresult
    obtain ⟨hall, hmin⟩ := subperm_allNodes s count
    refine ⟨result, hresult, hlen.trans hmin, (hsub.trans hall).subset, fun hd => ?_, fun honline id hid => ?_,
      fun hcount id hid => ?_⟩
    · obtain ⟨l, hperm, hsublist⟩ := hsub.trans hall
      exact hperm.nodup_iff.mp (hd.sublist hsublist)
    · exact (mem_filter.mp (allNodes_of_le honline ▸ hsub.subset hid)).2
    have honline := hcount.trans hroomy
    have hpos : 0 < count := by
      have := length_pos_of_mem hid
      omega
    have hmem := hsub.subset hid
    rw [allNodes_of_le honline] at hcand hmem
    rcases Nat.lt_or_ge count (s.hashRing.filter s.placeable).length with hlt | hge
    · exact hfloor hpos hcount id ((mem_candidates_iff_vetted honline).mp ((hcand hlt).subset hid))
    · exact belowFloor_of_roomy (hge.trans hcount) hmem

/-- An empty ring; and a full disk chosen while two others, whose reports are old and of small disks, are not below the floor. -/
theorem full_disk_is_chosen :
    let manager (ring : List NodeId) : ClusterManager := { ClusterManager.new 1 60 0 with hashRing := ring }
    let env : PlacementEnv := ⟨fun n => some ⟨0, minFreeBytes, if n = 1 then 1000 else 0⟩, 1000, fun n => if n = 1 then 1 else 0⟩
    (manager []).getNodesWithCapacityAwareness env 0 1 = none ∧ (manager [1, 2, 3]).roomy env = [2, 3] ∧
      (manager [1, 2, 3]).getNodesWithCapacityAwareness env 0 1 = some [1] := by
  decide +kernel

end Dfs
