import Dfs.Cluster

/-! # A node that is leaving -/

namespace Dfs

open Registry ClusterManager

structure ClusterEvent where
  sender : Option NodeId
  call : ClusterCall

def ClusterMessage.events (s : ClusterManager) (now : Nat) (m : ClusterMessage) : List ClusterEvent :=
  (m.calls s now).map fun c => ⟨m.sender, c⟩

variable (x : NodeId) (s : ClusterManager)

/-- A message of its own is handled, or it is this node and recovers. -/
def ClusterEvent.speaks (e : ClusterEvent) : Bool :=
  decide (e.sender = some x) ||
    match e.call with
    | .announceRecovery => decide (s.localNodeId = x)
    | _ => false

def ClusterEvent.marks (e : ClusterEvent) : Bool :=
  match e.call with
  | .setLeaving id _ => decide (id = x) && s.nodes.contains x
  | _ => false

/-- Whether a node has been silent since it was marked is not data of the source. -/
structure LeaveWatch where
  cluster : ClusterManager
  silent : Bool

def LeaveWatch.step (x : NodeId) (w : LeaveWatch) (e : ClusterEvent) : LeaveWatch where
  cluster := w.cluster.step e.call
  silent := if e.marks x w.cluster then true else if e.speaks x w.cluster then false else w.silent

def ClusterManager.OutOf : Prop := ∀ n ∈ s.nodes, n.id = x → n.status ≠ .online

def LeaveWatch.Out (w : LeaveWatch) : Prop := w.silent = true → w.cluster.OutOf x

/-- Newer than a time and than the entries about the node before it. -/
def OnlineNews (since : Nat) (gossip : List NodeHealthGossip) : Prop :=
  ∃ before e after, gossip = before ++ e :: after ∧ e.nodeId = x ∧ e.status = .online ∧ since < e.lastSeen ∧
    ∀ e' ∈ before, e'.nodeId = x → e'.lastSeen < e.lastSeen

def ClusterCall.KeepsOut : ClusterCall → Prop
  | .addNode info => info.id = x → info.status ≠ .online
  | .updateHeartbeat id _ => ∀ n ∈ s.nodes, n.id = x → id ≠ x
  | .mergeClusterGossip gossip => x ≠ s.localNodeId → ∀ n ∈ s.nodes, n.id = x → n.status = .failed ∨ n.status = .suspected →
      ¬ OnlineNews x n.lastHeartbeat gossip
  | .announceRecovery => ∀ n ∈ s.nodes, n.id = x → x ≠ s.localNodeId
  | .checkFailedNodes now => x ≠ s.localNodeId → ∀ n ∈ s.nodes, n.id = x →
      n.isTimedOut s.failureTimeout now = true ∨ (n.status = .leaving ∧ n.graceExpired now = true)
  | .markNodeRecovered id _ => ∀ n ∈ s.nodes, n.id = x → id = x → n.status ≠ .failed
  | _ => True

/-! ## Gossip -/

def NodeInfo.heardEntry (localNodeId : NodeId) (n : NodeInfo) (e : NodeHealthGossip) : NodeInfo :=
  if e.nodeId = localNodeId then n else if n.id = e.nodeId then n.heard e else n

def NodeInfo.heardAll (localNodeId : NodeId) (gossip : List NodeHealthGossip) (n : NodeInfo) : NodeInfo :=
  gossip.foldl (NodeInfo.heardEntry localNodeId) n

variable {e : NodeHealthGossip}

lemma mem_mergeGossipEntry {s : ClusterManager} {n : NodeInfo} :
    n ∈ (s.mergeGossipEntry e).nodes ↔ ∃ m ∈ s.nodes, m.heardEntry s.localNodeId e = n := by
  unfold mergeGossipEntry NodeInfo.heardEntry
  by_cases hlocal : e.nodeId = s.localNodeId
  · simp [if_pos hlocal]
  simp only [if_neg hlocal]
  exact mem_mapValues

lemma localNodeId_mergeGossipEntry (e : NodeHealthGossip) : (s.mergeGossipEntry e).localNodeId = s.localNodeId := by
  unfold mergeGossipEntry
  split <;> rfl

lemma mem_mergeClusterGossip {s : ClusterManager} {gossip : List NodeHealthGossip} {n : NodeInfo} :
    n ∈ (s.mergeClusterGossip gossip).nodes ↔ ∃ m ∈ s.nodes, m.heardAll s.localNodeId gossip = n := by
  induction gossip generalizing s with
  | nil => exact ⟨fun h => ⟨n, h, rfl⟩, fun ⟨m, hm, heq⟩ => heq ▸ hm⟩
  | cons e rest ih =>
    refine (ih (s := s.mergeGossipEntry e)).trans ?_
    rw [localNodeId_mergeGossipEntry]
    constructor
    · rintro ⟨k, hk, heq⟩
      obtain ⟨m, hm, rfl⟩ := mem_mergeGossipEntry.mp hk
      exact ⟨m, hm, heq⟩
    · rintro ⟨m, hm, heq⟩
      exact ⟨_, mem_mergeGossipEntry.mpr ⟨m, hm, rfl⟩, heq⟩

namespace NodeInfo

variable {localNodeId : NodeId} {gossip : List NodeHealthGossip} {n : NodeInfo}

lemma heardEntry_of_ne (h : n.id ≠ e.nodeId) : n.heardEntry localNodeId e = n := by
  rw [heardEntry, if_neg h, ite_self]

lemma heardEntry_of_eq (hlocal : n.id ≠ localNodeId) (h : n.id = e.nodeId) : n.heardEntry localNodeId e = n.heard e := by
  rw [heardEntry, if_neg (h ▸ hlocal), if_pos h]

lemma id_heardEntry (e : NodeHealthGossip) (n : NodeInfo) : (n.heardEntry localNodeId e).id = n.id := by
  unfold heardEntry
  split
  · rfl
  split
  · exact id_heard e n
  · rfl

lemma id_heardAll (localNodeId : NodeId) (gossip : List NodeHealthGossip) (n : NodeInfo) :
    (n.heardAll localNodeId gossip).id = n.id := by
  induction gossip generalizing n with
  | nil => rfl
  | cons e rest ih => exact (ih _).trans (id_heardEntry e n)

lemma heardAll_local (h : n.id = localNodeId) : n.heardAll localNodeId gossip = n := by
  induction gossip with
  | nil => rfl
  | cons e rest ih =>
    have hskip : n.heardEntry localNodeId e = n := by
      by_cases hother : e.nodeId = localNodeId
      · rw [heardEntry, if_pos hother]
      · exact heardEntry_of_ne fun heq => hother (heq.symm.trans h)
    unfold heardAll at ih ⊢
    rw [List.foldl_cons, hskip]
    exact ih

lemma status_heardAll_of_online (h : n.status = .online) : (n.heardAll localNodeId gossip).status = .online := by
  induction gossip generalizing n with
  | nil => exact h
  | cons e rest ih =>
    apply ih
    unfold heardEntry heard
    split
    · exact h
    split
    · split <;> simp [h]
    · exact h

lemma status_heard_of_news (hnew : n.lastHeartbeat < e.lastSeen) (honline : e.status = .online)
    (hdown : n.status = .failed ∨ n.status = .suspected) : (n.heard e).status = .online := by
  simp [heard, hnew, honline, hdown]

lemma heard_of_no_news
    (h : ¬ (n.lastHeartbeat < e.lastSeen ∧ e.status = .online ∧ (n.status = .failed ∨ n.status = .suspected))) :
    n.heard e = { n with lastHeartbeat := max n.lastHeartbeat e.lastSeen } := by
  unfold heard
  split
  · rename_i hnew
    rw [if_neg fun hup => h ⟨hnew, hup⟩, Nat.max_eq_right (Nat.le_of_lt hnew)]
  rename_i hold
  rw [Nat.max_eq_left (Nat.le_of_not_lt hold)]

end NodeInfo

lemma onlineNews_nil (since : Nat) : ¬ OnlineNews x since [] := by
  rintro ⟨before, e, after, hsplit, -⟩
  simp at hsplit

lemma onlineNews_cons {x : NodeId} {since : Nat} {rest : List NodeHealthGossip} : OnlineNews x since (e :: rest) ↔
      (e.nodeId = x ∧ e.status = .online ∧ since < e.lastSeen) ∨
        OnlineNews x (if e.nodeId = x then max since e.lastSeen else since) rest := by
  constructor
  · rintro ⟨before, e', after, hsplit, hid, honline, hnew, hlast⟩
    rcases List.cons_eq_append_iff.mp hsplit with ⟨rfl, hrest⟩ | ⟨before', rfl, hrest⟩
    · obtain ⟨rfl, rfl⟩ := List.cons.inj hrest
      exact .inl ⟨hid, honline, hnew⟩
    refine .inr ⟨before', e', after, hrest, hid, honline, ?_, fun e'' he'' => hlast e'' (List.mem_cons_of_mem _ he'')⟩
    split
    · rename_i hfirst
      exact Nat.max_lt.mpr ⟨hnew, hlast e (by simp) hfirst⟩
    · exact hnew
  · rintro (⟨hid, honline, hnew⟩ | ⟨before, e', after, rfl, hid, honline, hnew, hlast⟩)
    · exact ⟨[], e, rest, rfl, hid, honline, hnew, by simp⟩
    refine ⟨e :: before, e', after, rfl, hid, honline, ?_, ?_⟩
    · split at hnew
      · exact (Nat.max_lt.mp hnew).1
      · exact hnew
    · intro e'' he'' hid''
      rcases List.mem_cons.mp he'' with rfl | hmem
      · rw [if_pos hid''] at hnew
        exact (Nat.max_lt.mp hnew).2
      · exact hlast e'' hmem hid''

lemma status_heardAll_iff {localNodeId : NodeId} {gossip : List NodeHealthGossip} {n : NodeInfo} (hlocal : n.id ≠ localNodeId)
    (hout : n.status ≠ .online) : (n.heardAll localNodeId gossip).status = .online ↔
      (n.status = .failed ∨ n.status = .suspected) ∧ OnlineNews n.id n.lastHeartbeat gossip := by
  induction gossip generalizing n with
  | nil => exact iff_of_false hout fun h => onlineNews_nil _ _ h.2
  | cons e rest ih =>
    rw [onlineNews_cons]
    show ((n.heardEntry localNodeId e).heardAll localNodeId rest).status = .online ↔ _
    by_cases hid : e.nodeId = n.id
    · rw [NodeInfo.heardEntry_of_eq hlocal hid.symm, if_pos hid]
      by_cases hnews : n.lastHeartbeat < e.lastSeen ∧ e.status = .online ∧ (n.status = .failed ∨ n.status = .suspected)
      · obtain ⟨hnew, honline, hdown⟩ := hnews
        refine iff_of_true ?_ ⟨hdown, .inl ⟨hid, honline, hnew⟩⟩
        exact NodeInfo.status_heardAll_of_online (NodeInfo.status_heard_of_news hnew honline hdown)
      rw [NodeInfo.heard_of_no_news hnews]
      refine (ih (n := { n with lastHeartbeat := max n.lastHeartbeat e.lastSeen }) hlocal hout).trans ?_
      refine and_congr_right fun hdown => (or_iff_right ?_).symm
      rintro ⟨-, honline, hnew⟩
      exact hnews ⟨hnew, honline, hdown⟩
    · rw [NodeInfo.heardEntry_of_ne fun h => hid h.symm, ih hlocal hout, if_neg hid]
      exact and_congr_right fun _ => (or_iff_right fun h => hid h.1).symm

/-! ## The calls -/

namespace ClusterManager

variable {s : ClusterManager} {x : NodeId}

lemma outOf_addNode_iff (h : s.OutOf x) (info : NodeInfo) : (s.addNode info).OutOf x ↔ (info.id = x → info.status ≠ .online) := by
  constructor
  · intro hafter
    exact hafter info (mem_insert.mpr (Or.inl rfl))
  · intro hinfo n hn hid
    rcases mem_insert.mp hn with rfl | ⟨hmem, -⟩
    · exact hinfo hid
    · exact h n hmem hid

lemma outOf_modify_iff (h : s.OutOf x) {t : ClusterManager} {id : NodeId} {f : NodeInfo → NodeInfo} (hf : ∀ n, (f n).id = n.id)
    (ht : t.nodes = s.nodes.modify id f hf) : t.OutOf x ↔ ∀ n ∈ s.nodes, n.id = x → id = x → (f n).status ≠ .online := by
  unfold OutOf
  rw [ht]
  constructor
  · intro hafter n hn hid hx
    exact hafter (f n) (mem_modify.mpr (Or.inr ⟨n, hn, hid.trans hx.symm, rfl⟩)) ((hf n).trans hid)
  · intro hself n hn hid
    rcases mem_modify.mp hn with ⟨hmem, -⟩ | ⟨m, hm, hmid, rfl⟩
    · exact h n hmem hid
    · exact hself m hm ((hf m).symm.trans hid) (hmid.symm.trans ((hf m).symm.trans hid))

lemma outOf_mergeClusterGossip_iff (h : s.OutOf x) (gossip : List NodeHealthGossip) :
    (s.mergeClusterGossip gossip).OutOf x ↔ (ClusterCall.mergeClusterGossip gossip).KeepsOut x s := by
  have hnodes : (s.mergeClusterGossip gossip).OutOf x ↔
      ∀ n ∈ s.nodes, n.id = x → (n.heardAll s.localNodeId gossip).status ≠ .online := by
    constructor
    · intro hafter n hn hid
      exact hafter _ (mem_mergeClusterGossip.mpr ⟨n, hn, rfl⟩) ((n.id_heardAll s.localNodeId gossip).trans hid)
    · intro hall n' hn' hid
      obtain ⟨n, hn, rfl⟩ := mem_mergeClusterGossip.mp hn'
      exact hall n hn ((n.id_heardAll s.localNodeId gossip).symm.trans hid)
  rw [hnodes]
  by_cases hlocal : x = s.localNodeId
  · refine iff_of_true (fun n hn hid => ?_) fun hne => absurd hlocal hne
    rw [NodeInfo.heardAll_local (hid.trans hlocal)]
    exact h n hn hid
  have heach : ∀ n ∈ s.nodes, n.id = x → ((n.heardAll s.localNodeId gossip).status ≠ .online ↔
      (n.status = .failed ∨ n.status = .suspected → ¬ OnlineNews x n.lastHeartbeat gossip)) := by
    intro n hn hid
    rw [ne_eq, status_heardAll_iff (fun heq => hlocal (hid.symm.trans heq)) (h n hn hid), not_and, hid]
  refine ⟨fun hall _ n hn hid => (heach n hn hid).mp (hall n hn hid), fun hall n hn hid => ?_⟩
  exact (heach n hn hid).mpr (hall hlocal n hn hid)

lemma status_check_iff (failureTimeout now : Nat) {n : NodeInfo} (hout : n.status ≠ .online) :
    (n.check failureTimeout now).1.status = .online ↔
      ¬ (n.isTimedOut failureTimeout now = true ∨ (n.status = .leaving ∧ n.graceExpired now = true)) := by
  unfold NodeInfo.check
  cases hs : n.status with
  | online => exact absurd hs hout
  | suspected => cases n.isTimedOut failureTimeout now <;> simp
  | failed =>
    cases n.isTimedOut failureTimeout now with
    | false => simp
    | true =>
      simp only [Bool.not_true, Bool.false_eq_true, if_false]
      split <;> simp_all
  | leaving => cases n.isTimedOut failureTimeout now <;> cases n.graceExpired now <;> simp [hs]

lemma verdict_of_online (failureTimeout now : Nat) {n : NodeInfo} (hafter : (n.check failureTimeout now).1.status = .online) :
    (n.check failureTimeout now).2 ≠ .purged := by
  unfold NodeInfo.check at hafter ⊢
  cases hs : n.status <;> simp only [hs] at hafter ⊢ <;> split <;> (try split) <;> simp_all

lemma outOf_checkFailedNodes_iff (h : s.OutOf x) (now : Nat) :
    (s.checkFailedNodes now).OutOf x ↔ (ClusterCall.checkFailedNodes now).KeepsOut x s := by
  have hnodes : (s.checkFailedNodes now).OutOf x ↔ ∀ n ∈ s.nodes, n.id = x → (s.judge now n).1.status ≠ .online := by
    constructor
    · intro hafter n hn hid honline
      have hkept : (s.judge now n).2 ≠ .purged := by
        unfold judge at honline ⊢
        split at honline
        · rw [if_pos ‹_›]
          nofun
        rw [if_neg ‹_›]
        exact verdict_of_online s.failureTimeout now honline
      refine hafter (s.judge now n).1 (mem_filter.mpr ⟨mem_mapValues.mpr ⟨n, hn, rfl⟩, ?_⟩) ((s.id_judge now n).trans hid) honline
      rw [decide_eq_true_iff, id_judge, mem_judged_iff now .purged hn]
      exact hkept
    · intro hall n' hn' hid
      obtain ⟨hmem, -⟩ := mem_filter.mp hn'
      obtain ⟨n, hn, rfl⟩ := mem_mapValues.mp hmem
      exact hall n hn ((s.id_judge now n).symm.trans hid)
  rw [hnodes]
  by_cases hlocal : x = s.localNodeId
  · refine iff_of_true (fun n hn hid => ?_) fun hne => absurd hlocal hne
    rw [judge, if_pos (hid.trans hlocal)]
    exact h n hn hid
  have heach : ∀ n ∈ s.nodes, n.id = x → ((s.judge now n).1.status ≠ .online ↔
      n.isTimedOut s.failureTimeout now = true ∨ (n.status = .leaving ∧ n.graceExpired now = true)) := by
    intro n hn hid
    rw [judge, if_neg fun heq => hlocal (hid.symm.trans heq), ne_eq, status_check_iff _ _ (h n hn hid), not_not]
  refine ⟨fun hall _ n hn hid => (heach n hn hid).mp (hall n hn hid), fun hall n hn hid => ?_⟩
  exact (heach n hn hid).mpr (hall hlocal n hn hid)

lemma outOf_step_iff (h : s.OutOf x) (c : ClusterCall) : (s.step c).OutOf x ↔ c.KeepsOut x s := by
  cases c with
  | addNode info => exact outOf_addNode_iff h info
  | removeNode id =>
    refine iff_of_true (fun n hn hid => ?_) trivial
    simp only [step, removeNode] at hn
    split at hn
    · exact h n (mem_remove.mp hn).1 hid
    · exact h n hn hid
  | updateHeartbeat id now =>
    refine (outOf_modify_iff h (fun _ => by rfl) rfl).trans ?_
    exact forall₂_congr fun n hn => forall_congr' fun hid => ⟨fun hne hx => hne hx rfl, fun hne hx => absurd hx hne⟩
  | mergeClusterGossip gossip => exact outOf_mergeClusterGossip_iff h gossip
  | setLeaving id now => exact iff_of_true ((outOf_modify_iff h (fun _ => by rfl) rfl).mpr fun _ _ _ _ => nofun) trivial
  | announceLeaving now => exact iff_of_true ((outOf_modify_iff h (fun _ => by rfl) rfl).mpr fun _ _ _ _ => nofun) trivial
  | announceRecovery =>
    refine (outOf_modify_iff h (fun _ => by rfl) rfl).trans ?_
    exact forall₂_congr fun n hn => forall_congr' fun hid => ⟨fun hne hx => hne hx.symm rfl, fun hne hx => absurd hx.symm hne⟩
  | checkFailedNodes now => exact outOf_checkFailedNodes_iff h now
  | markNodeRecovered id now =>
    refine (outOf_modify_iff h (fun n => by split <;> rfl) rfl).trans ?_
    refine forall₂_congr fun n hn => forall₂_congr fun hid _ => ?_
    by_cases hfailed : n.status = .failed
    · simp [hfailed]
    · simp [hfailed, h n hn hid]
  | initKnownClusterSize persisted membersHint => exact iff_of_true h trivial
  | noteClusterSize n => exact iff_of_true h trivial
  | forgetClusterMember => exact iff_of_true h trivial

lemma outOf_of_marks {e : ClusterEvent} (h : e.marks x s = true) : (s.step e.call).OutOf x := by
  unfold ClusterEvent.marks at h
  cases hcall : e.call with
  | setLeaving id now =>
    simp only [hcall, Bool.and_eq_true, decide_eq_true_iff] at h
    intro n hn hid
    simp only [step, setLeaving, mem_modify] at hn
    rcases hn with ⟨-, hne⟩ | ⟨m, -, -, rfl⟩
    · exact absurd (hid.trans h.1.symm) hne
    · simp
  | _ => simp [hcall] at h

end ClusterManager

/-- A node that is silent after its mark stays out exactly if every call not made for its own message keeps it out. -/
theorem leaving_stays_out (x : NodeId) (s : ClusterManager) (events : List ClusterEvent) :
    Transition.Meets (LeaveWatch.step x) (fun w e => (w.step x e).Out x) ⟨s, false⟩ events ↔
      Transition.Meets (LeaveWatch.step x)
        (fun w e => w.silent = true → e.speaks x w.cluster = false → e.call.KeepsOut x w.cluster) ⟨s, false⟩ events := by
  refine Transition.meets_invariant_iff (fun w e h => ?_) nofun
  unfold LeaveWatch.Out LeaveWatch.step
  dsimp only
  by_cases hmarks : e.marks x w.cluster = true
  · rw [if_pos hmarks]
    refine iff_of_true (fun _ => outOf_of_marks hmarks) fun hsilent _ => ?_
    exact (outOf_step_iff (h hsilent) e.call).mp (outOf_of_marks hmarks)
  rw [if_neg hmarks]
  by_cases hspeaks : e.speaks x w.cluster = true
  · rw [if_pos hspeaks]
    exact iff_of_true nofun fun _ hquiet => absurd (hquiet.symm.trans hspeaks) nofun
  rw [if_neg hspeaks]
  refine forall_congr' fun hsilent => ?_
  rw [outOf_step_iff (h hsilent) e.call]
  exact ⟨fun hkeeps _ => hkeeps, fun hkeeps => hkeeps (Bool.eq_false_iff.mpr hspeaks)⟩

def knowsSecond : ClusterManager := (ClusterManager.new 1 30 90).addNode (NodeInfo.new 2 90)

/-- Node 2 says that it leaves; then node 3, which has not heard, sends news of node 2 at second 99. -/
def gossipOfLeaving : List ClusterEvent :=
  (ClusterMessage.gracefulLeave 2).events knowsSecond 100 ++
    (ClusterMessage.heartbeat (NodeInfo.new 3 100) [⟨2, .online, 99⟩]).events knowsSecond 100 ++ [⟨none, .checkFailedNodes 105⟩]

theorem leaving_revived_by_gossip :
    ¬ Transition.Meets (LeaveWatch.step 2) (fun w e => (w.step 2 e).Out 2) ⟨knowsSecond, false⟩ gossipOfLeaving := by
  rintro ⟨-, -, -, -, hout, -⟩
  exact absurd rfl (hout (by decide) ⟨2, .online, 99, 0⟩ (by decide) rfl)

end Dfs
