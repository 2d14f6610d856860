import Dfs.Client.Replicas
import Mathlib.Data.List.Nodup

/-!
# Do locations name the nodes that have the chunk?

Honest: distinct nodes that answered that they have the chunk. Not so with disagreeing replicas, or a fold after a copy
(`disagreeing_replica_is_named`); else so (`locations_honest_iff`).
-/

namespace Dfs

open List Option PatchRound WriteAnswer ChunkLocation

variable {Id : Type}

/-- Distinct nodes that have answered that they have the chunk. -/
def ChunkLocation.Honest (answered : NodeId → Id → Prop) (loc : ChunkLocation Id) : Prop :=
  loc.nodes.Nodup ∧ ∀ n ∈ loc.nodes, answered n loc.chunkId

lemma AddrMap.nodeId_inj (known : AddrMap) {a b : SocketAddr} {n : NodeId} (ha : known.nodeId a = some n)
    (hb : known.nodeId b = some n) : a = b :=
  some.inj (((known.inverse a n).1 ha).symm.trans ((known.inverse b n).1 hb))

/-! ## A fresh write -/

variable {nodes : List NodeId}

namespace ReplicaWrite

variable {w : ReplicaWrite Id}

def Answered (w : ReplicaWrite Id) (n : NodeId) (id : Id) : Prop :=
  ∃ a ids, (a, WriteAnswer.chunkIds ids) ∈ w.successful ∧ w.addrToNodeId.nodeId a = some n ∧ id ∈ ids.map Prod.fst

/-- Known, not the same, and both have stored a chunk. -/
def AgreeOn (w : ReplicaWrite Id) (id : Id) : Prop :=
  ∃ a b ids ids', w.successful = [(a, .chunkIds ids), (b, .chunkIds ids')] ∧ a ≠ b ∧ (w.addrToNodeId.nodeId a).isSome ∧
    (w.addrToNodeId.nodeId b).isSome ∧ id ∈ ids'.map Prod.fst

variable {loc : ChunkLocation Id} {locs : Locations Id}

lemma mem_locations {offset : Nat} {ids : List (Id × Nat)} (h : loc ∈ w.locations nodes offset ids) :
    loc.nodes = nodes ∧ loc.chunkId ∈ ids.map Prod.fst := by
  induction ids generalizing offset with
  | nil => cases h
  | cons x ids ih =>
    rcases mem_cons.1 h with rfl | h
    · exact ⟨rfl, mem_cons_self⟩
    · exact ⟨(ih h).1, mem_cons_of_mem _ (ih h).2⟩

lemma mem_run (h : w.run = some locs) (hloc : loc ∈ locs) :
    ∃ a b ids ids', w.successful = [(a, .chunkIds ids), (b, .chunkIds ids')] ∧
      loc.nodes = [w.resolveNodeId a, w.resolveNodeId b] ∧ loc.chunkId ∈ ids.map Prod.fst := by
  unfold run at h
  split at h
  · rename_i a ids b ids' hs
    split at h
    · rw [← some.inj h] at hloc
      exact ⟨a, b, ids, ids', hs, mem_locations hloc⟩
    · cases h
  · cases h

lemma honest_iff (h : w.run = some locs) (hloc : loc ∈ locs) : loc.Honest w.Answered ↔ w.AgreeOn loc.chunkId := by
  obtain ⟨a, b, ids, ids', hs, hnodes, hid⟩ := mem_run h hloc
  have hanswered : ∀ n, w.Answered n loc.chunkId ↔ w.addrToNodeId.nodeId a = some n ∨
      w.addrToNodeId.nodeId b = some n ∧ loc.chunkId ∈ ids'.map Prod.fst := by
    intro n
    unfold Answered
    rw [hs]
    constructor
    · rintro ⟨c, l, hc, hn, hl⟩
      simp only [mem_cons, Prod.mk.injEq, chunkIds.injEq, not_mem_nil, or_false] at hc
      rcases hc with ⟨rfl, rfl⟩ | ⟨rfl, rfl⟩
      · exact .inl hn
      · exact .inr ⟨hn, hl⟩
    · rintro (hn | ⟨hn, hl⟩)
      · exact ⟨a, ids, by simp, hn, hid⟩
      · exact ⟨b, ids', by simp, hn, hl⟩
  unfold Honest AgreeOn
  simp only [hnodes, hs, nodup_cons, not_mem_nil, not_false_eq_true, nodup_nil, and_true, mem_cons, or_false,
    forall_eq_or_imp, forall_eq, hanswered, resolveNodeId]
  constructor
  · rintro ⟨hne, ha, hb⟩
    refine ⟨a, b, ids, ids', rfl, ?_⟩
    -- a name that the map does not give is the other node's
    cases hka : w.addrToNodeId.nodeId a with
    | none => simp_all
    | some n =>
      cases hkb : w.addrToNodeId.nodeId b with
      | none => simp_all
      | some m =>
        rw [hka, hkb] at hne hb
        refine ⟨fun hab => hne ?_, rfl, rfl, ?_⟩
        · rw [hab, hkb] at hka
          exact some.inj hka.symm
        · exact (hb.resolve_left fun h => hne (some.inj h)).2
  · rintro ⟨c, d, l, l', hcd, hab, ha, hb, hid'⟩
    obtain ⟨⟨rfl, rfl⟩, rfl, rfl⟩ : (a = c ∧ ids = l) ∧ b = d ∧ ids' = l' := by simpa using hcd
    obtain ⟨n, hn⟩ := isSome_iff_exists.1 ha
    obtain ⟨m, hm⟩ := isSome_iff_exists.1 hb
    rw [hn, hm]
    refine ⟨fun hnm => hab (w.addrToNodeId.nodeId_inj hn ?_), .inl rfl, .inr ⟨rfl, hid'⟩⟩
    rw [hm]
    exact congrArg some hnm.symm

end ReplicaWrite

/-! ## Patching -/

namespace PatchRound

/-- Who accepts a copy, pass by pass: one that could not be reached is asked again. -/
def acceptances : List (SocketAddr → CopyAnswer) → List SocketAddr → List SocketAddr
  | [], _ => []
  | answer :: copies, asked => asked.filter (answer · = .ok) ++ acceptances copies (asked.filter (answer · = .err))

section Copies

variable (required : Nat) (known : AddrMap)

lemma copyPass_spec (answer : SocketAddr → CopyAnswer) (asked : List SocketAddr) (patched : List NodeId) :
    let q := copyPass required known answer asked patched
    q.1 = patched ++ ((asked.filter (answer · = .ok)).filterMap known.nodeId).take (required - patched.length) ∧
      (q.1.length < required → q.2 = asked.filter (answer · = .err)) := by
  induction asked generalizing patched with
  | nil => simp [copyPass]
  | cons a rest ih =>
    rw [copyPass]
    split
    · rename_i hdone
      have hfull := (ih patched).1
      rw [Nat.sub_eq_zero_of_le hdone, take_zero, append_nil] at hfull ⊢
      exact ⟨hfull, fun hlt => absurd hdone (by rw [hfull] at hlt; omega)⟩
    cases hans : answer a with
    | other => simpa [hans] using ih patched
    | err => simpa [hans] using ih patched
    | ok =>
      cases hn : known.nodeId a with
      | none => simpa [hans, hn] using ih patched
      | some n =>
        have hone : required - patched.length = required - (patched ++ [n]).length + 1 := by
          rw [length_append, length_singleton]
          omega
        simpa [hans, hn, hone] using ih (patched ++ [n])

/-- The copies that count are the first ones accepted, as many as the quorum still needs. -/
theorem backfill_eq (copies : List (SocketAddr → CopyAnswer)) (patched : List NodeId) (asked : List SocketAddr) :
    backfill required known copies patched asked =
      patched ++ ((acceptances copies asked).filterMap known.nodeId).take (required - patched.length) := by
  induction copies generalizing patched asked with
  | nil => simp [backfill, acceptances]
  | cons answer copies ih =>
    rw [backfill]
    split
    · rename_i hdone
      simp [Nat.sub_eq_zero_of_le hdone]
    obtain ⟨hcounted, hleft⟩ := copyPass_spec required known answer asked patched
    rw [ih, acceptances, filterMap_append, take_append]
    by_cases hlt : (copyPass required known answer asked patched).1.length < required
    · rw [hleft hlt, hcounted, append_assoc, length_append, length_take]
      rw [hcounted, length_append, length_take] at hlt
      congr 3
      omega
    · rw [Nat.sub_eq_zero_of_le (not_lt.1 hlt), take_zero, append_nil, hcounted]
      rw [hcounted, length_append, length_take] at hlt
      rw [Nat.sub_eq_zero_of_le (by omega : required - patched.length ≤ _), take_zero, append_nil]

lemma take_filterMap (k : Nat) (l : List SocketAddr) : (l.filterMap known.nodeId).take k =
    ((l.filter (fun a => (known.nodeId a).isSome)).take k).filterMap known.nodeId := by
  induction l generalizing k with
  | nil => simp
  | cons a l ih =>
    cases hn : known.nodeId a with
    | none => simpa [hn] using ih k
    | some n =>
      cases k with
      | zero => simp
      | succ k => simpa [hn] using ih k

variable {known} in
/-- Known addresses are distinct exactly if their nodes are. -/
theorem nodup_filterMap_iff {l : List SocketAddr} (h : ∀ a ∈ l, (known.nodeId a).isSome) :
    (l.filterMap known.nodeId).Nodup ↔ l.Nodup := by
  refine ⟨fun hnodup => ?_, fun hl => hl.filterMap fun a b n ha hb => known.nodeId_inj ha hb⟩
  have hmap : (l.filterMap known.nodeId).map some = l.map known.nodeId := by
    rw [map_filterMap, ← filterMap_eq_map]
    exact filterMap_congr fun a ha => by
      obtain ⟨n, hn⟩ := isSome_iff_exists.1 (h a ha)
      simp [hn]
  exact Nodup.of_map _ (hmap ▸ hnodup.map (some_injective _))

lemma mem_acceptances {copies : List (SocketAddr → CopyAnswer)} {asked : List SocketAddr} {a : SocketAddr}
    (h : a ∈ acceptances copies asked) : a ∈ asked ∧ ∃ answer ∈ copies, answer a = .ok := by
  induction copies generalizing asked with
  | nil => cases h
  | cons answer copies ih =>
    rcases mem_append.1 h with h | h
    · exact ⟨(List.mem_filter.1 h).1, answer, mem_cons_self, of_decide_eq_true (List.mem_filter.1 h).2⟩
    · obtain ⟨hasked, answer', hmem, hok⟩ := ih h
      exact ⟨(List.mem_filter.1 hasked).1, answer', mem_cons_of_mem _ hmem, hok⟩

end Copies

variable [DecidableEq Id] (call : ReplicaPatch) (r : PatchRound Id) (t : Targets) (id : Id)

/-- The targets that the client can name and that hold the chunk. -/
def holders : List SocketAddr := t.addrs.filter fun a => r.holds id a && (t.known.nodeId a).isSome

/-- The accepted copies that count. -/
def copiesTaken : List SocketAddr :=
  if r.readBack then
    ((acceptances r.copies (r.missing call t id)).filter fun a => (t.known.nodeId a).isSome).take
      (writeQuorum call.replicationFactor - (r.heldBy t id).length)
  else []

/-- All those that have the chunk by their answers and count. -/
def confirmed : List SocketAddr := r.holders t id ++ r.copiesTaken call t id

/-- It patched to it, held it, folded to it as a target, or accepted a copy (of `auth`). -/
def Answered (auth : Id) (n : NodeId) (id : Id) : Prop :=
  ∃ a, t.known.nodeId a = some n ∧
    (a ∈ t.addrs ∧ (r.holds id a = true ∨ r.foldDue = true ∧ (r.folds a).map Prod.fst = some id) ∨
      id = auth ∧ ∃ answer ∈ r.copies, answer a = .ok)

/-- No target that holds the chunk is a target twice, and no copy that counts went to one address twice. -/
def NamedOnce : Prop := (r.holders t id).Nodup ∧ (r.copiesTaken call t id).Nodup

/-- A copy went beyond the targets, and all the targets that have the chunk then fold it to another one. -/
def FoldedApart (auth : Id) : Prop :=
  call.chunkIdx.isSome = true ∧ r.foldDue = true ∧ (∃ a ∈ r.copiesTaken call t auth, a ∉ t.addrs) ∧
    ∃ id ≠ auth, (∃ a ∈ t.addrs, a ∈ r.confirmed call t auth) ∧
      ∀ a ∈ t.addrs, a ∈ r.confirmed call t auth → (r.folds a).map Prod.fst = some id

variable {call r t id}

lemma mem_holders {a : SocketAddr} :
    a ∈ r.holders t id ↔ a ∈ t.addrs ∧ r.holds id a = true ∧ (t.known.nodeId a).isSome = true := by
  rw [holders, List.mem_filter, Bool.and_eq_true]

lemma mem_copiesTaken {a : SocketAddr} (h : a ∈ r.copiesTaken call t id) :
    (t.known.nodeId a).isSome = true ∧ a ∈ r.missing call t id ∧ ∃ answer ∈ r.copies, answer a = .ok := by
  unfold copiesTaken at h
  split at h
  · obtain ⟨hmem, hknown⟩ := List.mem_filter.1 (mem_of_mem_take h)
    exact ⟨hknown, mem_acceptances hmem⟩
  · cases h

lemma heldBy_eq : r.heldBy t id = (r.holders t id).filterMap t.known.nodeId := by
  rw [heldBy, holders, filterMap_filter, filterMap_filter]
  refine filterMap_congr fun a _ => ?_
  cases t.known.nodeId a <;> simp

lemma patchedNodeIds_eq : r.patchedNodeIds call t id = (r.confirmed call t id).filterMap t.known.nodeId := by
  rw [confirmed, filterMap_append, ← heldBy_eq]
  unfold patchedNodeIds copiesTaken
  split
  · rw [backfill_eq, take_filterMap]
  · rw [filterMap_nil, append_nil]

lemma known_of_confirmed {a : SocketAddr} (h : a ∈ r.confirmed call t id) : (t.known.nodeId a).isSome = true :=
  (mem_append.1 h).elim (fun h => (mem_holders.1 h).2.2) fun h => (mem_copiesTaken h).1

/-- A holder is offered no copy. -/
theorem not_mem_missing {a : SocketAddr} (h : a ∈ r.holders t id) : a ∉ r.missing call t id := by
  intro hmem
  obtain ⟨ha, hholds, hknown⟩ := mem_holders.1 h
  obtain ⟨n, hn⟩ := isSome_iff_exists.1 hknown
  rcases mem_append.1 hmem with hmem | hmem
  · have hheld : n ∈ r.heldBy t id := mem_filterMap.2 ⟨a, List.mem_filter.2 ⟨ha, hholds⟩, hn⟩
    simp [hn, hheld] at hmem
  · have hnot := (List.mem_filter.1 ((r.sorts _).subset (mem_of_mem_take hmem))).2
    exact of_decide_eq_true hnot ha

lemma patchedNodeIds_nodup_iff : (r.patchedNodeIds call t id).Nodup ↔ r.NamedOnce call t id := by
  rw [patchedNodeIds_eq, nodup_filterMap_iff fun a => known_of_confirmed, confirmed, nodup_append, NamedOnce]
  refine ⟨fun h => ⟨h.1, h.2.1⟩, fun h => ⟨h.1, h.2, ?_⟩⟩
  rintro a ha b hb rfl
  exact not_mem_missing ha (mem_copiesTaken hb).2.1

/-- There is a fold if one is due, and all the targets that have the chunk fold it to the same one. -/
theorem folded_iff {x : Id} : (∃ size, r.folded call t (r.patchedNodeIds call t id) = some (x, size)) ↔
    call.chunkIdx.isSome = true ∧ r.foldDue = true ∧ (∃ a ∈ t.addrs, a ∈ r.confirmed call t id) ∧
      ∀ a ∈ t.addrs, a ∈ r.confirmed call t id → (r.folds a).map Prod.fst = some x := by
  have hnamed : ∀ a, (t.known.nodeId a).any (· ∈ r.patchedNodeIds call t id) = decide (a ∈ r.confirmed call t id) := by
    intro a
    rw [Bool.eq_iff_iff, Option.any_eq_true, decide_eq_true_iff, patchedNodeIds_eq]
    constructor
    · rintro ⟨n, han, hn⟩
      obtain ⟨b, hb, hbn⟩ := mem_filterMap.1 (of_decide_eq_true hn)
      exact t.known.nodeId_inj han hbn ▸ hb
    · intro ha
      obtain ⟨n, han⟩ := isSome_iff_exists.1 (known_of_confirmed ha)
      exact ⟨n, han, decide_eq_true (mem_filterMap.2 ⟨a, ha, han⟩)⟩
  unfold folded
  simp only [hnamed, Bool.and_eq_true]
  split
  · rename_i hdue
    rw [← and_assoc, and_iff_right hdue]
    have hmem : ∀ a, (a ∈ t.addrs ∧ a ∈ r.confirmed call t id) ↔
        a ∈ t.addrs.filter (fun a => decide (a ∈ r.confirmed call t id)) := fun a => by simp
    simp only [← and_imp, hmem]
    generalize t.addrs.filter _ = asked
    rcases asked with _ | ⟨a, rest⟩
    · simp
    rw [map_cons]
    cases hfa : r.folds a with
    | none => simp [hfa]
    | some y =>
      have hrest : (rest.map r.folds).all (fun z => z.any (fun z => z.1 = y.1)) = true ↔
          ∀ b ∈ rest, (r.folds b).map Prod.fst = some y.1 := by
        simp [List.all_eq_true, Option.any_eq_true, map_eq_some_iff]
      simp only [hrest, forall_mem_cons, hfa, map_some, some.injEq]
      constructor
      · rintro ⟨size, h⟩
        split at h
        · rename_i hall
          cases h
          exact ⟨⟨a, mem_cons_self⟩, rfl, hall⟩
        · cases h
      · rintro ⟨-, rfl, hall⟩
        exact ⟨y.2, if_pos hall⟩
  · rename_i hdue
    simp [← and_assoc, hdue]

lemma location_honest_iff {auth : Id × Nat × Option Nat} : (r.location call t auth).Honest (r.Answered t auth.1) ↔
    r.NamedOnce call t auth.1 ∧ ¬ r.FoldedApart call t auth.1 := by
  have hfrom : ∀ n ∈ r.patchedNodeIds call t auth.1, ∃ a ∈ r.confirmed call t auth.1, t.known.nodeId a = some n := by
    rw [patchedNodeIds_eq]
    exact fun n hn => mem_filterMap.1 hn
  have hsame : ∀ n ∈ r.patchedNodeIds call t auth.1, r.Answered t auth.1 n auth.1 := by
    intro n hn
    obtain ⟨a, ha, han⟩ := hfrom n hn
    rcases mem_append.1 ha with ha | ha
    · exact ⟨a, han, .inl ⟨(mem_holders.1 ha).1, .inl (mem_holders.1 ha).2.1⟩⟩
    · exact ⟨a, han, .inr ⟨rfl, (mem_copiesTaken ha).2.2⟩⟩
  rw [← patchedNodeIds_nodup_iff]
  refine and_congr_right fun _ => ?_
  dsimp only [location]
  cases hf : r.folded call t (r.patchedNodeIds call t auth.1) with
  | none =>
    refine iff_of_true hsame ?_
    rintro ⟨hidx, hdue, -, x, -, hfolds⟩
    obtain ⟨size, hsome⟩ := folded_iff.2 ⟨hidx, hdue, hfolds⟩
    rw [hf] at hsome
    cases hsome
  | some x =>
    obtain ⟨hidx, hdue, hex, hfolds⟩ := folded_iff.1 ⟨x.2, hf⟩
    constructor
    · rintro hall ⟨-, -, ⟨a, ha, hout⟩, y, hne, hfolds'⟩
      obtain ⟨size, hsome⟩ := folded_iff.2 ⟨hidx, hdue, hfolds'⟩
      obtain rfl : x = (y, size) := some.inj (hf.symm.trans hsome)
      obtain ⟨n, hn⟩ := isSome_iff_exists.1 (mem_copiesTaken ha).1
      have hmem : n ∈ r.patchedNodeIds call t auth.1 := by
        rw [patchedNodeIds_eq]
        exact mem_filterMap.2 ⟨a, mem_append_right _ ha, hn⟩
      obtain ⟨b, hbn, ⟨hb, -⟩ | ⟨heq, -⟩⟩ := hall n hmem
      · exact hout (t.known.nodeId_inj hn hbn ▸ hb)
      · exact hne heq
    · intro hnot n hn
      by_cases hx : x.1 = auth.1
      · exact hx ▸ hsame n hn
      obtain ⟨a, ha, han⟩ := hfrom n hn
      by_cases htarget : a ∈ t.addrs
      · exact ⟨a, han, .inl ⟨htarget, .inr ⟨hdue, hfolds a htarget ha⟩⟩⟩
      have hcopy := (mem_append.1 ha).resolve_left fun h => htarget (mem_holders.1 h).1
      exact absurd ⟨hidx, hdue, ⟨a, hcopy, htarget⟩, x.1, hx, hex, hfolds⟩ hnot

end PatchRound

/-- The locations of a fresh write are honest exactly if the two that answer differ, are known and stored its chunk;
those of a patch exactly if, in the round that patches, no holder and no taken copy is named twice and the chunk is
not folded apart from a copy. -/
theorem locations_honest_iff [DecidableEq Id] (w : ReplicaWrite Id) (call : ReplicaPatch) (base : BaseLocation Id)
    (rounds : List (PatchRound Id)) :
    (∀ locs, w.run = some locs → ∀ loc ∈ locs, (loc.Honest w.Answered ↔ w.AgreeOn loc.chunkId)) ∧
    ∀ loc, call.run base rounds = some loc → ∃ r t auth, call.lastRound base 0 false rounds = some (r, t, auth) ∧
      (loc.Honest (r.Answered t auth.1) ↔ r.NamedOnce call t auth.1 ∧ ¬ r.FoldedApart call t auth.1) := by
  refine ⟨fun locs h loc hloc => ReplicaWrite.honest_iff h hloc, fun loc h => ?_⟩
  obtain ⟨⟨r, t, auth⟩, hlast, rfl⟩ := map_eq_some_iff.1 h
  exact ⟨r, t, auth, hlast, location_honest_iff⟩

def AddrMap.same : AddrMap := ⟨some, some, fun a n => by simp [eq_comm]⟩

def ReplicaWrite.pair (answers : List (WriteAnswer Nat)) : ReplicaWrite Nat :=
  ⟨1, 2, 0, 9, [1, 2, 3], id, .same, id, none, answers⟩

/-- Replica 2 of two cannot be reached, and the third node accepts a copy. -/
def PatchRound.oneReached (foldDue : Bool) : PatchRound Nat where
  addrToNodeId := .same
  refreshed := .same
  clusterNodes := [1, 2, 3]
  distinct := by decide
  leaderAddr := none
  singleChunkLocation := none
  answer a := if a = 1 then .patched 7 4 none else .transient
  revalidated := none
  withinBudget := true
  sortByHealth := id
  sorts l := List.Perm.refl l
  readBack := true
  copies := [fun a => if a = 3 then .ok else .err]
  foldDue := foldDue
  folds _ := some (8, 4)
  now := 0
  writeSeq := 1

def ReplicaPatch.onPair (foldDue : Bool) : Option (ChunkLocation Nat) :=
  ReplicaPatch.run ⟨some 0, 9, some 0, false, 2⟩ ⟨5, [1, 2]⟩ [.oneReached foldDue]

/-- The base names node 1 twice; both of its answers are that the slot has chunk 5 on the nodes 1 and 2, which is then patched. -/
theorem agreeing_replicas_are_honest : ChunkLocation.Honest (ReplicaWrite.pair [.chunkIds [(7, 4)], .chunkIds [(7, 4)]]).Answered
      ⟨7, [1, 2], 4, some 0, none, none, some 9⟩ ∧
    ChunkLocation.Honest ((PatchRound.oneReached false).Answered ⟨.same, [1, 2], [1, 2]⟩ 7)
      ⟨7, [1, 3], 4, some 0, some 0, some 1, some 9⟩ := by
  have h := locations_honest_iff (ReplicaWrite.pair [.chunkIds [(7, 4)], .chunkIds [(7, 4)]]) ⟨some 0, 9, some 0, false, 2⟩
    ⟨4, [1, 1]⟩ [{ oneReached false with answer := fun _ => .chunkStale 5 [1, 2] }, oneReached false]
  refine ⟨(h.1 _ rfl _ (mem_singleton_self _)).2 ⟨1, 2, _, _, rfl, by decide, rfl, rfl, by decide⟩, ?_⟩
  obtain ⟨r, t, auth, hlast, hiff⟩ := h.2 ⟨7, [1, 3], 4, some 0, some 0, some 1, some 9⟩ (by decide +kernel)
  have hround : some (oneReached false, (⟨.same, [1, 2], [1, 2]⟩ : Targets), 7, 4, none) = some (r, t, auth) := hlast
  obtain ⟨rfl, rfl, rfl⟩ : _ = r ∧ _ = t ∧ _ = auth := by simpa using hround
  refine hiff.2 ⟨⟨by decide +kernel, by decide +kernel⟩, ?_⟩
  rintro ⟨-, hdue, -⟩
  cases hdue

/-- Two replicas store different chunks and the first one's location names both; a node with a copy of chunk 7 is named for 8. -/
theorem disagreeing_replica_is_named :
    ((ReplicaWrite.pair [.chunkIds [(7, 4)], .chunkIds [(8, 4)]]).run = some [⟨7, [1, 2], 4, some 0, none, none, some 9⟩] ∧
      ¬ (ReplicaWrite.pair [.chunkIds [(7, 4)], .chunkIds [(8, 4)]]).Answered 2 7) ∧
    ReplicaPatch.onPair true = some ⟨8, [1, 3], 4, some 0, some 0, some 1, some 9⟩ ∧
      ¬ (PatchRound.oneReached true).Answered ⟨.same, [1, 2], [1, 2]⟩ 7 3 8 := by
  refine ⟨⟨by decide +kernel, ?_⟩, by decide +kernel, ?_⟩
  · rintro ⟨a, ids, hmem, ha, hid⟩
    obtain rfl : a = 2 := some.inj ha
    have hids : (2, chunkIds ids) ∈ [(1, .chunkIds [(7, 4)]), (2, chunkIds [(8, 4)])] := hmem
    simp only [mem_cons, Prod.mk.injEq, chunkIds.injEq, not_mem_nil, or_false] at hids
    rcases hids with ⟨h, -⟩ | ⟨-, rfl⟩
    · cases h
    · simp at hid
  · rintro ⟨a, ha, ⟨hin, -⟩ | ⟨h, -⟩⟩
    · obtain rfl : a = 3 := some.inj ha
      simp at hin
    · cases h

end Dfs
