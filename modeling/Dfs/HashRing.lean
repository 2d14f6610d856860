import Dfs.Cluster
import Dfs.Lib.KeyedList

/-!
# Placement on the hash ring

The ring of `hash.rs`: each member has `virtualNodes` hashes on it, and the nodes of a chunk are the members met on a
walk from the hash of the chunk. Asked for no node the walk returns one (`no_nodes_asked`), and without virtual nodes
it finds none.
-/

namespace Dfs

open KeyedList Transition
open List hiding lookup

/-- The map from hashes to nodes is a list sorted by the hash. -/
structure ConsistentHashRing where
  ring : List (Nat × NodeId)
  virtualNodes : Nat
  nodes : List NodeId

inductive RingCall
  | addNode (id : NodeId)
  | removeNode (id : NodeId)

def RingCall.node : RingCall → NodeId
  | .addNode id => id
  | .removeNode id => id

namespace ConsistentHashRing

variable (hashNode : NodeId → Nat → Nat)

def new (virtualNodes : Nat) : ConsistentHashRing := ⟨[], virtualNodes, []⟩

def addNode (s : ConsistentHashRing) (id : NodeId) : ConsistentHashRing :=
  { s with
    nodes := ringAdd s.nodes id
    ring := (range s.virtualNodes).foldl (fun ring i => upsert Prod.fst (fun _ new => new) ring (hashNode id i, id)) s.ring }

def removeNode (s : ConsistentHashRing) (id : NodeId) : ConsistentHashRing :=
  { s with
    nodes := ringRemove s.nodes id
    ring := (range s.virtualNodes).foldl (fun ring i => ring.filter fun e => e.1 ≠ hashNode id i) s.ring }

def step (s : ConsistentHashRing) : RingCall → ConsistentHashRing
  | .addNode id => s.addNode hashNode id
  | .removeNode id => s.removeNode hashNode id

def build (virtualNodes : Nat) (calls : List RingCall) : ConsistentHashRing :=
  Transition.run (step hashNode) (new virtualNodes) calls

/-- The loop of `getNodes`; what it has seen is what it has collected. -/
def collect (n members : Nat) : List NodeId → List NodeId → List NodeId
  | result, [] => result
  | result, id :: rest =>
    if id ∈ result then
      if result.length ≥ members then result else collect n members result rest
    else if (result ++ [id]).length ≥ n then result ++ [id]
    else if (result ++ [id]).length ≥ members then result ++ [id]
    else collect n members (result ++ [id]) rest

/-- The nodes on the way round the ring from a hash: first those from the hash on, then all. -/
def walk (s : ConsistentHashRing) (hash : Nat) : List NodeId := (s.ring.filter (fun e => hash ≤ e.1) ++ s.ring).map Prod.snd

/-- `hash` is the hash of the chunk. -/
def getNodes (s : ConsistentHashRing) (hash n : Nat) : List NodeId :=
  if s.ring.isEmpty then [] else collect n s.nodes.length [] (s.walk hash)

end ConsistentHashRing

open ConsistentHashRing

variable {hashNode : NodeId → Nat → Nat} {v hash n m : Nat} {all ids acc : List NodeId} {id r x : NodeId}
    {s s' : ConsistentHashRing}

/-- No two of the nodes share a hash. -/
def NoCollision (hashNode : NodeId → Nat → Nat) (v : Nat) (all : List NodeId) : Prop :=
  ∀ x ∈ all, ∀ y ∈ all, ∀ i < v, ∀ j < v, hashNode x i = hashNode y j → x = y

/-! ## What the ring holds -/

/-- On the ring are the hashes of the members. -/
structure ConsistentHashRing.Built (hashNode : NodeId → Nat → Nat) (v : Nat) (all : List NodeId) (s : ConsistentHashRing) :
    Prop where
  virtualNodes : s.virtualNodes = v
  named : s.nodes ⊆ all
  nodup : s.nodes.Nodup
  sorted : Sorted Prod.fst s.ring
  mem (e : Nat × NodeId) : e ∈ s.ring ↔ e.2 ∈ s.nodes ∧ ∃ i < v, hashNode e.2 i = e.1

lemma nodup_ringAdd (h : acc.Nodup) (id : NodeId) : (ringAdd acc id).Nodup := by
  unfold ringAdd
  split
  · exact h
  · exact nodup_append.mpr ⟨h, by simp, by grind⟩

variable {is : List Nat} {ring : List (Nat × NodeId)} {calls : List RingCall}

lemma mem_foldl_upsert (h : Sorted Prod.fst ring) (e : Nat × NodeId) :
    let ring' := is.foldl (fun ring i => upsert Prod.fst (fun _ new => new) ring (hashNode id i, id)) ring
    Sorted Prod.fst ring' ∧ (e ∈ ring' ↔ (∃ i ∈ is, (hashNode id i, id) = e) ∨ e ∈ ring ∧ ∀ i ∈ is, hashNode id i ≠ e.1) := by
  induction is generalizing ring with
  | nil => simpa using h
  | cons i is ih =>
    have hone : Sorted Prod.fst (upsert Prod.fst (fun _ new => new) ring (hashNode id i, id)) := sorted_upsert h (fun _ _ => rfl)
    obtain ⟨hsorted, hmem⟩ := ih hone
    refine ⟨hsorted, hmem.trans ?_⟩
    rw [mem_upsert_replace h]
    by_cases hlater : ∃ j ∈ is, (hashNode id j, id) = e
    · grind
    constructor
    · grind
    · rintro (⟨j, hj, rfl⟩ | ⟨he, hne⟩)
      · refine .inr ⟨.inl ?_, ?_⟩ <;> grind
      · grind

lemma mem_foldl_filter (h : Sorted Prod.fst ring) (e : Nat × NodeId) :
    let ring' := is.foldl (fun ring i => ring.filter fun e => e.1 ≠ hashNode id i) ring
    Sorted Prod.fst ring' ∧ (e ∈ ring' ↔ e ∈ ring ∧ ∀ i ∈ is, e.1 ≠ hashNode id i) := by
  induction is generalizing ring with
  | nil => simpa using h
  | cons i is ih =>
    obtain ⟨hsorted, hmem⟩ := ih (h.filter _)
    refine ⟨hsorted, hmem.trans ?_⟩
    simp [and_assoc]

namespace ConsistentHashRing.Built

lemma addNode (h : NoCollision hashNode v all) (hs : Built hashNode v all s) (hid : id ∈ all) :
    Built hashNode v all (s.addNode hashNode id) := by
  obtain ⟨hv, hnamed, hnodup, hsorted, hmem⟩ := hs
  subst hv
  refine ⟨rfl, ?_, nodup_ringAdd hnodup id, (mem_foldl_upsert hsorted (0, 0)).1, fun e => ?_⟩
  · intro x hx
    rcases mem_ringAdd.mp hx with hx | rfl
    · exact hnamed hx
    · exact hid
  · refine (mem_foldl_upsert hsorted e).2.trans ?_
    show _ ↔ e.2 ∈ ringAdd s.nodes id ∧ _
    rw [mem_ringAdd]
    constructor
    · rintro (⟨i, hi, rfl⟩ | ⟨he, -⟩)
      · exact ⟨.inr rfl, i, mem_range.mp hi, rfl⟩
      · exact ⟨.inl ((hmem e).mp he).1, ((hmem e).mp he).2⟩
    · rintro ⟨he | he, i, hi, heq⟩
      · -- a member keeps its hashes: where the new node has the same one, it is that member
        by_cases hnew : ∃ j ∈ range s.virtualNodes, hashNode id j = e.1
        · obtain ⟨j, hj, hje⟩ := hnew
          have hsame := h id hid e.2 (hnamed he) j (mem_range.mp hj) i hi (hje.trans heq.symm)
          exact .inl ⟨j, hj, Prod.ext hje hsame⟩
        · exact .inr ⟨(hmem e).mpr ⟨he, i, hi, heq⟩, fun j hj hje => hnew ⟨j, hj, hje⟩⟩
      · exact .inl ⟨i, mem_range.mpr hi, Prod.ext (he ▸ heq) he.symm⟩

lemma removeNode (h : NoCollision hashNode v all) (hs : Built hashNode v all s) (hid : id ∈ all) :
    Built hashNode v all (s.removeNode hashNode id) := by
  obtain ⟨hv, hnamed, hnodup, hsorted, hmem⟩ := hs
  subst hv
  refine ⟨rfl, fun x hx => hnamed (mem_ringRemove.mp hx).1, hnodup.filter _, (mem_foldl_filter hsorted (0, 0)).1, fun e => ?_⟩
  refine (mem_foldl_filter hsorted e).2.trans ?_
  show _ ↔ e.2 ∈ ringRemove s.nodes id ∧ _
  rw [mem_ringRemove, hmem]
  constructor
  · rintro ⟨⟨he, i, hi, heq⟩, hne⟩
    refine ⟨⟨he, ?_⟩, i, hi, heq⟩
    rintro rfl
    exact hne i (mem_range.mpr hi) heq.symm
  · rintro ⟨⟨he, hne⟩, i, hi, heq⟩
    refine ⟨⟨he, i, hi, heq⟩, fun j hj hej => hne ?_⟩
    exact h e.2 (hnamed he) id hid i hi j (mem_range.mp hj) (heq.trans hej)

lemma build (h : NoCollision hashNode v all) (hcalls : ∀ c ∈ calls, c.node ∈ all) :
    Built hashNode v all (build hashNode v calls) := by
  have hnew : Built hashNode v all (new v) := ⟨rfl, by simp [new], by simp [new], by simp [new, Sorted], by simp [new]⟩
  have hok : Meets (step hashNode) (fun _ c => c.node ∈ all) (new v) calls := meets_of_forall fun c hc _ => hcalls c hc
  refine invariant_run (fun s c hs hc => ?_) hnew hok
  cases c with
  | addNode id => exact hs.addNode h hc
  | removeNode id => exact hs.removeNode h hc

/-- The members alone say what is on the ring. -/
theorem ring_eq (hs : Built hashNode v all s) (hs' : Built hashNode v all s') (h : ∀ x, x ∈ s.nodes ↔ x ∈ s'.nodes) :
    s.ring = s'.ring :=
  hs.sorted.ext hs'.sorted fun e => by rw [hs.mem, hs'.mem, h]

lemma ring_removeNode (h : NoCollision hashNode v all) (hs : Built hashNode v all s) (hr : r ∈ all) :
    (s.removeNode hashNode r).ring = s.ring.filter fun e => e.2 ≠ r := by
  refine (hs.removeNode h hr).sorted.ext (hs.sorted.filter _) fun e => ?_
  rw [(hs.removeNode h hr).mem, mem_filter, hs.mem]
  simp [ConsistentHashRing.removeNode, and_right_comm]

end ConsistentHashRing.Built

/-! ## The walk -/

lemma nodup_foldl_ringAdd : (ids.foldl ringAdd []).Nodup := by
  have hok : Meets ringAdd (fun _ _ => True) [] ids := meets_of_forall fun _ _ _ => trivial
  exact invariant_run (fun _ id h _ => nodup_ringAdd h id) nodup_nil hok

lemma isPrefix_foldl_ringAdd : acc <+: ids.foldl ringAdd acc := by
  induction ids generalizing acc with
  | nil => exact prefix_refl _
  | cons id ids ih =>
    refine IsPrefix.trans ?_ ih
    unfold ringAdd
    split
    · exact prefix_refl _
    · exact prefix_append _ _

lemma filter_foldl_ringAdd (p : NodeId → Bool) :
    (ids.foldl ringAdd acc).filter p = (ids.filter p).foldl ringAdd (acc.filter p) := by
  induction ids generalizing acc with
  | nil => rfl
  | cons id ids ih =>
    rw [foldl_cons, ih, filter_cons]
    unfold ringAdd
    split <;> split <;> simp_all [filter_append]

/-- If it is asked for more than it has and stops at the members only when it has met them all, the loop collects the
first nodes met. -/
theorem collect_eq (hm : (ids.foldl ringAdd acc).length ≤ m) (hn : acc.length < n) :
    collect n m acc ids = (ids.foldl ringAdd acc).take n := by
  induction ids generalizing acc with
  | nil => rw [collect, foldl_nil, take_of_length_le hn.le]
  | cons id ids ih =>
    rw [foldl_cons] at hm ⊢
    have hstop (h : m ≤ (ringAdd acc id).length) : ids.foldl ringAdd (ringAdd acc id) = ringAdd acc id :=
      (isPrefix_foldl_ringAdd.eq_of_length_le (hm.trans h)).symm
    by_cases hid : id ∈ acc
    · have hadd : ringAdd acc id = acc := if_pos hid
      rw [collect, if_pos hid]
      split
      · rename_i hfull
        rw [hstop (by rwa [hadd]), hadd, take_of_length_le hn.le]
      rw [hadd] at hm ⊢
      exact ih hm hn
    have hadd : ringAdd acc id = acc ++ [id] := if_neg hid
    rw [collect, if_neg hid, ← hadd]
    split
    · rename_i hmet
      have hlen : (ringAdd acc id).length = n := by simp [hadd] at hmet ⊢; omega
      rw [← hlen]
      exact prefix_iff_eq_take.mp isPrefix_foldl_ringAdd
    rename_i hmore
    split
    · rename_i hfull
      rw [hstop hfull, take_of_length_le (by omega)]
    · exact ih hm (by omega)

section Placement

variable (hs : Built hashNode v all s)
include hs

lemma getNodes_eq_nil (h : s.nodes = [] ∨ v = 0) : s.getNodes hash n = [] := by
  have hring : s.ring = [] := by
    refine eq_nil_iff_forall_not_mem.mpr fun e he => ?_
    obtain ⟨hx, i, hi, -⟩ := (hs.mem e).mp he
    rcases h with h | h
    · simp [h] at hx
    · omega
  simp [getNodes, hring]

lemma walk_removeNode (h : NoCollision hashNode v all) (hr : r ∈ all) :
    (s.removeNode hashNode r).walk hash = (s.walk hash).filter fun x => x ≠ r := by
  unfold walk
  rw [hs.ring_removeNode h hr, filter_map, filter_append, filter_filter, filter_filter]
  simp only [Bool.and_comm, Function.comp_def]

variable (hv : v ≠ 0)
include hv

lemma mem_walk : x ∈ s.walk hash ↔ x ∈ s.nodes := by
  simp only [walk, mem_map, mem_append, mem_filter]
  constructor
  · rintro ⟨e, he, rfl⟩
    exact ((hs.mem e).mp (he.elim And.left id)).1
  · intro hx
    exact ⟨(hashNode x 0, x), .inr ((hs.mem _).mpr ⟨hx, 0, Nat.pos_of_ne_zero hv, rfl⟩), rfl⟩

lemma perm_met : ((s.walk hash).foldl ringAdd []).Perm s.nodes :=
  (perm_ext_iff_of_nodup nodup_foldl_ringAdd hs.nodup).mpr fun x => by simp [mem_foldl_ringAdd, mem_walk hs hv]

/-- Asked for a node at least, the ring answers with the first members on the way round. -/
theorem getNodes_eq (hn : n ≠ 0) : s.getNodes hash n = ((s.walk hash).foldl ringAdd []).take n := by
  unfold getNodes
  split
  · rename_i hempty
    simp [walk, List.isEmpty_iff.mp hempty]
  · exact collect_eq (perm_met hs hv).length_eq.le (by simpa using Nat.pos_of_ne_zero hn)

lemma length_getNodes_zero (hnodes : s.nodes ≠ []) : (s.getNodes hash 0).length = 1 := by
  obtain ⟨x, hx⟩ := exists_mem_of_ne_nil _ hnodes
  have hmem : x ∈ s.walk hash := (mem_walk hs hv).mpr hx
  have hring : s.ring ≠ [] := by
    intro h
    simp [walk, h] at hmem
  cases hwalk : s.walk hash with
  | nil => simp [hwalk] at hmem
  | cons id rest => simp [getNodes, hring, hwalk, collect]

end Placement

/-- What is asked of the ring for a chunk: as many members as wanted, none twice, and without a node the same ones in
the same order. -/
structure ConsistentHashRing.Places (hashNode : NodeId → Nat → Nat) (s : ConsistentHashRing) (r : NodeId) (hash n : Nat) :
    Prop where
  length : (s.getNodes hash n).length = min n s.nodes.length
  distinct : (s.getNodes hash n).Nodup
  members : s.getNodes hash n ⊆ s.nodes
  removal : (s.removeNode hashNode r).getNodes hash n = ((s.getNodes hash s.nodes.length).filter fun x => x ≠ r).take n

lemma places_iff (h : NoCollision hashNode v all) (hs : Built hashNode v all s) (hr : r ∈ all) :
    s.Places hashNode r hash n ↔ s.nodes = [] ∨ (n = 0 ↔ v = 0) := by
  have hs' := hs.removeNode h hr
  constructor
  · intro hplaces
    refine or_iff_not_imp_left.mpr fun hnodes => ⟨?_, ?_⟩
    · rintro rfl
      by_contra hv
      simpa [length_getNodes_zero hs hv hnodes] using hplaces.length
    · intro hv
      have hlen := hplaces.length
      rw [getNodes_eq_nil hs (.inr hv)] at hlen
      have := length_pos_of_ne_nil hnodes
      simp only [length_nil] at hlen
      omega
  · intro hcond
    by_cases hnil : s.nodes = [] ∨ v = 0
    · have hgone : (s.removeNode hashNode r).nodes = [] ∨ v = 0 :=
        hnil.imp_left fun hnodes => by simp [removeNode, hnodes, ringRemove]
      have hlen : min n s.nodes.length = 0 := by
        rcases hnil with hnodes | hv
        · simp [hnodes]
        rcases hcond with hnodes | hzero
        · simp [hnodes]
        · simp [hzero.mpr hv]
      refine ⟨?_, ?_, ?_, ?_⟩ <;> simp [getNodes_eq_nil hs hnil, getNodes_eq_nil hs' hgone, hlen]
    · obtain ⟨hnodes, hv⟩ := not_or.mp hnil
      have hn : n ≠ 0 := fun hn => hv ((hcond.resolve_left hnodes).mp hn)
      have hall : s.nodes.length ≠ 0 := by simpa using hnodes
      have hmet : ((s.walk hash).foldl ringAdd []).Perm s.nodes := perm_met hs hv
      refine ⟨?_, ?_, ?_, ?_⟩
      · rw [getNodes_eq hs hv hn, length_take, hmet.length_eq]
      · rw [getNodes_eq hs hv hn]
        exact nodup_foldl_ringAdd.sublist (List.take_sublist _ _)
      · rw [getNodes_eq hs hv hn]
        exact fun x hx => hmet.subset (mem_of_mem_take hx)
      · rw [getNodes_eq hs' hv hn, getNodes_eq hs hv hall, walk_removeNode hs h hr, take_of_length_le hmet.length_eq.le,
          filter_foldl_ringAdd, filter_nil]

/-- Of nodes of which no two share a hash, the members alone say what the ring is. It places a chunk as it should if
it has no members, or exactly if nodes are asked for when there are virtual nodes. -/
theorem ring_placement_iff {calls' : List RingCall} (hash n : Nat)
    (h : NoCollision hashNode v (r :: (calls ++ calls').map RingCall.node)) :
    ((∀ x, x ∈ (build hashNode v calls').nodes ↔ x ∈ (build hashNode v calls).nodes) →
        (build hashNode v calls').ring = (build hashNode v calls).ring) ∧
      ((build hashNode v calls).Places hashNode r hash n ↔ (build hashNode v calls).nodes = [] ∨ (n = 0 ↔ v = 0)) := by
  have hs : Built hashNode v _ (build hashNode v calls) :=
    .build h fun c hc => mem_cons_of_mem _ (mem_map_of_mem (mem_append_left _ hc))
  have hs' : Built hashNode v _ (build hashNode v calls') :=
    .build h fun c hc => mem_cons_of_mem _ (mem_map_of_mem (mem_append_right _ hc))
  exact ⟨hs'.ring_eq hs, places_iff h hs mem_cons_self⟩

/-- Three nodes with two virtual nodes each, of which one has left. -/
theorem ring_of_three :
    let s := build (fun x i => 7 * x + 12 * i) 2 [.addNode 1, .addNode 2, .addNode 3, .removeNode 1]
    s.Places (fun x i => 7 * x + 12 * i) 2 15 1 ∧ s.getNodes 15 1 = [3] :=
  ⟨((@ring_placement_iff _ _ _ _ [] 15 1 (by unfold NoCollision; decide)).2).mpr (by decide), by decide⟩

/-- Asked for no node the ring answers with one. -/
theorem no_nodes_asked :
    let s := build (fun x i => 7 * x + 12 * i) 2 [.addNode 1, .addNode 2]
    NoCollision (fun x i => 7 * x + 12 * i) 2 s.nodes ∧ s.getNodes 15 0 = [1] ∧ min 0 s.nodes.length = 0 := by
  unfold NoCollision
  decide

end Dfs
