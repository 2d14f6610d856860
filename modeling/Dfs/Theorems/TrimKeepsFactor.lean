import Dfs.ExcessTrim

/-! # Trimming and the replication factor -/

namespace Dfs

open List TrimEnv

variable {Id : Type}

def namedHolders (nodes holders : List NodeId) : List NodeId := holders.filter (fun n => decide (n ∈ nodes))

def holdersAfter (holders : List NodeId) (trimmed : NodeId) : List NodeId := holders.filter (fun n => decide (n ≠ trimmed))

/-- Enough holders still have the chunk, and the written record names enough of them. -/
structure TrimOutcome.KeepsFactor (o : TrimOutcome Id) (holders : List NodeId) (rf : Nat) : Prop where
  held : rf ≤ (holdersAfter holders o.trimmed).length
  named : ∀ record ∈ o.record, rf ≤ (namedHolders record.nodes (holdersAfter holders o.trimmed)).length

/-- It names more holders than the factor; or as many, of the two lowest ids, and there are others. -/
def NamesEnough (nodes holders : List NodeId) (rf : Nat) : Prop :=
  rf < (namedHolders nodes holders).length ∨
    (namedHolders nodes holders).length = rf ∧ 2 < holders.length ∧
      ∀ n ∈ namedHolders nodes holders, (holders.filter (fun m => decide (m < n))).length < 2

instance (nodes holders : List NodeId) (rf : Nat) : Decidable (NamesEnough nodes holders rf) :=
  inferInstanceAs (Decidable (_ ∨ _))

/-! ## The candidates -/

lemma mem_take_sorted_iff {l : List Nat} (h : l.Pairwise (· < ·)) (k n : Nat) :
    n ∈ l.take k ↔ n ∈ l ∧ (l.filter (fun m => decide (m < n))).length < k := by
  induction l generalizing k with
  | nil => simp
  | cons a l ih =>
    obtain ⟨ha, hl⟩ := pairwise_cons.mp h
    cases k with
    | zero => simp
    | succ k =>
      by_cases hna : n = a
      · subst hna
        have hnone : l.filter (fun m => decide (m < n)) = [] := by
          rw [filter_eq_nil_iff]
          intro m hm
          have := ha m hm
          simp only [decide_eq_true_eq]
          omega
        simp [hnone]
      rw [take_succ_cons, mem_cons, mem_cons, ih hl]
      constructor
      · rintro (h | ⟨hn, hlt⟩)
        · exact absurd h hna
        have := ha n hn
        simp [hn, this, hlt]
      · rintro ⟨h | hn, hlt⟩
        · exact absurd h hna
        have := ha n hn
        simp only [this, decide_true, filter_cons_of_pos, length_cons] at hlt
        exact .inr ⟨hn, by omega⟩

variable {holders nodes alive : List NodeId} {rf : Nat}

lemma mem_lowestPair_iff (h : alive.Nodup) (n : NodeId) :
    n ∈ lowestPair alive ↔ n ∈ alive ∧ (alive.filter (fun m => decide (m < n))).length < 2 := by
  have hperm := perm_insertionSort (fun a b : NodeId => a ≤ b) alive
  have hsorted : (alive.insertionSort (· ≤ ·)).Pairwise (· < ·) := by
    have hle := pairwise_insertionSort (fun a b : NodeId => a ≤ b) alive
    exact hle.imp₂ (fun _ _ hle hne => lt_of_le_of_ne hle hne) (hperm.nodup_iff.mpr h)
  unfold lowestPair
  rw [mem_take_sorted_iff hsorted, hperm.mem_iff, (hperm.filter _).length_eq]

lemma mem_trimCandidates_iff (h : alive.Nodup) (n : NodeId) :
    n ∈ trimCandidates alive ↔ n ∈ alive ∧ (alive.length ≤ 2 ∨ 2 ≤ (alive.filter (fun m => decide (m < n))).length) := by
  have hmem : n ∈ alive.filter (fun n => !(lowestPair alive).contains n) ↔
      n ∈ alive ∧ 2 ≤ (alive.filter (fun m => decide (m < n))).length := by
    rw [List.mem_filter]
    refine and_congr_right fun hn => ?_
    simp only [contains_eq_mem, Bool.not_eq_true', decide_eq_false_iff_not, mem_lowestPair_iff h, hn, true_and]
    omega
  have hpair : (lowestPair alive).length = min 2 alive.length := by
    simp [lowestPair]
  unfold trimCandidates
  dsimp only
  split
  · rename_i hempty
    -- all that are alive are in the pair, so there are at most two
    have hsub : alive ⊆ lowestPair alive := by
      intro m hm
      rw [List.isEmpty_iff, filter_eq_nil_iff] at hempty
      simpa using hempty m hm
    have := (subperm_of_subset h hsub).length_le
    refine ⟨fun hn => ⟨hn, .inl (by omega)⟩, fun hn => hn.1⟩
  rename_i hsome
  rw [hmem]
  refine and_congr_right fun hn => ⟨.inr, fun hcase => hcase.resolve_left fun hfew => hsome ?_⟩
  rw [List.isEmpty_iff, filter_eq_nil_iff]
  intro m hm
  have hlt : (alive.filter (fun k => decide (k < m))).length < alive.length := by
    refine length_filter_lt_length_iff_exists.mpr ⟨m, hm, by simp⟩
  simp only [contains_eq_mem, Bool.not_eq_true', decide_eq_false_iff_not, mem_lowestPair_iff h, hm, true_and]
  omega

/-! ## A trim -/

section Trim

variable {H : ChunkHash Id} {env : TrimEnv Id} {chunkId : Id} {confirmed : List NodeId} {location : ChunkLocation Id}
    {o : TrimOutcome Id}

lemma trim_cases (hlocation : env.location = .ok (some location))
    (h : doCleanupExcessInner H env chunkId confirmed = .ok (some o)) :
    env.replicationFactor < (confirmed.filter env.registered).length ∧
      o.trimmed ∈ trimCandidates (confirmed.filter env.registered) ∧
      ∀ record ∈ o.record, record.nodes = location.nodes.filter (fun n => decide (n ≠ o.trimmed)) := by
  unfold doCleanupExcessInner at h
  split at h
  · cases h
  rw [hlocation] at h
  dsimp only at h
  split at h
  · cases h
  rename_i hexcess
  split at h
  · cases h
  rename_i trimId htrim
  have hcandidate : trimId ∈ trimCandidates (confirmed.filter env.registered) := by
    unfold TrimEnv.trimId mostUtilizedNode at htrim
    rcases Option.or_eq_some_iff.mp htrim with hmin | ⟨-, hlast⟩
    · exact argmin_mem hmin
    · exact mem_of_getLast? hlast
  split at h
  · cases h
  split at h
  · cases h
    refine ⟨by omega, hcandidate, ?_⟩
    intro record hrecord
    simp only [Option.mem_def, Option.ite_none_right_eq_some, Option.some.injEq] at hrecord
    rw [← hrecord.2]
  · cases h

/-- `c` is the fullest, every node deletes when asked, and the record is written. -/
def TrimEnv.filling (location : ChunkLocation Id) (rf : Nat) (c : NodeId) : TrimEnv Id where
  localId := 0
  replicationFactor := rf
  location := .ok (some location)
  registered _ := true
  available n := some (if n = c then 0 else 1)
  localDelete := true
  remoteDelete _ := .ok
  putLocation := true
  nowMs := 0

lemma trim_filling (htoken : H.looksLikePatchToken chunkId = false) (location : ChunkLocation Id)
    (hmore : rf < confirmed.length) {c : NodeId} (hc : c ∈ trimCandidates confirmed) :
    doCleanupExcessInner H (filling location rf c) chunkId confirmed =
      .ok (some ⟨c, some { location with
        chunkId := chunkId
        nodes := location.nodes.filter (fun n => decide (n ≠ c))
        writtenAt := some 0 }⟩) := by
  have halive : confirmed.filter (filling location rf c).registered = confirmed := by
    rw [filter_eq_self]
    exact fun _ _ => rfl
  have hchosen : (trimCandidates confirmed).argmin (fun n => ((filling location rf c).available n).getD (u64Max / 2)) =
    some c := by
    cases hmin : (trimCandidates confirmed).argmin (fun n => ((filling location rf c).available n).getD (u64Max / 2)) with
    | none =>
      rw [argmin_eq_none.mp hmin] at hc
      cases hc
    | some m =>
      have hle := le_of_mem_argmin hc hmin
      by_cases hmc : m = c
      · rw [hmc]
      · simp [filling, hmc] at hle
  have hmem : c ∈ confirmed := by
    unfold trimCandidates at hc
    dsimp only at hc
    split at hc
    · exact hc
    · exact mem_of_mem_filter hc
  have hexcess : ¬confirmed.length - rf = 0 := by omega
  unfold doCleanupExcessInner
  simp only [htoken, trimId, mostUtilizedNode, halive, hchosen]
  simp [filling, deletes, hexcess, hmem]

end Trim

/-! ## Counting the holders -/

lemma length_holdersAfter (h : holders.Nodup) {n : NodeId} (hn : n ∈ holders) :
    (holdersAfter holders n).length = holders.length - 1 := by
  have herase : holders.erase n = holdersAfter holders n := by
    rw [h.erase_eq_filter n]
    refine filter_congr fun m _ => ?_
    by_cases hmn : m = n <;> simp [hmn]
  rw [← herase, length_erase_of_mem hn]

lemma namedHolders_after (nodes holders : List NodeId) (n : NodeId) :
    namedHolders (nodes.filter (fun m => decide (m ≠ n))) (holdersAfter holders n) = holdersAfter
      (namedHolders nodes holders) n := by
  unfold namedHolders holdersAfter
  rw [filter_filter, filter_filter]
  refine filter_congr fun m _ => ?_
  by_cases hm : m = n <;> simp [hm]

lemma length_namedHolders_after (h : holders.Nodup) (n : NodeId) : (holdersAfter (namedHolders nodes holders) n).length =
      (namedHolders nodes holders).length - if n ∈ namedHolders nodes holders then 1 else 0 := by
  split
  · rename_i hn
    exact length_holdersAfter (h.filter _) hn
  rename_i hn
  have hkeep : holdersAfter (namedHolders nodes holders) n = namedHolders nodes holders := by
    unfold holdersAfter
    rw [filter_eq_self]
    intro m hm
    simp only [decide_eq_true_eq]
    rintro rfl
    exact hn hm
  rw [hkeep, Nat.sub_zero]

lemma le_length_named_after (h : holders.Nodup) (hrf : 1 ≤ rf) (n : NodeId) :
    rf ≤ (holdersAfter (namedHolders nodes holders) n).length ↔
      rf < (namedHolders nodes holders).length ∨ (namedHolders nodes holders).length = rf ∧ n ∉ namedHolders nodes holders := by
  rw [length_namedHolders_after h]
  by_cases hn : n ∈ namedHolders nodes holders
  · simp only [hn, if_true, not_true, and_false, or_false]
    omega
  simp only [hn, if_false, not_false_iff, and_true]
  omega

lemma namesEnough_iff (h : holders.Nodup) (hrf : 1 ≤ rf) (hmore : rf < holders.length) :
    NamesEnough nodes holders rf ↔ ∀ n ∈ trimCandidates holders, rf ≤ (holdersAfter (namedHolders nodes holders) n).length := by
  have hcandidate : ∀ n, n ∈ namedHolders nodes holders →
      (n ∈ trimCandidates holders ↔ holders.length ≤ 2 ∨ 2 ≤ (holders.filter (fun m => decide (m < n))).length) := by
    intro n hn
    rw [mem_trimCandidates_iff h, and_iff_right (mem_of_mem_filter hn)]
  constructor
  · intro hnames n hn
    rw [le_length_named_after h hrf]
    rcases hnames with hmany | ⟨hjust, hlen, hlow⟩
    · exact .inl hmany
    refine .inr ⟨hjust, fun hnamed => ?_⟩
    have hfew := hlow n hnamed
    rcases (hcandidate n hnamed).mp hn with hle | hle <;> omega
  · intro hall
    by_cases hmany : rf < (namedHolders nodes holders).length
    · exact .inl hmany
    right
    have hkept : ∀ n ∈ trimCandidates holders, (namedHolders nodes holders).length = rf ∧ n ∉ namedHolders nodes holders := by
      intro n hn
      exact ((le_length_named_after h hrf n).mp (hall n hn)).resolve_left hmany
    -- there is a candidate, since there are at least two holders
    obtain ⟨c, hc⟩ : ∃ c, c ∈ trimCandidates holders := by
      apply exists_mem_of_ne_nil
      unfold trimCandidates
      dsimp only
      split
      · exact ne_nil_of_length_pos (by omega)
      rename_i hsome
      simpa using hsome
    have hjust := (hkept c hc).1
    have houtside : ∀ n ∈ namedHolders nodes holders, 2 < holders.length ∧
      (holders.filter (fun m => decide (m < n))).length < 2 := by
      intro n hn
      have := mt (hcandidate n hn).mpr fun hmem => (hkept n hmem).2 hn
      omega
    obtain ⟨n, hn⟩ : ∃ n, n ∈ namedHolders nodes holders := exists_mem_of_ne_nil _ (ne_nil_of_length_pos (by omega))
    exact ⟨hjust, (houtside n hn).1, fun m hm => (houtside m hm).2⟩

/-- Whatever the utilisation and the answers, a trim keeps the factor exactly if the record names enough holders
before. -/
theorem trim_keeps_factor_iff (H : ChunkHash Id) {chunkId : Id} (htoken : H.looksLikePatchToken chunkId = false)
    (location : ChunkLocation Id) {holders : List NodeId} (hnodup : holders.Nodup) {rf : Nat} (hrf : 1 ≤ rf)
    (hmore : rf < holders.length) : (∀ env : TrimEnv Id, env.location = .ok (some location) → env.replicationFactor = rf →
        (∀ n ∈ holders, env.registered n = true) →
        ∀ o, doCleanupExcessInner H env chunkId holders = .ok (some o) → o.KeepsFactor holders rf) ↔
      NamesEnough location.nodes holders rf := by
  rw [namesEnough_iff hnodup hrf hmore]
  constructor
  · intro hkeeps c hc
    have hnamed := (hkeeps (filling location rf c) rfl rfl (fun _ _ => rfl) _ (trim_filling htoken location hmore hc)).named _ rfl
    rwa [namedHolders_after] at hnamed
  · intro hall env hlocation hfactor hregistered o ho
    have halive : holders.filter env.registered = holders := filter_eq_self.mpr hregistered
    obtain ⟨-, hcandidate, hrecord⟩ := trim_cases hlocation ho
    rw [halive] at hcandidate
    have hmem : o.trimmed ∈ holders := ((mem_trimCandidates_iff hnodup _).mp hcandidate).1
    refine ⟨?_, fun record hrec => ?_⟩
    · rw [length_holdersAfter hnodup hmem]
      omega
    · rw [hrecord record hrec, namedHolders_after]
      exact hall o.trimmed hcandidate

def recordOn (nodes : List NodeId) : ChunkLocation FreeId := ⟨.content [1] 0 1, nodes, 1, some 0, none, none, some 1⟩

theorem trim_leaves_no_named_holder :
    ∃ o, doCleanupExcessInner freeHash (TrimEnv.filling (recordOn [3]) 2 3) (.content [1] 0 1) [1, 2, 3] = .ok (some o) ∧
      o.record.map (·.nodes) = some [] ∧ ¬o.KeepsFactor [1, 2, 3] 2 := by
  refine ⟨_, rfl, rfl, fun h => ?_⟩
  have hnamed := h.named _ rfl
  revert hnamed
  decide +kernel

theorem trim_keeps_two_of_three :
    ∃ o, doCleanupExcessInner freeHash (TrimEnv.filling (recordOn [1, 2, 3]) 2 3) (.content [1] 0 1) [1, 2, 3] = .ok (some o) ∧
      o.KeepsFactor [1, 2, 3] 2 :=
  ⟨_, rfl, (trim_keeps_factor_iff freeHash (show freeHash.looksLikePatchToken (.content [1] 0 1) = false from rfl)
    (recordOn [1, 2, 3]) (by decide) (by decide) (by decide)).mpr (by decide) (filling (recordOn [1, 2, 3]) 2 3) rfl rfl
    (fun _ _ => rfl) _ rfl⟩

end Dfs
