import Dfs.Theorems.FlushContent

/-! # Are recorded gaps zero? -/

namespace Dfs

open Overlay List Option Client

/-! ## The gap table -/

/-- The gaps from `last` on between the ranges, the last of them up to the end. -/
def gapsFrom (slotLen : Nat) : Nat → List (Nat × Nat) → List (Nat × Nat)
  | last, [] => if last < slotLen then [(last, slotLen)] else []
  | last, r :: rest => (if last < r.1 then [(last, r.1)] else []) ++ gapsFrom slotLen r.2 rest

/-- `seed_zero_gap_table`: the gaps it records, by their places in the chunk. -/
def seedZeroGapTable (slotLen : Nat) (dirtyRanges : List (Nat × Nat)) : List (Nat × Nat) :=
  if dirtyRanges = [] ∨ slotLen = 0 then [] else gapsFrom slotLen 0 (dirtyRanges.insertionSort fun r s => r.1 ≤ s.1)

/-- With zeros in a recorded gap; expired ones are dropped first. -/
def readZeroGap (gaps : List (Nat × Nat)) (expired : Nat × Nat → Bool) (start len : Nat) : Option Bytes :=
  if (gaps.filter fun g => !expired g).any (fun g => decide (g.1 ≤ start ∧ start + len ≤ g.2)) then some (List.replicate len 0)
  else none

variable {Id : Type} [DecidableEq Id]

variable (c : Client Id) (env : FlushEnv Id)

/-- Only a fresh write answered with a location records any. -/
def Client.recordedGaps : List (Nat × Nat) :=
  match ((c.writeAll env.during).tryPatch env (c.slotView env)).2, (c.slotView env).realDataFound env, env.write with
  | .fresh data, none, some (some _) => seedZeroGapTable data.length c.shard.slot.dirtyRanges
  | _, _, _ => []

/-- Zero in what it has written, and reads they answer are right. -/
def Client.ZeroGapsRight : Prop :=
  ∀ content, (c.flushSlot env).1.server = some content →
    (∀ g ∈ c.recordedGaps env, ∀ i, g.1 ≤ i → i < g.2 → content[i]? = some 0) ∧
      ∀ expired start len data, readZeroGap (c.recordedGaps env) expired start len = some data →
        data = FlushView.slice content start (start + len)

variable {slotLen : Nat} {ranges : List (Nat × Nat)}

lemma covers_gapsFrom (hsep : Runs.Separated Prod.fst Prod.snd ranges) {last : Nat}
    (hvalid : ∀ r ∈ ranges, last ≤ r.1 ∧ r.1 < r.2 ∧ r.2 ≤ slotLen) (i : Nat) :
    Runs.Covers Prod.fst Prod.snd (gapsFrom slotLen last ranges) i ↔
      last ≤ i ∧ i < slotLen ∧ ¬Runs.Covers Prod.fst Prod.snd ranges i := by
  induction ranges generalizing last with
  | nil =>
    unfold gapsFrom
    split
    · simp [Runs.Covers]
    simp only [Runs.Covers, not_mem_nil, false_and, exists_false, not_false_eq_true, and_true, false_iff]
    omega
  | cons r rest ih =>
    obtain ⟨hbefore, hrest⟩ := pairwise_cons.mp hsep
    obtain ⟨hlast, hlt, hle⟩ := hvalid r (.head _)
    have htail := ih hrest fun x hx => ⟨(hbefore x hx).le, (hvalid x (.tail _ hx)).2⟩
    have hafter : Runs.Covers Prod.fst Prod.snd rest i → r.2 ≤ i := by
      rintro ⟨x, hx, hxi, -⟩
      exact le_trans (hbefore x hx).le hxi
    have hgap : (∃ g ∈ if last < r.1 then [(last, r.1)] else [], g.1 ≤ i ∧ i < g.2) ↔ last ≤ i ∧ i < r.1 := by
      split
      · simp
      simp only [not_mem_nil, false_and, exists_false, false_iff]
      omega
    unfold Runs.Covers at htail hafter ⊢
    simp only [gapsFrom, mem_append, or_and_right, exists_or, hgap, htail, mem_cons, exists_eq_left]
    by_cases hcover : ∃ x ∈ rest, x.1 ≤ i ∧ i < x.2
    · simp only [hcover, not_true_eq_false, and_false, or_false, or_true, iff_false]
      have := hafter hcover
      omega
    simp only [hcover, not_false_eq_true, and_true, or_false]
    omega

lemma covers_seedZeroGapTable (hsep : Runs.Separated Prod.fst Prod.snd ranges)
    (hvalid : ∀ r ∈ ranges, r.1 < r.2 ∧ r.2 ≤ slotLen) (hne : ranges ≠ []) (i : Nat) :
    Runs.Covers Prod.fst Prod.snd (seedZeroGapTable slotLen ranges) i ↔ i < slotLen ∧
      ¬Runs.Covers Prod.fst Prod.snd ranges i := by
  obtain ⟨r, hr⟩ := exists_mem_of_ne_nil ranges hne
  have hlen : slotLen ≠ 0 := by
    have := hvalid r hr
    omega
  have hsorted : ranges.Pairwise fun r s => r.1 ≤ s.1 := hsep.imp_of_mem fun {r s} hr _ hlt => (lt_trans (hvalid r hr).1 hlt).le
  rw [seedZeroGapTable, if_neg (by simp [hne, hlen]), hsorted.insertionSort_eq,
    covers_gapsFrom hsep fun r hr => ⟨Nat.zero_le _, hvalid r hr⟩]
  simp

omit [DecidableEq Id] in
lemma separated_writeAll {cs : ChunkShardState Id} {ws : Extents} (h : cs.slot.Holds ws)
    (hsep : Runs.Separated Prod.fst Prod.snd cs.slot.dirtyRanges) (ws' : List SlotWrite) :
    Runs.Separated Prod.fst Prod.snd (cs.writeAll ws').slot.dirtyRanges := by
  induction ws' generalizing cs ws with
  | nil => exact hsep
  | cons w ws' ih =>
    refine ih (h.writeAt w.intra w.data w.now) ?_
    have hranges : (cs.seeded.extendTo w.intra).dirtyRanges = cs.slot.dirtyRanges :=
      (cs.seeded.extendTo_eq w.intra).2.1.trans cs.seeded_eq.2.1
    show Runs.Separated Prod.fst Prod.snd (markDirty (cs.seeded.extendTo w.intra).dirtyRanges _ _)
    rw [hranges]
    exact separated_markDirty hsep (fun r hr => (h.valid r hr).1.le) _ _

/-! ## The flush -/

lemma recordedGaps_cases :
    (∃ base, c.FreshFrom env (c.slotView env) base ∧ (c.slotView env).realDataFound env = none ∧
      (env.write.bind id).isSome = true ∧
      (c.flushSlot env).1.server = some ((c.slotView env).freshData base) ∧
      c.recordedGaps env = seedZeroGapTable ((c.slotView env).freshData base).length c.shard.slot.dirtyRanges) ∨
    (∀ base, c.FreshFrom env (c.slotView env) base →
      ¬((c.slotView env).realDataFound env = none ∧ (env.write.bind id).isSome = true)) ∧ c.recordedGaps env = [] := by
  have hsame := (sameForPatch_writeAll c env.during).symm
  have hattempt := tryPatch_attempted (c.writeAll env.during) env (c.slotView env)
  unfold recordedGaps flushSlot flushBufferAsyncOne
  dsimp only
  generalize (c.writeAll env.during).tryPatch env (c.slotView env) = r at hattempt
  cases hattempt with
  | done sent => exact .inr ⟨fun base h => absurd h ((sent.congr hsame).not_freshFrom base), rfl⟩
  | lost lost => exact .inr ⟨fun base h => absurd h ((lost.congr hsame).not_freshFrom base), rfl⟩
  | refused _ fresh => exact .inr ⟨fun base h => absurd (h.congr hsame.symm) (fresh base), rfl⟩
  | fresh fresh =>
    by_cases hwritten : (c.slotView env).realDataFound env = none ∧ (env.write.bind id).isSome = true
    · obtain ⟨hfound, hwrite⟩ := hwritten
      obtain ⟨loc, hloc⟩ : ∃ loc, env.write = some (some loc) := by
        rcases hw : env.write with _ | _ | loc <;> simp_all
      refine .inl ⟨_, fresh.congr hsame, hfound, hwrite, ?_, by simp only [hfound, hloc]⟩
      rcases freshWrite_server _ env (c.slotView env) (c.cached.map (·.id)) _ with ⟨-, -, hserver, -⟩ | ⟨hno, -⟩
      · exact hserver
      · exact absurd ⟨hfound, by rw [hloc]; rfl⟩ hno
    · refine .inr ⟨fun _ _ => hwritten, ?_⟩
      split
      · rename_i hfound hwrite
        exact absurd ⟨hfound, by rw [hwrite]; rfl⟩ hwritten
      · rfl

omit [DecidableEq Id] in
lemma readZeroGap_eq {gaps : List (Nat × Nat)} {content : Bytes}
    (hzero : ∀ g ∈ gaps, ∀ i, g.1 ≤ i → i < g.2 → content[i]? = some 0) {expired : Nat × Nat → Bool} {start len : Nat}
    {data : Bytes}
    (h : readZeroGap gaps expired start len = some data) : data = FlushView.slice content start (start + len) := by
  unfold readZeroGap at h
  split at h
  · rename_i hany
    obtain ⟨g, hg, hin⟩ := any_eq_true.mp hany
    obtain ⟨hstart, hstop⟩ := of_decide_eq_true hin
    cases h
    refine ext_getElem? fun i => ?_
    rw [FlushView.slice, getElem?_drop, getElem?_take, getElem?_replicate]
    by_cases hi : i < len
    · rw [if_pos hi, if_pos (by omega), hzero g (List.mem_filter.mp hg).1 _ (by omega) (by omega)]
    · rw [if_neg hi, if_neg (by omega)]
  · cases h

/-- The zeros in the gaps are right just when no reconstructed buffer is written, or its base is zero wherever nothing
was written. -/
theorem zero_gaps_right_iff (c : Client Id) (env : FlushEnv Id) {ws : Extents} (hholds : c.shard.slot.Holds ws)
    (hsep : Runs.Separated Prod.fst Prod.snd c.shard.slot.dirtyRanges) :
    c.ZeroGapsRight env ↔ ∀ base, c.FreshFrom env (c.slotView env) (some base) →
      (c.slotView env).realDataFound env = none → (env.write.bind id).isSome = true →
        c.shard.slot.dirtyRanges ≠ [] → ∀ i, lastAt ws i = none → base.getD i default = 0 := by
  have hnothing : c.recordedGaps env = [] → c.ZeroGapsRight env := by
    intro hnone content _
    rw [hnone]
    exact ⟨fun g hg => absurd hg not_mem_nil, fun expired start len data h => by simp [readZeroGap] at h⟩
  rcases recordedGaps_cases c env with ⟨base, hfresh, hfound, hwrite, hserver, hgaps⟩ | ⟨hno, hgaps⟩
  swap
  · exact iff_of_true (hnothing hgaps) fun base hfresh hfound hwrite => absurd ⟨hfound, hwrite⟩ (hno _ hfresh)
  by_cases hne : c.shard.slot.dirtyRanges = []
  · refine iff_of_true (hnothing ?_) fun base _ _ _ h => absurd hne h
    rw [hgaps]
    exact if_pos (.inl hne)
  obtain ⟨hlen, hbytes⟩ := freshData_spec env hholds base
  -- a gap covers what is written and not dirty
  have hcovers : ∀ i, Runs.Covers Prod.fst Prod.snd (c.recordedGaps env) i ↔
      i < ((c.slotView env).freshData base).length ∧ lastAt ws i = none := by
    intro i
    have hvalid : ∀ r ∈ c.shard.slot.dirtyRanges, r.1 < r.2 ∧ r.2 ≤ ((c.slotView env).freshData base).length := fun r hr => by
      rw [hlen]
      exact ⟨(hholds.valid r hr).1, le_trans (hholds.valid r hr).2 (le_max_right ..)⟩
    rw [hgaps, ← not_isSome_iff_eq_none, ← hholds.dirty i]
    exact covers_seedZeroGapTable hsep hvalid hne i
  constructor
  · intro hright base' hfresh' _ _ _ i hi
    obtain rfl := hfresh.unique hfresh'
    have hbyte := hbytes i
    rw [hi, getD_none, getD_some] at hbyte
    rw [← hbyte, getD_eq_getElem?_getD]
    by_cases hin : i < ((c.slotView env).freshData (some base')).length
    · obtain ⟨g, hg, hgi⟩ := (hcovers i).mpr ⟨hin, hi⟩
      rw [(hright _ hserver).1 g hg i hgi.1 hgi.2, getD_some]
    rw [getElem?_eq_none (Nat.le_of_not_lt hin)]
    rfl
  · intro hcond content hcontent
    obtain rfl := some.inj (hserver.symm.trans hcontent)
    have hzero : ∀ g ∈ c.recordedGaps env, ∀ i, g.1 ≤ i → i < g.2 → ((c.slotView env).freshData base)[i]? = some 0 := by
      intro g hg i hlo hhi
      obtain ⟨hin, hi⟩ := (hcovers i).mp ⟨g, hg, hlo, hhi⟩
      have hbyte := hbytes i
      rw [hi, getD_none, getD_eq_getElem _ _ hin] at hbyte
      rw [getElem?_eq_getElem hin, hbyte]
      cases base with
      | none => rfl
      | some base => rw [getD_some, hcond base hfresh hfound hwrite hne i hi]
    exact ⟨hzero, fun expired start len data => readZeroGap_eq hzero⟩

def Client.overwriting : Client Nat :=
  (({ Client.opened false with
      cached := some ⟨1, some ⟨5, 4⟩⟩, server := some [1, 2, 3, 4], chunkCache := fun _ => some [1, 2, 3, 4] } :
        Client Nat).writeAll
    [⟨0, [9, 9], 1⟩])

def patchesRefused : FlushEnv Nat :=
  { FlushEnv.onlyWrites ⟨6, 4⟩ with singleChunkLocation := some (some ⟨5, 4⟩), retry := .error .allReplicasFailed }

/-- The chunk is reconstructed, and its other two bytes are recorded as a gap. -/
theorem reconstructed_bytes_read_as_zero :
    (Client.overwriting.flushSlot patchesRefused).1.server = some [9, 9, 3, 4] ∧
      readZeroGap (Client.overwriting.recordedGaps patchesRefused) (fun _ => false) 2 2
        = some [0, 0] ∧ ¬Client.overwriting.ZeroGapsRight patchesRefused := by
  have hserver : (overwriting.flushSlot patchesRefused).1.server
      = some [9, 9, 3, 4] := by decide +kernel
  have hread : readZeroGap (overwriting.recordedGaps patchesRefused) (fun _ => false) 2 2 = some [0, 0] := by decide +kernel
  refine ⟨hserver, hread, fun hright => ?_⟩
  exact absurd ((hright _ hserver).2 _ 2 2 _ hread) (by decide)

def Client.sparse : Client Nat := (Client.opened false).writeAll [⟨2, [7], 1⟩]

theorem sparse_gap_is_zero : Client.sparse.ZeroGapsRight (.onlyWrites ⟨5, 3⟩) := by
  have hnew : (opened false : Client Nat).shard.slot.Holds [] := holds_new 0
  refine (zero_gaps_right_iff sparse (.onlyWrites ⟨5, 3⟩) (hnew.writeAll [⟨2, [7], 1⟩])
    (separated_writeAll hnew List.Pairwise.nil [⟨2, [7], 1⟩])).mpr ?_
  intro base hfresh
  have hneeds : (sparse.slotView (.onlyWrites ⟨5, 3⟩)).needsPatch = false := by decide +kernel
  cases hfresh with
  | reconstructed h => exact absurd (h.needs.symm.trans hneeds) (by decide)

end Dfs
