import Dfs.Theorems.FlushContent
import Dfs.Theorems.FlushCompletion

/-! # A session of writes and flushes -/

namespace Dfs

open Overlay SlotWrite

variable {Id : Type} [DecidableEq Id]

/-- A fresh write has the chunk's bytes where nothing was written, and a dropped slot was sent with nothing written since. -/
structure Client.LosesNothing (c : Client Id) (env : FlushEnv Id) (ws : Extents) : Prop where
  base : ∀ base, c.FreshFrom env (c.slotView env) base →
    Overlaid (c.server.getD []) ws ((c.slotView env).freshData base)
  dropped : c.SlotDropped env (c.slotView env) → (∀ w ∈ env.during, w.data = []) ∧ ¬c.GivesUp env

inductive Client.Session (c₀ : Client Id) : Extents → Client Id → Prop
  | start : Client.Session c₀ [] c₀
  | write {c : Client Id} {all : Extents} (h : Client.Session c₀ all c) (w : SlotWrite) (hw : w.data ≠ []) :
    Client.Session c₀ (all ++ [w.range]) (c.writeAll [w])
  | flush {c : Client Id} {all : Extents} (h : Client.Session c₀ all c) {cs : ChunkShardState Id}
    (hclaim : c.shard.claim = some cs) (env : FlushEnv Id)
    (hsafe : ∀ ws, cs.slot.Holds ws → ({ c with shard := cs } : Client Id).LosesNothing env ws) :
    Client.Session c₀ (all ++ env.during.map SlotWrite.range)
      (({ c with shard := cs } : Client Id).flushBufferAsyncOne env cs.slot.snapshot).1

/-- The slot's writes over the chunk are the writes `all` over `before`. -/
structure Client.Tracks (c : Client Id) (before : Bytes) (all ws : Extents) : Prop where
  holds : c.shard.slot.Holds ws
  used : c.shard.slot.isEmpty = false → ∃ w ∈ ws, w.2 ≠ []
  content : ∀ i, (lastAt ws i).getD ((c.server.getD []).getD i default) = (lastAt all i).getD (before.getD i default)

variable {ws all : Extents} {c : Client Id} {before : Bytes} {env : FlushEnv Id}

lemma getD_lastAt_append {b b' : UInt8} {i : Nat} (h : (lastAt ws i).getD b = (lastAt all i).getD b')
    (new : Extents) : (lastAt (ws ++ new) i).getD b = (lastAt (all ++ new) i).getD b' := by
  rw [lastAt_append, lastAt_append]
  cases lastAt new i with
  | none => exact h
  | some x => rfl

omit [DecidableEq Id] in
lemma Client.Tracks.write (h : c.Tracks before all ws) (w : SlotWrite) (hw : w.data ≠ []) :
    (c.writeAll [w]).Tracks before (all ++ [w.range]) (ws ++ [w.range]) := by
  refine ⟨h.holds.writeAll [w], fun _ => ⟨w.range, by simp, hw⟩, fun i => ?_⟩
  exact getD_lastAt_append (h.content i) [w.range]

lemma losesNothing_server (hholds : c.shard.slot.Holds ws) (hdirty : c.shard.slot.dirtyRanges ≠ [])
    (hsafe : c.LosesNothing env ws) :
    (∃ after, (c.flushSlot env).1.server = some after ∧ Overlaid (c.server.getD []) ws after) ∨
    (¬c.SlotDropped env (c.slotView env) ∧ (c.flushSlot env).1.server = c.server) := by
  rcases flush_server c env with ⟨-, -, hserver⟩ | ⟨base, hfresh, -, -, -, hserver⟩ | ⟨hsent, hno, -, hserver⟩
  · exact .inl ⟨_, hserver, overlaid_patches hholds hdirty _⟩
  · exact .inl ⟨_, hserver, hsafe.base base hfresh⟩
  refine .inr ⟨fun hdropped => ?_, hserver⟩
  have hgive := (hsafe.dropped hdropped).2
  rcases hdropped with ⟨h, -⟩ | ⟨base, hfresh, hfound, ⟨⟨loc, hwrite⟩, -⟩ | ⟨-, h⟩⟩ | ⟨-, h⟩
  · exact hsent h
  · exact hno base hfresh ⟨hfound, by rw [hwrite]; rfl⟩
  · exact hgive h
  · exact hgive h

lemma Client.Tracks.flush (h : c.Tracks before all ws) (hslot : c.shard.slot.isEmpty = false) (hsafe : c.LosesNothing env ws) :
    ∃ ws', (c.flushSlot env).1.Tracks before (all ++ env.during.map range) ws' := by
  obtain ⟨w, hw, hne⟩ := h.used hslot
  have hserver := losesNothing_server h.holds (h.holds.dirtyRanges_ne_nil hw hne) hsafe
  rcases flush_holds c env hslot h.holds with ⟨hdropped, hnew⟩ | ⟨-, hafter⟩
  · -- dropped: all of it was sent, and nothing landed meanwhile
    obtain ⟨after, hserver, hover⟩ := hserver.resolve_right fun hkept => hkept.1 hdropped
    have hnone : ∀ i, lastAt (env.during.map range) i = none := by
      intro i
      rw [lastAt_eq_none_iff]
      intro r hr
      obtain ⟨w, hw, rfl⟩ := List.mem_map.1 hr
      rw [elemIn_eq_none_iff, range, (hsafe.dropped hdropped).1 w hw]
      simp only [List.length_nil]
      omega
    refine ⟨[], by rw [hnew]; exact holds_new _, fun hused => ?_, fun i => ?_⟩
    · rw [hnew] at hused
      cases hused
    · rw [hserver, lastAt_append, hnone, Option.none_or, ← h.content i]
      exact hover.elems i
  · refine ⟨ws ++ env.during.map range, hafter, fun _ => ⟨w, by simp [hw], hne⟩, fun i => getD_lastAt_append ?_ _⟩
    rw [← h.content i]
    rcases hserver with ⟨after, hserver, hover⟩ | ⟨-, hserver⟩
    · rw [hserver, Option.getD_some, hover.elems]
      cases lastAt ws i <;> rfl
    · rw [hserver]

/-- In every session of flushes that lose nothing, the chunk with the slot over it is the chunk at the start with all that was
written over it. -/
theorem session_content {c₀ : Client Id} (hsession : Client.Session c₀ all c) (hnew : c₀.shard.slot.isEmpty = true)
    (hempty : c₀.shard.slot.Holds []) : ∃ ws, c.Tracks (c₀.server.getD []) all ws := by
  induction hsession with
  | start => exact ⟨[], hempty, fun h => absurd (hnew.symm.trans h) (by decide), fun i => rfl⟩
  | write h w hw ih =>
    obtain ⟨ws, hws⟩ := ih
    exact ⟨_, hws.write w hw⟩
  | @flush c all h cs hclaim env hsafe ih =>
    obtain ⟨ws, hws⟩ := ih
    rw [ChunkShardState.claim, Option.ite_none_left_eq_some, Option.some.injEq, Bool.or_eq_true, not_or] at hclaim
    obtain ⟨⟨hslot, -⟩, rfl⟩ := hclaim
    have hclaimed : ({ c with shard := { c.shard with flushWaiter := true, slot := { c.shard.slot with flushing := true } } } :
        Client Id).Tracks (c₀.server.getD []) all ws := ⟨hws.holds.congr rfl rfl le_rfl, hws.used, hws.content⟩
    exact hclaimed.flush (Bool.eq_false_of_not_eq_true hslot) (hsafe ws hclaimed.holds)

/-- A write to a chunk that is not there yet, and its flush. -/
theorem flush_is_tracked : ∃ (c : Client Nat) (ws : _), c.server = some [1, 2] ∧ c.Tracks [] [(0, [1, 2])] ws := by
  have hstart : Client.Session (.opened false) [] (.opened false : Client Nat) := .start
  obtain ⟨ws, h⟩ := session_content (.flush (hstart.write ⟨0, [1, 2], 1⟩ (by simp)) rfl (.onlyWrites ⟨5, 2⟩) fun ws hholds => by
    refine ⟨fun base hfresh => ?_, fun _ => ⟨List.forall_mem_nil _, Bool.false_ne_true⟩⟩
    obtain rfl := hfresh.unique (.unpatched (.inr rfl))
    exact (overlaid_freshData_iff hholds _ _).2 ⟨Nat.zero_le _, fun _ _ => rfl⟩) rfl (holds_new 0)
  exact ⟨_, ws, by decide +kernel, h⟩

end Dfs
