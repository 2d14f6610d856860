import Dfs.Theorems.MetadataConfirmed

/-! # Does the metadata queue hold one entry of a file? -/

namespace Dfs

open List Function Option MetadataQueue

variable {Id : Type}

/-! ## Sequences of operations -/

inductive QueueOp (Id : Type) where
  | push (m : FileMetadata Id) (tx : Option Completion) (full : Bool) (now : Nat)
  | pop
  | popStalled (now : Nat)
  | pushInnerFront (entry : MetadataEntry Id)
  | cancel (file : FileId)
  | markDelivered (file : FileId) (writeSeq size : Nat)

def MetadataQueue.apply (q : MetadataQueue Id) : QueueOp Id → MetadataQueue Id
  | .push m tx full now => q.pushInner m tx full now
  | .pop => (q.popFront.map Prod.snd).getD q
  | .popStalled now => ((q.popStalled now).map Prod.snd).getD q
  | .pushInnerFront entry => q.pushInnerFront entry
  | .cancel file => q.cancel file
  | .markDelivered file writeSeq size => q.markDelivered file writeSeq size

/-- An entry's position for its file, and no other. -/
def IndexExact (inner : List (MetadataEntry Id)) (index : FileId → Option Nat) : Prop :=
  ∀ file pos, index file = some pos ↔ ∃ e, inner[pos]? = some e ∧ e.metadata.id = file

/-- One entry of a file, which the index finds. -/
structure MetadataQueue.InStep (q : MetadataQueue Id) : Prop where
  single : (q.inner.map (·.metadata.id)).Nodup
  index : IndexExact q.inner q.index

def locsAt (locs : Locations Id) (offset : Option Nat) : Locations Id :=
  locs.filter fun l => l.fileOffset = offset

/-- At each offset the newer record's locations, else the other's; the one that comes wins a tie. -/
def Unites (queued incoming : FileMetadata Id) (locs : Locations Id) : Prop :=
  let newer := if queued.writeSeq ≤ incoming.writeSeq then incoming else queued
  let older := if queued.writeSeq ≤ incoming.writeSeq then queued else incoming
  ∀ offset, locsAt locs offset
    = if locsAt newer.chunkLocations offset = [] then locsAt older.chunkLocations offset else locsAt newer.chunkLocations offset

/-- A push of a file that has an entry is merged into it. -/
def QueueOp.NewestWins (q : MetadataQueue Id) : QueueOp Id → Prop
  | .push m tx full now => q.deletedIds m.id = false →
    ∀ (pos : Nat) (e : MetadataEntry Id), q.inner[pos]? = some e → e.metadata.id = m.id →
      ∃ merged : MetadataEntry Id,
        (q.pushInner m tx full now).inner[pos]? = some merged ∧ Unites e.metadata m merged.metadata.chunkLocations
  | _ => True

/-- An entry is put back only where the queue has none of its file. -/
def QueueOp.Single (q : MetadataQueue Id) : QueueOp Id → Prop
  | .pushInnerFront entry => ∀ e ∈ q.inner, e.metadata.id ≠ entry.metadata.id
  | _ => True

/-! ## The index -/

variable {l : List (MetadataEntry Id)} {idx : FileId → Option Nat}

lemma IndexExact.nodup (h : IndexExact l idx) : (l.map (·.metadata.id)).Nodup := by
  rw [nodup_iff_pairwise_ne, pairwise_iff_getElem]
  intro i j hi hj hij heq
  rw [length_map] at hi hj
  rw [getElem_map, getElem_map] at heq
  have hpi := (h _ i).mpr ⟨l[i], getElem?_eq_getElem hi, heq⟩
  have hpj := (h _ j).mpr ⟨l[j], getElem?_eq_getElem hj, rfl⟩
  rw [hpi, some.injEq] at hpj
  omega

variable {file : FileId} {e : MetadataEntry Id} {k : Nat}

lemma reindex_of_notMem (h : ∀ e ∈ l, e.metadata.id ≠ file) : reindex k l idx file = idx file := by
  induction l generalizing k idx with
  | nil => rfl
  | cons e l ih =>
    rw [reindex, ih fun x hx => h x (mem_cons_of_mem _ hx), update_of_ne]
    exact (h e mem_cons_self).symm

lemma reindex_of_getElem? {i : Nat} (hnodup : (l.map (·.metadata.id)).Nodup) (he : l[i]? = some e) :
    reindex k l idx e.metadata.id = some (k + i) := by
  induction l generalizing k idx i with
  | nil => cases he
  | cons a l ih =>
    obtain ⟨hnot, hnodup⟩ := nodup_cons.mp hnodup
    cases i with
    | zero =>
      obtain rfl := some.inj he
      have habsent : ∀ x ∈ l, x.metadata.id ≠ a.metadata.id := by
        intro x hx hid
        exact hnot (mem_map.mpr ⟨x, hx, hid⟩)
      rw [reindex, reindex_of_notMem habsent, update_self]
      rfl
    | succ i =>
      rw [getElem?_cons_succ] at he
      rw [reindex, ih hnodup he]
      congr 1
      omega

lemma indexExact_reindex (hnodup : (l.map (·.metadata.id)).Nodup)
    (hrest : ∀ file, (∀ e ∈ l, e.metadata.id ≠ file) → idx file = none) : IndexExact l (reindex 0 l idx) := by
  intro file pos
  constructor
  · intro hpos
    rcases reindex_cases hpos with ⟨e, -, hget, hid⟩ | ⟨hno, hidx⟩
    · exact ⟨e, hget, hid⟩
    rw [hrest file hno] at hidx
    cases hidx
  · rintro ⟨e, hget, rfl⟩
    rw [reindex_of_getElem? hnodup hget, Nat.zero_add]

lemma IndexExact.absent (h : IndexExact l idx) : idx file = none ↔ ∀ e ∈ l, e.metadata.id ≠ file := by
  constructor
  · intro hnone e he hid
    obtain ⟨pos, hpos⟩ := mem_iff_getElem?.mp he
    have := (h file pos).mpr ⟨e, hpos, hid⟩
    rw [hnone] at this
    cases this
  · intro hno
    cases hidx : idx file with
    | none => rfl
    | some pos =>
      obtain ⟨e, he, hid⟩ := (h file pos).mp hidx
      exact absurd hid (hno e (mem_of_getElem? he))

lemma indexExact_append (h : IndexExact l idx) (hnew : idx e.metadata.id = none) :
    IndexExact (l ++ [e]) (update idx e.metadata.id (some l.length)) := by
  intro file pos
  constructor
  · intro hpos
    by_cases hfile : file = e.metadata.id
    · rw [hfile, update_self, some.injEq] at hpos
      exact ⟨e, by simp [← hpos], hfile.symm⟩
    rw [update_of_ne hfile] at hpos
    obtain ⟨x, hx, hid⟩ := (h file pos).mp hpos
    exact ⟨x, by rw [getElem?_append_left (List.getElem?_eq_some_iff.mp hx).1]; exact hx, hid⟩
  · rintro ⟨x, hx, rfl⟩
    rw [getElem?_append] at hx
    split at hx
    · have hne : x.metadata.id ≠ e.metadata.id := h.absent.mp hnew x (mem_of_getElem? hx)
      rw [update_of_ne hne]
      exact (h _ pos).mpr ⟨x, hx, rfl⟩
    rw [getElem?_singleton] at hx
    split at hx
    · cases hx
      rw [update_self, some.injEq]
      omega
    · cases hx

lemma indexExact_set (h : IndexExact l idx) {pos : Nat} {e' : MetadataEntry Id} (he : l[pos]? = some e)
    (hid : e'.metadata.id = e.metadata.id) : IndexExact (l.set pos e') idx := by
  have hpos : pos < l.length := (List.getElem?_eq_some_iff.mp he).1
  intro file pos'
  rw [h file pos']
  by_cases hp : pos = pos'
  · subst hp
    rw [he, getElem?_set_self hpos]
    simp [hid]
  · rw [getElem?_set_ne hp]

/-! ## The operations -/

lemma locsAt_mergeLocations (base other : Locations Id) (offset : Option Nat) :
    locsAt (mergeLocations base other) offset = if locsAt base offset = [] then locsAt other offset else locsAt base offset := by
  have hnone : locsAt base offset = [] ↔ ∀ l ∈ base, l.fileOffset ≠ offset := by
    simp [locsAt, filter_eq_nil_iff]
  unfold mergeLocations
  split
  · rename_i hother
    rw [List.isEmpty_iff] at hother
    split
    · rw [hother, ‹locsAt base offset = []›]
      rfl
    · rfl
  unfold locsAt at hnone ⊢
  rw [filter_append, List.filter_filter]
  split
  · rename_i hbase
    rw [hbase, nil_append]
    refine filter_congr fun l _ => ?_
    by_cases hl : l.fileOffset = offset
    · have hnot : offset ∉ base.map (·.fileOffset) := by
        intro hmem
        obtain ⟨x, hx, hxo⟩ := mem_map.mp hmem
        exact hnone.mp hbase x hx hxo
      simp [hl, hnot]
    · simp [hl]
  · rename_i hbase
    have hrest : other.filter (fun l => decide (l.fileOffset = offset) && !(base.map (·.fileOffset)).contains l.fileOffset) =
      [] := by
      rw [filter_eq_nil_iff]
      intro l _ hl
      rw [Bool.and_eq_true, decide_eq_true_iff, Bool.not_eq_true', contains_eq_mem, decide_eq_false_iff_not] at hl
      obtain ⟨hoff, hnot⟩ := hl
      refine hbase (hnone.mpr fun x hx hxo => hnot ?_)
      exact mem_map.mpr ⟨x, hx, hxo.trans hoff.symm⟩
    rw [hrest, append_nil]

lemma coalesce_unites (q : MetadataQueue Id) {entry : MetadataEntry Id} {m : FileMetadata Id} (tx : Option Completion)
    (full : Bool)
    (hid : entry.metadata.id = m.id) : (q.coalesce entry m tx full).1.metadata.id = m.id ∧
      Unites entry.metadata m (q.coalesce entry m tx full).1.metadata.chunkLocations := by
  unfold coalesce Unites
  dsimp only
  split
  · exact ⟨rfl, fun offset => locsAt_mergeLocations _ _ offset⟩
  · exact ⟨hid, fun offset => locsAt_mergeLocations _ _ offset⟩

variable {q : MetadataQueue Id}

lemma MetadataQueue.find_eq_none (h : IndexSound q.inner q.index) : q.find file = none ↔ q.index file = none := by
  unfold find
  cases hidx : q.index file with
  | none => simp
  | some pos =>
    obtain ⟨e, he, -⟩ := h file pos hidx
    simp [he]

lemma IndexExact.sound (h : IndexExact l idx) : IndexSound l idx :=
  fun file pos hpos => (h file pos).mp hpos

lemma IndexExact.inStep (h : IndexExact q.inner q.index) : q.InStep := ⟨h.nodup, h⟩

lemma inStep_pushInner (h : q.InStep) (m : FileMetadata Id) (tx : Option Completion) (full : Bool) (now : Nat) :
    (q.pushInner m tx full now).InStep := by
  apply IndexExact.inStep
  rcases pushInner_cases q m tx full now with ⟨-, heq⟩ | ⟨-, pos, e, hfind, heq⟩ | ⟨-, hfind, heq⟩
  · rw [heq]
    exact h.index
  · rw [heq]
    obtain ⟨hidx, he⟩ := find_eq_some.mp hfind
    obtain ⟨x, hx, hid⟩ := (h.index _ pos).mp hidx
    obtain rfl := some.inj (hx.symm.trans he)
    exact indexExact_set h.index he ((coalesce_unites q tx full hid).1.trans hid.symm)
  rw [heq]
  exact indexExact_append h.index ((find_eq_none h.index.sound).mp hfind)

lemma newestWins_push (h : q.InStep) (m : FileMetadata Id) (tx : Option Completion) (full : Bool) (now : Nat) :
    QueueOp.NewestWins q (.push m tx full now) := by
  intro hlive pos e he hid
  have hfound : q.find m.id = some (pos, e) := find_eq_some.mpr ⟨(h.index _ pos).mpr ⟨e, he, hid⟩, he⟩
  rcases pushInner_cases q m tx full now with ⟨hdel, -⟩ | ⟨-, pos', e', hfind, heq⟩ | ⟨-, hfind, -⟩
  · rw [hlive] at hdel
    cases hdel
  · rw [hfound, some.injEq] at hfind
    cases hfind
    refine ⟨(q.coalesce e m tx full).1, ?_, (coalesce_unites q tx full hid).2⟩
    rw [heq]
    exact getElem?_set_self (List.getElem?_eq_some_iff.mp he).1
  rw [hfound] at hfind
  cases hfind

lemma inStep_without (h : q.InStep) {rest : List (MetadataEntry Id)} (hsub : rest.Sublist q.inner)
    (hfile : ∀ e ∈ q.inner, e ∉ rest → e.metadata.id = file) : IndexExact rest (reindex 0 rest (update q.index file none)) := by
  refine indexExact_reindex (h.single.sublist (hsub.map _)) fun g hg => ?_
  by_cases hgf : g = file
  · rw [hgf, update_self]
  rw [update_of_ne hgf, h.index.absent]
  intro e he hid
  by_cases hrest : e ∈ rest
  · exact hg e hrest hid
  · exact hgf (hid.symm.trans (hfile e he hrest))

lemma inStep_popFront {q' : MetadataQueue Id} (h : q.InStep) (hpop : q.popFront = some (e, q')) : q'.InStep := by
  obtain ⟨l, hinner, rfl⟩ := popFront_eq_some hpop
  refine (inStep_without h ?_ ?_).inStep
  · rw [hinner]
    exact sublist_cons_self e l
  · intro x hx hrest
    rw [hinner] at hx
    rw [(mem_cons.mp hx).resolve_right hrest]

lemma inStep_cancel (h : q.InStep) (file : FileId) : (q.cancel file).InStep := by
  unfold cancel
  dsimp only
  cases hidx : q.index file with
  | none => exact ⟨h.single, h.index⟩
  | some pos =>
    obtain ⟨e, he, hid⟩ := (h.index file pos).mp hidx
    refine (inStep_without h (eraseIdx_sublist _ _) ?_).inStep
    intro x hx hrest
    obtain ⟨i, hi⟩ := mem_iff_getElem?.mp hx
    by_cases hpos : i = pos
    · rw [hpos] at hi
      obtain rfl := some.inj (hi.symm.trans he)
      exact hid
    · exact absurd (mem_eraseIdx_iff_getElem?.mpr ⟨i, hpos, hi⟩) hrest

lemma inStep_pushInnerFront_iff (h : q.InStep) (entry : MetadataEntry Id) :
    (q.pushInnerFront entry).InStep ↔ ∀ e ∈ q.inner, e.metadata.id ≠ entry.metadata.id := by
  constructor
  · intro hafter e he hid
    exact (nodup_cons.mp hafter.single).1 (mem_map.mpr ⟨e, he, hid⟩)
  · intro hnone
    refine (indexExact_reindex ?_ fun file hfile => ?_).inStep
    · refine nodup_cons.mpr ⟨fun hmem => ?_, h.single⟩
      obtain ⟨e, he, hid⟩ := mem_map.mp hmem
      exact hnone e he hid
    · rw [update_of_ne (hfile entry mem_cons_self).symm, h.index.absent]
      exact fun e he => hfile e (mem_cons_of_mem _ he)

/-! ## Runs -/

lemma inStep_apply_iff (h : q.InStep) (a : QueueOp Id) : ((q.apply a).InStep ∧ a.NewestWins q) ↔ a.Single q := by
  cases a with
  | push m tx full now => exact iff_of_true ⟨inStep_pushInner h m tx full now, newestWins_push h m tx full now⟩ trivial
  | pop =>
    refine iff_of_true ⟨?_, trivial⟩ trivial
    cases hpop : q.popFront with
    | none => simpa [MetadataQueue.apply, hpop] using h
    | some r => simpa [MetadataQueue.apply, hpop] using inStep_popFront h hpop
  | popStalled now =>
    refine iff_of_true ⟨?_, trivial⟩ trivial
    cases hpop : q.popStalled now with
    | none => simpa [MetadataQueue.apply, hpop] using h
    | some r => simpa [MetadataQueue.apply, hpop] using inStep_popFront h (popStalled_popFront hpop)
  | pushInnerFront entry => exact (and_iff_left trivial).trans (inStep_pushInnerFront_iff h entry)
  | cancel file => exact iff_of_true ⟨inStep_cancel h file, trivial⟩ trivial
  | markDelivered file writeSeq size => exact iff_of_true ⟨⟨h.single, h.index⟩, trivial⟩ trivial

lemma inStep_new : (new : MetadataQueue Id).InStep := by
  apply IndexExact.inStep
  intro file pos
  simp [new]

/-- Each file has one entry, found by the index, and merges keep the newer locations, exactly if no entry is put back
to the front where its file has one. -/
theorem queue_in_step_iff (l : List (QueueOp Id)) :
    Transition.Meets MetadataQueue.apply (fun q a => (q.apply a).InStep ∧ a.NewestWins q) MetadataQueue.new l
      ↔ Transition.Meets MetadataQueue.apply (fun q a => a.Single q) MetadataQueue.new l :=
  Transition.meets_iff (fun _ a h => inStep_apply_iff h a) (fun _ a h hok => ((inStep_apply_iff h a).mpr hok).1) inStep_new

theorem requeued_twice : (Transition.run MetadataQueue.apply MetadataQueue.new
      [.push (queuedFile 1) none false 0, .popStalled 30, .push (queuedFile 2) none false 30,
        .pushInnerFront ⟨queuedFile 1, 0, none, 1⟩]).inner.map (fun e => (e.metadata.id, e.metadata.writeSeq)) =
          [(1, 1), (1, 2)] := by
  decide

end Dfs
