import Dfs.Client.MetadataQueue

/-! # When a metadata push is confirmed -/

namespace Dfs

open List Function Option MetadataQueue

variable {Id : Type}

/-- Its channel waits for a record of the file that is not newer. -/
def MetadataEntry.Awaited (e : MetadataEntry Id) : Prop :=
  ∀ c, e.doneTx = some c → c.file = e.metadata.id ∧ c.writeSeq ≤ e.metadata.writeSeq

def IndexSound (inner : List (MetadataEntry Id)) (index : FileId → Option Nat) : Prop :=
  ∀ file pos, index file = some pos → ∃ e, inner[pos]? = some e ∧ e.metadata.id = file

structure MetadataQueue.Honest (q : MetadataQueue Id) : Prop where
  index : IndexSound q.inner q.index
  queued : ∀ e ∈ q.inner, e.Awaited
  inHand : ∀ e checked, q.worker = some (e, checked) → e.Awaited
  rescued : ∀ e ∈ q.rescues, e.Awaited
  noneClosed : q.closed = []
  confirmed : ∀ c ∈ q.signalled, q.Confirmed c

/-! ## The index -/

variable {q q' : MetadataQueue Id} {l : List (MetadataEntry Id)} {idx : FileId → Option Nat} {e : MetadataEntry Id}
  {file : FileId} {pos : Nat} {tx : Option Completion}

lemma reindex_cases {k : Nat} (h : reindex k l idx file = some pos) :
    (∃ e, k ≤ pos ∧ l[pos - k]? = some e ∧ e.metadata.id = file) ∨ ((∀ e ∈ l, e.metadata.id ≠ file) ∧ idx file = some pos) := by
  induction l generalizing k idx with
  | nil => exact .inr ⟨nofun, h⟩
  | cons e l ih =>
    rcases ih h with ⟨e', hle, hget, hid⟩ | ⟨hno, hidx⟩
    · refine .inl ⟨e', by omega, ?_, hid⟩
      have hsucc : pos - k = (pos - (k + 1)) + 1 := by omega
      rw [hsucc, getElem?_cons_succ]
      exact hget
    by_cases he : e.metadata.id = file
    · rw [he, update_self] at hidx
      cases hidx
      exact .inl ⟨e, Nat.le_refl _, by simp, he⟩
    rw [update_of_ne (Ne.symm he)] at hidx
    refine .inr ⟨fun e' he' => ?_, hidx⟩
    rcases mem_cons.1 he' with rfl | he'
    · exact he
    · exact hno e' he'

lemma indexSound_reindex (h : ∀ file pos, idx file = some pos → ∃ e ∈ l, e.metadata.id = file) :
    IndexSound l (reindex 0 l idx) := by
  intro file pos hpos
  rcases reindex_cases hpos with ⟨e, -, hget, hid⟩ | ⟨hno, hidx⟩
  · exact ⟨e, hget, hid⟩
  obtain ⟨e, he, hid⟩ := h file pos hidx
  exact absurd hid (hno e he)

lemma indexSound_append (h : IndexSound l idx) (e : MetadataEntry Id) :
    IndexSound (l ++ [e]) (update idx e.metadata.id (some l.length)) := by
  intro file pos hpos
  by_cases hfile : file = e.metadata.id
  · rw [hfile, update_self] at hpos
    cases hpos
    exact ⟨e, by simp, hfile.symm⟩
  rw [update_of_ne hfile] at hpos
  obtain ⟨e', he', hid⟩ := h file pos hpos
  exact ⟨e', by rw [getElem?_append_left (List.getElem?_eq_some_iff.1 he').1]; exact he', hid⟩

lemma indexSound_set (h : IndexSound l idx) {e' : MetadataEntry Id} (he : l[pos]? = some e)
    (hid : e'.metadata.id = e.metadata.id) : IndexSound (l.set pos e') idx := by
  intro file pos' hpos'
  obtain ⟨x, hx, hxid⟩ := h file pos' hpos'
  by_cases hpos : pos = pos'
  · subst hpos
    obtain rfl := some.inj (hx.symm.trans he)
    exact ⟨e', getElem?_set_self (List.getElem?_eq_some_iff.1 he).1, hid.trans hxid⟩
  · exact ⟨x, by rw [getElem?_set_ne hpos]; exact hx, hxid⟩

lemma indexSound_without {rest : List (MetadataEntry Id)} (h : IndexSound l idx)
    (hrest : ∀ e ∈ l, e.metadata.id ≠ file → e ∈ rest) : IndexSound rest (reindex 0 rest (update idx file none)) := by
  refine indexSound_reindex fun file' pos hpos => ?_
  by_cases hfile : file' = file
  · rw [hfile, update_self] at hpos
    cases hpos
  rw [update_of_ne hfile] at hpos
  obtain ⟨e, he, hid⟩ := h file' pos hpos
  refine ⟨e, hrest e (mem_of_getElem? he) ?_, hid⟩
  rw [hid]
  exact hfile

lemma indexSound_popFront (h : IndexSound q.inner q.index) (hpop : q.popFront = some (e, q')) : IndexSound q'.inner q'.index := by
  obtain ⟨l, hinner, rfl⟩ := popFront_eq_some hpop
  refine indexSound_without h fun x hx hid => ?_
  rw [hinner] at hx
  rcases mem_cons.1 hx with rfl | hx
  · exact absurd rfl hid
  · exact hx

lemma indexSound_pushInnerFront (h : IndexSound q.inner q.index) (e : MetadataEntry Id) :
    IndexSound (q.pushInnerFront e).inner (q.pushInnerFront e).index := by
  refine indexSound_reindex fun file pos hpos => ?_
  by_cases hfile : file = e.metadata.id
  · exact ⟨e, mem_cons_self, hfile.symm⟩
  rw [update_of_ne hfile] at hpos
  obtain ⟨e', he', hid⟩ := h file pos hpos
  exact ⟨e', mem_cons_of_mem _ (mem_of_getElem? he'), hid⟩

lemma indexSound_eraseIdx (h : IndexSound l idx) (hpos : idx file = some pos) :
    IndexSound (l.eraseIdx pos) (reindex 0 (l.eraseIdx pos) (update idx file none)) := by
  refine indexSound_without h fun x hx hid => ?_
  obtain ⟨e, he, heid⟩ := h file pos hpos
  obtain ⟨i, hi⟩ := mem_iff_getElem?.mp hx
  refine mem_eraseIdx_iff_getElem?.2 ⟨i, ?_, hi⟩
  rintro rfl
  obtain rfl := some.inj (he.symm.trans hi)
  exact hid heid

lemma IndexSound.find (h : IndexSound q.inner q.index) (hfind : q.find file = some (pos, e)) :
    q.inner[pos]? = some e ∧ e.metadata.id = file := by
  obtain ⟨hindex, he⟩ := find_eq_some.mp hfind
  obtain ⟨e₀, he₀, hid⟩ := h file pos hindex
  obtain rfl := some.inj (he₀.symm.trans he)
  exact ⟨he, hid⟩

/-! ## The steps -/

lemma MetadataQueue.Confirmed.mono {c : Completion} (h : q.Confirmed c) (hacked : ∀ x ∈ q.acked, x ∈ q'.acked)
    (hdeleted : ∀ f, q.deletedIds f = true → q'.deletedIds f = true) : q'.Confirmed c := by
  rcases h with ⟨seq, hseq, hmem⟩ | hdel
  · exact .inl ⟨seq, hseq, hacked _ hmem⟩
  · exact .inr (hdeleted _ hdel)

lemma confirmed_signal (h : ∀ c ∈ q.signalled, q.Confirmed c) (htx : ∀ c, tx = some c → q.Confirmed c) :
    ∀ c ∈ (q.signal tx).signalled, (q.signal tx).Confirmed c := by
  intro c hc
  rcases mem_append.1 hc with hc | hc
  · exact htx c (mem_toList.1 hc)
  · exact h c hc

/-- The channel waits for the record, or for an older one of its file. -/
def FileMetadata.AwaitedBy (m : FileMetadata Id) (tx : Option Completion) : Prop :=
  ∀ c, tx = some c → c.file = m.id ∧ c.writeSeq ≤ m.writeSeq

variable {m : FileMetadata Id}

lemma coalesce_spec (q : MetadataQueue Id) {entry : MetadataEntry Id} (full : Bool) (hentry : entry.Awaited)
    (hid : entry.metadata.id = m.id) (htx : m.AwaitedBy tx) (hfree : tx.isSome = true → entry.doneTx = none) :
    (q.coalesce entry m tx full).1.metadata.id = m.id ∧ (q.coalesce entry m tx full).1.Awaited ∧
      (q.coalesce entry m tx full).2 = none := by
  unfold coalesce
  dsimp only
  split
  · rename_i hle
    refine ⟨rfl, ?_, ?_⟩
    · intro c hc
      rcases or_eq_some_iff.1 hc with htx' | ⟨-, hold⟩
      · exact htx c htx'
      obtain ⟨hfile, hseq⟩ := hentry c hold
      exact ⟨hfile.trans hid, Nat.le_trans hseq hle⟩
    · split
      · exact hfree ‹_›
      · rfl
  · rename_i hlt
    refine ⟨hid, ?_, ?_⟩
    · intro c hc
      rcases or_eq_some_iff.1 hc with hold | ⟨-, htx'⟩
      · exact hentry c hold
      obtain ⟨hfile, hseq⟩ := htx c htx'
      exact ⟨hfile.trans hid.symm, by dsimp only; omega⟩
    · split
      · rename_i hsome
        cases htx' : tx with
        | none => rfl
        | some c =>
          rw [hfree (by rw [htx']; rfl)] at hsome
          cases hsome
      · rfl

lemma honest_pushInner (h : q.Honest) (full : Bool) (now : Nat) (htx : m.AwaitedBy tx)
    (hfree : tx.isSome = true → q.deletedIds m.id = true ∨ ∀ pos e, q.find m.id = some (pos, e) → e.doneTx = none) :
    (q.pushInner m tx full now).Honest := by
  rcases pushInner_cases q m tx full now with ⟨hdeleted, heq⟩ | ⟨hlive, pos, entry, hfind, heq⟩ | ⟨-, -, heq⟩
  · rw [heq]
    refine ⟨h.index, h.queued, h.inHand, h.rescued, h.noneClosed, confirmed_signal h.confirmed (fun c hc => .inr ?_)⟩
    rw [(htx c hc).1]
    exact hdeleted
  · rw [heq]
    obtain ⟨hget, hid⟩ := h.index.find hfind
    have hnone : tx.isSome = true → entry.doneTx = none := by
      intro hsome
      rcases hfree hsome with hdeleted | hnone
      · rw [hlive] at hdeleted
        cases hdeleted
      · exact hnone pos entry hfind
    obtain ⟨hid', hawaited, hlost⟩ := coalesce_spec q full (h.queued entry (mem_of_getElem? hget)) hid htx hnone
    refine ⟨indexSound_set h.index hget (hid'.trans hid.symm), ?_, h.inHand, h.rescued, ?_, h.confirmed⟩
    · intro e he
      rcases mem_or_eq_of_mem_set he with he | rfl
      · exact h.queued e he
      · exact hawaited
    · rw [hlost, h.noneClosed]
      rfl
  · rw [heq]
    refine ⟨indexSound_append h.index _, ?_, h.inHand, h.rescued, h.noneClosed, h.confirmed⟩
    intro e he
    rcases mem_append.1 he with he | he
    · exact h.queued e he
    rw [List.mem_singleton.1 he]
    exact htx

lemma honest_popFront (h : q.Honest) (hpop : q.popFront = some (e, q')) : q'.Honest ∧ e.Awaited := by
  have hindex := indexSound_popFront h.index hpop
  obtain ⟨l, hinner, rfl⟩ := popFront_eq_some hpop
  have hqueued : ∀ x ∈ e :: l, x.Awaited := by
    rw [← hinner]
    exact h.queued
  exact ⟨⟨hindex, fun x hx => hqueued x (mem_cons_of_mem _ hx), h.inHand, h.rescued, h.noneClosed, h.confirmed⟩,
    hqueued e mem_cons_self⟩

lemma honest_pushInnerFront (h : q.Honest) (he : e.Awaited) : (q.pushInnerFront e).Honest := by
  refine ⟨indexSound_pushInnerFront h.index e, ?_, h.inHand, h.rescued, h.noneClosed, h.confirmed⟩
  intro x hx
  rcases mem_cons.1 hx with rfl | hx
  · exact he
  · exact h.queued x hx

lemma honest_cancel (h : q.Honest) (file : FileId) : (q.cancel file).Honest := by
  have hdeleted : ∀ f, q.deletedIds f = true → update q.deletedIds file true f = true := by
    intro f hf
    by_cases hff : f = file
    · rw [hff, update_self]
    rw [update_of_ne hff]
    exact hf
  have hconf : ∀ c ∈ q.signalled, ({ q with
      deletedIds := update q.deletedIds file true
      deliveredWriteSeq := update q.deliveredWriteSeq file none } : MetadataQueue Id).Confirmed c := fun c hc =>
    (h.confirmed c hc).mono (fun _ hx => hx) hdeleted
  unfold cancel
  dsimp only
  cases hindex : q.index file with
  | none => exact ⟨h.index, h.queued, h.inHand, h.rescued, h.noneClosed, hconf⟩
  | some pos =>
    obtain ⟨e, he, hid⟩ := h.index file pos hindex
    refine ⟨indexSound_eraseIdx h.index hindex, fun x hx => h.queued x (mem_of_mem_eraseIdx hx), h.inHand, h.rescued,
      h.noneClosed, confirmed_signal hconf (fun c hc => .inr ?_)⟩
    have hc : e.doneTx = some c := by
      rw [he] at hc
      exact hc
    rw [((h.queued e (mem_of_getElem? he)) c hc).1.trans hid]
    exact update_self ..

lemma honest_delivered (h : q.Honest) (he : e.Awaited) : ((q.ack e.metadata).signal e.doneTx).Honest := by
  refine ⟨h.index, h.queued, h.inHand, h.rescued, h.noneClosed, ?_⟩
  have hmono : ∀ c ∈ (q.ack e.metadata).signalled, (q.ack e.metadata).Confirmed c := fun c hc =>
    (h.confirmed c hc).mono (fun _ hx => mem_cons_of_mem _ hx) (fun _ hf => hf)
  refine confirmed_signal hmono (fun c hc => ?_)
  obtain ⟨hfile, hseq⟩ := he c hc
  exact .inl ⟨e.metadata.writeSeq, hseq, by rw [hfile]; exact mem_cons_self⟩

/-- A push with a channel finds no entry of its file that has one already. -/
def QueueStep.KeepsWaiters (q : MetadataQueue Id) : QueueStep Id → Prop
  | .pushAndWait m _ _ => q.deletedIds m.id = true ∨ ∀ pos e, q.find m.id = some (pos, e) → e.doneTx = none
  | _ => True

lemma honest_step (h : q.Honest) (step : QueueStep Id) (hkeeps : step.KeepsWaiters q) : (q.step step).Honest := by
  cases step with
  | push m full now => exact honest_pushInner h full now nofun nofun
  | pushAndWait m serial now =>
    refine honest_pushInner h false now (fun c hc => ?_) (fun _ => hkeeps)
    cases hc
    exact ⟨rfl, Nat.le_refl _⟩
  | pop =>
    unfold MetadataQueue.step
    dsimp only
    split
    · rename_i e q' hworker hpop
      obtain ⟨hq', he⟩ := honest_popFront h hpop
      refine ⟨hq'.index, hq'.queued, fun e' checked heq => ?_, hq'.rescued, hq'.noneClosed, hq'.confirmed⟩
      obtain ⟨rfl, -⟩ := Prod.mk.inj (some.inj heq)
      exact he
    · exact h
  | checkDeleted =>
    unfold MetadataQueue.step
    dsimp only
    split
    · rename_i e hworker
      have he := h.inHand e false hworker
      split
      · rename_i hdeleted
        refine ⟨h.index, h.queued, nofun, h.rescued, h.noneClosed, confirmed_signal h.confirmed (fun c hc => .inr ?_)⟩
        rw [(he c hc).1]
        exact hdeleted
      refine ⟨h.index, h.queued, fun e' checked heq => ?_, h.rescued, h.noneClosed, h.confirmed⟩
      obtain ⟨rfl, -⟩ := Prod.mk.inj (some.inj heq)
      exact he
    · exact h
  | attempt confirmed =>
    unfold MetadataQueue.step
    dsimp only
    split
    · rename_i e hworker
      split
      · have hd := honest_delivered h (h.inHand e true hworker)
        exact ⟨hd.index, hd.queued, nofun, hd.rescued, hd.noneClosed, hd.confirmed⟩
      · exact h
    · exact h
  | popStalled now =>
    unfold MetadataQueue.step
    dsimp only
    split
    · rename_i e q' hpop
      obtain ⟨hq', he⟩ := honest_popFront h (popStalled_popFront hpop)
      refine ⟨hq'.index, hq'.queued, hq'.inHand, fun x hx => ?_, hq'.noneClosed, hq'.confirmed⟩
      rcases mem_append.1 hx with hx | hx
      · exact hq'.rescued x hx
      rw [List.mem_singleton.1 hx]
      exact he
    · exact h
  | rescue i confirmed =>
    unfold MetadataQueue.step
    dsimp only
    split
    · rename_i e hget
      have he := h.rescued e (mem_of_getElem? hget)
      have hrest : ({ q with rescues := q.rescues.eraseIdx i } : MetadataQueue Id).Honest :=
        ⟨h.index, h.queued, h.inHand, fun x hx => h.rescued x (mem_of_mem_eraseIdx hx), h.noneClosed, h.confirmed⟩
      split
      · exact honest_delivered hrest he
      · exact honest_pushInnerFront hrest he
    · exact h
  | cancel file => exact honest_cancel h file

lemma honest_new : (new : MetadataQueue Id).Honest := ⟨nofun, nofun, nofun, nofun, rfl, nofun⟩

/-- A call that returns `true` is confirmed, in every run in which no push with a channel finds an entry that has one. -/
theorem push_and_wait_confirmed (steps : List (QueueStep Id))
    (hkeeps : Transition.Meets MetadataQueue.step (fun q step => step.KeepsWaiters q) MetadataQueue.new steps) (c : Completion)
    (elapsed : Nat) (htrue : (Transition.run MetadataQueue.step MetadataQueue.new steps).wait c elapsed = some true) :
    (Transition.run MetadataQueue.step MetadataQueue.new steps).Confirmed c := by
  have hstep : ∀ (q : MetadataQueue Id) (step : QueueStep Id), q.Honest → step.KeepsWaiters q → (q.step step).Honest :=
    fun _ step hq hok => honest_step hq step hok
  have hhonest := Transition.invariant_run hstep honest_new hkeeps
  unfold wait at htrue
  split at htrue
  · rename_i hanswer
    rcases hanswer with hsent | hclosed
    · exact hhonest.confirmed c hsent
    rw [hhonest.noneClosed] at hclosed
    cases hclosed
  split at htrue
  · cases htrue
  · cases htrue

def queuedFile (writeSeq : Nat) : FileMetadata Nat := ⟨1, [], 0, .regularFile, [], writeSeq⟩

theorem delivered_push_is_confirmed : (Transition.run MetadataQueue.step MetadataQueue.new
      [.pushAndWait (queuedFile 3) 0 0, .push (queuedFile 4) false 1, .pop, .checkDeleted, .attempt true]).Confirmed
        ((queuedFile 3).completion 0) := by
  refine push_and_wait_confirmed _ ?_ _ 0 ?_
  · exact ⟨.inr nofun, trivial, trivial, trivial, trivial, trivial⟩
  · decide +kernel

/-- A second close before the first is delivered ends the first wait with true. -/
theorem replaced_channel_confirms :
    let q := Transition.run MetadataQueue.step MetadataQueue.new
      [.pushAndWait (queuedFile 3) 0 0, .pushAndWait (queuedFile 4) 1 1]
    q.wait ((queuedFile 3).completion 0) 0 = some true ∧ q.acked = [] ∧ q.deletedIds 1 = false := by
  decide +kernel

end Dfs
