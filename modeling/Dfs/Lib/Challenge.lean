import Dfs.Lib.KeyedList
import Mathlib.Data.List.Chain
import Mathlib.Data.List.Perm.Subperm

/-!
# Challengers for a place

Challengers come for a place; one takes it if free or if it beats the holder, and each beats its own kind.
`same_kind_iff`: when every order leaves it to one kind.
-/

namespace Challenge

open KeyedList Option
open List hiding lookup

variable {α ι : Type*} (beats : α → α → Bool) (kind : α → ι)

def take (holder challenger : α) : α := if beats challenger holder then challenger else holder

def holder (l : List α) : Option α := l.foldl (merged (take beats)) none

abbrev Succeed (l : List α) : Prop := l.IsChain fun a b => beats b a = true

/-- No other challenger beats one of the kind, and for every succession of others one of it beats each. -/
structure Prevails (l : List α) (k : ι) : Prop where
  present : ∃ a ∈ l, kind a = k
  unbeaten : ∀ x ∈ l, ∀ a ∈ l, kind x ≠ k → kind a = k → beats x a = false
  answers : ∀ c : List α, c.Nodup → c ⊆ l → (∀ x ∈ c, kind x ≠ k) → Succeed beats c → ∃ a ∈ l, kind a = k ∧ ∀ x ∈ c,
    beats a x = true

variable {beats kind}

lemma holder_concat (l : List α) (a : α) : holder beats (l ++ [a]) = merged (take beats) (holder beats l) a := by
  simp [holder, foldl_append]

lemma holder_concat_of_some {l : List α} {h : α} (hl : holder beats l = some h) (a : α) :
    holder beats (l ++ [a]) = some (if beats a h then a else h) := by
  rw [holder_concat, hl]
  rfl

lemma holder_concat_of_none {l : List α} (hl : holder beats l = none) (a : α) : holder beats (l ++ [a]) = some a := by
  rw [holder_concat, hl]
  rfl

lemma holder_mem {l : List α} : ∀ {h : α}, holder beats l = some h → h ∈ l := by
  induction l using reverseRecOn with
  | nil =>
    intro h hl
    cases hl
  | append_singleton l a ih =>
    intro h hl
    cases hprev : holder beats l with
    | none =>
      rw [holder_concat_of_none hprev, some.injEq] at hl
      simp [hl]
    | some h' =>
      rw [holder_concat_of_some hprev, some.injEq] at hl
      split at hl
      · simp [hl]
      subst hl
      exact mem_append_left _ (ih hprev)

lemma holder_isSome {l : List α} (hl : l ≠ []) : ∃ h, holder beats l = some h := by
  rcases eq_nil_or_concat l with rfl | ⟨l, a, rfl⟩
  · exact absurd rfl hl
  rw [concat_eq_append]
  cases hprev : holder beats l with
  | none => exact ⟨a, holder_concat_of_none hprev a⟩
  | some h => exact ⟨_, holder_concat_of_some hprev a⟩

variable {l' c : List α}

lemma holder_append_of_fail {l : List α} {h : α} (hl : holder beats l = some h) (hfail : ∀ a ∈ l', beats a h = false) :
    holder beats (l ++ l') = some h := by
  unfold holder at hl ⊢
  rw [foldl_append, hl]
  exact foldl_merged_of_wins fun a ha => by simp [take, hfail a ha]

/-! ## A kind that prevails takes the place in every order -/

/-- Others held the place in succession, the last holds it, and each of the kind that came failed on one of them. -/
structure HeldOff (beats : α → α → Bool) (kind : α → ι) (k : ι) (p c : List α) : Prop where
  succeed : Succeed beats c
  nodup : c.Nodup
  came : c ⊆ p
  others : ∀ x ∈ c, kind x ≠ k
  last : ∃ h ∈ c.getLast?, holder beats p = some h
  failed : ∀ a ∈ p, kind a = k → ∃ x ∈ c, beats a x = false

section HeldOff

variable {k : ι} {p c : List α} {a h : α}

lemma heldOff_singleton (ha : kind a ≠ k) : HeldOff beats kind k [a] [a] := by
  refine ⟨by simp, by simp, by simp, by simpa using ha, ⟨a, by simp, rfl⟩, ?_⟩
  intro b hb hbk
  obtain rfl : b = a := by simpa using hb
  exact absurd hbk ha

lemma HeldOff.succession (hoff : HeldOff beats kind k p c) (hh : holder beats p = some h) (hap : a ∉ p) (ha : kind a ≠ k)
    (hbeat : beats a h = true) : HeldOff beats kind k (p ++ [a]) (c ++ [a]) := by
  obtain ⟨h', hlast, hh'⟩ := hoff.last
  obtain rfl := some.inj (hh.symm.trans hh')
  refine ⟨?_, ?_, ?_, ?_, ⟨a, by simp, by rw [holder_concat_of_some hh, hbeat, if_pos rfl]⟩, ?_⟩
  · refine isChain_append.mpr ⟨hoff.succeed, by simp, ?_⟩
    intro x hx y hy
    obtain rfl : x = h := mem_unique hx hlast
    obtain rfl : y = a := by simpa using hy.symm
    exact hbeat
  · refine nodup_append.mpr ⟨hoff.nodup, by simp, fun x hx y hy => ?_⟩
    obtain rfl : y = a := by simpa using hy
    exact fun he => hap (he ▸ hoff.came hx)
  · intro x hx
    rcases mem_append.mp hx with hx | hx
    · exact mem_append_left _ (hoff.came hx)
    · exact mem_append_right _ hx
  · intro x hx
    rcases mem_append.mp hx with hx | hx
    · exact hoff.others x hx
    rw [List.mem_singleton.mp hx]
    exact ha
  · intro b hb hbk
    rcases mem_append.mp hb with hb | hb
    · obtain ⟨x, hx, hbx⟩ := hoff.failed b hb hbk
      exact ⟨x, by simp [hx], hbx⟩
    rw [List.mem_singleton.mp hb] at hbk
    exact absurd hbk ha

lemma HeldOff.failure (hoff : HeldOff beats kind k p c) (hh : holder beats p = some h) (hbeat : beats a h = false) :
    HeldOff beats kind k (p ++ [a]) c := by
  obtain ⟨h', hlast, hh'⟩ := hoff.last
  obtain rfl := some.inj (hh.symm.trans hh')
  have hsame : holder beats (p ++ [a]) = some h := by rw [holder_concat_of_some hh, hbeat, if_neg (by simp)]
  refine ⟨hoff.succeed, hoff.nodup, fun x hx => mem_append_left _ (hoff.came hx), hoff.others, ⟨h, hlast, hsame⟩, ?_⟩
  intro b hb hbk
  rcases mem_append.mp hb with hb | hb
  · exact hoff.failed b hb hbk
  rw [List.mem_singleton.mp hb]
  exact ⟨h, mem_of_getLast? hlast, hbeat⟩

end HeldOff

section Prevail

variable {l : List α} {k : ι} (hk : Prevails beats kind l k)

include hk in
lemma Prevails.holder_cases (hself : ∀ a b, kind a = kind b → beats a b = true) {p : List α} (hp : p.Nodup) (hpl : p ⊆ l) :
    p = [] ∨ (∃ h, holder beats p = some h ∧ kind h = k) ∨ ∃ c, HeldOff beats kind k p c := by
  induction p using reverseRecOn with
  | nil => exact .inl rfl
  | append_singleton p a ih =>
    right
    have hnodup := nodup_append.mp hp
    have hap : a ∉ p := fun h => hnodup.2.2 a h a (by simp) rfl
    have hal : a ∈ l := hpl (by simp)
    rcases ih hnodup.1 (fun x hx => hpl (by simp [hx])) with rfl | ⟨h, hh, hkind⟩ | ⟨c, hoff⟩
    · by_cases ha : kind a = k
      · exact .inl ⟨a, rfl, ha⟩
      · exact .inr ⟨[a], heldOff_singleton ha⟩
    · -- the kind has the place and keeps it
      left
      refine ⟨_, holder_concat_of_some hh a, ?_⟩
      by_cases ha : kind a = k
      · rw [if_pos (hself a h (ha.trans hkind.symm))]
        exact ha
      have hlose := hk.unbeaten a hal h (hpl (by simp [holder_mem hh])) ha hkind
      rw [hlose, if_neg (by simp)]
      exact hkind
    · obtain ⟨h, -, hh⟩ := hoff.last
      cases hbeat : beats a h with
      | true =>
        by_cases ha : kind a = k
        · exact .inl ⟨a, by rw [holder_concat_of_some hh, hbeat, if_pos rfl], ha⟩
        · exact .inr ⟨c ++ [a], hoff.succession hh hap ha hbeat⟩
      | false => exact .inr ⟨c, hoff.failure hh hbeat⟩

include hk in
lemma Prevails.holder (hself : ∀ a b, kind a = kind b → beats a b = true) {p : List α} (hp : p.Nodup) (hpl : p.Perm l) :
    (holder beats p).map kind = some k := by
  obtain ⟨a, ha, hak⟩ := hk.present
  rcases hk.holder_cases hself hp hpl.subset with rfl | ⟨h, hh, hkind⟩ | ⟨c, hoff⟩
  · exact absurd (hpl.symm.subset ha) (by simp)
  · rw [hh, map_some, hkind]
  obtain ⟨b, hb, hbk, hall⟩ := hk.answers c hoff.nodup (fun x hx => hpl.subset (hoff.came hx)) hoff.others hoff.succeed
  obtain ⟨x, hx, hbx⟩ := hoff.failed b (hpl.symm.subset hb) hbk
  rw [hall x hx] at hbx
  cases hbx

end Prevail

/-! ## A kind that is left by every order prevails -/

lemma kind_holder_append {l : List α} {h h' : α} {k : ι} (hl : holder beats l = some h) (hh : kind h ≠ k)
    (hl' : ∀ x ∈ l', kind x ≠ k) (hend : holder beats (l ++ l') = some h') : kind h' ≠ k := by
  induction l' generalizing l h with
  | nil =>
    rw [append_nil, hl, some.injEq] at hend
    exact hend ▸ hh
  | cons x l' ih =>
    have hx := holder_concat_of_some hl x
    rw [append_cons] at hend
    refine ih hx ?_ (fun y hy => hl' y (by simp [hy])) hend
    split
    · exact hl' x (by simp)
    · exact hh

lemma exists_order_of_fail (hc : Succeed beats c) :
    ∀ A : List α, (∀ a ∈ A, ∃ x ∈ c, beats a x = false) → ∃ q, q.Perm (c ++ A) ∧ holder beats q = c.getLast? := by
  induction c using reverseRecOn with
  | nil =>
    intro A hA
    cases A with
    | nil => exact ⟨[], .refl _, rfl⟩
    | cons a A =>
      obtain ⟨x, hx, -⟩ := hA a (by simp)
      cases hx
  | append_singleton c y ih =>
    intro A hA
    obtain ⟨hc', -, hstep⟩ := isChain_append.mp hc
    obtain ⟨q, hq, hlast⟩ := ih hc' (A.filter fun a => c.any fun x => !beats a x) (by
      intro a ha
      obtain ⟨x, hx, hax⟩ := any_eq_true.mp (List.mem_filter.mp ha).2
      exact ⟨x, hx, by simpa using hax⟩)
    have hy : holder beats (q ++ [y]) = some y := by
      cases hl : c.getLast? with
      | none => exact holder_concat_of_none (hlast.trans hl) y
      | some h => rw [holder_concat_of_some (hlast.trans hl), if_pos (hstep h hl y (by simp))]
    refine ⟨q ++ [y] ++ A.filter fun a => !(c.any fun x => !beats a x), ?_, ?_⟩
    · have hsplit : ((A.filter fun a => c.any fun x => !beats a x) ++ A.filter fun a => !(c.any fun x => !beats a x)).Perm A :=
        filter_append_perm _ A
      have hswap : ((A.filter fun a => c.any fun x => !beats a x) ++
        [y]).Perm ([y] ++ A.filter fun a => c.any fun x => !beats a x) :=
        perm_append_comm
      refine ((hq.append_right [y]).append_right _).trans ?_
      rw [append_assoc c, append_assoc c, append_assoc c]
      refine List.Perm.append_left c ((hswap.append_right _).trans ?_)
      rw [append_assoc]
      exact hsplit.append_left [y]
    · rw [holder_append_of_fail hy]
      · simp
      · intro a ha
        obtain ⟨hA', hnot⟩ := List.mem_filter.mp ha
        obtain ⟨x, hx, hax⟩ := hA a hA'
        rcases mem_append.mp hx with hx | hx
        · exfalso
          rw [Bool.not_eq_true'] at hnot
          have := any_eq_false.mp hnot x hx
          simp [hax] at this
        rw [List.mem_singleton.mp hx] at hax
        exact hax

section Same

variable {l : List α} {k : ι} (hend : ∀ p, p.Perm l → ∃ h, holder beats p = some h ∧ kind h = k)

include hend in
lemma unbeaten_of_same (hself : ∀ a b, kind a = kind b → beats a b = true) {x a : α} (hx : x ∈ l) (ha : a ∈ l)
    (hxk : kind x ≠ k) (hak : kind a = k) : beats x a = false := by
  have hne : a ≠ x := fun he => hxk (he ▸ hak)
  have hpair : [a, x].Nodup := by simp [hne]
  obtain ⟨c, hc, hcl⟩ := subperm_of_subset hpair (fun y hy => by
    rcases mem_cons.mp hy with rfl | hy
    · exact ha
    · rwa [List.mem_singleton.mp hy])
  obtain ⟨rest, hrest⟩ := hcl.exists_perm_append
  have hperm : (rest ++ [a] ++ [x]).Perm l := by
    rw [append_assoc]
    exact (perm_append_comm.trans (hc.symm.append_right rest)).trans hrest.symm
  obtain ⟨h, hh, hk⟩ := hend _ hperm
  have hlast : holder beats (rest ++ [a]) = some a := by
    cases hr : holder beats rest with
    | none => exact holder_concat_of_none hr a
    | some h0 =>
      have hstep := holder_concat_of_some hr a
      cases hbeat : beats a h0 with
      | true => rw [hstep, hbeat, if_pos rfl]
      | false =>
        -- then neither the holder before nor the one that comes last is of the kind
        rw [hbeat, if_neg (by simp)] at hstep
        have hk0 : kind h0 ≠ k := by
          intro hk0
          rw [hself a h0 (hak.trans hk0.symm)] at hbeat
          cases hbeat
        exact absurd hk (kind_holder_append hstep hk0 (by simpa using hxk) hh)
  rw [holder_concat_of_some hlast, some.injEq] at hh
  cases hbeat : beats x a with
  | false => rfl
  | true =>
    rw [hbeat, if_pos rfl] at hh
    exact absurd (hh ▸ hk) hxk

include hend in
lemma answers_of_same (hcn : c.Nodup) (hcl : c ⊆ l) (hck : ∀ x ∈ c, kind x ≠ k) (hcs : Succeed beats c) :
    ∃ a ∈ l, kind a = k ∧ ∀ x ∈ c, beats a x = true := by
  classical
  by_contra hnone
  have hfail : ∀ a ∈ l.filter (fun a => decide (kind a = k)), ∃ x ∈ c, beats a x = false := by
    intro a ha
    obtain ⟨hal, hak⟩ := List.mem_filter.mp ha
    by_contra hall
    refine hnone ⟨a, hal, by simpa using hak, fun x hx => ?_⟩
    by_contra hbeat
    exact hall ⟨x, hx, by simpa using hbeat⟩
  obtain ⟨q, hq, hlast⟩ := exists_order_of_fail hcs _ hfail
  have hsub : List.Subperm c (l.filter fun a => !decide (kind a = k)) :=
    subperm_of_subset hcn fun x hx => List.mem_filter.mpr ⟨hcl hx, by simpa using hck x hx⟩
  obtain ⟨c', hc', hcl'⟩ := hsub
  obtain ⟨rest, hrest⟩ := hcl'.exists_perm_append
  have hothers : (l.filter fun a => !decide (kind a = k)).Perm (c ++ rest) := hrest.trans (hc'.append_right rest)
  have hperm : (q ++ rest).Perm l := by
    refine ((hq.append_right rest).trans ?_).trans (filter_append_perm (fun a => decide (kind a = k)) l)
    refine List.Perm.trans ?_ (List.Perm.append_left _ hothers.symm)
    rw [← append_assoc]
    exact perm_append_comm.append_right rest
  obtain ⟨h, hh, hk⟩ := hend _ hperm
  obtain ⟨a, hal, hak⟩ : ∃ a ∈ l, kind a = k := by
    obtain ⟨a, ha, hak⟩ := hend l (.refl l)
    exact ⟨a, holder_mem ha, hak⟩
  obtain ⟨x, hx, -⟩ := hfail a (List.mem_filter.mpr ⟨hal, by simpa using hak⟩)
  obtain ⟨y, hy⟩ : ∃ y, c.getLast? = some y := by
    cases hc0 : c.getLast? with
    | none =>
      rw [getLast?_eq_none_iff.mp hc0] at hx
      cases hx
    | some y => exact ⟨y, rfl⟩
  refine absurd hk (kind_holder_append (hlast.trans hy) (hck y (mem_of_getLast? hy)) (fun z hz => ?_) hh)
  have hz' := hothers.symm.subset (mem_append_right c hz)
  simpa using (List.mem_filter.mp hz').2

end Same

lemma same_kind_iff (hself : ∀ a b, kind a = kind b → beats a b = true) {l : List α} (hl : l.Nodup) :
    (∀ l₁ l₂, l₁.Perm l → l₂.Perm l → (holder beats l₁).map kind = (holder beats l₂).map kind) ↔
      l = [] ∨ ∃ k, Prevails beats kind l k := by
  constructor
  · intro hsame
    by_cases hne : l = []
    · exact .inl hne
    obtain ⟨h, hh⟩ : ∃ h, holder beats l = some h := holder_isSome hne
    have hend : ∀ p, p.Perm l → ∃ h', holder beats p = some h' ∧ kind h' = kind h := by
      intro p hp
      have heq := hsame p l hp (.refl l)
      rw [hh, map_some, map_eq_some_iff] at heq
      exact heq
    exact .inr ⟨kind h, ⟨h, holder_mem hh, rfl⟩, fun x hx a ha => unbeaten_of_same hend hself hx ha,
      fun c hcn hcl hck => answers_of_same hend hcn hcl hck⟩
  · rintro (rfl | ⟨k, hk⟩)
    · intro l₁ l₂ h₁ h₂
      rw [h₁.eq_nil, h₂.eq_nil]
    intro l₁ l₂ h₁ h₂
    rw [hk.holder hself (h₁.nodup_iff.mpr hl) h₁, hk.holder hself (h₂.nodup_iff.mpr hl) h₂]

end Challenge
