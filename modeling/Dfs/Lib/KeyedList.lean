import Mathlib.Data.List.Basic
import Mathlib.Data.List.Induction
import Mathlib.Data.List.TakeWhile
import Mathlib.Order.Lattice

/-!
# Lists sorted by a key

A list sorted by a key, no two with the same, as a map: `lookup` at the partition point, `upsert` merges there. A run of `upsert`s
leaves the merge of the elements of a key, in order (`lookup_foldl_upsert`).
-/

namespace KeyedList

open List Option

variable {α κ : Type*} [LinearOrder κ] (key : α → κ)

def position (l : List α) (k : κ) : Nat := (l.takeWhile (fun a => key a < k)).length

def lookup (l : List α) (k : κ) : Option α :=
  (l[position key l k]?).filter (fun a => key a = k)

def upsert (merge : α → α → α) (l : List α) (a : α) : List α :=
  match lookup key l (key a) with
  | some old => l.set (position key l (key a)) (merge old a)
  | none => l.insertIdx (position key l (key a)) a

/-- Sorted by the key, with no key twice. -/
def Sorted (l : List α) : Prop := l.Pairwise (fun a b => key a < key b)

/-- What an element leaves under its key. -/
def merged (merge : α → α → α) : Option α → α → Option α
  | some old, a => some (merge old a)
  | none, a => some a

variable {key} {merge : α → α → α} {l : List α} {a : α} {k : κ} {x : α} {pre post : List α}

lemma position_append (hpre : ∀ x ∈ pre, key x < k) (hpost : ∀ x ∈ post.head?, ¬key x < k) :
    position key (pre ++ post) k = pre.length := by
  unfold position
  rw [takeWhile_append_of_pos (fun x hx => by simpa using hpre x hx)]
  cases post with
  | nil => simp
  | cons x post => rw [takeWhile_cons_of_neg (by simpa using hpost x rfl), append_nil]

lemma exists_split (key : α → κ) (l : List α) (k : κ) :
    ∃ pre post, l = pre ++ post ∧ (∀ x ∈ pre, key x < k) ∧ ∀ x ∈ post.head?, ¬key x < k := by
  refine ⟨l.takeWhile (fun a => key a < k), l.dropWhile (fun a => key a < k), takeWhile_append_dropWhile.symm, ?_, ?_⟩
  · intro x hx
    simpa using mem_takeWhile_imp hx
  · intro x hx
    have := head?_dropWhile_not (fun a => decide (key a < k)) l
    rw [hx] at this
    simpa using this

lemma lookup_append (hpre : ∀ x ∈ pre, key x < k) (hpost : ∀ x ∈ post.head?, ¬key x < k) :
    lookup key (pre ++ post) k = post.head?.filter (fun a => key a = k) := by
  unfold lookup
  rw [position_append hpre hpost, getElem?_append_right (le_refl _), Nat.sub_self, head?_eq_getElem?]

lemma insertIdx_length_append (pre post : List α) (a : α) : (pre ++ post).insertIdx pre.length a = pre ++ a :: post := by
  induction pre with
  | nil => rfl
  | cons x pre ih => rw [cons_append, length_cons, insertIdx_succ_cons, ih, cons_append]

lemma key_of_lookup (h : lookup key l k = some a) : key a = k := by
  simpa using (filter_eq_some_iff.1 h).2

lemma mem_of_lookup (h : lookup key l k = some a) : a ∈ l :=
  mem_of_getElem? (filter_eq_some_iff.mp h).1

lemma upsert_split (key : α → κ) (merge : α → α → α) (l : List α) (a : α) : ∃ pre post, (∀ x ∈ pre, key x < key a) ∧
      ((∃ old, key old = key a ∧ lookup key l (key a) = some old ∧ l = pre ++ old :: post ∧
          upsert key merge l a = pre ++ merge old a :: post) ∨
        lookup key l (key a) = none ∧ l = pre ++ post ∧ upsert key merge l a = pre ++ a :: post ∧ ∀ x ∈ post.head?,
          ¬key x < key a) := by
  obtain ⟨pre, post, hl, hpre, hpost⟩ := exists_split key l (key a)
  have hpos : position key l (key a) = pre.length := hl ▸ position_append hpre hpost
  have hlook : lookup key l (key a) = post.head?.filter (fun x => key x = key a) := hl ▸ lookup_append hpre hpost
  unfold upsert
  cases hfind : lookup key l (key a) with
  | some old =>
    obtain ⟨hhead, hkey⟩ := filter_eq_some_iff.1 (hlook.symm.trans hfind)
    obtain ⟨post, rfl⟩ : ∃ rest, post = old :: rest := by
      cases post with
      | nil => cases hhead
      | cons x rest => exact ⟨rest, by rw [some.inj hhead]⟩
    refine ⟨pre, post, hpre, .inl ⟨old, by simpa using hkey, rfl, hl, ?_⟩⟩
    dsimp only
    rw [hpos, hl, set_append_right _ _ (le_refl _), Nat.sub_self, set_cons_zero]
  | none =>
    refine ⟨pre, post, hpre, .inr ⟨rfl, hl, ?_, hpost⟩⟩
    dsimp only
    rw [hpos, hl, insertIdx_length_append]

lemma mem_upsert (h : x ∈ upsert key merge l a) : x ∈ l ∨ x = a ∨ ∃ old ∈ l, x = merge old a := by
  obtain ⟨pre, post, -, ⟨old, -, -, hl, hup⟩ | ⟨-, hl, hup, -⟩⟩ := upsert_split key merge l a
  · rw [hup] at h
    rcases mem_append.1 h with h | h
    · exact .inl (hl ▸ mem_append_left _ h)
    rcases mem_cons.1 h with h | h
    · exact .inr (Or.inr ⟨old, by simp [hl], h⟩)
    · exact .inl (by simp [hl, h])
  rw [hup] at h
  rcases mem_append.1 h with h | h
  · exact .inl (hl ▸ mem_append_left _ h)
  rcases mem_cons.1 h with h | h
  · exact .inr (Or.inl h)
  · exact .inl (by simp [hl, h])

lemma lookup_upsert_self (hmerge : ∀ old, key old = key a → key (merge old a) = key a) :
    lookup key (upsert key merge l a) (key a) = merged merge (lookup key l (key a)) a := by
  obtain ⟨pre, post, hpre, ⟨old, hold, hlook, -, hup⟩ | ⟨hlook, -, hup, -⟩⟩ := upsert_split key merge l a
  · rw [hlook, hup, lookup_append hpre (by simp [hmerge old hold])]
    simp [merged, hmerge old hold]
  rw [hlook, hup, lookup_append hpre (by simp)]
  simp [merged]

lemma lookup_eq_find?_of_le (h : l.Pairwise (fun a b => key a ≤ key b)) : lookup key l k = l.find? (fun a => key a = k) := by
  obtain ⟨pre, post, hl, hpre, hpost⟩ := exists_split key l k
  have hskip : pre.find? (fun a => decide (key a = k)) = none := find?_eq_none.2 (fun x hx => by simpa using (hpre x hx).ne)
  rw [hl, lookup_append hpre hpost, find?_append, hskip, none_or]
  rw [hl] at h
  cases post with
  | nil => rfl
  | cons x rest =>
    by_cases hx : key x = k
    · simp [hx]
    have hlt : k < key x := lt_of_le_of_ne (not_lt.1 (hpost x rfl)) (Ne.symm hx)
    have hrest : rest.find? (fun a => decide (key a = k)) = none := by
      refine find?_eq_none.2 (fun y hy => ?_)
      have := (pairwise_cons.1 (pairwise_append.1 h).2.1).1 y hy
      simpa using (hlt.trans_le this).ne'
    simp [hx, hrest]

lemma lookup_eq_find? (h : Sorted key l) : lookup key l k = l.find? (fun a => key a = k) :=
  lookup_eq_find?_of_le (h.imp le_of_lt)

lemma lookup_append_of_sorted {l' : List α} (h : Sorted key (l ++ l')) :
    lookup key (l ++ l') k = (lookup key l k).or (lookup key l' k) := by
  obtain ⟨hl, hl', -⟩ := pairwise_append.mp h
  rw [lookup_eq_find? h, lookup_eq_find? hl, lookup_eq_find? hl', find?_append]

lemma lookup_of_mem (h : Sorted key l) (ha : a ∈ l) : lookup key l (key a) = some a := by
  obtain ⟨pre, post, rfl⟩ := append_of_mem ha
  have hpre : ∀ x ∈ pre, key x < key a := fun x hx => (pairwise_append.1 h).2.2 x hx a (by simp)
  rw [lookup_append hpre (by simp)]
  simp

lemma sorted_upsert (h : Sorted key l) (hmerge : ∀ old, key old = key a → key (merge old a) = key a) :
    Sorted key (upsert key merge l a) := by
  obtain ⟨pre, post, hpre, ⟨old, hold, -, hl, hup⟩ | ⟨hlook, hl, hup, hpost⟩⟩ := upsert_split key merge l a
  · rw [hup]
    rw [hl] at h
    obtain ⟨h₁, h₂, h₃⟩ := pairwise_append.1 h
    obtain ⟨h₄, h₅⟩ := pairwise_cons.1 h₂
    have hkey := (hmerge old hold).trans hold.symm
    refine pairwise_append.2 ⟨h₁, pairwise_cons.2 ⟨fun y hy => hkey ▸ h₄ y hy, h₅⟩, fun x hx y hy => ?_⟩
    rcases mem_cons.1 hy with rfl | hy
    · exact hkey ▸ h₃ x hx old mem_cons_self
    · exact h₃ x hx y (mem_cons_of_mem _ hy)
  · rw [hup]
    have hgt : ∀ y ∈ post, key a < key y := by
      intro y hy
      have hmem : y ∈ l := hl ▸ mem_append_right pre hy
      have hne : key y ≠ key a := by
        rw [lookup_eq_find? h] at hlook
        simpa using find?_eq_none.1 hlook y hmem
      have hle : key a ≤ key y := by
        rw [hl] at h
        have hsorted := (pairwise_append.1 h).2.1
        cases post with
        | nil => cases hy
        | cons x rest =>
          have hx : key a ≤ key x := not_lt.1 (hpost x rfl)
          rcases mem_cons.1 hy with rfl | hy
          · exact hx
          · exact hx.trans ((pairwise_cons.1 hsorted).1 y hy).le
      exact lt_of_le_of_ne hle (Ne.symm hne)
    rw [hl] at h
    obtain ⟨h₁, h₂, h₃⟩ := pairwise_append.1 h
    refine pairwise_append.2 ⟨h₁, pairwise_cons.2 ⟨hgt, h₂⟩, fun x hx y hy => ?_⟩
    rcases mem_cons.1 hy with rfl | hy
    · exact hpre x hx
    · exact h₃ x hx y hy

lemma lookup_upsert_of_ne (h : Sorted key l) (hmerge : ∀ old, key old = key a → key (merge old a) = key a)
    (hk : key a ≠ k) : lookup key (upsert key merge l a) k = lookup key l k := by
  rw [lookup_eq_find? h, lookup_eq_find? (sorted_upsert h hmerge)]
  obtain ⟨pre, post, -, ⟨old, hold, -, hl, hup⟩ | ⟨-, hl, hup, -⟩⟩ := upsert_split key merge l a
  · rw [hup, hl]
    simp [find?_append, hmerge old hold, hold, hk]
  rw [hup, hl]
  simp [find?_append, hk]

lemma lookup_upsert_replace (l : List α) (a : α) : lookup key (upsert key (fun _ new => new) l a) (key a) = some a := by
  rw [lookup_upsert_self (fun _ _ => rfl)]
  cases lookup key l (key a) <;> rfl

lemma mem_upsert_replace (h : Sorted key l) : x ∈ upsert key (fun _ new => new) l a ↔ x = a ∨ x ∈ l ∧ key x ≠ key a := by
  have hs : Sorted key (upsert key (fun _ new => new) l a) := sorted_upsert h (fun _ _ => rfl)
  constructor
  · intro hx
    by_cases hk : key x = key a
    · have hfound := lookup_of_mem hs hx
      rw [hk, lookup_upsert_replace] at hfound
      exact .inl (some.inj hfound).symm
    rcases mem_upsert hx with hx | rfl | ⟨old, -, rfl⟩
    · exact .inr ⟨hx, hk⟩
    · exact absurd rfl hk
    · exact absurd rfl hk
  · rintro (rfl | ⟨hx, hk⟩)
    · exact mem_of_lookup (lookup_upsert_replace l x)
    have hstays : lookup key (upsert key (fun _ new => new) l a) (key x) = lookup key l (key x) :=
      lookup_upsert_of_ne h (fun _ _ => rfl) (Ne.symm hk)
    rw [lookup_of_mem h hx] at hstays
    exact mem_of_lookup hstays

/-- Sorted lists with the same elements are the same. -/
theorem Sorted.ext {l' : List α} (h : Sorted key l) (h' : Sorted key l') (hmem : ∀ x, x ∈ l ↔ x ∈ l') : l = l' := by
  have hnodup {l : List α} (h : Sorted key l) : l.Nodup := Pairwise.imp (by rintro a b hlt rfl; exact lt_irrefl _ hlt) h
  exact ((perm_ext_iff_of_nodup (hnodup h) (hnodup h')).mpr hmem).eq_of_pairwise
    (fun a b _ _ hab hba => absurd hab (lt_asymm hba)) h h'

lemma mem_takeWhile_le (h : Sorted key l) : x ∈ l.takeWhile (fun a => key a ≤ k) ↔ x ∈ l ∧ key x ≤ k := by
  constructor
  · intro hx
    exact ⟨takeWhile_subset _ hx, by simpa using mem_takeWhile_imp hx⟩
  · rintro ⟨hx, hk⟩
    induction l with
    | nil => cases hx
    | cons y l ih =>
      obtain ⟨hy, hl⟩ := pairwise_cons.mp h
      rcases mem_cons.mp hx with rfl | hx
      · simp [hk]
      have hyk : key y ≤ k := ((hy x hx).trans_le hk).le
      simp [hyk, ih hl hx]

lemma lookup_foldl_upsert {as : List α} (h : Sorted key l)
    (hmerge : ∀ old a, key old = key a → key (merge old a) = key a) (k : κ) : Sorted key (as.foldl (upsert key merge) l) ∧
      lookup key (as.foldl (upsert key merge) l) k = (as.filter (fun a => key a = k)).foldl (merged merge) (lookup key l k) := by
  induction as generalizing l with
  | nil => exact ⟨h, rfl⟩
  | cons a as ih =>
    obtain ⟨hsorted, hlook⟩ := ih (sorted_upsert h (fun old => hmerge old a))
    refine ⟨hsorted, hlook.trans ?_⟩
    by_cases hk : key a = k
    · subst hk
      rw [lookup_upsert_self (fun old => hmerge old a), filter_cons_of_pos (by simp), foldl_cons]
    · rw [lookup_upsert_of_ne h (fun old => hmerge old a) hk, filter_cons_of_neg (by simpa using hk)]

/-! ## An element that wins every merge -/

lemma foldl_merged_of_wins (h : ∀ x ∈ l, merge a x = a) : l.foldl (merged merge) (some a) = some a := by
  induction l with
  | nil => rfl
  | cons x l ih =>
    rw [foldl_cons, merged, h x (by simp)]
    exact ih (fun y hy => h y (by simp [hy]))

lemma mem_of_foldl_merged (hclosed : ∀ x y, merge x y = x ∨ merge x y = y) (h : l.foldl (merged merge) none = some a) :
    a ∈ l := by
  induction l using reverseRecOn generalizing a with
  | nil => cases h
  | append_singleton l x ih =>
    rw [foldl_append, foldl_cons, foldl_nil] at h
    cases hl : l.foldl (merged merge) none with
    | none =>
      rw [hl] at h
      cases h
      simp
    | some c =>
      rw [hl, merged] at h
      rcases hclosed c x with hc | hc <;> rw [hc] at h <;> cases h
      · exact mem_append_left _ (ih hl)
      · simp

/-- An element that wins over those before it, and over which none after it wins, is what is left. -/
theorem foldl_merged_champion (hclosed : ∀ x y, merge x y = x ∨ merge x y = y) (hpre : ∀ x ∈ pre, merge x a = a)
    (hpost : ∀ x ∈ post, merge a x = a) : (pre ++ a :: post).foldl (merged merge) none = some a := by
  rw [foldl_append, foldl_cons]
  cases hl : pre.foldl (merged merge) none with
  | none => exact foldl_merged_of_wins hpost
  | some c =>
    rw [merged, hpre c (mem_of_foldl_merged hclosed hl)]
    exact foldl_merged_of_wins hpost

end KeyedList
