import Mathlib.Data.List.Nodup

/-!
# Registries

Values found by a key, no two with the same, as in a hash map; their order has no meaning.
-/

structure Registry {α κ : Type*} (key : α → κ) where
  values : List α
  distinct : (values.map key).Nodup

namespace Registry

open List

variable {α κ : Type*} {key : α → κ}

instance : Membership α (Registry key) := ⟨fun r a => a ∈ r.values⟩

instance [DecidableEq α] (r : Registry key) (a : α) : Decidable (a ∈ r) := inferInstanceAs (Decidable (a ∈ r.values))

def filter (r : Registry key) (p : α → Bool) : Registry key where
  values := r.values.filter p
  distinct := r.distinct.sublist (List.filter_sublist.map key)

def mapValues (r : Registry key) (f : α → α) (hf : ∀ a, key (f a) = key a) : Registry key where
  values := r.values.map f
  distinct := by
    have hkeys : (r.values.map f).map key = r.values.map key := by
      rw [List.map_map]
      exact List.map_congr_left fun a _ => hf a
    rw [hkeys]
    exact r.distinct

def singleton (a : α) : Registry key := ⟨[a], List.nodup_singleton _⟩

def empty : Registry key := ⟨[], List.nodup_nil⟩

variable [DecidableEq κ]

def get (r : Registry key) (k : κ) : Option α := r.values.find? fun a => decide (key a = k)

def remove (r : Registry key) (k : κ) : Registry key := r.filter fun a => decide (key a ≠ k)

def insert (r : Registry key) (a : α) : Registry key where
  values := a :: (r.remove (key a)).values
  distinct := by
    rw [List.map_cons, List.nodup_cons]
    refine ⟨?_, (r.remove (key a)).distinct⟩
    intro hmem
    obtain ⟨b, hb, hkey⟩ := List.mem_map.mp hmem
    exact of_decide_eq_true (List.mem_filter.mp hb).2 hkey

def modify (r : Registry key) (k : κ) (f : α → α) (hf : ∀ a, key (f a) = key a) : Registry key :=
  r.mapValues (fun a => if key a = k then f a else a) fun a => by
    split
    · exact hf a
    · rfl

def contains (r : Registry key) (k : κ) : Bool := r.values.any fun a => decide (key a = k)

/-! ## Membership -/

variable {r : Registry key} {a b : α} {k : κ} {f : α → α} {hf : ∀ a, key (f a) = key a}

section Mem

omit [DecidableEq κ]

lemma eq_of_key_eq (ha : a ∈ r) (hb : b ∈ r) (h : key a = key b) : a = b :=
  inj_on_of_nodup_map r.distinct ha hb h

@[simp] lemma mem_filter {p : α → Bool} : a ∈ r.filter p ↔ a ∈ r ∧ p a = true := List.mem_filter

@[simp] lemma mem_mapValues : b ∈ r.mapValues f hf ↔ ∃ a ∈ r, f a = b := mem_map

@[simp] lemma mem_singleton : b ∈ (singleton a : Registry key) ↔ b = a := List.mem_singleton

end Mem

@[simp] lemma mem_remove : a ∈ r.remove k ↔ a ∈ r ∧ key a ≠ k := by
  rw [remove, mem_filter, decide_eq_true_iff]

@[simp] lemma mem_insert : b ∈ r.insert a ↔ b = a ∨ (b ∈ r ∧ key b ≠ key a) :=
  mem_cons.trans (or_congr_right mem_remove)

@[simp] lemma mem_modify : b ∈ r.modify k f hf ↔ (b ∈ r ∧ key b ≠ k) ∨ ∃ a ∈ r, key a = k ∧ f a = b := by
  rw [modify, mem_mapValues]
  constructor
  · rintro ⟨a, ha, hfa⟩
    split at hfa
    · rename_i hkey
      exact .inr ⟨a, ha, hkey, hfa⟩
    rename_i hkey
    rw [← hfa]
    exact .inl ⟨ha, hkey⟩
  · rintro (⟨hb, hkey⟩ | ⟨a, ha, hkey, hfa⟩)
    · exact ⟨b, hb, if_neg hkey⟩
    · exact ⟨a, ha, by rw [if_pos hkey, hfa]⟩

/-! ## Lookup -/

@[simp] lemma get_empty (k : κ) : (empty : Registry key).get k = none := rfl

lemma get_eq_some_iff : r.get k = some a ↔ a ∈ r ∧ key a = k := by
  constructor
  · intro h
    exact ⟨mem_of_find?_eq_some h, by simpa using find?_some h⟩
  · rintro ⟨ha, rfl⟩
    cases h : r.get (key a) with
    | none =>
      have := find?_eq_none.mp h a ha
      simp at this
    | some b =>
      have hb : b ∈ r := mem_of_find?_eq_some h
      have hkey : key b = key a := by simpa using find?_some h
      rw [eq_of_key_eq hb ha hkey]

lemma get_insert (r : Registry key) (a : α) (k : κ) : (r.insert a).get k = if key a = k then some a else r.get k := by
  split
  · rename_i h
    exact get_eq_some_iff.mpr ⟨mem_insert.mpr (.inl rfl), h⟩
  rename_i h
  ext b
  rw [get_eq_some_iff, get_eq_some_iff, mem_insert]
  constructor
  · rintro ⟨rfl | ⟨hb, -⟩, hk⟩
    · exact absurd hk h
    · exact ⟨hb, hk⟩
  · rintro ⟨hb, rfl⟩
    exact ⟨.inr ⟨hb, fun heq => h heq.symm⟩, rfl⟩

lemma get_filter (r : Registry key) (p : α → Bool) (q : κ → Bool) (hp : ∀ a, p a = q (key a)) (k : κ) :
    (r.filter p).get k = if q k then r.get k else none := by
  ext a
  rw [get_eq_some_iff, mem_filter]
  split
  · rename_i hq
    rw [get_eq_some_iff]
    refine and_congr_left fun hk => and_iff_left ?_
    rw [hp, hk, hq]
  rename_i hq
  simp only [reduceCtorEq, iff_false]
  rintro ⟨⟨-, hpa⟩, rfl⟩
  rw [hp] at hpa
  exact hq hpa

lemma get_foldl {update : Registry key → α → Registry key} {put : Option α → α → Option α}
    (hupdate : ∀ r a k, (update r a).get k = if key a = k then put (r.get k) a else r.get k) (r s : Registry key) (k : κ) :
    (r.values.foldl update s).get k = (r.get k).elim (s.get k) (put (s.get k)) := by
  obtain ⟨values, distinct⟩ := r
  simp only [get]
  induction values generalizing s with
  | nil => rfl
  | cons a values ih =>
    rw [map_cons, nodup_cons] at distinct
    rw [foldl_cons, ih _ distinct.2]
    have hget := hupdate s a k
    simp only [get] at hget
    by_cases hk : key a = k
    · have hnone : values.find? (fun b => decide (key b = k)) = none := by
        rw [find?_eq_none]
        intro b hb
        simp only [decide_eq_true_eq]
        rintro rfl
        exact distinct.1 (hk ▸ mem_map_of_mem hb)
      simp [hk, hnone, hget]
    · simp [hk, hget]

lemma any_key_iff (ha : a ∈ r) (hk : key a = k) (p : α → Prop) [DecidablePred p] :
    (r.values.any fun b => decide (key b = k ∧ p b)) = true ↔ p a := by
  rw [any_eq_true]
  constructor
  · rintro ⟨b, hb, hdec⟩
    obtain ⟨hkey, hp⟩ := of_decide_eq_true hdec
    rw [eq_of_key_eq ha hb (hk.trans hkey.symm)]
    exact hp
  · intro hp
    exact ⟨a, ha, decide_eq_true ⟨hk, hp⟩⟩

end Registry
