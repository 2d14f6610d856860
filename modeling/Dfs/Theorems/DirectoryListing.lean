import Dfs.Theorems.PathIndex

/-!
# Listing a directory

`list_directory` scans the range of keys from the directory to `prefix_next` of it, byte by byte, and passes on what
has no slash or ends with one: a deeper path that ends with a slash too, and a record twice that two entries of the
index name (`listing_inexact`).
-/

namespace Dfs

open List FileTables

variable {Id : Type}

/-- The bytes that the table orders its keys by. -/
def utf8 (p : Path) : Bytes := p.flatMap String.utf8EncodeChar

def prefixNext (pre : Bytes) : Bytes := pre.dropLast ++ (pre.getLast?.map (· + 1)).toList

def asDirectory (dirPath : Path) : Path := if dirPath.getLast? = some '/' then dirPath else dirPath ++ ['/']

/-- The keys of the path table in their order. -/
structure FileTables.Keys (t : FileTables Id) where
  keys : List Path
  sorted : keys.Pairwise fun p q => utf8 p < utf8 q
  mem_iff (p : Path) : p ∈ keys ↔ t.pathTable p ≠ none

def FileTables.listDirectory (t : FileTables Id) (k : t.Keys) (dirPath : Path) : List (FileMetadata Id) :=
  let dirPath := asDirectory dirPath
  let stop := prefixNext (utf8 dirPath)
  (k.keys.filter fun p => utf8 dirPath ≤ utf8 p ∧ utf8 p < stop).filterMap fun path =>
    let relative := path.drop dirPath.length
    if relative ≠ [] ∧ ('/' ∉ relative ∨ relative.getLast? = some '/') then t.getFileByPath path else none

/-- A path in the directory: what follows the slash is a name. -/
def IsChild (dirPath p : Path) : Prop :=
  asDirectory dirPath <+: p ∧ p.drop (asDirectory dirPath).length ≠ [] ∧ '/' ∉ p.drop (asDirectory dirPath).length

instance (dirPath p : Path) : Decidable (IsChild dirPath p) := inferInstanceAs (Decidable (_ ∧ _))

/-- A path below the directory that the listing's filter passes. -/
def IsListed (dirPath p : Path) : Prop :=
  let relative := p.drop (asDirectory dirPath).length
  asDirectory dirPath <+: p ∧ relative ≠ [] ∧ ('/' ∉ relative ∨ relative.getLast? = some '/')

instance (dirPath p : Path) : Decidable (IsListed dirPath p) := inferInstanceAs (Decidable (_ ∧ _))

def FileTables.Stored (t : FileTables Id) (m : FileMetadata Id) : Prop := ∃ id, t.fileTable id = some m

/-- The listing has each stored record whose own path is in the directory once, and nothing else. -/
def FileTables.ListsExactly (t : FileTables Id) (k : t.Keys) (dirPath : Path) : Prop :=
  (t.listDirectory k dirPath).Nodup ∧ ∀ m, m ∈ t.listDirectory k dirPath ↔ t.Stored m ∧ IsChild dirPath m.path

/-! ## The range of a prefix -/

lemma byte_range_iff (a k : Bytes) : a ++ [47] ≤ k ∧ k < a ++ [48] ↔ a ++ [47] <+: k := by
  induction a generalizing k with
  | nil =>
    cases k with
    | nil => simp
    | cons x k =>
      simp only [nil_append, cons_le_cons_iff, cons_lt_cons_iff, not_lt_nil, and_false, or_false, nil_le, and_true,
        cons_prefix_cons,
        nil_prefix, UInt8.lt_iff_toNat_lt, ← UInt8.toNat_inj, UInt8.reduceToNat]
      omega
  | cons y a ih =>
    cases k with
    | nil => simp
    | cons x k =>
      simp only [cons_append, cons_le_cons_iff, cons_lt_cons_iff, cons_prefix_cons, ← ih k, UInt8.lt_iff_toNat_lt,
        ← UInt8.toNat_inj]
      constructor
      · rintro ⟨hle | ⟨heq, hle⟩, hlt | ⟨heq', hlt⟩⟩
        · omega
        · omega
        · omega
        · exact ⟨heq, hle, hlt⟩
      · rintro ⟨heq, hle, hlt⟩
        exact ⟨.inr ⟨heq, hle⟩, .inr ⟨heq.symm, hlt⟩⟩

lemma utf8EncodeChar_append_inj {c d : Char} {as bs : Bytes} (h : String.utf8EncodeChar c ++ as = String.utf8EncodeChar d ++ bs) :
    c = d ∧ as = bs := by
  have hbytes := congrArg (fun l : Bytes => ByteArray.utf8DecodeChar? l.toByteArray 0) h
  simp only [toByteArray_append, ByteArray.utf8DecodeChar?_utf8EncodeChar_append, Option.some.injEq] at hbytes
  subst hbytes
  exact ⟨rfl, append_cancel_left h⟩

/-- No code of a character begins another: a prefix of the bytes is one of the characters. -/
theorem utf8_prefix_iff {p q : Path} : utf8 p <+: utf8 q ↔ p <+: q := by
  constructor
  · intro h
    induction p generalizing q with
    | nil => exact nil_prefix
    | cons c p ih =>
      obtain ⟨rest, hrest⟩ := h
      cases q with
      | nil => simp [utf8, String.utf8EncodeChar_ne_nil] at hrest
      | cons d q =>
        simp only [utf8, flatMap_cons, append_assoc] at hrest
        obtain ⟨rfl, hsame⟩ := utf8EncodeChar_append_inj hrest
        exact cons_prefix_cons.mpr ⟨rfl, ih ⟨rest, hsame⟩⟩
  · rintro ⟨rest, rfl⟩
    exact ⟨utf8 rest, by simp [utf8]⟩

/-- The scan meets the keys that begin with the directory. -/
theorem scanned_iff (d p : Path) : utf8 (asDirectory d) ≤ utf8 p ∧ utf8 p < prefixNext (utf8 (asDirectory d)) ↔
    asDirectory d <+: p := by
  obtain ⟨base, hbase⟩ : ∃ base, asDirectory d = base ++ ['/'] := by
    unfold asDirectory
    split
    · rename_i h
      exact ⟨_, (dropLast_append_getLast? _ h).symm⟩
    · exact ⟨d, rfl⟩
  have hbytes : utf8 (asDirectory d) = utf8 base ++ [47] := by
    rw [hbase, utf8, flatMap_append]
    rfl
  have hnext : prefixNext (utf8 (asDirectory d)) = utf8 base ++ [48] := by
    rw [hbytes]
    simp [prefixNext]
  rw [hnext, hbytes, byte_range_iff, ← hbytes, utf8_prefix_iff]

/-! ## What is listed -/

variable {t : FileTables Id} {k : t.Keys} {d : Path} {m : FileMetadata Id}

lemma listDirectory_eq : t.listDirectory k d = k.keys.filterMap fun p => if IsListed d p then t.getFileByPath p else none := by
  unfold listDirectory
  rw [filterMap_filter]
  refine filterMap_congr fun p _ => ?_
  by_cases hpre : asDirectory d <+: p
  · simp [scanned_iff, IsListed, hpre]
  · simp [scanned_iff, IsListed, hpre]

/-- A record is listed if a path that the filter passes names it. -/
theorem mem_listDirectory_iff : m ∈ t.listDirectory k d ↔ ∃ p, IsListed d p ∧ t.getFileByPath p = some m := by
  simp only [listDirectory_eq, mem_filterMap, Option.ite_none_right_eq_some]
  constructor
  · rintro ⟨p, -, h⟩
    exact ⟨p, h⟩
  · rintro ⟨p, hlisted, hp⟩
    refine ⟨p, (k.mem_iff p).mpr fun hnone => ?_, hlisted, hp⟩
    rw [getFileByPath, hnone] at hp
    cases hp

/-- No record is listed twice exactly if no two of the paths name the same. -/
theorem nodup_listDirectory_iff : (t.listDirectory k d).Nodup ↔
    ∀ p q, IsListed d p → IsListed d q → t.getFileByPath p ≠ none → t.getFileByPath p = t.getFileByPath q → p = q := by
  have hkeys : k.keys.Nodup := k.sorted.imp (by rintro p _ h rfl; exact List.lt_irrefl _ h)
  have hmem {p : Path} (h : t.getFileByPath p ≠ none) : p ∈ k.keys :=
    (k.mem_iff p).mpr fun hnone => h (by rw [getFileByPath, hnone, Option.bind_none])
  rw [listDirectory_eq, List.Nodup, pairwise_filterMap]
  simp only [Option.ite_none_right_eq_some]
  constructor
  · intro h p q hp hq hget heq
    by_contra hne
    obtain ⟨m, hm⟩ := Option.ne_none_iff_exists'.mp hget
    have hsymm : Std.Symm fun p q => ∀ a, IsListed d p ∧ t.getFileByPath p = some a → ∀ b, IsListed d q ∧
      t.getFileByPath q = some b → a ≠ b :=
      ⟨fun p q h a ha b hb => (h b hb a ha).symm⟩
    exact h.forall (hmem hget) (hmem (heq ▸ hget)) hne m ⟨hp, hm⟩ m ⟨hq, heq ▸ hm⟩ rfl
  · intro h
    refine hkeys.pairwise_of_forall_ne fun p _ q _ hne a ha b hb hab => hne ?_
    exact h p q ha.1 hb.1 (by simp [ha.2]) (by rw [ha.2, hb.2, hab])

lemma stored_of_getFileByPath {p : Path} (h : t.getFileByPath p = some m) : t.Stored m := by
  obtain ⟨id, -, hm⟩ := Option.bind_eq_some_iff.mp h
  exact ⟨id, hm⟩

/-- The entries of the index below the directory name each stored record that is in it once, and no other. -/
def FileTables.NamesChildren (t : FileTables Id) (d : Path) : Prop :=
  ∀ m, t.Stored m → if IsChild d m.path then ∃! p, IsListed d p ∧ t.getFileByPath p = some m
    else ∀ p, IsListed d p → t.getFileByPath p ≠ some m

lemma listsExactly_iff : t.ListsExactly k d ↔ t.NamesChildren d := by
  rw [ListsExactly, nodup_listDirectory_iff]
  simp only [mem_listDirectory_iff]
  constructor
  · rintro ⟨honce, hmem⟩ m hm
    split
    · rename_i hchild
      obtain ⟨p, hp, hget⟩ := (hmem m).mpr ⟨hm, hchild⟩
      refine ⟨p, ⟨hp, hget⟩, fun q ⟨hq, hqget⟩ => ?_⟩
      exact honce q p hq hp (by simp [hqget]) (hqget.trans hget.symm)
    · rename_i hchild
      exact fun p hp hget => hchild ((hmem m).mp ⟨p, hp, hget⟩).2
  · intro h
    have hchild {p : Path} {m : FileMetadata Id} (hp : IsListed d p) (hget : t.getFileByPath p = some m) : IsChild d m.path := by
      by_contra hout
      have hm := h m (stored_of_getFileByPath hget)
      rw [if_neg hout] at hm
      exact hm p hp hget
    refine ⟨fun p q hp hq hget heq => ?_, fun m => ⟨?_, ?_⟩⟩
    · obtain ⟨m, hm⟩ := Option.ne_none_iff_exists'.mp hget
      have hone := h m (stored_of_getFileByPath hm)
      rw [if_pos (hchild hp hm)] at hone
      exact hone.unique ⟨hp, hm⟩ ⟨hq, heq ▸ hm⟩
    · rintro ⟨p, hp, hget⟩
      exact ⟨stored_of_getFileByPath hget, hchild hp hget⟩
    · rintro ⟨hm, hin⟩
      have hone := h m hm
      rw [if_pos hin] at hone
      exact hone.exists

/-- With the tables in step a record is named by its own path only. -/
theorem namesChildren_iff (ht : t.InStep) : t.NamesChildren d ↔
    ∀ m, t.Stored m → asDirectory d <+: m.path → (m.path.drop (asDirectory d).length).getLast? ≠ some '/' := by
  have hown {p : Path} {m : FileMetadata Id} (h : t.getFileByPath p = some m) : m.path = p := by
    obtain ⟨id, hp, hm⟩ := Option.bind_eq_some_iff.mp h
    obtain ⟨m', hm', rfl⟩ := ht.entry p id hp
    rw [Option.some.inj (hm.symm.trans hm')]
  refine forall₂_congr fun m hm => ?_
  obtain ⟨id, hid⟩ := hm
  have hnamed : t.getFileByPath m.path = some m := Option.bind_eq_some_iff.mpr ⟨id, ht.indexed id m hid, hid⟩
  split
  · rename_i hchild
    refine iff_of_true ⟨m.path, ⟨⟨hchild.1, hchild.2.1, .inl hchild.2.2⟩, hnamed⟩, fun p hp => (hown hp.2).symm⟩ fun _ hlast => ?_
    exact hchild.2.2 (mem_of_getLast? hlast)
  · rename_i hout
    constructor
    · intro h hpre hlast
      exact h m.path ⟨hpre, ne_nil_of_mem (mem_of_getLast? hlast), .inr hlast⟩ hnamed
    · rintro h p ⟨hpre, hne, hslash | hlast⟩ hget
      · exact hout (hown hget ▸ ⟨hpre, hne, hslash⟩)
      · exact h (hown hget ▸ hpre) (hown hget ▸ hlast)

/-- In every state of the tables a listing is the stored records in the directory, each once, exactly if the entries
of the index below the directory name each of them once and no other record; with the tables in step, if no record
below it has a path that ends with a slash. -/
theorem listing_exact_iff (t : FileTables Id) (k : t.Keys) (d : Path) : (t.ListsExactly k d ↔ t.NamesChildren d) ∧
      (t.InStep → (t.ListsExactly k d ↔
        ∀ m, t.Stored m → asDirectory d <+: m.path → (m.path.drop (asDirectory d).length).getLast? ≠ some '/')) :=
  ⟨listsExactly_iff, fun ht => listsExactly_iff.trans (namesChildren_iff ht)⟩

def deeperPath : Path := ['/', 'd', '/', 'a', '/', 'b', '/']

def deeperTables : FileTables Nat :=
  { fileTable := fun id => if id = 7 then some (emptyFile 7 deeperPath 1) else none
    pathTable := fun p => if p = deeperPath then some 7 else none }

/-- The file is put at `/d/a` and then, with a newer record, at `/d/b`. -/
def movedTables : FileTables Nat :=
  ((FileTables.empty.putFile (fun _ => false) (emptyFile 7 ['/', 'd', '/', 'a'] 1)).1.putFile (fun _ => false)
    (emptyFile 7 ['/', 'd', '/', 'b'] 2)).1

def movedKeys : movedTables.Keys where
  keys := [['/', 'd', '/', 'a'], ['/', 'd', '/', 'b']]
  sorted := by decide +kernel
  mem_iff p := by
    by_cases hb : p = ['/', 'd', '/', 'b'] <;> by_cases ha : p = ['/', 'd', '/', 'a'] <;>
      simp [movedTables, putFile, mergeFileMetadata, isStale, FileTables.empty, emptyFile, ha, hb]

/-- In a listing of `/d` is what is stored at `/d/a/b/`, and a file that was put at two paths is in it twice. -/
theorem listing_inexact :
    (deeperTables.InStep ∧ ∃ k, deeperTables.listDirectory k ['/', 'd'] = [emptyFile 7 deeperPath 1] ∧
      ¬ IsChild ['/', 'd'] deeperPath) ∧
    movedTables.listDirectory movedKeys ['/', 'd'] =
      [emptyFile 7 ['/', 'd', '/', 'b'] 2, emptyFile 7 ['/', 'd', '/', 'b'] 2] := by
  refine ⟨⟨⟨?_, ?_⟩, ⟨[deeperPath], pairwise_singleton .., by simp [deeperTables]⟩, by decide +kernel, by decide⟩,
    by decide +kernel⟩
  · simp [deeperTables, emptyFile]
  · simp [deeperTables, emptyFile]

end Dfs
