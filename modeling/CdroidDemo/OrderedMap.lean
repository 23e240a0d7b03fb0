import Mathlib.Data.List.Pairwise
import Mathlib.Order.Lattice

/-!
# Maps kept in the order of their keys

The container behind `std::map`: one entry for each key, held in ascending
order. The raw operations work on entry lists, for data types that nest such
lists; `OrderedMap` carries the order with the entries.
-/

namespace CdroidDemo.OrderedMap

variable {κ α β : Type*} [LinearOrder κ]

/-- Keys increase along the entries. -/
def Ascending (l : List (κ × α)) : Prop := l.Pairwise fun x y => x.1 < y.1

/-- The value held under a key. -/
def findEntry (k : κ) : List (κ × α) → Option α
  | [] => none
  | e :: l => if k = e.1 then some e.2 else findEntry k l

/-- Put a value under a key, in the place of the one held before. -/
def insertEntry (k : κ) (x : α) : List (κ × α) → List (κ × α)
  | [] => [(k, x)]
  | e :: l =>
    if k < e.1 then (k, x) :: e :: l
    else if k = e.1 then (k, x) :: l
    else e :: insertEntry k x l

/-- The empty list ascends. -/
theorem ascending_nil : Ascending ([] : List (κ × α)) := List.Pairwise.nil

/-- A found value is an entry. -/
theorem mem_of_findEntry {k : κ} {x : α} {l : List (κ × α)} (h : findEntry k l = some x) :
    (k, x) ∈ l := by
  induction l with
  | nil => cases h
  | cons e l ih =>
    unfold findEntry at h
    split at h
    · rename_i hk
      cases h
      rw [hk]
      exact List.mem_cons_self
    · exact List.mem_cons_of_mem e (ih h)

/-- In ascending entries every entry is found. -/
theorem findEntry_of_mem {k : κ} {x : α} {l : List (κ × α)} (hl : Ascending l)
    (h : (k, x) ∈ l) : findEntry k l = some x := by
  induction l with
  | nil => cases h
  | cons e l ih =>
    have hp := List.pairwise_cons.mp hl
    unfold findEntry
    cases List.mem_cons.mp h with
    | inl he => rw [← he, if_pos rfl]
    | inr hm => rw [if_neg (hp.1 _ hm).ne', ih hp.2 hm]

/-- A key no entry has is not found. -/
theorem findEntry_none {k : κ} {l : List (κ × α)} (h : ∀ e ∈ l, e.1 ≠ k) :
    findEntry k l = none := by
  cases hf : findEntry k l with
  | none => rfl
  | some x => exact absurd rfl (h _ (mem_of_findEntry hf))

/-- Insertion changes what is found under its key only. -/
theorem findEntry_insertEntry (k j : κ) (x : α) (l : List (κ × α)) :
    findEntry j (insertEntry k x l) = if j = k then some x else findEntry j l := by
  induction l with
  | nil => rfl
  | cons e l ih =>
    unfold insertEntry
    split
    · rfl
    · split
      · rename_i hk
        simp only [findEntry, ← hk]
        split <;> rfl
      · rename_i hk
        simp only [findEntry, ih]
        split
        · rename_i hj
          rw [if_neg (hj ▸ Ne.symm hk)]
        · rfl

/-- An entry after an insertion is the new one or was there. -/
theorem mem_insertEntry {k : κ} {x : α} {e : κ × α} {l : List (κ × α)}
    (h : e ∈ insertEntry k x l) : e = (k, x) ∨ e ∈ l := by
  induction l with
  | nil => exact Or.inl (List.mem_singleton.mp h)
  | cons d l ih =>
    unfold insertEntry at h
    split at h
    · exact List.mem_cons.mp h
    · split at h
      · exact (List.mem_cons.mp h).imp_right (List.mem_cons_of_mem d)
      · cases List.mem_cons.mp h with
        | inl hd => exact Or.inr (hd ▸ List.mem_cons_self)
        | inr hm => exact (ih hm).imp_right (List.mem_cons_of_mem d)

/-- Inserting keeps the keys ascending. -/
theorem Ascending.insertEntry {l : List (κ × α)} (hl : Ascending l) (k : κ) (x : α) :
    Ascending (insertEntry k x l) := by
  induction l with
  | nil => exact List.pairwise_singleton _ _
  | cons e l ih =>
    have hp := List.pairwise_cons.mp hl
    unfold OrderedMap.insertEntry
    split
    · rename_i hk
      refine List.pairwise_cons.mpr ⟨?_, hl⟩
      intro d hd
      cases List.mem_cons.mp hd with
      | inl h => exact h ▸ hk
      | inr h => exact hk.trans (hp.1 d h)
    · split
      · rename_i hk
        exact List.pairwise_cons.mpr ⟨fun d hd => hk ▸ hp.1 d hd, hp.2⟩
      · rename_i hlt hne
        refine List.pairwise_cons.mpr ⟨?_, ih hp.2⟩
        intro d hd
        cases mem_insertEntry hd with
        | inl h => exact h ▸ lt_of_le_of_ne (not_lt.mp hlt) (Ne.symm hne)
        | inr h => exact hp.1 d h

/-- Ascending entries are distinct. -/
theorem Ascending.nodup {l : List (κ × α)} (hl : Ascending l) : l.Nodup :=
  hl.imp fun hlt he => hlt.ne (congrArg Prod.fst he)

/-- Ascending entries are determined by what is found under each key. -/
theorem Ascending.ext {l m : List (κ × α)} (hl : Ascending l) (hm : Ascending m)
    (h : ∀ k, findEntry k l = findEntry k m) : l = m := by
  have hmem : ∀ e, e ∈ l ↔ e ∈ m := by
    intro e
    constructor
    · intro he
      exact mem_of_findEntry ((h e.1).symm.trans (findEntry_of_mem hl he))
    · intro he
      exact mem_of_findEntry ((h e.1).trans (findEntry_of_mem hm he))
  refine List.Perm.eq_of_pairwise ?_ hl hm ((List.perm_ext_iff_of_nodup hl.nodup hm.nodup).mpr hmem)
  intro a b _ _ hab hba
  exact absurd hab hba.asymm

end CdroidDemo.OrderedMap

namespace CdroidDemo

open OrderedMap in
/-- Entries with ascending keys. -/
structure OrderedMap (κ α : Type*) [LinearOrder κ] where
  /-- The entries in the order of iteration. -/
  entries : List (κ × α)
  /-- The keys increase. -/
  ascending : Ascending entries

end CdroidDemo

namespace CdroidDemo.OrderedMap

variable {κ α β : Type*} [LinearOrder κ]

/-! ## Maps -/

/-- The empty map. -/
def empty : OrderedMap κ α := ⟨[], ascending_nil⟩

/-- `find`: the value under a key. -/
def find (m : OrderedMap κ α) (k : κ) : Option α := findEntry k m.entries

/-- The keys in their order. -/
def keys (m : OrderedMap κ α) : List κ := m.entries.map Prod.fst

/-- Assignment through `operator[]`. -/
def insert (m : OrderedMap κ α) (k : κ) (x : α) : OrderedMap κ α :=
  ⟨insertEntry k x m.entries, m.ascending.insertEntry k x⟩

/-- One pass over the entries, each of them changed or erased. -/
def filterMap (m : OrderedMap κ α) (f : α → Option β) : OrderedMap κ β :=
  ⟨m.entries.filterMap fun e => (f e.2).map fun y => (e.1, y), by
    refine List.Pairwise.filterMap _ ?_ m.ascending
    intro a b hab c hc d hd
    obtain ⟨y, _, rfl⟩ := Option.map_eq_some_iff.mp hc
    obtain ⟨z, _, rfl⟩ := Option.map_eq_some_iff.mp hd
    exact hab⟩

/-- One pass over the entries that changes every value. -/
def mapValues (m : OrderedMap κ α) (f : κ → α → β) : OrderedMap κ β :=
  ⟨m.entries.map fun e => (e.1, f e.1 e.2), by
    rw [Ascending, List.pairwise_map]
    exact m.ascending⟩

/-- `insert` of `std::map`: a value that is held stays. -/
def emplace (m : OrderedMap κ α) (k : κ) (x : α) : OrderedMap κ α :=
  if (m.find k).isSome then m else m.insert k x

/-- `erase` of a key. -/
def erase (m : OrderedMap κ α) (k : κ) : OrderedMap κ α :=
  ⟨m.entries.filter fun e => decide (e.1 ≠ k), m.ascending.filter _⟩

/-- An insertion sets its own key and no other. -/
@[simp] theorem find_insert (m : OrderedMap κ α) (k j : κ) (x : α) :
    (m.insert k x).find j = if j = k then some x else m.find j :=
  findEntry_insertEntry k j x m.entries

/-- A pass acts on the value of every key by itself. -/
theorem findEntry_filterMap (f : α → Option β) (k : κ) {l : List (κ × α)} (hl : Ascending l) :
    findEntry k (l.filterMap fun e => (f e.2).map fun y => (e.1, y)) = (findEntry k l).bind f := by
  induction l with
  | nil => rfl
  | cons e l ih =>
    have hp := List.pairwise_cons.mp hl
    have ih := ih hp.2
    by_cases hk : k = e.1
    · have hn : findEntry k l = none := findEntry_none fun d hd => (hk ▸ (hp.1 d hd).ne')
      rw [hn, Option.bind_none] at ih
      cases hf : f e.2 with
      | none =>
        simp only [List.filterMap_cons, hf, Option.map_none, ih, findEntry, if_pos hk,
          Option.bind_some]
      | some y =>
        simp only [List.filterMap_cons, hf, Option.map_some, findEntry, if_pos hk,
          Option.bind_some]
    · cases hf : f e.2 with
      | none => simp only [List.filterMap_cons, hf, Option.map_none, ih, findEntry, if_neg hk]
      | some y => simp only [List.filterMap_cons, hf, Option.map_some, findEntry, if_neg hk, ih]

/-- A filtered map has the filtered values. -/
@[simp] theorem find_filterMap (m : OrderedMap κ α) (f : α → Option β) (k : κ) :
    (m.filterMap f).find k = (m.find k).bind f :=
  findEntry_filterMap f k m.ascending

/-- The entries are what is found. -/
theorem mem_entries_iff (m : OrderedMap κ α) {k : κ} {x : α} :
    (k, x) ∈ m.entries ↔ m.find k = some x :=
  ⟨findEntry_of_mem m.ascending, mem_of_findEntry⟩

/-- Emplacing at a free key inserts. -/
theorem emplace_new {m : OrderedMap κ α} {k : κ} (h : m.find k = none) (x : α) :
    m.emplace k x = m.insert k x := by
  rw [emplace, h, Option.isSome_none, if_neg Bool.false_ne_true]

/-- An erasure frees its own key and no other. -/
@[simp] theorem find_erase (m : OrderedMap κ α) (k j : κ) :
    (m.erase k).find j = if j = k then none else m.find j := by
  split
  · rename_i hj
    refine findEntry_none fun e he hk => ?_
    exact of_decide_eq_true (List.mem_filter.mp he).2 (hk.trans hj)
  · rename_i hj
    cases hf : m.find j with
    | none =>
      refine findEntry_none fun e he hk => ?_
      have hm := m.mem_entries_iff.mp (List.mem_filter.mp he).1
      rw [hk, hf] at hm
      cases hm
    | some x =>
      refine findEntry_of_mem (m.erase k).ascending (List.mem_filter.mpr ?_)
      exact ⟨m.mem_entries_iff.mpr hf, decide_eq_true hj⟩

/-- A mapped map has the mapped values. -/
@[simp] theorem find_mapValues (m : OrderedMap κ α) (f : κ → α → β) (k : κ) :
    (m.mapValues f).find k = (m.find k).map (f k) := by
  have h : ∀ l : List (κ × α), findEntry k (l.map fun e => (e.1, f e.1 e.2)) =
      (findEntry k l).map (f k) := by
    intro l
    induction l with
    | nil => rfl
    | cons e l ih =>
      simp only [List.map_cons, findEntry]
      split
      · rename_i hk
        rw [hk]
        rfl
      · exact ih
  exact h m.entries

/-- Maps are determined by what is found. -/
theorem ext_find {m n : OrderedMap κ α} (h : ∀ k, m.find k = n.find k) : m = n := by
  have he := Ascending.ext m.ascending n.ascending h
  cases m
  cases n
  cases he
  rfl

/-- Erasing forgets an insertion at the same key. -/
theorem erase_insert (m : OrderedMap κ α) (k : κ) (x : α) : (m.insert k x).erase k = m.erase k := by
  refine ext_find fun j => ?_
  rw [find_erase, find_erase, find_insert]
  split <;> rfl

/-- The keys are those that are found. -/
theorem mem_keys (m : OrderedMap κ α) {k : κ} : k ∈ m.keys ↔ (m.find k).isSome = true := by
  rw [Option.isSome_iff_exists]
  constructor
  · intro h
    obtain ⟨e, he, rfl⟩ := List.mem_map.mp h
    exact ⟨e.2, m.mem_entries_iff.mp he⟩
  · rintro ⟨x, hx⟩
    exact List.mem_map.mpr ⟨(k, x), m.mem_entries_iff.mpr hx, rfl⟩

/-- The keys are distinct. -/
theorem keys_nodup (m : OrderedMap κ α) : m.keys.Nodup :=
  (List.pairwise_map.mpr m.ascending).imp fun h => ne_of_lt h

/-- The keys are determined by where something is found. -/
theorem keys_perm {m : OrderedMap κ α} {n : OrderedMap κ β}
    (h : ∀ k, (m.find k).isSome = (n.find k).isSome) : m.keys.Perm n.keys :=
  (List.perm_ext_iff_of_nodup m.keys_nodup n.keys_nodup).mpr fun k => by
    rw [mem_keys, mem_keys, h]

/-- A new key comes to the others. -/
theorem keys_insert_new {m : OrderedMap κ α} {k : κ} (h : m.find k = none) (x : α) :
    (m.insert k x).keys.Perm (k :: m.keys) := by
  have hk : k ∉ m.keys := by
    rw [mem_keys, h]
    exact Bool.false_ne_true
  refine (List.perm_ext_iff_of_nodup (m.insert k x).keys_nodup
    (List.nodup_cons.mpr ⟨hk, m.keys_nodup⟩)).mpr fun j => ?_
  rw [mem_keys, find_insert, List.mem_cons, mem_keys]
  by_cases hj : j = k
  · simp only [hj, if_true, Option.isSome_some, true_or]
  · simp only [hj, if_false, false_or]

/-- A held key is one beside those that stay when it is erased. -/
theorem keys_erase {m : OrderedMap κ α} {k : κ} {x : α} (h : m.find k = some x) :
    m.keys.Perm (k :: (m.erase k).keys) := by
  have hk : k ∉ (m.erase k).keys := by
    rw [mem_keys, find_erase, if_pos rfl]
    exact Bool.false_ne_true
  refine (List.perm_ext_iff_of_nodup m.keys_nodup
    (List.nodup_cons.mpr ⟨hk, (m.erase k).keys_nodup⟩)).mpr fun j => ?_
  rw [mem_keys, List.mem_cons, mem_keys, find_erase]
  by_cases hj : j = k
  · simp only [hj, h, Option.isSome_some, true_or]
  · simp only [hj, if_false, false_or]

end CdroidDemo.OrderedMap
