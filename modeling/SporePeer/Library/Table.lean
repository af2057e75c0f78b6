import Mathlib.Data.List.AList

/-!
# Tables

Association lists with distinct keys and one value type: the shape of a hash map whose iteration
order carries no meaning, and of a directory of named files.

## Main definitions

* `Table κ ν`: Mathlib's association lists at a constant family of values
* `Table.retain`, `Table.mapValues`, `Table.size`: filtering, mapping and counting

## Main results

* `Table.mem_entries_iff`: the entries of a table are its lookups
* `Table.lookup_retain`, `Table.lookup_mapValues`: lookups after filtering and mapping
* `Table.size_eq_of_lookup`: the lookups of a table determine its size
-/

/-- Association lists from `κ` to `ν` with distinct keys. -/
abbrev Table (κ ν : Type) := AList fun _ : κ => ν

namespace Table

variable {κ ν μ : Type} [DecidableEq κ]

/-- The entries for which `p` holds. -/
def retain (p : κ → ν → Bool) (t : Table κ ν) : Table κ ν :=
  ⟨t.entries.filter fun e => p e.1 e.2, t.nodupKeys.sublist List.filter_sublist⟩

/-- The table with `f` applied to every value. -/
def mapValues (f : ν → μ) (t : Table κ ν) : Table κ μ :=
  ⟨t.entries.map (.map id fun _ => f), t.nodupKeys.map₂ fun _ => f⟩

/-- The number of entries. -/
def size (t : Table κ ν) : ℕ := t.entries.length

theorem mem_entries_iff {t : Table κ ν} {k : κ} {v : ν} :
    ⟨k, v⟩ ∈ t.entries ↔ t.lookup k = some v :=
  (List.mem_dlookup_iff t.nodupKeys).symm

@[simp] theorem lookup_retain (p : κ → ν → Bool) (t : Table κ ν) (k : κ) :
    (t.retain p).lookup k = (t.lookup k).filter (p k) := by
  apply Option.ext
  intro v
  simp only [← mem_entries_iff, retain, List.mem_filter, Option.filter_eq_some_iff]

@[simp] theorem lookup_mapValues (f : ν → μ) (t : Table κ ν) (k : κ) :
    (t.mapValues f).lookup k = (t.lookup k).map f :=
  List.dlookup_map₂ k

/-- Tables with the same lookups have the same size. -/
theorem size_eq_of_lookup {t t' : Table κ ν} (h : ∀ k, t.lookup k = t'.lookup k) :
    t.size = t'.size := by
  refine (List.lookup_ext t.nodupKeys t'.nodupKeys fun k v => ?_).length_eq
  have hk : t.entries.dlookup k = t'.entries.dlookup k := h k
  rw [hk]

/-- A table whose entries are in another is no larger. -/
theorem size_le_of_lookup {t t' : Table κ ν}
    (h : ∀ k v, t.lookup k = some v → t'.lookup k = some v) : t.size ≤ t'.size := by
  refine (List.subperm_of_subset (List.NodupKeys.nodup t.nodupKeys) fun e he => ?_).length_le
  exact mem_entries_iff.mpr (h e.1 e.2 (mem_entries_iff.mp he))

omit [DecidableEq κ] in
theorem size_retain_le (p : κ → ν → Bool) (t : Table κ ν) : (t.retain p).size ≤ t.size :=
  List.length_filter_le _ _

/-- An insertion adds one entry at most, and none under a key that is there. -/
theorem size_insert_le (t : Table κ ν) (k : κ) (v : ν) :
    size (t.insert k v : Table κ ν) ≤ t.size + 1 :=
  Nat.succ_le_succ List.length_eraseP_le

theorem size_insert_of_mem {t : Table κ ν} {k : κ} (hk : k ∈ t) (v : ν) :
    size (t.insert k v : Table κ ν) = t.size := by
  obtain ⟨e, he, hke⟩ := List.mem_map.mp (AList.mem_keys.mp hk)
  have hpos : 0 < t.entries.length := List.length_pos_of_mem he
  have hlen : (t.entries.eraseP fun s => k = s.1).length = t.entries.length - 1 :=
    List.length_eraseP_of_mem he (by simp [← hke])
  show (t.entries.eraseP fun s => k = s.1).length + 1 = t.entries.length
  rw [hlen, Nat.sub_add_cancel hpos]

theorem mem_of_lookup {t : Table κ ν} {k : κ} {v : ν} (h : t.lookup k = some v) : k ∈ t := by
  rw [← AList.lookup_isSome, h]
  rfl

/-- Lookup after an insertion, at any key. -/
theorem lookup_insert_eq (t : Table κ ν) (k k' : κ) (v : ν) :
    (t.insert k v).lookup k' = if k' = k then some v else t.lookup k' := by
  split
  · subst k'
    exact AList.lookup_insert t
  · exact AList.lookup_insert_ne ‹_›

/-- Lookup after an erasure, at any key. -/
theorem lookup_erase_eq (t : Table κ ν) (k k' : κ) :
    (t.erase k).lookup k' = if k' = k then none else t.lookup k' := by
  split
  · subst k'
    exact AList.lookup_erase k t
  · exact AList.lookup_erase_ne ‹_›

end Table
