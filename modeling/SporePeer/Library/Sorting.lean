import Mathlib.Data.List.Sort

/-!
# Sorting back into order

Records are stored in a form that a sort reads back. The sort restores the order in which they
were stored exactly when nothing was lost and the stored forms stand in the order of the sort.

## Main results

* `List.Perm.eq_of_map_eq`: lists of the same records under the same keys
* `List.map_insertionSort_eq_iff`: when a sort restores an order
-/

namespace List

variable {α β κ : Type}

/-- Two lists of the same records are equal if their keys, which tell the records apart, stand in
the same order. -/
theorem Perm.eq_of_map_eq {f : β → κ} {l₁ l₂ : List β} (hperm : l₁.Perm l₂)
    (hnodup : (l₂.map f).Nodup) (h : l₁.map f = l₂.map f) : l₁ = l₂ := by
  refine List.ext_getElem hperm.length_eq fun i h₁ h₂ => ?_
  have hkey : f l₁[i] = f l₂[i] := by
    rw [← List.getElem_map f (h := by rwa [List.length_map]),
      ← List.getElem_map f (h := by rwa [List.length_map])]
    simp only [h]
  have hin : l₁[i] ∈ l₂ := hperm.mem_iff.mp (List.getElem_mem h₁)
  exact List.inj_on_of_nodup_map hnodup hin (List.getElem_mem h₂) hkey

/-- **When a sort restores an order.** The list `K` holds the stored forms of those records of `L`
that satisfy `p`. Sorted, it gives back the keys of `L` exactly when no record is missing and the
stored forms are in the order of the sort. -/
theorem map_insertionSort_eq_iff {r : β → β → Prop} [DecidableRel r] [Std.Total r] [IsTrans β r]
    {f : β → κ} {g : α → β} {p : α → Bool} {K : List β} {L : List α}
    (hperm : K.Perm ((L.filter p).map g)) (hnodup : (L.map fun x => f (g x)).Nodup)
    (hanti : ∀ x ∈ L, ∀ y ∈ L, r (g x) (g y) → r (g y) (g x) → g x = g y) :
    ((K.insertionSort r).map f = L.map fun x => f (g x)) ↔
      (∀ x ∈ L, p x) ∧ (L.map g).Pairwise r := by
  have hsort : (K.insertionSort r).Perm ((L.filter p).map g) :=
    (List.perm_insertionSort r K).trans hperm
  have hmap : (L.map g).map f = L.map fun x => f (g x) := List.map_map
  constructor
  · intro h
    -- the lists are as long as each other, so nothing is filtered out
    have hlen : (L.filter p).length = L.length := by
      have hcount := congrArg List.length h
      rw [List.length_map, List.length_map, hsort.length_eq, List.length_map] at hcount
      exact hcount
    have hall : ∀ x ∈ L, p x := List.length_filter_eq_length_iff.mp hlen
    rw [List.filter_eq_self.mpr hall] at hsort
    have heq : K.insertionSort r = L.map g :=
      hsort.eq_of_map_eq (hmap ▸ hnodup) (h.trans hmap.symm)
    refine ⟨hall, ?_⟩
    rw [← heq]
    exact List.pairwise_insertionSort r K
  · rintro ⟨hall, hpw⟩
    rw [List.filter_eq_self.mpr hall] at hsort
    have heq : K.insertionSort r = L.map g := by
      refine hsort.eq_of_pairwise (fun a b ha hb => ?_) (List.pairwise_insertionSort r K) hpw
      obtain ⟨x, hx, rfl⟩ := List.mem_map.mp (hsort.mem_iff.mp ha)
      obtain ⟨y, hy, rfl⟩ := List.mem_map.mp hb
      exact hanti x hx y hy
    rw [heq, hmap]

end List
