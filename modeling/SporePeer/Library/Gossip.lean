import Mathlib.Data.Finset.Lattice.Fold

/-!
# Gossip

Nodes hold values of a join-semilattice. In an exchange two of them put together what they hold, and
both have the join afterwards. What a node holds after a run of exchanges is the join of what some
nodes held at the start; who they are depends on the exchanges alone. Where everyone meets their
neighbours in every round, a value travels one link a round.

## Main definitions

* `exchange`, `spread`: an exchange, and a run of exchanges
* `sources`: the nodes whose values have come to a node
* `Exchanges`, `Chained`: two nodes with an exchange, and with a chain of links between them

## Main results

* `spread_eq_sup_sources`: a run gives every node the join of its sources
* `spread_rounds_eq_sup`: rounds give every node of a connected set the join of the set
-/

namespace Gossip

variable {ι α : Type} [DecidableEq ι]

section

variable [SemilatticeSup α]

/-- Two nodes put together what they hold. -/
def exchange (x : ι → α) (e : ι × ι) : ι → α :=
  fun k => if k = e.1 ∨ k = e.2 then x e.1 ⊔ x e.2 else x k

/-- Exchanges, one after another. -/
def spread (es : List (ι × ι)) (x : ι → α) : ι → α := es.foldl exchange x

variable {x : ι → α} {e : ι × ι} {es : List (ι × ι)} {k : ι}

@[simp] theorem spread_nil : spread [] x = x := rfl

@[simp] theorem spread_cons : spread (e :: es) x = spread es (exchange x e) := rfl

theorem spread_append (es es' : List (ι × ι)) :
    spread (es ++ es') x = spread es' (spread es x) := List.foldl_append

theorem exchange_fst (x : ι → α) (e : ι × ι) : exchange x e e.1 = x e.1 ⊔ x e.2 :=
  if_pos (.inl rfl)

theorem exchange_snd (x : ι → α) (e : ι × ι) : exchange x e e.2 = x e.1 ⊔ x e.2 :=
  if_pos (.inr rfl)

theorem exchange_of_ne (hfst : k ≠ e.1) (hsnd : k ≠ e.2) : exchange x e k = x k :=
  if_neg (not_or.mpr ⟨hfst, hsnd⟩)

/-! ## What is kept -/

/-- Nothing is lost in an exchange. -/
theorem le_exchange (x : ι → α) (e : ι × ι) (k : ι) : x k ≤ exchange x e k := by
  rw [exchange]
  split
  · rename_i h
    rcases h with rfl | rfl
    · exact le_sup_left
    · exact le_sup_right
  · exact le_rfl

theorem le_spread (es : List (ι × ι)) (x : ι → α) (k : ι) : x k ≤ spread es x k := by
  induction es generalizing x with
  | nil => exact le_rfl
  | cons e es ih => exact (le_exchange x e k).trans (ih _)

/-- An exchange between nodes that hold the same does nothing, and no other does nothing. -/
theorem exchange_eq_self_iff : exchange x e = x ↔ x e.1 = x e.2 := by
  constructor
  · intro h
    have hfst : x e.1 ⊔ x e.2 = x e.1 := (exchange_fst x e).symm.trans (congrFun h e.1)
    have hsnd : x e.1 ⊔ x e.2 = x e.2 := (exchange_snd x e).symm.trans (congrFun h e.2)
    exact hfst.symm.trans hsnd
  · intro h
    funext k
    rw [exchange]
    split
    · rename_i hk
      rcases hk with rfl | rfl
      · rw [h, sup_idem]
      · rw [h, sup_idem]
    · rfl

/-- Nodes that meet only one another hold nothing from elsewhere. -/
theorem spread_le {C : Finset ι} (hclosed : ∀ e ∈ es, e.1 ∈ C ↔ e.2 ∈ C) {u : α}
    (hx : ∀ k ∈ C, x k ≤ u) (hk : k ∈ C) : spread es x k ≤ u := by
  induction es generalizing x with
  | nil => exact hx k hk
  | cons e es ih =>
    obtain ⟨he, hes⟩ := List.forall_mem_cons.mp hclosed
    refine ih hes fun j hj => ?_
    rw [exchange]
    split
    · rename_i hends
      -- one end is in the set, so both are
      have hboth : e.1 ∈ C ∧ e.2 ∈ C := by
        rcases hends with rfl | rfl
        · exact ⟨hj, he.mp hj⟩
        · exact ⟨he.mpr hj, hj⟩
      exact sup_le (hx _ hboth.1) (hx _ hboth.2)
    · exact hx j hj

/-! ## Where it comes from -/

/-- The nodes whose values have come to a node: a run in which each node holds itself. -/
def sources (es : List (ι × ι)) : ι → Finset ι := spread es fun k => {k}

theorem sup_exchange [OrderBot α] (x : ι → α) (s : ι → Finset ι) (e : ι × ι) :
    exchange (fun k => (s k).sup x) e = fun k => (exchange s e k).sup x := by
  funext k
  simp only [exchange]
  split
  · exact Finset.sup_union.symm
  · rfl

theorem sup_spread [OrderBot α] (x : ι → α) (s : ι → Finset ι) (es : List (ι × ι)) :
    spread es (fun k => (s k).sup x) = fun k => (spread es s k).sup x := by
  induction es generalizing s with
  | nil => rfl
  | cons e es ih => rw [spread_cons, spread_cons, sup_exchange, ih]

/-- **What a node holds** after a run is the join of what its sources held. -/
theorem spread_eq_sup_sources [OrderBot α] (es : List (ι × ι)) (x : ι → α) (k : ι) :
    spread es x k = (sources es k).sup x := by
  have h := congrFun (sup_spread x (fun j => {j}) es) k
  simp only [Finset.sup_singleton] at h
  exact h

/-! ## How far it comes -/

/-- The two nodes have an exchange among `es`. -/
def Exchanges (es : List (ι × ι)) (a b : ι) : Prop := (a, b) ∈ es ∨ (b, a) ∈ es

instance (es : List (ι × ι)) (a b : ι) : Decidable (Exchanges es a b) :=
  inferInstanceAs (Decidable (_ ∨ _))

/-- Nodes that meet come to know what the other one held at the start. -/
theorem le_spread_of_exchanges {a b : ι} (h : Exchanges es a b) (x : ι → α) :
    x b ≤ spread es x a := by
  induction es generalizing x with
  | nil => exact (h.elim List.not_mem_nil List.not_mem_nil).elim
  | cons e es ih =>
    rw [spread_cons]
    simp only [Exchanges, List.mem_cons] at h
    rcases h with (rfl | h) | (rfl | h)
    · exact (le_sup_right.trans (exchange_fst x (a, b)).ge).trans (le_spread es _ a)
    · exact (le_exchange x e b).trans (ih (.inl h) _)
    · exact (le_sup_left.trans (exchange_snd x (b, a)).ge).trans (le_spread es _ a)
    · exact (le_exchange x e b).trans (ih (.inr h) _)

/-- A chain of at most `n` links. -/
inductive Chained (links : ι → ι → Prop) : ℕ → ι → ι → Prop
  | refl (n : ℕ) (a : ι) : Chained links n a a
  | snoc {n : ℕ} {a b c : ι} (init : Chained links n a b) (last : links b c) :
      Chained links (n + 1) a c

/-- A value travels one link a round. By induction on the rounds: the first of them takes it over
the last link. -/
theorem le_spread_rounds {links : ι → ι → Prop} {rounds : List (List (ι × ι))}
    (hexchanges : ∀ es ∈ rounds, ∀ a b, links a b → Exchanges es a b) {k j : ι}
    (hchain : Chained links rounds.length k j) (x : ι → α) : x j ≤ spread rounds.flatten x k := by
  induction rounds generalizing x j with
  | nil =>
    cases hchain
    exact le_rfl
  | cons es rounds ih =>
    obtain ⟨hes, hrounds⟩ := List.forall_mem_cons.mp hexchanges
    rw [List.flatten_cons, spread_append]
    cases hchain with
    | refl => exact (le_spread es x k).trans (le_spread _ _ k)
    | snoc init last => exact (le_spread_of_exchanges (hes _ _ last) x).trans (ih hrounds init _)

/-- **Rounds**: in a set of nodes that meet no one else, with chains between them as long as there
are rounds, everyone ends up with the join of the set. -/
theorem spread_rounds_eq_sup [OrderBot α] {links : ι → ι → Prop} {rounds : List (List (ι × ι))}
    (hexchanges : ∀ es ∈ rounds, ∀ a b, links a b → Exchanges es a b) {C : Finset ι}
    (hclosed : ∀ es ∈ rounds, ∀ e ∈ es, e.1 ∈ C ↔ e.2 ∈ C) {k : ι} (hk : k ∈ C)
    (hchain : ∀ j ∈ C, Chained links rounds.length k j) (x : ι → α) :
    spread rounds.flatten x k = C.sup x := by
  apply le_antisymm
  · refine spread_le (fun e he => ?_) (fun j hj => Finset.le_sup hj) hk
    obtain ⟨es, hes, he⟩ := List.mem_flatten.mp he
    exact hclosed es hes e he
  · exact Finset.sup_le fun j hj => le_spread_rounds hexchanges (hchain j hj) x

end

end Gossip
