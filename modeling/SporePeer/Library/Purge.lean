import Mathlib.Data.List.Basic

/-!
# Purged runs

A machine takes its inputs one after another, and a purged run leaves out those that are not of a
group. What the machine shows for an input of the group is the same in both runs, if a relation
between their states is kept by an input of the group that both take, and by any other that one of
them takes. An input that is kept arrives in the purged run at the moment at which it arrives in the
other.

## Main definitions

* `both`: a run and the purged run of the same inputs
* `Unwinds`: the two conditions on the relation

## Main results

* `view_both`: what is shown for an input of the group
-/

namespace Purge

variable {S A V : Type*}

section

variable (step : S → A → S) (kept : A → Prop) [DecidablePred kept] (sync : S → S → S)

/-- The states after the inputs, and after those of them that are kept. `sync s t` is `t` at the
moment of `s`. -/
def both (x : S × S) (as : List A) : S × S :=
  as.foldl (fun x a => (step x.1 a, if kept a then step (sync x.1 x.2) a else x.2)) x

/-- The relation `R` unwinds the purge of the inputs that satisfy `C`. -/
structure Unwinds (C : S → A → Prop) (R : S → S → Prop) (view : S → A → V) : Prop where
  view_eq : ∀ {s t a}, R s t → C s a → kept a → view s a = view (sync s t) a
  step_kept : ∀ {s t a}, R s t → C s a → kept a → R (step s a) (step (sync s t) a)
  step_other : ∀ {s t a}, R s t → C s a → ¬ kept a → R (step s a) t

end

variable {step : S → A → S} {kept : A → Prop} [DecidablePred kept] {sync : S → S → S}
  {C : S → A → Prop} {R : S → S → Prop} {view : S → A → V}

/-- **One input**. -/
theorem Unwinds.one (h : Unwinds step kept sync C R view) {s t : S} {a : A} (hR : R s t)
    (hC : C s a) : R (step s a) (if kept a then step (sync s t) a else t) := by
  split
  · exact h.step_kept hR hC ‹_›
  · exact h.step_other hR hC ‹_›

/-- **The purge is not seen**: for an input of the group, the purged run shows what the run shows.
By induction on the inputs before it. -/
theorem view_both (h : Unwinds step kept sync C R view) {as : List A} {s t : S} (hR : R s t)
    (hC : ∀ j a, as[j]? = some a → C ((as.take j).foldl step s) a) {j : ℕ} {a : A}
    (ha : as[j]? = some a) (hk : kept a) :
    let x := both step kept sync (s, t) (as.take j)
    view x.1 a = view (sync x.1 x.2) a := by
  induction as generalizing s t j with
  | nil => cases ha
  | cons b as ih =>
    cases j with
    | zero =>
      obtain rfl : b = a := Option.some.inj ha
      exact h.view_eq hR (hC 0 b rfl) hk
    | succ j =>
      exact ih (h.one hR (hC 0 b rfl)) (fun j a ha => hC (j + 1) a ha) ha

end Purge
