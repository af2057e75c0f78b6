import SporePeer.Library.Outcomes

/-!
# Programs in a larger system

A program over one signature of calls is a program over every signature that has these calls. In a
larger system it runs as it does alone: on the part of the state that its calls see, with the rest
of the state as it was.

## Main definitions

* `Program.embed`, `embed`: a program with its calls in another signature
* `Joint`: the calls of two signatures
* `Part`, `Part.Acts`: a part of a state, and calls that act on it alone

## Main results

* `exec_embed`, `trace_embed`: runs and calls of an embedded program
* `eachCall_embed`: what holds of its calls
* `exec_simulated`: programs in two systems of which one simulates the other
-/

namespace Effects

variable {E F : Type → Type} {α S T : Type}

/-- The program with its calls in another signature. -/
def Program.embed (f : (β : Type) → E β → F β) : Program E α → Program F α
  | ret a => ret a
  | panic p => panic p
  | call e next => call (f _ e) fun b => (next b).embed f

/-- The fallible program with its calls in another signature. -/
def embed (f : (β : Type) → E β → F β) (m : Fallible E α) : Fallible F α :=
  ExceptT.mk (m.run.embed f)

/-- The calls of two signatures. -/
inductive Joint (E F : Type → Type) (β : Type) : Type
  | left (e : E β)
  | right (e : F β)

/-- A part of a state, which can be read and replaced. -/
structure Part (S T : Type) where
  get : S → T
  put : S → T → S
  put_get : ∀ s, put s (get s) = s
  put_put : ∀ s t t', put (put s t) t' = put s t'
  get_put : ∀ s t, get (put s t) = t

/-- The calls that are embedded by `f` act on the part as `h` does, and on nothing else. -/
def Part.Acts (v : Part S T) (f : (β : Type) → E β → F β) (h : Handler E T) (k : Handler F S) :
    Prop :=
  ∀ β e s, k β (f β e) s = (v.put s (h β e (v.get s)).1, (h β e (v.get s)).2)

section

variable {v : Part S T} {f : (β : Type) → E β → F β} {h : Handler E T} {k : Handler F S}

theorem Program.run_embed (hv : v.Acts f h k) (p : Program E α) (s : S) :
    run k (p.embed f) s = (v.put s (run h p (v.get s)).1, (run h p (v.get s)).2) := by
  induction p generalizing s with
  | ret a => simp [embed, v.put_get]
  | panic q => simp [embed, v.put_get]
  | call e next ih =>
    simp only [embed, run]
    rw [ih, hv _ e s, v.get_put, v.put_put]

theorem Program.calls_embed (hv : v.Acts f h k) (p : Program E α) (s : S) :
    calls k (p.embed f) s = (calls h p (v.get s)).map fun c => ⟨c.1, f _ c.2⟩ := by
  induction p generalizing s with
  | ret a => rfl
  | panic q => rfl
  | call e next ih =>
    simp only [embed, calls, List.map_cons]
    rw [ih, hv _ e s, v.get_put]

/-- **An embedded program** runs as it does alone. -/
theorem exec_embed (hv : v.Acts f h k) (m : Fallible E α) (s : S) :
    exec k (embed f m) s = (v.put s (exec h m (v.get s)).1, (exec h m (v.get s)).2) :=
  Program.run_embed hv m.run s

theorem trace_embed (hv : v.Acts f h k) (m : Fallible E α) (s : S) :
    trace k (embed f m) s = (trace h m (v.get s)).map fun c => ⟨c.1, f _ c.2⟩ :=
  Program.calls_embed hv m.run s

/-- What holds of the calls of a program, holds of them where they are embedded. -/
theorem eachCall_embed (hv : v.Acts f h k) {Q : T → (Σ γ, E γ) → Prop}
    {R : S → (Σ γ, F γ) → Prop} (hQ : ∀ s c, Q (v.get s) c → R s ⟨c.1, f _ c.2⟩)
    {m : Fallible E α} {s : S} (hm : EachCall h Q m (v.get s)) :
    EachCall k R (embed f m) s := by
  have hrun : (embed f m).run = m.run.embed f := rfl
  rw [EachCall] at hm ⊢
  rw [hrun]
  generalize m.run = p at hm
  induction p generalizing s with
  | ret a => trivial
  | panic q => trivial
  | call e next ih =>
    refine ⟨hQ s ⟨_, e⟩ hm.1, ?_⟩
    rw [hv _ e s]
    apply ih
    rw [v.get_put]
    exact hm.2

end

/-- **Simulation**: where two systems answer every call alike in related states, and are related
after it, they do so after every program. -/
theorem exec_simulated {h : Handler E S} {k : Handler E T} {R : S → T → Prop}
    (hR : ∀ β (e : E β) s t, R s t → R (h β e s).1 (k β e t).1 ∧ (h β e s).2 = (k β e t).2)
    (m : Fallible E α) {s : S} {t : T} (hst : R s t) :
    R (exec h m s).1 (exec k m t).1 ∧ (exec h m s).2 = (exec k m t).2 := by
  rw [exec, exec]
  generalize m.run = p
  induction p generalizing s t with
  | ret a => exact ⟨hst, rfl⟩
  | panic q => exact ⟨hst, rfl⟩
  | call e next ih =>
    obtain ⟨hstates, hresults⟩ := hR _ e s t hst
    rw [Program.run, Program.run, hresults]
    exact ih _ hstates

/-- An embedded program makes embedded calls. -/
theorem only_embed {ok : (β : Type) → E β → Prop} {ok' : (β : Type) → F β → Prop}
    {f : (β : Type) → E β → F β} (hok : ∀ β (e : E β), ok β e → ok' β (f β e))
    {m : Fallible E α} (hm : Only ok m) : Only ok' (embed f m) := by
  have hrun : (embed f m).run = m.run.embed f := rfl
  rw [Only] at hm ⊢
  rw [hrun]
  generalize m.run = p at hm
  induction p with
  | ret a => trivial
  | panic q => trivial
  | call e next ih => exact ⟨hok _ e hm.1, fun b => ih b (hm.2 b)⟩

end Effects
