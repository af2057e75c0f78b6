import SporePeer.Library.Interleaving
import SporePeer.Library.Outcomes

/-!
# Programs among others

A program that runs beside others finds at each of its calls a state that it has not left behind
itself. What it can count on is what all of them keep. So it is judged by the calls that it makes
and the values that it returns when each of its calls may be answered in any state of that kind.

## Main definitions

* `Program.Among`, `Among`: the calls and the values of a program whose calls are answered so

## Main results

* `among_bind`, `among_ask`: the parts of a program, one after the other
* `Only.among`, `Among.eachCall`: programs that make the same calls in any company, and alone
* `Pool.Among.step`: threads of such programs keep what their calls preserve
-/

namespace Effects

namespace Program

variable {E : Type → Type} {α β S : Type}

/-- If every call is answered in a state of `I`, the program makes only calls that `ok` allows, and
returns only values that `Q` allows. -/
def Among (h : Handler E S) (I : S → Prop) (ok : (β : Type) → E β → Prop) (Q : α → Prop) :
    Program E α → Prop
  | ret a => Q a
  | panic _ => True
  | call e next => ok _ e ∧ ∀ s, I s → Among h I ok Q (next (h _ e s).2)

variable {h : Handler E S} {I : S → Prop} {ok : (β : Type) → E β → Prop} {Q : α → Prop}
  {Q' : β → Prop} {p : Program E α} {s : S}

theorem Among.bind (hp : p.Among h I ok Q) {f : α → Program E β}
    (hf : ∀ a, Q a → (f a).Among h I ok Q') : (p >>= f).Among h I ok Q' := by
  change (p.bind f).Among h I ok Q'
  induction p with
  | ret a => exact hf a hp
  | panic q => trivial
  | call e next ih => exact ⟨hp.1, fun s hs => ih _ (hp.2 s hs)⟩

theorem Among.mono (hp : p.Among h I ok Q) {R : α → Prop} (hR : ∀ a, Q a → R a) :
    p.Among h I ok R := by
  induction p with
  | ret a => exact hR a hp
  | panic q => trivial
  | call e next ih => exact ⟨hp.1, fun s hs => ih _ (hp.2 s hs)⟩

/-- A program that makes such calls only, makes them among others. -/
theorem Calls.among (hp : p.Calls ok) (hQ : ∀ a, Q a) : p.Among h I ok Q := by
  induction p with
  | ret a => exact hQ a
  | panic q => trivial
  | call e next ih => exact ⟨hp.1, fun s _ => ih _ (hp.2 _)⟩

theorem Among.first (hp : p.Among h I ok Q) {c : Σ γ, E γ} (hc : p.first = some c) :
    ok c.1 c.2 := by
  cases p with
  | ret a => cases hc
  | panic q => cases hc
  | call e next =>
    obtain rfl := Option.some.inj hc
    exact hp.1

section

variable {b : Sections E} (hI : ∀ γ (e : E γ) s, ok γ e → I s → I (h γ e s).1)

include hI

theorem Among.finishSection (hp : p.Among h I ok Q) (hs : I s) :
    (finishSection b h p s).2.1.Among h I ok Q ∧ I (finishSection b h p s).2.2 := by
  induction p generalizing s with
  | ret a => exact ⟨hp, hs⟩
  | panic q => exact ⟨hp, hs⟩
  | call e next ih =>
    have hnext := hI _ e s hp.1 hs
    rw [finishSection_call]
    split
    · -- the call ends the section
      exact ⟨hp.2 s hs, hnext⟩
    · exact ih _ (hp.2 s hs) hnext

/-- **One step** of a thread keeps what is left of it, and what all of them keep. -/
theorem Among.advance (hp : p.Among h I ok Q) (hs : I s) :
    (advance b h p s).2.1.Among h I ok Q ∧ I (advance b h p s).2.2 := by
  cases p with
  | ret a => exact ⟨hp, hs⟩
  | panic q => exact ⟨hp, hs⟩
  | call e next =>
    have hnext := hI _ e s hp.1 hs
    rw [advance_call]
    split
    · exact (hp.2 s hs).finishSection hI hnext
    · exact ⟨hp.2 s hs, hnext⟩

end

end Program

/-! ## Fallible programs -/

/-- If every call is answered in a state of `I`, `m` makes only calls that `ok` allows, and returns
only values that `Q` allows. -/
def Among {E : Type → Type} {α S : Type} (h : Handler E S) (I : S → Prop)
    (ok : (β : Type) → E β → Prop) (Q : α → Prop) (m : Fallible E α) : Prop :=
  m.run.Among h I ok fun r => ∀ a, r = .ok a → Q a

section

variable {E : Type → Type} {α β S : Type} {h : Handler E S} {I : S → Prop}
  {ok : (β : Type) → E β → Prop} {Q : α → Prop} {Q' : β → Prop}

theorem Only.among {m : Fallible E α} (hm : Only ok m) : Among h I ok (fun _ => True) m :=
  Program.Calls.among hm fun _ _ _ => trivial

theorem among_pure {a : α} (hQ : Q a) : Among h I ok Q (pure a) := by
  intro c hc
  obtain rfl := Except.ok.inj hc
  exact hQ

theorem among_throw (e : String) : Among h I ok Q (throw e) := nofun

theorem among_orFail {r : Except String α} (hr : ∀ a, r = .ok a → Q a) :
    Among h I ok Q (orFail r) := hr

theorem among_refuseIf {c : Prop} [Decidable c] {msg : String} {Q : Unit → Prop}
    (hQ : ¬ c → Q ()) : Among h I ok Q (refuseIf c msg) := by
  refine among_orFail fun a ha => ?_
  split at ha
  · cases ha
  · exact hQ ‹_›

theorem among_ask {e : E α} (he : ok _ e) (hQ : ∀ s, I s → Q (h _ e s).2) :
    Among h I ok Q (ask e) := by
  refine ⟨he, fun s hs a ha => ?_⟩
  obtain rfl := Except.ok.inj ha
  exact hQ s hs

theorem among_bind {m : Fallible E α} {f : α → Fallible E β} (hm : Among h I ok Q m)
    (hf : ∀ a, Q a → Among h I ok Q' (f a)) : Among h I ok Q' (m >>= f) := by
  have hb : (m >>= f).run = m.run >>= ExceptT.bindCont f := rfl
  rw [Among, hb]
  refine Program.Among.bind hm fun r hr => ?_
  cases r with
  | error e => exact nofun
  | ok a => exact hf a (hr a rfl)

theorem among_attempt {m : Fallible E α} (hm : Among h I ok Q m) :
    Among h I ok (fun r => ∀ a, r = .ok a → Q a) (attempt m) := by
  refine Program.Among.bind hm fun r hr => ?_
  exact among_pure hr

theorem Among.mono {R : α → Prop} {m : Fallible E α} (hm : Among h I ok Q m)
    (hR : ∀ a, Q a → R a) : Among h I ok R m :=
  Program.Among.mono hm fun _ hr a ha => hR a (hr a ha)

/-- A program that runs alone is one among others. -/
theorem Among.eachCall (hI : ∀ γ (e : E γ) s, ok γ e → I s → I (h γ e s).1) {m : Fallible E α}
    (hm : Among h I ok Q m) {s : S} (hs : I s) : EachCall h (fun s c => I s ∧ ok c.1 c.2) m s := by
  rw [EachCall]
  rw [Among] at hm
  generalize m.run = p at hm
  induction p generalizing s with
  | ret a => trivial
  | panic q => trivial
  | call e next ih =>
    -- the state after the call is one in which the next may be answered
    exact ⟨⟨hs, hm.1⟩, ih _ (hI _ e s hm.1 hs) (hm.2 s hs)⟩

theorem Among.exec (hI : ∀ γ (e : E γ) s, ok γ e → I s → I (h γ e s).1) {m : Fallible E α}
    (hm : Among h I ok Q m) {s s' : S} (hs : I s) {a : α}
    (hrun : Effects.exec h m s = (s', .ok (.ok a))) : Q a := by
  rw [Effects.exec] at hrun
  rw [Among] at hm
  generalize m.run = p at hm hrun
  induction p generalizing s with
  | ret r =>
    obtain rfl := Except.ok.inj (Prod.mk.inj hrun).2
    exact hm a rfl
  | panic q => cases hrun
  | call e next ih => exact ih _ (hI _ e s hm.1 hs) (hm.2 s hs) hrun

end

/-! ## Threads -/

namespace Pool

variable {E : Type → Type} {α S : Type} {b : Sections E} {h : Handler E S} {I : S → Prop}
  {ok : (β : Type) → E β → Prop} {Q : α → Prop} {P : Pool E S α}

/-- What is left of every thread makes only calls that `ok` allows, and `I` holds. -/
def Among (h : Handler E S) (I : S → Prop) (ok : (β : Type) → E β → Prop) (Q : α → Prop)
    (P : Pool E S α) : Prop :=
  P.Holds I fun _ t _ => t.rest.Among h I ok Q

/-- **One step**: threads of such programs keep what their calls preserve. -/
theorem Among.step (hI : ∀ γ (e : E γ) s, ok γ e → I s → I (h γ e s).1)
    (hP : P.Among h I ok Q) (i : ℕ) : (P.step b h i).Among h I ok Q := by
  refine holds_step (fun t _ hs ht => ?_) (fun _ _ _ _ _ _ _ _ hu => hu) hP
  exact (ht.advance hI hs).symm

theorem Among.nextCall (hP : P.Among h I ok Q) {i : ℕ} {c : Σ β, E β}
    (hc : P.nextCall i = some c) : ok c.1 c.2 := by
  obtain ⟨t, ht, hfirst⟩ := Option.bind_eq_some_iff.mp hc
  exact (hP.threads i t ht).first hfirst

/-- A thread that is added. -/
theorem Among.append (hP : P.Among h I ok Q) {p : Program E α} (hp : p.Among h I ok Q) :
    Among h I ok Q ⟨P.threads ++ [⟨[], p⟩], P.state⟩ := by
  refine ⟨hP.state, fun i t ht => ?_⟩
  -- a thread that was there, or the new one
  rcases List.mem_append.mp (List.mem_of_getElem? ht) with hmem | hmem
  · obtain ⟨j, hj⟩ := List.getElem?_of_mem hmem
    exact hP.threads j t hj
  · obtain rfl := List.mem_singleton.mp hmem
    exact hp

end Pool

end Effects
