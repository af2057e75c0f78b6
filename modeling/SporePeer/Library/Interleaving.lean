import SporePeer.Library.Program

/-!
# Interleavings

Threads run programs over one state. A thread makes one call in a step, except that it enters,
runs and leaves a section in one: a call that opens a section, and the calls up to the one that
closes it. A schedule says which thread takes the next step.

## Main definitions

* `Sections`: the calls that open and close sections
* `Program.advance`: one step of a thread
* `Closed`, `Yields`: the fallible programs that leave every section they enter, and what they
  return whatever is done between their steps
* `Thread`, `Pool`, `Pool.run`: threads over a state, and a run under a schedule

## Main results

* `advance_bind`, `advance_section`: the steps of a composition, and a section as one step
* `yields_bind`: the parts of a program, one after the other
* `Pool.holds_step`: what the steps of a thread, and those of the others, preserve
* `Pool.exists_thread_run`: a thread makes a call in each of its steps until it has finished
-/

namespace Effects

/-- The calls that open a section, and those that close one. -/
structure Sections (E : Type → Type) where
  opens : (β : Type) → E β → Bool
  closes : (β : Type) → E β → Bool

/-- No call opens a section: each is a step of its own. -/
def noSections {E : Type → Type} : Sections E where
  opens _ _ := false
  closes _ _ := false

namespace Program

variable {E : Type → Type} {α β S : Type}

/-- The call that the program makes next, unless it has come to its end. -/
def first : Program E α → Option (Σ β, E β)
  | ret _ => none
  | panic _ => none
  | call e _ => some ⟨_, e⟩

/-- The program has come to its end. -/
def Finished : Program E α → Prop
  | ret _ => True
  | panic _ => True
  | call _ _ => False

instance : DecidablePred (@Finished E α)
  | ret _ => .isTrue trivial
  | panic _ => .isTrue trivial
  | call _ _ => .isFalse id

/-- The rest of a section: the calls up to its end, the program behind it, and the state. -/
def finishSection (b : Sections E) (h : Handler E S) :
    Program E α → S → List (Σ β, E β) × Program E α × S
  | ret a, s => ([], ret a, s)
  | panic q, s => ([], panic q, s)
  | call e next, s =>
    if b.closes _ e then ([⟨_, e⟩], next (h _ e s).2, (h _ e s).1)
    else
      let x := finishSection b h (next (h _ e s).2) (h _ e s).1
      (⟨_, e⟩ :: x.1, x.2)

/-- One step: the calls made, the program behind them, and the state. -/
def advance (b : Sections E) (h : Handler E S) :
    Program E α → S → List (Σ β, E β) × Program E α × S
  | ret a, s => ([], ret a, s)
  | panic q, s => ([], panic q, s)
  | call e next, s =>
    if b.opens _ e then
      let x := finishSection b h (next (h _ e s).2) (h _ e s).1
      (⟨_, e⟩ :: x.1, x.2)
    else ([⟨_, e⟩], next (h _ e s).2, (h _ e s).1)

/-- Started inside a section or outside, `p` opens and closes sections in turn, and ends outside. -/
def Sectioned (b : Sections E) : Program E α → Bool → Prop
  | ret _, inside => inside = false
  | panic _, inside => inside = false
  | call e next, true => b.opens _ e = false ∧ ∀ x, Sectioned b (next x) (!b.closes _ e)
  | call e next, false => b.closes _ e = false ∧ ∀ x, Sectioned b (next x) (b.opens _ e)

section

variable {b : Sections E} {h : Handler E S} {s : S}

theorem finishSection_call (e : E β) (next : β → Program E α) :
    finishSection b h (call e next) s =
      if b.closes _ e then ([⟨_, e⟩], next (h _ e s).2, (h _ e s).1)
      else (⟨_, e⟩ :: (finishSection b h (next (h _ e s).2) (h _ e s).1).1,
        (finishSection b h (next (h _ e s).2) (h _ e s).1).2) := rfl

theorem advance_call (e : E β) (next : β → Program E α) :
    advance b h (call e next) s =
      if b.opens _ e then (⟨_, e⟩ :: (finishSection b h (next (h _ e s).2) (h _ e s).1).1,
        (finishSection b h (next (h _ e s).2) (h _ e s).1).2)
      else ([⟨_, e⟩], next (h _ e s).2, (h _ e s).1) := rfl

theorem finishSection_bind {p : Program E α} (hp : p.Sectioned b true) (f : α → Program E β) :
    finishSection b h (p >>= f) s =
      ((finishSection b h p s).1, (finishSection b h p s).2.1 >>= f,
        (finishSection b h p s).2.2) := by
  change finishSection b h (p.bind f) s = _
  induction p generalizing s with
  | ret a => cases hp
  | panic q => cases hp
  | call e next ih =>
    rw [bind, finishSection_call, finishSection_call]
    by_cases hc : b.closes _ e = true
    · rw [if_pos hc, if_pos hc]
      rfl
    · rw [if_neg hc, if_neg hc]
      have hnext := hp.2 (h _ e s).2
      rw [Bool.not_eq_true] at hc
      rw [hc] at hnext
      rw [ih _ hnext]

theorem sectioned_finishSection {p : Program E α} (hp : p.Sectioned b true) :
    (finishSection b h p s).2.1.Sectioned b false := by
  induction p generalizing s with
  | ret a => cases hp
  | panic q => cases hp
  | call e next ih =>
    have hnext := hp.2 (h _ e s).2
    rw [finishSection_call]
    by_cases hc : b.closes _ e = true
    · rw [if_pos hc]
      rw [hc] at hnext
      exact hnext
    · rw [if_neg hc]
      rw [Bool.not_eq_true] at hc
      rw [hc] at hnext
      exact ih _ hnext

/-- The steps of the first part of a program are its steps, until it has come to its end. -/
theorem advance_bind {p : Program E α} (hp : p.Sectioned b false) (hrun : ¬ p.Finished)
    (f : α → Program E β) :
    advance b h (p >>= f) s =
      ((advance b h p s).1, (advance b h p s).2.1 >>= f, (advance b h p s).2.2) := by
  change advance b h (p.bind f) s = _
  cases p with
  | ret a => exact absurd trivial hrun
  | panic q => exact absurd trivial hrun
  | call e next =>
    rw [bind, advance_call, advance_call]
    by_cases ho : b.opens _ e = true
    · rw [if_pos ho, if_pos ho]
      have hnext := hp.2 (h _ e s).2
      rw [ho] at hnext
      have hrest := finishSection_bind (h := h) (s := (h _ e s).1) hnext f
      rw [show ((next (h _ e s).2).bind f) = (next (h _ e s).2 >>= f) from rfl, hrest]
    · rw [if_neg ho, if_neg ho]
      rfl

theorem sectioned_advance {p : Program E α} (hp : p.Sectioned b false) :
    (advance b h p s).2.1.Sectioned b false := by
  cases p with
  | ret a => exact hp
  | panic q => exact hp
  | call e next =>
    have hnext := hp.2 (h _ e s).2
    rw [advance_call]
    by_cases ho : b.opens _ e = true
    · rw [if_pos ho]
      rw [ho] at hnext
      exact sectioned_finishSection hnext
    · rw [if_neg ho]
      rw [Bool.not_eq_true] at ho
      rw [ho] at hnext
      exact hnext

/-- Inside a section a program that does not end it runs as it would alone. -/
theorem finishSection_run {p : Program E α} (hp : p.Calls fun _ e => b.closes _ e = false)
    {s' : S} {a : α} (hrun : run h p s = (s', .ok a)) (f : α → Program E β) :
    finishSection b h (p >>= f) s =
      (calls h p s ++ (finishSection b h (f a) s').1, (finishSection b h (f a) s').2) := by
  change finishSection b h (p.bind f) s = _
  induction p generalizing s with
  | ret a =>
    cases hrun
    rfl
  | panic q => cases hrun
  | call e next ih =>
    have hc : ¬ b.closes _ e = true := by
      rw [hp.1]
      exact Bool.false_ne_true
    rw [bind, finishSection_call, if_neg hc, ih _ (hp.2 _) hrun, calls, List.cons_append]

/-- A section is one step. -/
theorem advance_section {o c : E Unit} (ho : b.opens _ o = true) (hc : b.closes _ c = true)
    {p : Program E α} (hp : p.Calls fun _ e => b.closes _ e = false) {s' : S} {a : α}
    (hrun : run h p (h _ o s).1 = (s', .ok a)) (f : α → Program E β) :
    advance b h (perform o >>= fun _ => p >>= fun a => perform c >>= fun _ => f a) s =
      (⟨_, o⟩ :: (calls h p (h _ o s).1 ++ [⟨_, c⟩]), f a, (h _ c s').1) := by
  have hend : finishSection b h (perform c >>= fun _ => f a) s' = ([⟨_, c⟩], f a, (h _ c s').1) := by
    change finishSection b h (call c fun _ => f a) s' = _
    rw [finishSection_call, if_pos hc]
  have hsec := finishSection_run hp hrun fun a => perform c >>= fun _ => f a
  change advance b h (call o fun _ => p >>= fun a => perform c >>= fun _ => f a) s = _
  rw [advance_call, if_pos ho, hsec, hend]

/-! ## What a step preserves -/

variable {ok : (β : Type) → E β → Prop}

theorem Calls.finishSection {p : Program E α} (hp : p.Calls ok) :
    (finishSection b h p s).2.1.Calls ok := by
  induction p generalizing s with
  | ret a => trivial
  | panic q => trivial
  | call e next ih =>
    rw [finishSection_call]
    split
    · exact hp.2 _
    · exact ih _ (hp.2 _)

/-- What is left of a program makes no other calls than the program. -/
theorem Calls.advance {p : Program E α} (hp : p.Calls ok) : (advance b h p s).2.1.Calls ok := by
  cases p with
  | ret a => trivial
  | panic q => trivial
  | call e next =>
    rw [advance_call]
    split
    · exact (hp.2 _).finishSection
    · exact hp.2 _

theorem Calls.finishSection_record {I : List (Σ β, E β) → S → Prop} {p : Program E α}
    (hp : p.Calls ok) (cs : List (Σ β, E β))
    (hI : ∀ γ (e : E γ) cs s, ok γ e → I cs s → I (cs ++ [⟨_, e⟩]) (h γ e s).1) (hs : I cs s) :
    I (cs ++ (Program.finishSection b h p s).1) (Program.finishSection b h p s).2.2 := by
  induction p generalizing s cs with
  | ret a => simpa [Program.finishSection] using hs
  | panic q => simpa [Program.finishSection] using hs
  | call e next ih =>
    have hone := hI _ e cs s hp.1 hs
    rw [finishSection_call]
    split
    · exact hone
    · have hnext := ih (h _ e s).2 (hp.2 _) _ hone
      rw [List.append_assoc] at hnext
      exact hnext

/-- What the allowed calls preserve of the calls made so far and the state, a step preserves. -/
theorem Calls.advance_record {I : List (Σ β, E β) → S → Prop} {p : Program E α}
    (hp : p.Calls ok) (cs : List (Σ β, E β))
    (hI : ∀ γ (e : E γ) cs s, ok γ e → I cs s → I (cs ++ [⟨_, e⟩]) (h γ e s).1) (hs : I cs s) :
    I (cs ++ (Program.advance b h p s).1) (Program.advance b h p s).2.2 := by
  cases p with
  | ret a => simpa [Program.advance] using hs
  | panic q => simpa [Program.advance] using hs
  | call e next =>
    have hone := hI _ e cs s hp.1 hs
    rw [advance_call]
    split
    · have hnext := (hp.2 (h _ e s).2).finishSection_record (b := b) _ hI hone
      rw [List.append_assoc] at hnext
      exact hnext
    · exact hone

/-- What the allowed calls preserve, a step preserves. -/
theorem Calls.advance_invariant {I : S → Prop} {p : Program E α} (hp : p.Calls ok)
    (hI : ∀ γ (e : E γ) s, ok γ e → I s → I (h γ e s).1) (hs : I s) :
    I (Program.advance b h p s).2.2 :=
  hp.advance_record (I := fun _ s => I s) [] (fun γ e _ s he hs => hI γ e s he hs) hs

end

/-! ## Results of a thread among others -/

/-- If every step is taken in a state that `J` allows for the call that it starts with, `p` returns
nothing but what `Q` allows. -/
inductive Leads (b : Sections E) (h : Handler E S) (J : (Σ β, E β) → S → Prop) (Q : α → Prop) :
    Program E α → Prop
  | ret {a : α} : Q a → Leads b h J Q (ret a)
  | panic {q : Panic} : Leads b h J Q (panic q)
  | call {β : Type} {e : E β} {next : β → Program E α} :
    (∀ s, J ⟨_, e⟩ s → Leads b h J Q (advance b h (call e next) s).2.1) → Leads b h J Q (call e next)

section

variable {b : Sections E} {h : Handler E S} {J : (Σ β, E β) → S → Prop} {Q : α → Prop}
  {Q' : β → Prop} {s : S}

theorem Leads.advance {p : Program E α} (hp : p.Leads b h J Q)
    (hs : ∀ c, p.first = some c → J c s) : (advance b h p s).2.1.Leads b h J Q := by
  cases hp with
  | ret ha => exact .ret ha
  | panic => exact .panic
  | call hnext => exact hnext s (hs _ rfl)

theorem first_bind {p : Program E α} (hp : ¬ p.Finished) (f : α → Program E β) :
    (p >>= f).first = p.first := by
  cases p with
  | ret a => exact absurd trivial hp
  | panic q => exact absurd trivial hp
  | call e next => rfl

theorem Leads.mono {R : α → Prop} {p : Program E α} (hp : p.Leads b h J Q)
    (hR : ∀ a, Q a → R a) : p.Leads b h J R := by
  induction hp with
  | ret ha => exact .ret (hR _ ha)
  | panic => exact .panic
  | call _ ih => exact .call ih

theorem Leads.bind {p : Program E α} (hp : p.Leads b h J Q) (hsec : p.Sectioned b false)
    {f : α → Program E β} (hf : ∀ a, Q a → (f a).Leads b h J Q') : (p >>= f).Leads b h J Q' := by
  induction hp with
  | ret ha => exact hf _ ha
  | panic => exact .panic
  | @call γ e next _ ih =>
    change (Program.call e fun x => (next x).bind f).Leads b h J Q'
    refine .call fun s hs => ?_
    have hstep := advance_bind (h := h) (s := s) hsec id f
    change (Program.advance b h (Program.call e next >>= f) s).2.1.Leads b h J Q'
    rw [hstep]
    exact ih s hs (sectioned_advance hsec)

end

end Program

/-! ## Fallible programs -/

/-- `m` leaves every section that it enters. -/
def Closed {E : Type → Type} {α : Type} (b : Sections E) (m : Fallible E α) : Prop :=
  m.run.Sectioned b false

/-- If every step is taken in a state that `J` allows for the call that it starts with, `m` returns
no value but what `Q` allows. -/
def Yields {E : Type → Type} {α S : Type} (b : Sections E) (h : Handler E S)
    (J : (Σ β, E β) → S → Prop) (Q : α → Prop) (m : Fallible E α) : Prop :=
  m.run.Leads b h J fun r => ∀ a, r = .ok a → Q a

section Fallible

variable {E : Type → Type} {α β S : Type} {b : Sections E} {h : Handler E S}
  {J : (Σ β, E β) → S → Prop} {Q : α → Prop} {Q' : β → Prop}

/-- A composition has returned once both of its parts have. -/
theorem run_bind_eq_ret {m : Fallible E α} {f : α → Fallible E β} {c : β}
    (hend : (m >>= f).run = .ret (.ok c)) :
    ∃ a, m.run = .ret (.ok a) ∧ (f a).run = .ret (.ok c) := by
  have hb : (m >>= f).run = m.run >>= ExceptT.bindCont f := rfl
  rw [hb] at hend
  rcases hm : m.run with ⟨e | a⟩ | q | ⟨e, next⟩
  · rw [hm] at hend
    cases hend
  · rw [hm] at hend
    exact ⟨a, rfl, hend⟩
  · rw [hm] at hend
    cases hend
  · rw [hm] at hend
    cases hend

theorem closed_pure (a : α) : Closed b (pure a : Fallible E α) := rfl

theorem closed_orFail (r : Except String α) : Closed b (orFail r : Fallible E α) := rfl

theorem closed_refuseIf (c : Prop) [Decidable c] (msg : String) :
    Closed b (refuseIf c msg : Fallible E Unit) := rfl

theorem closed_ask {e : E α} (ho : b.opens _ e = false) (hc : b.closes _ e = false) :
    Closed b (ask e) := ⟨hc, fun _ => ho⟩

theorem Program.Sectioned.bind {p : Program E α} {f : α → Program E β} {inside : Bool}
    (hp : p.Sectioned b inside) (hf : ∀ a, (f a).Sectioned b false) :
    (p >>= f).Sectioned b inside := by
  change (p.bind f).Sectioned b inside
  induction p generalizing inside with
  | ret a =>
    obtain rfl : inside = false := hp
    exact hf a
  | panic q => exact hp
  | call e next ih =>
    cases inside with
    | true => exact ⟨hp.1, fun x => ih x (hp.2 x)⟩
    | false => exact ⟨hp.1, fun x => ih x (hp.2 x)⟩

/-- A program that neither opens nor closes a section, inside of one. -/
theorem Program.Calls.sectioned_inside {p : Program E α} {f : α → Program E β}
    (hp : p.Calls fun _ e => b.opens _ e = false ∧ b.closes _ e = false) (ht : p.Total)
    (hf : ∀ a, (f a).Sectioned b true) : (p >>= f).Sectioned b true := by
  change (p.bind f).Sectioned b true
  induction p with
  | ret a => exact hf a
  | panic q => exact ht.elim
  | call e next ih =>
    refine ⟨hp.1.1, fun x => ?_⟩
    rw [hp.1.2]
    exact ih x (hp.2 x) (ht x)

theorem closed_bind {m : Fallible E α} {f : α → Fallible E β} (hm : Closed b m)
    (hf : ∀ a, Closed b (f a)) : Closed b (m >>= f) := by
  have hb : (m >>= f).run = m.run >>= ExceptT.bindCont f := rfl
  rw [Closed, hb]
  refine Program.Sectioned.bind hm fun r => ?_
  cases r with
  | error e => rfl
  | ok a => exact hf a

theorem yields_orFail {r : Except String α} (hQ : ∀ a, r = .ok a → Q a) :
    Yields b h J Q (orFail r) := .ret hQ

theorem yields_pure {a : α} (hQ : Q a) : Yields b h J Q (pure a) := by
  refine .ret fun c hc => ?_
  cases hc
  exact hQ

theorem yields_refuseIf {c : Prop} [Decidable c] {msg : String} {Q : Unit → Prop}
    (hQ : ¬ c → Q ()) : Yields b h J Q (refuseIf c msg) :=
  yields_orFail fun a ha => by
    split at ha
    · cases ha
    · exact hQ ‹_›

/-- A call outside of sections is a step. -/
theorem advance_ask_bind {s : S} {e : E α} (ho : b.opens _ e = false) (f : α → Fallible E β) :
    Program.advance b h (ask e >>= f).run s = ([⟨_, e⟩], (f (h _ e s).2).run, (h _ e s).1) :=
  if_neg (by rw [ho]; exact Bool.false_ne_true)

theorem yields_ask {e : E α} (ho : b.opens _ e = false) (hQ : ∀ s, J ⟨_, e⟩ s → Q (h _ e s).2) :
    Yields b h J Q (ask e) := by
  refine .call fun s hs => ?_
  have hstep : Program.advance b h (ask e).run s =
      ([⟨_, e⟩], .ret (.ok (h _ e s).2), (h _ e s).1) :=
    if_neg (by rw [ho]; exact Bool.false_ne_true)
  change (Program.advance b h (ask e).run s).2.1.Leads b h J _
  rw [hstep]
  exact .ret fun a ha => Except.ok.inj ha ▸ hQ s hs

theorem Yields.mono {R : α → Prop} {m : Fallible E α} (hm : Yields b h J Q m)
    (hR : ∀ a, Q a → R a) : Yields b h J R m :=
  Program.Leads.mono hm fun _ hr a ha => hR a (hr a ha)

/-- The parts of a program yield what they do one after the other. -/
theorem yields_bind {m : Fallible E α} {f : α → Fallible E β} (hclosed : Closed b m)
    (hm : Yields b h J Q m) (hf : ∀ a, Q a → Yields b h J Q' (f a)) :
    Yields b h J Q' (m >>= f) := by
  have hb : (m >>= f).run = m.run >>= ExceptT.bindCont f := rfl
  rw [Yields, hb]
  refine Program.Leads.bind hm hclosed fun r hr => ?_
  cases r with
  | error e => exact .ret nofun
  | ok a => exact hf a (hr a rfl)

end Fallible

/-! ## Threads -/

/-- A thread: the calls that it has made, and what is left of its program. -/
structure Thread (E : Type → Type) (α : Type) where
  made : List (Σ β, E β)
  rest : Program E α

/-- Threads over one state. -/
structure Pool (E : Type → Type) (S α : Type) where
  threads : List (Thread E α)
  state : S

namespace Pool

variable {E : Type → Type} {α S : Type} (b : Sections E) (h : Handler E S)

/-- The threads that run `programs` from the state `s`. -/
def start (programs : List (Program E α)) (s : S) : Pool E S α :=
  ⟨programs.map fun p => ⟨[], p⟩, s⟩

/-- A step of the thread `i`. -/
def step (P : Pool E S α) (i : ℕ) : Pool E S α :=
  match P.threads[i]? with
  | none => P
  | some t =>
    let x := Program.advance b h t.rest P.state
    ⟨P.threads.set i ⟨t.made ++ x.1, x.2.1⟩, x.2.2⟩

/-- The call that the next step of the thread `i` starts with. -/
def nextCall (P : Pool E S α) (i : ℕ) : Option (Σ β, E β) :=
  P.threads[i]?.bind fun t => t.rest.first

def run (P : Pool E S α) (schedule : List ℕ) : Pool E S α := schedule.foldl (step b h) P

/-- Every step of a run meets the condition `C` in the state in which it is taken. -/
def Along (C : Pool E S α → ℕ → Prop) (P : Pool E S α) : List ℕ → Prop
  | [] => True
  | i :: schedule => C P i ∧ Along C (step b h P i) schedule

instance decidableAlong {C : Pool E S α → ℕ → Prop} [∀ P i, Decidable (C P i)] :
    (P : Pool E S α) → (schedule : List ℕ) → Decidable (Along b h C P schedule)
  | _, [] => .isTrue trivial
  | P, i :: schedule =>
    @instDecidableAnd _ _ _ (decidableAlong (step b h P i) schedule)

/-- The state satisfies `I`, and every thread its assertion. -/
structure Holds (I : S → Prop) (A : ℕ → Thread E α → S → Prop) (P : Pool E S α) : Prop where
  state : I P.state
  threads : ∀ i t, P.threads[i]? = some t → A i t P.state

/-- What `f` makes of the steps of a run, in order. -/
def collect {β : Type*} (f : Pool E S α → ℕ → List β) (P : Pool E S α) : List ℕ → List β
  | [] => []
  | i :: schedule => f P i ++ collect f (step b h P i) schedule

variable {b h} {I : S → Prop} {A : ℕ → Thread E α → S → Prop} {C : Pool E S α → ℕ → Prop}
  {P : Pool E S α}

theorem step_eq {i : ℕ} {t : Thread E α} (ht : P.threads[i]? = some t) :
    P.step b h i = ⟨P.threads.set i ⟨t.made ++ (Program.advance b h t.rest P.state).1,
      (Program.advance b h t.rest P.state).2.1⟩, (Program.advance b h t.rest P.state).2.2⟩ := by
  rw [step, ht]

/-- After a step of the thread `i`, a thread is the one that has taken it, or as before. -/
theorem threads_step {i j : ℕ} {t u : Thread E α} (ht : P.threads[i]? = some t)
    (hu : (P.step b h i).threads[j]? = some u) :
    j = i ∧ u = ⟨t.made ++ (Program.advance b h t.rest P.state).1,
        (Program.advance b h t.rest P.state).2.1⟩ ∨
      j ≠ i ∧ P.threads[j]? = some u := by
  rw [step_eq ht] at hu
  dsimp only at hu
  by_cases hji : j = i
  · subst hji
    obtain ⟨hlt, -⟩ := List.getElem?_eq_some_iff.mp ht
    rw [List.getElem?_set_self hlt] at hu
    exact .inl ⟨rfl, (Option.some.inj hu).symm⟩
  · rw [List.getElem?_set_ne (Ne.symm hji)] at hu
    exact .inr ⟨hji, hu⟩

theorem run_along {I : Pool E S α → Prop} (hstep : ∀ P i, C P i → I P → I (P.step b h i))
    {schedule : List ℕ} (hC : P.Along b h C schedule) (hP : I P) : I (P.run b h schedule) := by
  induction schedule generalizing P with
  | nil => exact hP
  | cons i schedule ih => exact ih hC.2 (hstep P i hC.1 hP)

theorem run_append (P : Pool E S α) (schedule more : List ℕ) :
    P.run b h (schedule ++ more) = (P.run b h schedule).run b h more := List.foldl_append

/-- A condition on the steps of a run, step by step. -/
theorem along_iff {schedule : List ℕ} : P.Along b h C schedule ↔
    ∀ j i, schedule[j]? = some i → C (P.run b h (schedule.take j)) i := by
  induction schedule generalizing P with
  | nil => exact ⟨nofun, fun _ => trivial⟩
  | cons i schedule ih =>
    rw [Along, ih]
    constructor
    · rintro ⟨hi, hrest⟩ j k hk
      cases j with
      | zero => exact Option.some.inj hk ▸ hi
      | succ j => exact hrest j k hk
    · intro hall
      exact ⟨hall 0 i rfl, fun j k hk => hall (j + 1) k hk⟩

/-- A step keeps the assertion of the thread that takes it, and those of the others. -/
theorem holds_step {i : ℕ}
    (hown : ∀ t, P.threads[i]? = some t → I P.state → A i t P.state →
      I (Program.advance b h t.rest P.state).2.2 ∧
      A i ⟨t.made ++ (Program.advance b h t.rest P.state).1,
        (Program.advance b h t.rest P.state).2.1⟩ (Program.advance b h t.rest P.state).2.2)
    (hother : ∀ t j u, P.threads[i]? = some t → j ≠ i → P.threads[j]? = some u → I P.state →
      A i t P.state → A j u P.state → A j u (Program.advance b h t.rest P.state).2.2)
    (hP : P.Holds I A) : (P.step b h i).Holds I A := by
  rcases ht : P.threads[i]? with _ | t
  · rw [step, ht]
    exact hP
  obtain ⟨hI, hA⟩ := hown t ht hP.state (hP.threads i t ht)
  refine ⟨?_, fun j u hu => ?_⟩
  · rw [step_eq ht]
    exact hI
  · have hstate : (P.step b h i).state = (Program.advance b h t.rest P.state).2.2 := by
      rw [step_eq ht]
    rw [hstate]
    rcases threads_step ht hu with ⟨rfl, rfl⟩ | ⟨hji, hu⟩
    · exact hA
    · exact hother t j u ht hji hu hP.state (hP.threads i t ht) (hP.threads j u hu)

/-- A step of a program that has not finished makes a call. -/
theorem made_of_advance {p : Program E α} (hp : ¬ p.Finished) (s : S) :
    0 < (Program.advance b h p s).1.length := by
  cases p with
  | ret a => exact absurd trivial hp
  | panic q => exact absurd trivial hp
  | call e next =>
    rw [Program.advance_call]
    split <;> exact Nat.succ_pos _

/-- A thread has finished, or has made as many calls as the schedule gave it steps. -/
theorem exists_thread_run (schedule : List ℕ) {i k : ℕ} {t : Thread E α}
    (ht : P.threads[i]? = some t) (hk : t.rest.Finished ∨ k ≤ t.made.length) :
    ∃ u, (P.run b h schedule).threads[i]? = some u ∧
      (u.rest.Finished ∨ k + schedule.count i ≤ u.made.length) := by
  induction schedule generalizing P t k with
  | nil => exact ⟨t, ht, hk⟩
  | cons j schedule ih =>
    by_cases hij : j = i
    · subst hij
      have hlt := (List.getElem?_eq_some_iff.mp ht).1
      have hstep : (P.step b h j).threads[j]? = some
          ⟨t.made ++ (Program.advance b h t.rest P.state).1,
            (Program.advance b h t.rest P.state).2.1⟩ := by
        rw [step_eq ht]
        exact List.getElem?_set_self hlt
      rw [List.count_cons_self, Nat.add_comm _ 1, ← Nat.add_assoc]
      refine ih hstep ?_
      -- a step that is due makes a call, unless the thread has finished
      by_cases hfin : t.rest.Finished
      · left
        rcases hrest : t.rest with a | q | ⟨e, next⟩
        · trivial
        · trivial
        · rw [hrest] at hfin
          exact hfin.elim
      · right
        have hpos := made_of_advance (b := b) (h := h) hfin P.state
        have hle := hk.resolve_left hfin
        rw [List.length_append]
        omega
    · -- the step of another thread leaves this one where it is
      have hstep : (P.step b h j).threads[i]? = some t := by
        rw [step]
        split
        · exact ht
        · dsimp only
          rw [List.getElem?_set_ne hij]
          exact ht
      rw [List.count_cons_of_ne hij]
      exact ih hstep hk

end Pool

end Effects
