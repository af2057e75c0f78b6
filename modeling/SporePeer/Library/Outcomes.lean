import SporePeer.Library.Program

/-!
# The errors and the calls of a program

Properties of a fallible program that follow its structure: what holds of every error text it can
return, what holds of every call of a run in the state in which it is made, and which messages its
calls send. The second holds at whatever call a crash cuts the run off, and a crash leaves the first
of the messages.

## Main definitions

* `ErrorsIn Q m`: the error texts of `m` satisfy `Q`
* `EachCall h Q m s`: every call of the run of `m` from `s` satisfies `Q`
* `emitted pick h m s`: the messages that the calls of the run send
* `recording pick h`: a system that keeps them

## Main results

* `errorsIn_bind`, `eachCall_bind`: both compose
* `EachCall.invariant`: what calls of the kind preserve, holds wherever the run is cut off
* `EachCall.next`: and the call after the cut is of the kind
* `emitted_bind`, `cutOff_begins`: the messages of a composite, and of a run that is cut off
-/

namespace Effects

variable {E : Type → Type} {α β : Type} {S : Type*}

/-! ## Errors -/

/-- Every error text that the program can return satisfies `Q`. -/
def ErrorsIn (Q : String → Prop) (m : Fallible E α) : Prop :=
  ∀ {S : Type} (h : Handler E S) (s : S) (e : String), (exec h m s).2 = .ok (.error e) → Q e

section

variable {Q : String → Prop}

theorem errorsIn_pure (a : α) : ErrorsIn Q (pure a : Fallible E α) := nofun

theorem errorsIn_ask (e : E α) : ErrorsIn Q (ask e) := nofun

theorem errorsIn_throw {e : String} (he : Q e) : ErrorsIn Q (throw e : Fallible E α) := by
  intro S h s e' he'
  rw [exec_throw] at he'
  obtain rfl := Except.error.inj (Except.ok.inj he')
  exact he

theorem errorsIn_orFail {r : Except String α} (hr : ∀ e, r = .error e → Q e) :
    ErrorsIn Q (orFail r : Fallible E α) := by
  intro S h s e he
  rw [exec_orFail] at he
  exact hr e (Except.ok.inj he)

theorem errorsIn_refuseIf (c : Prop) [Decidable c] {msg : String} (hmsg : c → Q msg) :
    ErrorsIn Q (refuseIf c msg : Fallible E Unit) := by
  apply errorsIn_orFail
  intro e he
  split at he
  · cases he
    exact hmsg ‹c›
  · cases he

theorem errorsIn_bind {m : Fallible E α} {f : α → Fallible E β} (hm : ErrorsIn Q m)
    (hf : ∀ a, ErrorsIn Q (f a)) : ErrorsIn Q (m >>= f) := by
  intro S h s e he
  rw [exec_bind] at he
  rcases hx : exec h m s with ⟨s', p | e' | a⟩ <;> rw [hx] at he
  · cases he
  · obtain rfl := Except.error.inj (Except.ok.inj he)
    exact hm h s e' (by rw [hx])
  · exact hf a h s' e he

end

/-! ## Calls -/

/-- Every call of the run satisfies `Q` in the state in which it is made. -/
def Program.EachCall (h : Handler E S) (Q : S → (Σ γ, E γ) → Prop) : Program E α → S → Prop
  | ret _, _ => True
  | panic _, _ => True
  | call e next, s => Q s ⟨_, e⟩ ∧ EachCall h Q (next (h _ e s).2) (h _ e s).1

/-- Every call of the run of a fallible program satisfies `Q` in the state in which it is made. -/
def EachCall (h : Handler E S) (Q : S → (Σ γ, E γ) → Prop) (m : Fallible E α) (s : S) : Prop :=
  m.run.EachCall h Q s

section

variable {h : Handler E S} {Q : S → (Σ γ, E γ) → Prop} {s : S}

theorem Program.EachCall.bind {p : Program E α} {f : α → Program E β} (hp : p.EachCall h Q s)
    (hf : ∀ s' a, Program.run h p s = (s', .ok a) → (f a).EachCall h Q s') :
    (p >>= f).EachCall h Q s := by
  change (p.bind f).EachCall h Q s
  induction p generalizing s with
  | ret a => exact hf s a rfl
  | panic q => trivial
  | call e next ih => exact ⟨hp.1, ih _ hp.2 hf⟩

theorem eachCall_pure (a : α) : EachCall h Q (pure a) s := trivial

theorem eachCall_throw (e : String) : EachCall h Q (throw e : Fallible E α) s := trivial

theorem eachCall_orFail (r : Except String α) : EachCall h Q (orFail r) s := trivial

theorem eachCall_refuseIf (c : Prop) [Decidable c] (msg : String) :
    EachCall h Q (refuseIf c msg) s := trivial

theorem eachCall_orPanic (r : Result α) : EachCall h Q (orPanic r) s := by
  cases r <;> trivial

theorem eachCall_ask {e : E α} (he : Q s ⟨_, e⟩) : EachCall h Q (ask e) s := ⟨he, trivial⟩

theorem eachCall_bind {m : Fallible E α} {f : α → Fallible E β} (hm : EachCall h Q m s)
    (hf : ∀ s' a, exec h m s = (s', .ok (.ok a)) → EachCall h Q (f a) s') :
    EachCall h Q (m >>= f) s := by
  have hb : (m >>= f).run = m.run >>= ExceptT.bindCont f := rfl
  rw [EachCall, hb]
  refine hm.bind fun s' r hr => ?_
  cases r with
  | error e => trivial
  | ok a => exact hf s' a hr

theorem eachCall_attempt {m : Fallible E α} (hm : EachCall h Q m s) : EachCall h Q (attempt m) s :=
  Program.EachCall.bind hm fun _ _ _ => trivial

theorem EachCall.mono {Q' : S → (Σ γ, E γ) → Prop} {m : Fallible E α} (hm : EachCall h Q m s)
    (hQ : ∀ s c, Q s c → Q' s c) : EachCall h Q' m s := by
  rw [EachCall] at hm ⊢
  generalize m.run = p at hm
  induction p generalizing s with
  | ret a => trivial
  | panic q => trivial
  | call e next ih => exact ⟨hQ _ _ hm.1, ih _ hm.2⟩

/-- A property of calls in any state. -/
theorem Only.eachCall {ok : (β : Type) → E β → Prop} {m : Fallible E α} (hm : Only ok m)
    (hQ : ∀ γ (e : E γ) s, ok γ e → Q s ⟨γ, e⟩) : EachCall h Q m s := by
  rw [EachCall]
  rw [Only] at hm
  generalize m.run = p at hm
  induction p generalizing s with
  | ret a => trivial
  | panic q => trivial
  | call e next ih => exact ⟨hQ _ e s hm.1, ih _ (hm.2 _)⟩

/-- A property of calls in the states in which they are made, where they preserve `I`. -/
theorem Only.eachCall_of_invariant {ok : (β : Type) → E β → Prop} {I : S → Prop}
    {m : Fallible E α} (hm : Only ok m)
    (hI : ∀ γ (e : E γ) s, ok γ e → I s → I (h γ e s).1)
    (hQ : ∀ γ (e : E γ) s, ok γ e → I s → Q s ⟨γ, e⟩) (hs : I s) : EachCall h Q m s := by
  rw [EachCall]
  rw [Only] at hm
  generalize m.run = p at hm
  induction p generalizing s with
  | ret a => trivial
  | panic q => trivial
  | call e next ih => exact ⟨hQ _ e s hm.1 hs, ih _ (hI _ e s hm.1 hs) (hm.2 _)⟩

/-- What calls of the kind preserve, holds wherever the run is cut off. -/
theorem EachCall.invariant {I : S → Prop} {m : Fallible E α} (hm : EachCall h Q m s)
    (hI : ∀ s c, Q s c → I s → I (h _ c.2 s).1) (hs : I s) (n : ℕ) : I (cutOff h n m s).2 := by
  rw [cutOff]
  rw [EachCall] at hm
  generalize m.run = p at hm
  induction p generalizing s n with
  | ret a => simpa using hs
  | panic q => simpa using hs
  | call e next ih =>
    cases n with
    | zero => simpa using hs
    | succ n => exact ih _ (hI s ⟨_, e⟩ hm.1 hs) n hm.2

/-- A run that is not cut off is one of them. -/
theorem EachCall.invariant_exec {I : S → Prop} {m : Fallible E α} (hm : EachCall h Q m s)
    (hI : ∀ s c, Q s c → I s → I (h _ c.2 s).1) (hs : I s) : I (exec h m s).1 := by
  obtain ⟨n, hn⟩ := Program.exists_crash_eq_run (h := h) m.run s
  have hcut := hm.invariant hI hs n
  rw [cutOff, hn] at hcut
  exact hcut

/-- The call after the cut is of the kind, in the state that the cut leaves. -/
theorem EachCall.next {m : Fallible E α} (hm : EachCall h Q m s) {n : ℕ} {c : Σ γ, E γ}
    (hc : (trace h m s)[n]? = some c) : Q (cutOff h n m s).2 c := by
  rw [cutOff]
  rw [trace] at hc
  rw [EachCall] at hm
  generalize m.run = p at hm hc
  induction p generalizing s n with
  | ret a => simp [Program.calls] at hc
  | panic q => simp [Program.calls] at hc
  | call e next ih =>
    cases n with
    | zero =>
      obtain rfl : ⟨_, e⟩ = c := Option.some.inj hc
      rw [Program.crash_zero]
      exact hm.1
    | succ n => exact ih _ hm.2 hc

end

/-! ## Messages -/

/-- The messages that the calls of a run send, `pick` being that of a call. -/
def emitted {M : Type} (pick : (Σ γ, E γ) → Option M) (h : Handler E S) (m : Fallible E α) (s : S) :
    List M :=
  (trace h m s).filterMap pick

section

variable {M : Type} {pick : (Σ γ, E γ) → Option M} {h : Handler E S} {s : S}

/-- What makes no such call sends nothing. -/
theorem emitted_of_only {ok : (γ : Type) → E γ → Prop} {m : Fallible E α} (hm : Only ok m)
    (hok : ∀ γ (e : E γ), ok γ e → pick ⟨γ, e⟩ = none) : emitted pick h m s = [] :=
  List.filterMap_eq_nil_iff.mpr fun c hc => hok c.1 c.2 (hm.forall_mem_trace c hc)

/-- The second part of a program sends what it sends once the first has returned. -/
theorem emitted_bind (m : Fallible E α) (f : α → Fallible E β) (s : S) :
    emitted pick h (m >>= f) s = emitted pick h m s ∨
      ∃ s' a, exec h m s = (s', .ok (.ok a)) ∧
        emitted pick h (m >>= f) s = emitted pick h m s ++ emitted pick h (f a) s' := by
  unfold emitted
  rcases hm : exec h m s with ⟨s', q | e | a⟩
  · exact .inl (congrArg _ (trace_bind_panic hm))
  · exact .inl (congrArg _ (trace_bind_error hm))
  · exact .inr ⟨s', a, rfl, by rw [trace_bind_ok hm, List.filterMap_append]⟩

/-- A crash leaves the first calls of the run. -/
theorem cutOff_begins (n : ℕ) (m : Fallible E α) (s : S) : (cutOff h n m s).1 <+: trace h m s := by
  rw [cutOff, trace]
  generalize m.run = p
  induction p generalizing n s with
  | ret a =>
    rw [Program.crash_ret]
    exact List.nil_prefix
  | panic q =>
    rw [Program.crash_panic]
    exact List.nil_prefix
  | call e next ih =>
    cases n with
    | zero => exact List.nil_prefix
    | succ n => exact List.cons_prefix_cons.mpr ⟨rfl, ih _ n _⟩

end

/-! ## Histories -/

/-- A system that keeps the messages that the calls send. -/
def recording {M : Type} (pick : (Σ γ, E γ) → Option M) (h : Handler E S) :
    Handler E (List M × S) := fun γ e x =>
  ((x.1 ++ (pick ⟨γ, e⟩).toList, (h γ e x.2).1), (h γ e x.2).2)

section

variable {M : Type} {pick : (Σ γ, E γ) → Option M} {h : Handler E S}

theorem filterMap_cons_toList (c : Σ γ, E γ) (cs : List (Σ γ, E γ)) :
    (c :: cs).filterMap pick = (pick c).toList ++ cs.filterMap pick := by
  rw [List.filterMap_cons]
  cases pick c <;> rfl

theorem exec_recording (m : Fallible E α) (l : List M) (s : S) :
    exec (recording pick h) m (l, s) =
      ((l ++ emitted pick h m s, (exec h m s).1), (exec h m s).2) := by
  rw [exec, exec, emitted, trace]
  generalize m.run = p
  induction p generalizing l s with
  | ret a => simp [Program.run, Program.calls]
  | panic q => simp [Program.run, Program.calls]
  | call e next ih =>
    rw [Program.run, Program.run, Program.calls, filterMap_cons_toList, ← List.append_assoc]
    exact ih _ _ _

theorem trace_recording (pick : (Σ γ, E γ) → Option M) (m : Fallible E α) (l : List M) (s : S) :
    trace (recording pick h) m (l, s) = trace h m s := by
  rw [trace, trace]
  generalize m.run = p
  induction p generalizing l s with
  | ret a => rfl
  | panic q => rfl
  | call e next ih => exact congrArg _ (ih _ _ _)

theorem cutOff_recording (n : ℕ) (m : Fallible E α) (l : List M) (s : S) :
    (cutOff (recording pick h) n m (l, s)).2 =
      (l ++ (cutOff h n m s).1.filterMap pick, (cutOff h n m s).2) := by
  rw [cutOff, cutOff]
  generalize m.run = p
  induction p generalizing l s n with
  | ret a => simp
  | panic q => simp
  | call e next ih =>
    cases n with
    | zero => simp
    | succ n =>
      rw [Program.crash, Program.crash, filterMap_cons_toList, ← List.append_assoc]
      exact ih _ n _ _

end

end Effects
