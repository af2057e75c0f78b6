import Mathlib.Logic.Basic
import Mathlib.Tactic.Common

/-!
# Programs over a signature of calls

A program is a tree of calls with a continuation for every answer. One program has several
meanings: it is run to its end against a handler, it is cut off at any of its calls by a crash,
and a fallible program returns an error text where it does not return a value. A thread can also
unwind, which no part of the program catches.

## Main definitions

* `Program E α`: programs calling `E` and returning an `α`
* `Program.run`: the state and the result of a complete run
* `Fallible E α`, `exec`: programs that return a value or an error text, and their runs
* `Program.Calls`, `Only`: the calls a program can make
* `Program.Total`, `Total`: the programs that do not unwind
* `Unwinds`: the runs that end in a panic
* `Program.calls`, `Program.crash`: the calls of a run, and what a crash leaves behind
* `Program.lastAt`: the state in which a run makes its last call of a kind

## Main results

* `Program.run_bind`, `exec_bind`: runs compose
* `Program.run_invariant`, `Calls.crash_invariant`: what every call preserves, every run and every
  crash preserves
* `Program.crash_bind`: a crash falls in the first part of a program or in the second
-/

namespace Effects

/-- What makes a thread unwind. -/
inductive Panic
  | charBoundary
  | sliceRange
  | copyLength
  | unwrap
  | overflow
  deriving DecidableEq, Repr

/-- Programs calling `E`: a call of type `E β` is answered by a `β`. -/
inductive Program (E : Type → Type) (α : Type) : Type 1
  | ret (a : α)
  | panic (p : Panic)
  | call {β : Type} (e : E β) (next : β → Program E α)

/-- A handler answers every call from the present state. -/
abbrev Handler (E : Type → Type) (S : Type*) := (β : Type) → E β → S → S × β

/-- The result of a run: a value, unless the thread unwound. -/
abbrev Result (α : Type) := Except Panic α

namespace Program

variable {E : Type → Type} {α β : Type} {S : Type*}

/-- The program `p`, continued by `f` with the value of `p`. -/
def bind : Program E α → (α → Program E β) → Program E β
  | ret a, f => f a
  | panic p, _ => panic p
  | call e next, f => call e fun b => (next b).bind f

instance : Monad (Program E) where
  pure := ret
  bind := bind

instance : LawfulMonad (Program E) :=
  LawfulMonad.mk' (Program E)
    (fun p => by
      change p.bind ret = p
      induction p with
      | ret a => rfl
      | panic q => rfl
      | call e next ih => exact congrArg (call e) (funext ih))
    (fun _ _ => rfl)
    (fun p f g => by
      change (p.bind f).bind g = p.bind fun a => (f a).bind g
      induction p with
      | ret a => rfl
      | panic q => rfl
      | call e next ih => exact congrArg (call e) (funext ih))

/-- The program of one call. -/
def perform (e : E α) : Program E α := call e ret

/-- A pure computation that may unwind, as a program. -/
def ofResult : Result α → Program E α
  | .ok a => ret a
  | .error p => panic p

/-- The complete run of a program. -/
def run (h : Handler E S) : Program E α → S → S × Result α
  | ret a, s => (s, .ok a)
  | panic p, s => (s, .error p)
  | call e next, s => run h (next (h _ e s).2) (h _ e s).1

section Run

variable (h : Handler E S) (s : S)

@[simp] theorem run_pure (a : α) : run h (pure a : Program E α) s = (s, .ok a) := rfl

@[simp] theorem run_ret (a : α) : run h (ret a : Program E α) s = (s, .ok a) := rfl

@[simp] theorem run_panic (p : Panic) : run h (panic p : Program E α) s = (s, .error p) := rfl

@[simp] theorem run_perform (e : E α) : run h (perform e) s = ((h _ e s).1, .ok (h _ e s).2) := rfl

@[simp] theorem run_ofResult (r : Result α) : run h (ofResult r : Program E α) s = (s, r) := by
  cases r <;> rfl

/-- Runs compose: the second part runs from where the first part ends, unless that unwound. -/
theorem run_bind (p : Program E α) (f : α → Program E β) :
    run h (p >>= f) s =
      match run h p s with
      | (s', .ok a) => run h (f a) s'
      | (s', .error q) => (s', .error q) := by
  change run h (p.bind f) s = _
  induction p generalizing s with
  | ret a => rfl
  | panic q => rfl
  | call e next ih => exact ih _ _

@[simp] theorem run_perform_bind (e : E α) (f : α → Program E β) :
    run h (perform e >>= f) s = run h (f (h _ e s).2) (h _ e s).1 := rfl

@[simp] theorem run_pure_bind (a : α) (f : α → Program E β) :
    run h (pure a >>= f) s = run h (f a) s := rfl

variable {h s}

/-- What every call preserves, every run preserves, whether it returns or unwinds. -/
theorem run_invariant {I : S → Prop} (hI : ∀ γ (e : E γ) s, I s → I (h γ e s).1)
    (p : Program E α) (hs : I s) : I (run h p s).1 := by
  induction p generalizing s with
  | ret a => exact hs
  | panic q => exact hs
  | call e next ih => exact ih _ (hI _ e s hs)

end Run

/-! ## Calls -/

/-- Whatever the answers, `p` makes only calls that `ok` allows. -/
def Calls (ok : (β : Type) → E β → Prop) : Program E α → Prop
  | ret _ => True
  | panic _ => True
  | call e next => ok _ e ∧ ∀ b, Calls ok (next b)

section Calls

variable {ok : (β : Type) → E β → Prop}

theorem Calls.bind {p : Program E α} {f : α → Program E β} (hp : p.Calls ok)
    (hf : ∀ a, (f a).Calls ok) : (p >>= f).Calls ok := by
  change (p.bind f).Calls ok
  induction p with
  | ret a => exact hf a
  | panic q => trivial
  | call e next ih => exact ⟨hp.1, fun b => ih b (hp.2 b)⟩

theorem Calls.mono {ok' : (β : Type) → E β → Prop} {p : Program E α} (hp : p.Calls ok)
    (h : ∀ γ (e : E γ), ok γ e → ok' γ e) : p.Calls ok' := by
  induction p with
  | ret a => trivial
  | panic q => trivial
  | call e next ih => exact ⟨h _ e hp.1, fun b => ih b (hp.2 b)⟩

/-- Every program makes only calls. -/
theorem calls_true (p : Program E α) : p.Calls fun _ _ => True := by
  induction p with
  | ret a => trivial
  | panic q => trivial
  | call e next ih => exact ⟨trivial, ih⟩

/-- What the allowed calls preserve, a run that makes only these preserves. -/
theorem Calls.invariant {h : Handler E S} {I : S → Prop} {p : Program E α} {s : S}
    (hp : p.Calls ok) (hI : ∀ γ (e : E γ) s, ok γ e → I s → I (h γ e s).1) (hs : I s) :
    I (run h p s).1 := by
  induction p generalizing s with
  | ret a => exact hs
  | panic q => exact hs
  | call e next ih => exact ih _ (hp.2 _) (hI _ e s hp.1 hs)

end Calls

/-- Related states, with the same result. -/
structure Alike {β : Type} (R : S → S → Prop) (x y : S × β) : Prop where
  states : R x.1 y.1
  results : x.2 = y.2

/-- Where every allowed call does, a program that makes only these keeps related states related, and
has the same result from both. -/
theorem Calls.alike {ok : (β : Type) → E β → Prop} {h : Handler E S} {R : S → S → Prop}
    {p : Program E α} {s t : S} (hp : p.Calls ok)
    (hR : ∀ γ (e : E γ) s t, ok γ e → R s t → Alike R (h γ e s) (h γ e t)) (hs : R s t) :
    Alike R (run h p s) (run h p t) := by
  induction p generalizing s t with
  | ret a => exact ⟨hs, rfl⟩
  | panic q => exact ⟨hs, rfl⟩
  | call e next ih =>
    obtain ⟨hstates, hres⟩ := hR _ e s t hp.1 hs
    change Alike R (run h (next (h _ e s).2) (h _ e s).1) (run h (next (h _ e t).2) (h _ e t).1)
    rw [← hres]
    exact ih _ (hp.2 _) hstates

/-- Whatever the answers, `p` does not unwind. -/
def Total : Program E α → Prop
  | ret _ => True
  | panic _ => False
  | call _ next => ∀ b, Total (next b)

section Total

theorem Total.bind {p : Program E α} {f : α → Program E β} (hp : p.Total)
    (hf : ∀ a, (f a).Total) : (p >>= f).Total := by
  change (p.bind f).Total
  induction p with
  | ret a => exact hf a
  | panic q => exact hp.elim
  | call e next ih => exact fun b => ih b (hp b)

theorem Total.run {p : Program E α} (hp : p.Total) (h : Handler E S) (s : S) :
    ∃ a, (run h p s).2 = .ok a := by
  induction p generalizing s with
  | ret a => exact ⟨a, rfl⟩
  | panic q => exact hp.elim
  | call e next ih => exact ih _ (hp _) _

end Total

/-! ## The calls of a run, and crashes -/

/-- The calls of the complete run, in order. -/
def calls (h : Handler E S) : Program E α → S → List (Σ β, E β)
  | ret _, _ => []
  | panic _, _ => []
  | call e next, s => ⟨_, e⟩ :: calls h (next (h _ e s).2) (h _ e s).1

/-- A crash after `n` calls, or at the end if there are fewer: the calls made, and the state they
leave. -/
def crash (h : Handler E S) : ℕ → Program E α → S → List (Σ β, E β) × S
  | n + 1, call e next, s =>
    let r := crash h n (next (h _ e s).2) (h _ e s).1
    (⟨_, e⟩ :: r.1, r.2)
  | _, _, s => ([], s)

/-- The state in which the complete run makes its last call of the kind `kind`, if it makes one. -/
def lastAt (h : Handler E S) (kind : (β : Type) → E β → Bool) : Program E α → S → Option S
  | ret _, _ => none
  | panic _, _ => none
  | call e next, s =>
    (lastAt h kind (next (h _ e s).2) (h _ e s).1).or (if kind _ e then some s else none)

section Crash

variable {h : Handler E S} {s : S}

/-- The last call is in the second part of a program, unless that makes none. -/
theorem lastAt_bind {kind : (β : Type) → E β → Bool} (p : Program E α) (f : α → Program E β) :
    lastAt h kind (p >>= f) s =
      (match run h p s with
        | (s', .ok a) => lastAt h kind (f a) s'
        | (_, .error _) => none).or (lastAt h kind p s) := by
  change lastAt h kind (p.bind f) s = _
  induction p generalizing s with
  | ret a => exact (Option.or_none).symm
  | panic q => rfl
  | call e next ih =>
    simp only [bind, lastAt, run]
    rw [ih, Option.or_assoc]

theorem Calls.lastAt {kind : (β : Type) → E β → Bool} {p : Program E α}
    (hp : p.Calls fun _ e => kind _ e = false) : lastAt h kind p s = none := by
  induction p generalizing s with
  | ret a => rfl
  | panic q => rfl
  | call e next ih =>
    rw [Program.lastAt, ih _ (hp.2 _), hp.1]
    rfl

theorem calls_bind (p : Program E α) (f : α → Program E β) :
    calls h (p >>= f) s = calls h p s ++
      match run h p s with
      | (s', .ok a) => calls h (f a) s'
      | (_, .error _) => [] := by
  change calls h (p.bind f) s = _
  induction p generalizing s with
  | ret a => rfl
  | panic q => rfl
  | call e next ih =>
    simp only [bind, calls, run, List.cons_append]
    rw [ih]

@[simp] theorem crash_zero (p : Program E α) : crash h 0 p s = ([], s) := by
  cases p <;> rfl

@[simp] theorem crash_ret (n : ℕ) (a : α) : crash h n (ret a : Program E α) s = ([], s) := by
  cases n <;> rfl

@[simp] theorem crash_panic (n : ℕ) (q : Panic) :
    crash h n (panic q : Program E α) s = ([], s) := by
  cases n <;> rfl

/-- A crash falls in the first part of a program, or in the second part once the first has
returned. -/
theorem crash_bind (n : ℕ) (p : Program E α) (f : α → Program E β) :
    (∃ m, crash h n (p >>= f) s = crash h m p s) ∨
      ∃ m s' a, run h p s = (s', .ok a) ∧
        crash h n (p >>= f) s =
          (calls h p s ++ (crash h m (f a) s').1, (crash h m (f a) s').2) := by
  change (∃ m, crash h n (p.bind f) s = crash h m p s) ∨
    ∃ m s' a, run h p s = (s', .ok a) ∧ crash h n (p.bind f) s = _
  induction p generalizing s n with
  | ret a => exact .inr ⟨n, s, a, rfl, rfl⟩
  | panic q => exact .inl ⟨n, by simp [bind]⟩
  | call e next ih =>
    cases n with
    | zero => exact .inl ⟨0, by simp⟩
    | succ n =>
      rcases ih (h _ e s).2 (s := (h _ e s).1) n with ⟨m, hm⟩ | ⟨m, s', a, hrun, hm⟩
      · refine .inl ⟨m + 1, ?_⟩
        simp only [bind, crash, hm]
      · refine .inr ⟨m, s', a, hrun, ?_⟩
        simp only [bind, crash, calls, hm, List.cons_append]

/-- A crash can fall after the last call. -/
theorem exists_crash_eq_run (p : Program E α) (s : S) :
    ∃ n, crash h n p s = (calls h p s, (run h p s).1) := by
  induction p generalizing s with
  | ret a => exact ⟨0, rfl⟩
  | panic q => exact ⟨0, rfl⟩
  | call e next ih =>
    obtain ⟨n, hn⟩ := ih (h _ e s).2 (h _ e s).1
    refine ⟨n + 1, ?_⟩
    simp only [crash, hn, calls, run]

/-- What the allowed calls preserve, every crash preserves. -/
theorem Calls.crash_invariant {ok : (β : Type) → E β → Prop} {I : S → Prop} {p : Program E α}
    (hp : p.Calls ok) (hI : ∀ γ (e : E γ) s, ok γ e → I s → I (h γ e s).1) (hs : I s) (n : ℕ) :
    I (crash h n p s).2 := by
  induction p generalizing s n with
  | ret a => simpa using hs
  | panic q => simpa using hs
  | call e next ih =>
    cases n with
    | zero => simpa using hs
    | succ n => exact ih _ (hp.2 _) (hI _ e s hp.1 hs) n

/-- A program makes no other calls than it is allowed to. -/
theorem Calls.forall_mem_calls {ok : (β : Type) → E β → Prop} {p : Program E α} (hp : p.Calls ok) :
    ∀ c ∈ calls h p s, ok c.1 c.2 := by
  induction p generalizing s with
  | ret a => exact nofun
  | panic q => exact nofun
  | call e next ih => exact List.forall_mem_cons.mpr ⟨hp.1, ih _ (hp.2 _)⟩

/-- What the allowed calls preserve of the calls made so far and the state, every crash preserves. -/
theorem Calls.crash_record {ok : (β : Type) → E β → Prop} {I : List (Σ β, E β) → S → Prop}
    {p : Program E α} {cs : List (Σ β, E β)} (hp : p.Calls ok)
    (hI : ∀ γ (e : E γ) cs s, ok γ e → I cs s → I (cs ++ [⟨_, e⟩]) (h γ e s).1) (hs : I cs s)
    (n : ℕ) : I (cs ++ (crash h n p s).1) (crash h n p s).2 := by
  induction p generalizing s n cs with
  | ret a => simpa using hs
  | panic q => simpa using hs
  | call e next ih =>
    cases n with
    | zero => simpa using hs
    | succ n =>
      have hnext := ih (h _ e s).2 (hp.2 _) (hI _ e cs s hp.1 hs) n
      rw [List.append_assoc] at hnext
      exact hnext

end Crash

end Program

/-! ## Fallible programs -/

/-- Programs that return a value or an error text. -/
abbrev Fallible (E : Type → Type) (α : Type) : Type 1 := ExceptT String (Program E) α

section Fallible

variable {E : Type → Type} {α β : Type} {S : Type*}

/-- The run of a fallible program. -/
def exec (h : Handler E S) (m : Fallible E α) (s : S) : S × Result (Except String α) :=
  Program.run h m.run s

/-- One call of a fallible program. -/
def ask (e : E α) : Fallible E α := ExceptT.lift (Program.perform e)

/-- A fallible program whose error is a value to continue with. -/
def attempt (m : Fallible E α) : Fallible E (Except String α) := ExceptT.lift m.run

/-- A pure computation that may unwind, in a fallible program. -/
def orPanic (r : Result α) : Fallible E α := ExceptT.lift (Program.ofResult r)

/-- A pure fallible computation, in a fallible program. -/
def orFail (r : Except String α) : Fallible E α := ExceptT.mk (pure r)

/-- An early return of the error `msg`, taken when `c` holds. -/
def refuseIf (c : Prop) [Decidable c] (msg : String) : Fallible E Unit :=
  orFail (if c then .error msg else .ok ())

variable (h : Handler E S) (s : S)

@[simp] theorem run_run (m : Fallible E α) : Program.run h m.run s = exec h m s := rfl

@[simp] theorem exec_pure (a : α) : exec h (pure a : Fallible E α) s = (s, .ok (.ok a)) := rfl

@[simp] theorem exec_throw (e : String) :
    exec h (throw e : Fallible E α) s = (s, .ok (.error e)) := rfl

@[simp] theorem exec_ask (e : E α) : exec h (ask e) s = ((h _ e s).1, .ok (.ok (h _ e s).2)) := rfl

@[simp] theorem exec_orFail (r : Except String α) : exec h (orFail r) s = (s, .ok r) := rfl

theorem exec_bind (m : Fallible E α) (f : α → Fallible E β) :
    exec h (m >>= f) s =
      match exec h m s with
      | (s', .ok (.ok a)) => exec h (f a) s'
      | (s', .ok (.error e)) => (s', .ok (.error e))
      | (s', .error p) => (s', .error p) := by
  have hb : (m >>= f).run = m.run >>= ExceptT.bindCont f := rfl
  unfold exec
  rw [hb, Program.run_bind]
  rcases Program.run h m.run s with ⟨s', ⟨p⟩ | ⟨⟨e⟩ | ⟨a⟩⟩⟩ <;> rfl

@[simp] theorem exec_pure_bind (a : α) (f : α → Fallible E β) :
    exec h (pure a >>= f) s = exec h (f a) s := rfl

@[simp] theorem exec_throw_bind (e : String) (f : α → Fallible E β) :
    exec h (throw e >>= f) s = (s, .ok (.error e)) := rfl

@[simp] theorem exec_ask_bind (e : E α) (f : α → Fallible E β) :
    exec h (ask e >>= f) s = exec h (f (h _ e s).2) (h _ e s).1 := rfl

theorem exec_attempt (m : Fallible E α) :
    exec h (attempt m) s = ((exec h m s).1, (exec h m s).2.map Except.ok) := by
  have hl : (attempt m).run = m.run >>= fun r => pure (.ok r) := rfl
  rw [exec, hl, Program.run_bind, run_run]
  rcases exec h m s with ⟨s', ⟨q⟩ | ⟨r⟩⟩ <;> rfl

@[simp] theorem exec_orPanic (r : Result α) :
    exec h (orPanic r : Fallible E α) s = (s, r.map Except.ok) := by
  cases r <;> rfl

@[simp] theorem exec_orPanic_ok_bind (a : α) (f : α → Fallible E β) :
    exec h (orPanic (.ok a) >>= f) s = exec h (f a) s := rfl

@[simp] theorem exec_orPanic_error_bind (p : Panic) (f : α → Fallible E β) :
    exec h (orPanic (.error p) >>= f) s = (s, .error p) := rfl

@[simp] theorem exec_orFail_ok_bind (a : α) (f : α → Fallible E β) :
    exec h (orFail (.ok a) >>= f) s = exec h (f a) s := rfl

@[simp] theorem exec_orFail_error_bind (e : String) (f : α → Fallible E β) :
    exec h (orFail (.error e) >>= f) s = (s, .ok (.error e)) := rfl

theorem refuseIf_bind_of_not {c : Prop} [Decidable c] (hc : ¬ c) (msg : String)
    (f : Unit → Fallible E β) : (refuseIf c msg >>= f) = f () := by
  rw [refuseIf, if_neg hc]
  rfl

theorem refuseIf_bind_of {c : Prop} [Decidable c] (hc : c) (msg : String)
    (f : Unit → Fallible E β) : (refuseIf c msg >>= f) = throw msg := by
  rw [refuseIf, if_pos hc]
  rfl

theorem orPanic_ok_bind (a : α) (f : α → Fallible E β) : (orPanic (.ok a) >>= f) = f a := rfl

theorem exec_refuseIf_bind (c : Prop) [Decidable c] (msg : String) (f : Unit → Fallible E β) :
    exec h (refuseIf c msg >>= f) s =
      if c then (s, .ok (.error msg)) else exec h (f ()) s := by
  unfold refuseIf
  split <;> rfl

variable {h s}

/-- What every call preserves, every run preserves. -/
theorem exec_invariant {I : S → Prop} (hI : ∀ γ (e : E γ) s, I s → I (h γ e s).1)
    (m : Fallible E α) (hs : I s) : I (exec h m s).1 := Program.run_invariant hI m.run hs

theorem exec_bind_ok {m : Fallible E α} {f : α → Fallible E β} {s' : S} {a : α}
    (hm : exec h m s = (s', .ok (.ok a))) : exec h (m >>= f) s = exec h (f a) s' := by
  rw [exec_bind, hm]

theorem exec_bind_error {m : Fallible E α} {f : α → Fallible E β} {s' : S} {e : String}
    (hm : exec h m s = (s', .ok (.error e))) :
    exec h (m >>= f) s = (s', .ok (.error e)) := by
  rw [exec_bind, hm]

theorem exec_bind_panic {m : Fallible E α} {f : α → Fallible E β} {s' : S} {p : Panic}
    (hm : exec h m s = (s', .error p)) : exec h (m >>= f) s = (s', .error p) := by
  rw [exec_bind, hm]

theorem exec_attempt_ok {m : Fallible E α} {s' : S} {r : Except String α}
    (hm : exec h m s = (s', .ok r)) : exec h (attempt m) s = (s', .ok (.ok r)) := by
  rw [exec_attempt, hm]
  rfl

theorem exec_attempt_eq_ok {m : Fallible E α} {s' : S} {r : Except String α} :
    exec h (attempt m) s = (s', .ok (.ok r)) ↔ exec h m s = (s', .ok r) := by
  rw [exec_attempt]
  rcases exec h m s with ⟨s₁, q | r'⟩ <;> simp [Except.map]

theorem exec_attempt_bind_ok {m : Fallible E α} {f : Except String α → Fallible E β} {s' : S}
    {r : Except String α} (hm : exec h m s = (s', .ok r)) :
    exec h (attempt m >>= f) s = exec h (f r) s' := by
  rw [exec_bind, exec_attempt, hm]
  rfl

/-- A fallible program returns a value exactly when both of its parts do. -/
theorem exec_bind_eq_ok {m : Fallible E α} {f : α → Fallible E β} {s' : S} {b : β} :
    exec h (m >>= f) s = (s', .ok (.ok b)) ↔
      ∃ s₁ a, exec h m s = (s₁, .ok (.ok a)) ∧ exec h (f a) s₁ = (s', .ok (.ok b)) := by
  rw [exec_bind]
  rcases exec h m s with ⟨s₁, ⟨p⟩ | ⟨⟨e⟩ | ⟨a⟩⟩⟩ <;> simp

/-- What both parts of a program preserve, the program preserves. -/
theorem exec_bind_invariant {I : S → Prop} {m : Fallible E α} {f : α → Fallible E β}
    (hm : I (exec h m s).1) (hf : ∀ a s', I s' → I (exec h (f a) s').1) :
    I (exec h (m >>= f) s).1 := by
  rw [exec_bind]
  generalize exec h m s = x at hm ⊢
  rcases x with ⟨s', p | e | a⟩
  · exact hm
  · exact hm
  · exact hf a s' hm

theorem exec_refuseIf_eq_ok {c : Prop} [Decidable c] {msg : String} {s' : S} {u : Unit} :
    exec h (refuseIf c msg) s = (s', .ok (.ok u)) ↔ s' = s ∧ ¬ c := by
  rw [refuseIf, exec_orFail]
  split <;> simp [*, eq_comm]

/-- A call that makes a part of a program in one step. -/
theorem exec_ask_orPanic {E' : Type → Type} {h' : Handler E' S} {e : E' (Result (Except String α))}
    {m : Fallible E α} {f : Except String α → Fallible E β} {f' : Except String α → Fallible E' β}
    (he : h' _ e s = exec h m s) (hf : ∀ r s, exec h' (f' r) s = exec h (f r) s) :
    exec h' (ask e >>= fun r => orPanic r >>= f') s = exec h (attempt m >>= f) s := by
  rw [exec_ask_bind, he, exec_bind h s (attempt m), exec_attempt]
  rcases exec h m s with ⟨s', p | r⟩
  · rfl
  · exact hf r s'

/-- A pure part in front of two programs. -/
theorem exec_orPanic_bind_congr {E' : Type → Type} {h' : Handler E' S} {f : α → Fallible E β}
    {f' : α → Fallible E' β} (r : Result α) (hf : ∀ a, exec h' (f' a) s = exec h (f a) s) :
    exec h' (orPanic r >>= f') s = exec h (orPanic r >>= f) s := by
  rcases r with p | a
  · rfl
  · exact hf a

end Fallible

/-- A fallible program has returned a value. -/
def Succeeds {α : Type} (r : Result (Except String α)) : Prop := ∃ a, r = .ok (.ok a)

theorem not_succeeds_error {α : Type} (e : String) :
    ¬ Succeeds (.ok (.error e) : Result (Except String α)) := by
  rintro ⟨a, ha⟩
  cases Except.ok.inj ha

instance {α : Type} (r : Result (Except String α)) : Decidable (Succeeds r) :=
  match r with
  | .ok (.ok a) => .isTrue ⟨a, rfl⟩
  | .ok (.error _) => .isFalse nofun
  | .error _ => .isFalse nofun

/-! ## Calls of fallible programs -/

/-- Whatever the answers, `m` makes only calls that `ok` allows. -/
def Only {E : Type → Type} {α : Type} (ok : (β : Type) → E β → Prop) (m : Fallible E α) : Prop :=
  m.run.Calls ok

section Only

variable {E : Type → Type} {α β : Type} {S : Type*} {ok : (β : Type) → E β → Prop}

theorem only_pure (a : α) : Only ok (pure a : Fallible E α) := trivial

theorem only_throw (e : String) : Only ok (throw e : Fallible E α) := trivial

theorem only_ask {e : E α} (h : ok α e) : Only ok (ask e) := ⟨h, fun _ => trivial⟩

theorem only_orFail (r : Except String α) : Only ok (orFail r : Fallible E α) := trivial

theorem only_orPanic (r : Result α) : Only ok (orPanic r : Fallible E α) := by
  cases r <;> trivial

theorem only_refuseIf (c : Prop) [Decidable c] (msg : String) :
    Only ok (refuseIf c msg : Fallible E Unit) := trivial

theorem only_bind {m : Fallible E α} {f : α → Fallible E β} (hm : Only ok m)
    (hf : ∀ a, Only ok (f a)) : Only ok (m >>= f) := by
  have hb : (m >>= f).run = m.run >>= ExceptT.bindCont f := rfl
  rw [Only, hb]
  refine hm.bind fun r => ?_
  cases r with
  | error e => trivial
  | ok a => exact hf a

theorem Only.mono {ok' : (β : Type) → E β → Prop} {m : Fallible E α} (hm : Only ok m)
    (h : ∀ γ (e : E γ), ok γ e → ok' γ e) : Only ok' m := Program.Calls.mono hm h

theorem only_attempt {m : Fallible E α} (hm : Only ok m) : Only ok (attempt m) :=
  Program.Calls.bind hm fun _ => trivial

/-- What the allowed calls preserve, a run that makes only these preserves. -/
theorem Only.invariant {h : Handler E S} {I : S → Prop} {m : Fallible E α} {s : S}
    (hm : Only ok m) (hI : ∀ γ (e : E γ) s, ok γ e → I s → I (h γ e s).1) (hs : I s) :
    I (exec h m s).1 :=
  Program.Calls.invariant hm hI hs

theorem Only.alike {h : Handler E S} {R : S → S → Prop} {m : Fallible E α} {s t : S}
    (hm : Only ok m)
    (hR : ∀ γ (e : E γ) s t, ok γ e → R s t → Program.Alike R (h γ e s) (h γ e t)) (hs : R s t) :
    Program.Alike R (exec h m s) (exec h m t) := Program.Calls.alike hm hR hs

theorem exec_bind_alike {h : Handler E S} {R : S → S → Prop} {m : Fallible E α}
    {f : α → Fallible E β} {s t : S} (hm : Program.Alike R (exec h m s) (exec h m t))
    (hf : ∀ a s t, R s t → Program.Alike R (exec h (f a) s) (exec h (f a) t)) :
    Program.Alike R (exec h (m >>= f) s) (exec h (m >>= f) t) := by
  rw [exec_bind, exec_bind]
  rcases hx : exec h m s with ⟨s', r⟩
  rcases hy : exec h m t with ⟨t', r'⟩
  rw [hx, hy] at hm
  obtain rfl : r = r' := hm.results
  rcases r with q | e | a
  · exact ⟨hm.states, rfl⟩
  · exact ⟨hm.states, rfl⟩
  · exact hf a _ _ hm.states

end Only

/-- Whatever the answers, `m` does not unwind. -/
def Total {E : Type → Type} {α : Type} (m : Fallible E α) : Prop := m.run.Total

theorem total_pure {E : Type → Type} {α : Type} (a : α) : Total (pure a : Fallible E α) := trivial

theorem total_refuseIf {E : Type → Type} (c : Prop) [Decidable c] (msg : String) :
    Total (refuseIf c msg : Fallible E Unit) := trivial

theorem Total.exec {E : Type → Type} {α : Type} {S : Type*} {m : Fallible E α} (hm : Total m)
    (h : Handler E S) (s : S) : ∃ r, (exec h m s).2 = .ok r := Program.Total.run hm h s

/-- `m` makes only calls that `ok` allows, and does not unwind. -/
structure Tidy {E : Type → Type} {α : Type} (ok : (β : Type) → E β → Prop)
    (m : Fallible E α) : Prop where
  only : Only ok m
  total : Total m

section Tidy

variable {E : Type → Type} {α β : Type} {ok : (β : Type) → E β → Prop}

theorem tidy_pure (a : α) : Tidy ok (pure a : Fallible E α) := ⟨trivial, trivial⟩

theorem tidy_throw (e : String) : Tidy ok (throw e : Fallible E α) := ⟨trivial, trivial⟩

theorem tidy_ask {e : E α} (h : ok α e) : Tidy ok (ask e) := ⟨only_ask h, fun _ => trivial⟩

theorem tidy_orFail (r : Except String α) : Tidy ok (orFail r : Fallible E α) := ⟨trivial, trivial⟩

theorem tidy_refuseIf (c : Prop) [Decidable c] (msg : String) :
    Tidy ok (refuseIf c msg : Fallible E Unit) := ⟨trivial, trivial⟩

theorem tidy_bind {m : Fallible E α} {f : α → Fallible E β} (hm : Tidy ok m)
    (hf : ∀ a, Tidy ok (f a)) : Tidy ok (m >>= f) := by
  have hb : (m >>= f).run = m.run >>= ExceptT.bindCont f := rfl
  refine ⟨only_bind hm.only fun a => (hf a).only, ?_⟩
  rw [Total, hb]
  refine Program.Total.bind hm.total fun r => ?_
  cases r with
  | error e => trivial
  | ok a => exact (hf a).total

theorem tidy_attempt {m : Fallible E α} (hm : Tidy ok m) : Tidy ok (attempt m) :=
  ⟨only_attempt hm.only, Program.Total.bind hm.total fun _ => trivial⟩

theorem Tidy.mono {ok' : (β : Type) → E β → Prop} {m : Fallible E α} (hm : Tidy ok m)
    (h : ∀ γ (e : E γ), ok γ e → ok' γ e) : Tidy ok' m := ⟨hm.only.mono h, hm.total⟩

end Tidy

/-! ## Traces of fallible programs -/

/-- The calls of the run of a fallible program. -/
def trace {E : Type → Type} {α : Type} {S : Type*} (h : Handler E S) (m : Fallible E α) (s : S) :
    List (Σ β, E β) :=
  Program.calls h m.run s

/-- The calls of a fallible program up to a crash, and the state they leave. -/
def cutOff {E : Type → Type} {α : Type} {S : Type*} (h : Handler E S) (n : ℕ) (m : Fallible E α) (s : S) :
    List (Σ β, E β) × S :=
  Program.crash h n m.run s

/-- The state in which a fallible program makes its last call of the kind `kind`. -/
def lastAsked {E : Type → Type} {α : Type} {S : Type*} (h : Handler E S) (kind : (β : Type) → E β → Bool)
    (m : Fallible E α) (s : S) : Option S :=
  Program.lastAt h kind m.run s

section Trace

variable {E : Type → Type} {α β : Type} {S : Type*} {h : Handler E S} {s : S}

@[simp] theorem trace_ask_bind (e : E α) (f : α → Fallible E β) :
    trace h (ask e >>= f) s = ⟨_, e⟩ :: trace h (f (h _ e s).2) (h _ e s).1 := rfl

theorem lastAsked_ask_bind {kind : (β : Type) → E β → Bool} (e : E α) (f : α → Fallible E β) :
    lastAsked h kind (ask e >>= f) s =
      (lastAsked h kind (f (h _ e s).2) (h _ e s).1).or (if kind _ e then some s else none) := rfl

theorem lastAsked_bind_ok {kind : (β : Type) → E β → Bool} {m : Fallible E α}
    {f : α → Fallible E β} {s' : S} {a : α} (hm : exec h m s = (s', .ok (.ok a))) :
    lastAsked h kind (m >>= f) s = (lastAsked h kind (f a) s').or (lastAsked h kind m s) := by
  have hb : (m >>= f).run = m.run >>= ExceptT.bindCont f := rfl
  have hrun : Program.run h m.run s = (s', .ok (.ok a)) := hm
  rw [lastAsked, hb, Program.lastAt_bind, hrun]
  rfl

theorem Only.lastAsked {kind : (β : Type) → E β → Bool} {m : Fallible E α}
    (hm : Only (fun _ e => kind _ e = false) m) : lastAsked h kind m s = none :=
  Program.Calls.lastAt hm

theorem trace_subset_bind (m : Fallible E α) (f : α → Fallible E β) :
    trace h m s ⊆ trace h (m >>= f) s := by
  have hb : (m >>= f).run = m.run >>= ExceptT.bindCont f := rfl
  rw [trace, trace, hb, Program.calls_bind]
  exact List.subset_append_left _ _

/-- Once the first part of a program has returned, the calls of both parts are made. -/
theorem trace_bind_ok {m : Fallible E α} {f : α → Fallible E β} {s' : S} {a : α}
    (hm : exec h m s = (s', .ok (.ok a))) :
    trace h (m >>= f) s = trace h m s ++ trace h (f a) s' := by
  have hb : (m >>= f).run = m.run >>= ExceptT.bindCont f := rfl
  have hrun : Program.run h m.run s = (s', .ok (.ok a)) := hm
  rw [trace, hb, Program.calls_bind, hrun]
  rfl

@[simp] theorem trace_attempt (m : Fallible E α) (s : S) : trace h (attempt m) s = trace h m s := by
  have hl : (attempt m).run = m.run >>= fun r => pure (.ok r) := rfl
  rw [trace, trace, hl, Program.calls_bind]
  rcases Program.run h m.run s with ⟨s', q | r⟩ <;> exact List.append_nil _

/-- An error in the first part of a program ends it. -/
theorem trace_bind_error {m : Fallible E α} {f : α → Fallible E β} {s' : S} {e : String}
    (hm : exec h m s = (s', .ok (.error e))) : trace h (m >>= f) s = trace h m s := by
  have hb : (m >>= f).run = m.run >>= ExceptT.bindCont f := rfl
  have hrun : Program.run h m.run s = (s', .ok (.error e)) := hm
  rw [trace, hb, Program.calls_bind, hrun]
  exact List.append_nil _

/-- What unwinds in its first part makes no further call. -/
theorem trace_bind_panic {m : Fallible E α} {f : α → Fallible E β} {s' : S} {q : Panic}
    (hm : exec h m s = (s', .error q)) : trace h (m >>= f) s = trace h m s := by
  have hb : (m >>= f).run = m.run >>= ExceptT.bindCont f := rfl
  have hrun : Program.run h m.run s = (s', .error q) := hm
  rw [trace, hb, Program.calls_bind, hrun]
  exact List.append_nil _

theorem trace_bind_pure {γ : Type} (m : Fallible E α) (g : α → γ) :
    trace h (m >>= fun a => pure (g a)) s = trace h m s := by
  rcases hm : exec h m s with ⟨s', q | e | a⟩
  · exact trace_bind_panic hm
  · exact trace_bind_error hm
  · rw [trace_bind_ok hm]
    exact List.append_nil _

/-- A crash falls in the first part of a program, or in the second part once the first has
returned. -/
theorem cutOff_bind (n : ℕ) (m : Fallible E α) (f : α → Fallible E β) :
    (∃ k, cutOff h n (m >>= f) s = cutOff h k m s) ∨
      ∃ k s' a, exec h m s = (s', .ok (.ok a)) ∧
        cutOff h n (m >>= f) s =
          (trace h m s ++ (cutOff h k (f a) s').1, (cutOff h k (f a) s').2) := by
  have hb : (m >>= f).run = m.run >>= ExceptT.bindCont f := rfl
  unfold cutOff
  rw [hb]
  rcases Program.crash_bind (h := h) (s := s) n m.run (ExceptT.bindCont f) with
    ⟨k, hk⟩ | ⟨k, s', e | a, hrun, hk⟩
  · exact .inl ⟨k, hk⟩
  · -- an error ends the program, so that nothing is cut off behind it
    obtain ⟨j, hj⟩ := Program.exists_crash_eq_run (h := h) m.run s
    refine .inl ⟨j, ?_⟩
    have hend : Program.crash h k (ExceptT.bindCont f (Except.error e)) s' = ([], s') :=
      Program.crash_ret k _
    rw [hk, hj, hrun, hend, List.append_nil]
  · exact .inr ⟨k, s', a, hrun, hk⟩

theorem Only.cutOff {ok : (β : Type) → E β → Prop} {I : S → Prop} {m : Fallible E α}
    (hm : Only ok m) (hI : ∀ γ (e : E γ) s, ok γ e → I s → I (h γ e s).1) (hs : I s) (n : ℕ) :
    I (Effects.cutOff h n m s).2 := Program.Calls.crash_invariant hm hI hs n

/-- What every call preserves, every crash preserves. -/
theorem cutOff_invariant {I : S → Prop} (hI : ∀ γ (e : E γ) s, I s → I (h γ e s).1)
    (m : Fallible E α) (hs : I s) (n : ℕ) : I (cutOff h n m s).2 := by
  have hm : Only (fun _ _ => True) m := Program.calls_true m.run
  exact hm.cutOff (fun γ e s _ => hI γ e s) hs n

theorem Only.forall_mem_trace {ok : (β : Type) → E β → Prop} {m : Fallible E α} (hm : Only ok m) :
    ∀ c ∈ trace h m s, ok c.1 c.2 := Program.Calls.forall_mem_calls hm

theorem Only.cutOff_record {ok : (β : Type) → E β → Prop} {I : List (Σ β, E β) → S → Prop}
    {m : Fallible E α} (hm : Only ok m)
    (hI : ∀ γ (e : E γ) cs s, ok γ e → I cs s → I (cs ++ [⟨_, e⟩]) (h γ e s).1) (hs : I [] s)
    (n : ℕ) : I (Effects.cutOff h n m s).1 (Effects.cutOff h n m s).2 :=
  Program.Calls.crash_record hm hI hs n

theorem Only.forall_mem_cutOff {ok : (β : Type) → E β → Prop} {m : Fallible E α} (hm : Only ok m)
    (n : ℕ) : ∀ c ∈ (Effects.cutOff h n m s).1, ok c.1 c.2 := by
  refine hm.cutOff_record (I := fun cs _ => ∀ c ∈ cs, ok c.1 c.2) (fun γ e cs s he hcs => ?_)
    nofun n
  exact List.forall_mem_append.mpr ⟨hcs, List.forall_mem_singleton.mpr he⟩

@[simp] theorem cutOff_zero (m : Fallible E α) : cutOff h 0 m s = ([], s) :=
  Program.crash_zero _

@[simp] theorem cutOff_pure (n : ℕ) (a : α) :
    cutOff h n (pure a : Fallible E α) s = ([], s) := Program.crash_ret n _

@[simp] theorem cutOff_throw (n : ℕ) (e : String) :
    cutOff h n (throw e : Fallible E α) s = ([], s) := Program.crash_ret n _

@[simp] theorem cutOff_orFail (n : ℕ) (r : Except String α) :
    cutOff h n (orFail r : Fallible E α) s = ([], s) := Program.crash_ret n _

@[simp] theorem cutOff_orPanic_error_bind (n : ℕ) (q : Panic) (f : α → Fallible E β) :
    cutOff h n (orPanic (.error q) >>= f) s = ([], s) := Program.crash_panic n q

theorem cutOff_ask_bind (n : ℕ) (e : E α) (f : α → Fallible E β) :
    cutOff h (n + 1) (ask e >>= f) s =
      (⟨_, e⟩ :: (cutOff h n (f (h _ e s).2) (h _ e s).1).1,
        (cutOff h n (f (h _ e s).2) (h _ e s).1).2) := rfl

/-- Behind the last call of a program there is nothing to be cut off. -/
theorem cutOff_bind_pure {γ : Type} (n : ℕ) (m : Fallible E α) (g : α → γ) :
    ∃ k, cutOff h n (m >>= fun a => pure (g a)) s = cutOff h k m s := by
  rcases cutOff_bind (h := h) (s := s) n m fun a => pure (g a) with ⟨k, hk⟩ | ⟨k, s', a, hm, hk⟩
  · exact ⟨k, hk⟩
  · obtain ⟨j, hj⟩ := Program.exists_crash_eq_run (h := h) m.run s
    have hrun : Program.run h m.run s = (s', .ok (.ok a)) := hm
    refine ⟨j, ?_⟩
    rw [hk, cutOff_pure, List.append_nil, cutOff, hj, hrun]
    rfl

end Trace

/-! ## Unwinding -/

/-- The run of `m` from `s` unwinds. -/
def Unwinds {E : Type → Type} {α : Type} {S : Type*} (h : Handler E S) (m : Fallible E α) (s : S) : Prop :=
  ∃ p, (exec h m s).2 = .error p

section Ends

variable {E : Type → Type} {α β : Type} {S : Type*} {h : Handler E S} {s : S}

theorem Total.not_unwinds {m : Fallible E α} (hm : Total m) : ¬ Unwinds h m s := by
  rintro ⟨p, hp⟩
  obtain ⟨r, hr⟩ := hm.exec h s
  rw [hr] at hp
  cases hp

/-- A program unwinds in its first part, or in the second part once the first has returned. -/
theorem unwinds_bind {m : Fallible E α} {f : α → Fallible E β} :
    Unwinds h (m >>= f) s ↔
      Unwinds h m s ∨ ∃ s' a, exec h m s = (s', .ok (.ok a)) ∧ Unwinds h (f a) s' := by
  unfold Unwinds
  rw [exec_bind]
  rcases exec h m s with ⟨s', p | e | a⟩ <;> simp

/-- Once the first part of a program has returned, the second decides. -/
theorem unwinds_bind_ok {m : Fallible E α} {f : α → Fallible E β} {s' : S} {a : α}
    (hm : exec h m s = (s', .ok (.ok a))) : Unwinds h (m >>= f) s ↔ Unwinds h (f a) s' := by
  unfold Unwinds
  rw [exec_bind_ok hm]

theorem unwinds_attempt {m : Fallible E α} : Unwinds h (attempt m) s ↔ Unwinds h m s := by
  unfold Unwinds
  rw [exec_attempt]
  rcases exec h m s with ⟨s', p | r⟩ <;> simp [Except.map]

theorem unwinds_orPanic {r : Result α} :
    Unwinds h (orPanic r : Fallible E α) s ↔ ∃ p, r = .error p := by
  unfold Unwinds
  rw [exec_orPanic]
  rcases r with p | a <;> simp [Except.map]

/-- A total part unwinds nowhere, so that what follows decides. -/
theorem unwinds_bind_of_total {m : Fallible E α} {f : α → Fallible E β} (hm : Total m) :
    Unwinds h (m >>= f) s ↔ ∃ s' a, exec h m s = (s', .ok (.ok a)) ∧ Unwinds h (f a) s' := by
  rw [unwinds_bind, or_iff_right hm.not_unwinds]

/-- Before a total part, the first part decides. -/
theorem unwinds_bind_total {m : Fallible E α} {f : α → Fallible E β} (hf : ∀ a, Total (f a)) :
    Unwinds h (m >>= f) s ↔ Unwinds h m s := by
  rw [unwinds_bind]
  refine or_iff_left ?_
  rintro ⟨s', a, -, hu⟩
  exact (hf a).not_unwinds hu

theorem unwinds_ask_bind {e : E α} {f : α → Fallible E β} :
    Unwinds h (ask e >>= f) s ↔ Unwinds h (f (h _ e s).2) (h _ e s).1 := Iff.rfl

end Ends

end Effects
