import SporePeer.Library.Interleaving
import SporePeer.Fabric.Runs

/-!
# Requests as threads

A relay serves every connection in a thread of its own. What a request does under a mutex is one
step of its thread, and so is every other call; between two steps the other threads do theirs.

## Main definitions

* `mutexes`, `IsSection`: the sections under a mutex
* `requests`: the threads of some requests

## Main results

* `IsSection.advance_bind`: a section under a mutex is one step
* `yields_fputGate`, `yields_fpopGate`: what the checks of a request have seen
-/

namespace SporePeer

open Effects Text Bytes

/-- A section lasts from the lock of a mutex to its unlock. -/
def mutexes : Sections Op where
  opens _ e := match e with
    | .lock _ => true
    | _ => false
  closes _ e := match e with
    | .unlock _ => true
    | _ => false

/-- The calls that are no locks. -/
def Inside : (β : Type) → Op β → Prop
  | _, .lock _ => False
  | _, .unlock _ => False
  | _, _ => True

theorem inside_of_removeOp {β : Type} {e : Op β} (h : RemoveOp β e) : Inside β e := by
  cases e with
  | removeFile name => trivial
  | _ => exact h.elim

theorem mutexes_of_inside {β : Type} {e : Op β} (h : Inside β e) :
    mutexes.opens _ e = false ∧ mutexes.closes _ e = false := by
  cases e with
  | lock m => exact h.elim
  | unlock m => exact h.elim
  | _ => exact ⟨rfl, rfl⟩

/-- The threads of the requests `vs` to a relay whose state is `w`. -/
def requests {σ : Type} (build : Build) (cfg : FabricConfig) (vs : List Verb) (w : World σ) :
    Pool Op (World σ) (Except String Value) :=
  Pool.start (vs.map fun v => (v.run build cfg).run) w

/-- What is done under the mutex `l`, with no other lock inside. -/
def IsSection {α : Type} (l : Mutex) (m : Fallible Op α) : Prop :=
  ∃ p, m = locked l p ∧ Tidy Inside p

section

variable {σ : Type} {env : Env σ} {α β : Type} {J : (Σ γ, Op γ) → World σ → Prop} {l : Mutex}
  {m : Fallible Op α}

theorem run_locked (l : Mutex) (p : Fallible Op α) : (locked l p).run =
    (Program.perform (.lock l) >>= fun _ => p.run >>= fun r =>
      Program.perform (.unlock l) >>= fun _ => pure r) := rfl

theorem IsSection.closed (hm : IsSection l m) : Closed mutexes m := by
  obtain ⟨p, rfl, hp⟩ := hm
  have hinside := hp.only.mono fun _ _ => mutexes_of_inside
  have hbody : (p.run >>= fun r => Program.perform (.unlock l) >>= fun _ => pure r).Sectioned
      mutexes true :=
    Program.Calls.sectioned_inside hinside hp.total fun _ => ⟨rfl, fun _ => rfl⟩
  exact ⟨rfl, fun _ => hbody⟩

/-- A section under a mutex is one step. -/
theorem IsSection.advance_bind (hm : IsSection l m) {w w' : World σ} {r : Except String α}
    (hexec : exec env.handle m w = (w', .ok r)) (f : α → Fallible Op β) :
    ∃ cs, Program.advance mutexes env.handle (m >>= f).run w = (cs, ExceptT.bindCont f r, w') := by
  obtain ⟨p, rfl, hp⟩ := hm
  have hb : (locked l p >>= f).run = Program.perform (.lock l) >>= fun _ => p.run >>= fun r =>
      Program.perform (.unlock l) >>= fun _ => ExceptT.bindCont f r := by
    change (locked l p).run >>= ExceptT.bindCont f = _
    rw [run_locked, bind_assoc]
    simp only [bind_assoc, pure_bind]
  rw [exec_locked] at hexec
  have hclose : p.run.Calls fun _ e => mutexes.closes _ e = false :=
    hp.only.mono fun _ _ he => (mutexes_of_inside he).2
  have hrun : Program.run env.handle p.run (env.handle _ (.lock l) w).1 = (w', .ok r) := hexec
  rw [hb]
  exact ⟨_, Program.advance_section (o := .lock l) (c := .unlock l) rfl rfl hclose hrun _⟩

theorem IsSection.total (hm : IsSection l m) (env : Env σ) (w : World σ) :
    ∃ w' r, exec env.handle m w = (w', .ok r) := by
  obtain ⟨p, rfl, hp⟩ := hm
  obtain ⟨r, hr⟩ := hp.total.exec env.handle w
  refine ⟨(exec env.handle p w).1, r, ?_⟩
  rw [exec_locked, ← hr]

theorem IsSection.yields {Q : α → Prop} (hm : IsSection l m)
    (hQ : ∀ w w' a, J ⟨_, .lock l⟩ w → exec env.handle m w = (w', .ok (.ok a)) → Q a) :
    Yields mutexes env.handle J Q m := by
  obtain ⟨next, hnext⟩ : ∃ next, m.run = .call (.lock l) next := by
    obtain ⟨p, rfl, -⟩ := hm
    exact ⟨_, rfl⟩
  rw [Yields, hnext]
  refine .call fun w hw => ?_
  rw [← hnext]
  obtain ⟨w', r, hexec⟩ := hm.total env w
  obtain ⟨cs, hstep⟩ := hm.advance_bind hexec (pure (f := Fallible Op))
  rw [bind_pure] at hstep
  rw [hstep]
  cases r with
  | error e =>
    refine .ret fun a' ha' => ?_
    cases ha'
  | ok a =>
    refine .ret fun a' ha' => ?_
    cases ha'
    exact hQ w w' a hw hexec

/-! ## The sections of the verbs -/

theorem isSection_fputRegistered (h : String) : IsSection .reg (fputRegistered h) := by
  refine ⟨_, rfl, tidy_bind (tidy_ask trivial) fun reg => ?_⟩
  split
  · exact tidy_bind (tidy_ask trivial) fun _ => tidy_refuseIf _ _
  · exact tidy_throw _

theorem isSection_fpopAuthorised (h token : String) : IsSection .reg (fpopAuthorised h token) := by
  refine ⟨_, rfl, tidy_bind (tidy_ask trivial) fun reg => ?_⟩
  split
  · exact tidy_bind (tidy_ask trivial) fun _ => tidy_refuseIf _ _
  · exact tidy_throw _

theorem isSection_drainQueue (h : String) (now max : ℕ) : IsSection .queues (drainQueue h now max) := by
  refine ⟨_, rfl, tidy_bind (tidy_ask trivial) fun queues => ?_⟩
  split
  · exact tidy_pure _
  · exact tidy_bind ((tidy_drain _ _ _ _).mono fun _ _ => inside_of_removeOp) fun _ =>
      tidy_bind (tidy_ask trivial) fun _ => tidy_pure _

theorem isSection_putQueue (cfg : FabricConfig) (h : String) (new : Queued) :
    IsSection .queues (putQueue cfg h new) :=
  ⟨_, rfl, tidy_bind (tidy_ask trivial) fun _ =>
    tidy_bind ((tidy_putPointer _ _ _).mono fun _ _ => inside_of_removeOp) fun _ =>
    tidy_bind (tidy_ask trivial) fun _ =>
    tidy_bind ((tidy_retainLive _ _).mono fun _ _ => inside_of_removeOp) fun _ => tidy_ask trivial⟩

theorem isSection_fregSection (cfg : FabricConfig) (r : FregRequest) (now expires : ℕ) :
    IsSection .reg (fregSection cfg r now expires) := by
  refine ⟨_, rfl, tidy_bind (tidy_bind (tidy_ask trivial) fun last => ?_) fun _ =>
    tidy_bind (tidy_ask trivial) fun _ => tidy_bind (tidy_orFail _) fun _ => tidy_ask trivial⟩
  split
  · exact tidy_bind (tidy_ask trivial) fun _ => tidy_bind (tidy_ask trivial) fun _ =>
      tidy_ask trivial
  · exact tidy_pure _

/-- Without a limit the rate limiter is not asked. -/
theorem allow_cases (max : ℕ) (ip : String) (now : ℕ) :
    allow .fput max ip now = pure true ∨ IsSection (.wins .fput) (allow .fput max ip now) := by
  unfold allow
  split
  · exact .inl rfl
  · exact .inr ⟨_, rfl, tidy_bind (tidy_ask trivial) fun _ =>
      tidy_bind (tidy_ask trivial) fun _ => tidy_pure _⟩

theorem closed_allow (max : ℕ) (ip : String) (now : ℕ) :
    Closed mutexes (allow .fput max ip now) := by
  rcases allow_cases max ip now with heq | hsec
  · rw [heq]
    exact closed_pure _
  · exact hsec.closed

theorem yields_allow (max : ℕ) (ip : String) (now : ℕ) :
    Yields mutexes env.handle J (fun _ => True) (allow .fput max ip now) := by
  rcases allow_cases max ip now with heq | hsec
  · rw [heq]
    exact yields_pure trivial
  · exact hsec.yields fun _ _ _ _ _ => trivial

/-! ## The checks of a request -/

variable {build : Build} {cfg : FabricConfig} {req : Value} {ip : String}

theorem closed_fputGate : Closed mutexes (fputGate build cfg req ip) :=
  closed_bind (closed_orFail _) fun _ => closed_bind (isSection_fputRegistered _).closed fun _ =>
    closed_bind (closed_ask rfl rfl) fun _ => closed_bind (closed_allow _ _ _) fun _ =>
    closed_bind (closed_refuseIf _ _) fun _ => closed_bind (closed_orFail _) fun _ =>
    closed_bind (closed_refuseIf _ _) fun _ => closed_bind (closed_ask rfl rfl) fun _ =>
    closed_bind (closed_refuseIf _ _) fun _ => closed_pure _

theorem closed_fpopGate : Closed mutexes (fpopGate build cfg req ip) :=
  closed_bind (closed_orFail _) fun _ => closed_bind (closed_ask rfl rfl) fun _ =>
    closed_bind (closed_allow _ _ _) fun _ => closed_bind (closed_refuseIf _ _) fun _ =>
    closed_bind (isSection_fpopAuthorised _ _).closed fun _ =>
    closed_bind (closed_ask rfl rfl) fun _ => closed_pure _

/-- A call whose answer does not matter. -/
theorem yields_nowSec : Yields mutexes env.handle J (fun _ => True) (ask .nowSec) :=
  yields_ask rfl fun _ _ => trivial

theorem yields_refusal {c : Prop} [Decidable c] {msg : String} :
    Yields mutexes env.handle J (fun _ => True) (refuseIf c msg) := yields_refuseIf fun _ => trivial

/-- A put that passes its checks has seen its handle registered. -/
theorem yields_fputGate : Yields mutexes env.handle J (fun x =>
      readHandle build "400 fput needs handle" req = .ok x.1 ∧ fputPointer req = .ok x.2.1 ∧
        ∃ w r, J ⟨_, .lock .reg⟩ w ∧ w.reg.lookup x.1 = some r)
    (fputGate build cfg req ip) := by
  refine yields_bind (closed_orFail _) (yields_orFail fun _ => id) fun h hh => ?_
  have hseen : Yields mutexes env.handle J
      (fun _ => ∃ w r, J ⟨_, .lock .reg⟩ w ∧ w.reg.lookup h = some r) (fputRegistered h) := by
    refine (isSection_fputRegistered h).yields fun w w' _ hw hok => ?_
    rw [exec_fputRegistered] at hok
    split at hok
    · cases hok
    · exact ⟨w, _, hw, ‹_›⟩
  refine yields_bind (isSection_fputRegistered h).closed hseen fun _ hreg => ?_
  refine yields_bind (closed_ask rfl rfl) yields_nowSec fun now _ => ?_
  refine yields_bind (closed_allow _ _ _) (yields_allow _ _ _) fun ok _ => ?_
  refine yields_bind (closed_refuseIf _ _) yields_refusal fun _ _ => ?_
  refine yields_bind (closed_orFail _) (yields_orFail fun _ => id) fun pointer hp => ?_
  refine yields_bind (closed_refuseIf _ _) yields_refusal fun _ _ => ?_
  refine yields_bind (closed_ask rfl rfl) yields_nowSec fun now' _ => ?_
  refine yields_bind (closed_refuseIf _ _) yields_refusal fun _ _ => ?_
  exact yields_pure ⟨hh, hp, hreg⟩

/-- A drain that passes its checks has seen its handle registered under the token presented, by a
registration that was live when it was seen: when it took the lock of the registry. -/
theorem yields_fpopGate : Yields mutexes env.handle J (fun x =>
      readHandle build "400 fpop needs handle" req = .ok x.1 ∧
        ∃ w r, J ⟨_, .lock .reg⟩ w ∧ w.reg.lookup x.1 = some r ∧ env.clock w.tick < r.expires ∧
          ctEq r.token (presentedToken req) = true)
    (fpopGate build cfg req ip) := by
  refine yields_bind (closed_orFail _) (yields_orFail fun _ => id) fun h hh => ?_
  refine yields_bind (closed_ask rfl rfl) yields_nowSec fun now _ => ?_
  refine yields_bind (closed_allow _ _ _) (yields_allow _ _ _) fun ok _ => ?_
  refine yields_bind (closed_refuseIf _ _) yields_refusal fun _ _ => ?_
  -- the token is compared while the lease is looked at
  have hseen : Yields mutexes env.handle J (fun _ => ∃ w r, J ⟨_, .lock .reg⟩ w ∧
      w.reg.lookup h = some r ∧ env.clock w.tick < r.expires ∧
      ctEq r.token (presentedToken req) = true)
      (fpopAuthorised h (presentedToken req)) := by
    refine (isSection_fpopAuthorised h _).yields fun w w' _ hw hok => ?_
    rw [exec_fpopAuthorised] at hok
    split at hok
    · cases hok
    · rename_i r hr
      obtain ⟨-, hres⟩ := Prod.mk.inj hok
      by_cases hrefused : r.expires ≤ env.clock w.tick ∨ ctEq r.token (presentedToken req) = false
      · rw [if_pos hrefused] at hres
        cases hres
      · rw [not_or, not_le, Bool.not_eq_false] at hrefused
        exact ⟨w, r, hw, hr, hrefused⟩
  refine yields_bind (isSection_fpopAuthorised _ _).closed hseen fun _ hauth => ?_
  refine yields_bind (closed_ask rfl rfl) yields_nowSec fun now' _ => ?_
  exact yields_pure ⟨hh, hauth⟩

end

end SporePeer
