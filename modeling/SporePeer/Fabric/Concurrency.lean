import SporePeer.Fabric.Crashes
import SporePeer.Fabric.Delivery
import SporePeer.Fabric.Threads

/-!
# A request among others

The thread of a request goes through a few places: its checks, for a put the two calls that store
the envelope, and its section. A step from one of them leaves the relay as it is, stores an
envelope, or is the section, whatever the other threads have done before.

## Main definitions

* `PutAt`, `PopAt`, `RegAt`, `VerbAt`: where the thread of a request is
* `PopStep`: what one step of a drain does
* `StepEffect`, `Stepped`: what one step does to the queues and the directory

## Main results

* `verbAt_start`: where a thread starts
* `stepped_verb`: what one step does
-/

namespace SporePeer

open Effects Text Bytes

/-- A relay, and the threads of its connections. -/
abbrev Connections (σ : Type) := Pool Op (World σ) (Except String Value)

abbrev Connection := Thread Op (Except String Value)

/-- The request that a put was made of. -/
structure Put.Asked (build : Build) (req : Value) (p : Put) : Prop where
  handle : readHandle build "400 fput needs handle" req = .ok p.key
  pointer : fputPointer req = .ok p.pointer
  arrived : p.receivedAt < 2 ^ 64

/-- A put from its queue section on. -/
def putQueueing (build : Build) (cfg : FabricConfig) (p : Put) : Fallible Op Value := do
  putQueue cfg p.key (p.entry build)
  return .object [("queued", .bool true)]

/-- A put whose envelope has been written to its temporary file. -/
def putRenaming (build : Build) (cfg : FabricConfig) (p : Put) : Fallible Op Value := do
  let renamed ← ask (.rename (tmpFile (p.envelope.cidHex build)) (fenvFile (p.envelope.cidHex build)))
  orFail (renamed.mapError fun e => s!"500 envelope rename: {e}")
  putQueueing build cfg p

/-- A put that has made its envelope. -/
def putWriting (build : Build) (cfg : FabricConfig) (p : Put) : Fallible Op Value := do
  persistEnvelope (p.envelope.cidHex build) (marshalEnvelope p.envelope)
  putQueueing build cfg p

/-- A put that has passed its checks. -/
def putStoring (build : Build) (cfg : FabricConfig) (x : String × Pointer × ℕ) :
    Fallible Op Value := do
  fputStore build cfg x.1 x.2.1 x.2.2
  return .object [("queued", .bool true)]

section

variable {σ : Type} (env : Env σ) (build : Build) (cfg : FabricConfig) (written : Bytes → Prop)
  (spared : Prop)

/-- Where the thread of a put is. If the other threads spare its envelope, the envelope stays in its
place until the put has queued it. -/
inductive PutAt (req : Value) (w : World σ) : Connection → Prop
  | checking {made : List (Σ β, Op β)} {m : Fallible Op (String × Pointer × ℕ)}
    (only : Only GateOp m) (closed : Closed mutexes m)
    (yields : Yields mutexes env.handle (fun _ w => Registered w.reg) (fun x =>
      readHandle build "400 fput needs handle" req = .ok x.1 ∧ fputPointer req = .ok x.2.1 ∧
        ∃ handle : U8Array 32, x.1 = Hex.encode handle.toList) m) :
    PutAt req w ⟨made, (m >>= putStoring build cfg).run⟩
  | writing {made : List (Σ β, Op β)} {p : Put} (asked : p.Asked build req) :
    PutAt req w ⟨made, (putWriting build cfg p).run⟩
  | moving {made : List (Σ β, Op β)} {p : Put} (asked : p.Asked build req)
    (filed : Filed written p.envelope) : PutAt req w ⟨made, (putRenaming build cfg p).run⟩
  | queueing {made : List (Σ β, Op β)} {p : Put} (asked : p.Asked build req)
    (filed : Filed written p.envelope)
    (moved : fenvFile (p.envelope.cidHex build) ∈ made.filterMap movedTo)
    (present : spared → (w.dir.lookup (fenvFile (p.envelope.cidHex build))).isSome) :
    PutAt req w ⟨made, (putQueueing build cfg p).run⟩
  | done {t : Connection} (finished : t.rest.Finished) : PutAt req w t

/-- In some state that `J` allows for a step that takes the lock of the registry, the handle `h` is
registered under the token that a drain presents, by a registration that lives. -/
def Authorised (J : (Σ γ, Op γ) → World σ → Prop) (req : Value) (h : String) : Prop :=
  ∃ w r, J ⟨_, .lock .reg⟩ w ∧ w.reg.lookup h = some r ∧ env.clock w.tick < r.expires ∧
    ctEq r.token (presentedToken req) = true

/-- Where the thread of a drain is, which takes its steps in states that `J` allows. -/
inductive PopAt (J : (Σ γ, Op γ) → World σ → Prop) (req : Value) : Connection → Prop
  | checking {made : List (Σ β, Op β)} {m : Fallible Op (String × ℕ)} (only : Only GateOp m)
    (closed : Closed mutexes m)
    (yields : Yields mutexes env.handle J (fun x =>
      readHandle build "400 fpop needs handle" req = .ok x.1 ∧ Authorised env J req x.1) m) :
    PopAt J req ⟨made, (m >>= fun x => do
      let out ← drainQueue x.1 x.2 (readMax req)
      return pointersResponse out).run⟩
  | done {t : Connection} (finished : t.rest.Finished) : PopAt J req t

/-- What a step of a drain does: nothing, or its section. -/
inductive PopStep (J : (Σ γ, Op γ) → World σ → Prop) (req : Value) (w w' : World σ)
    (rest rest' : Program Op (Except String Value)) : Prop
  | quiet (untouched : Untouched w w')
    (silent : ¬ rest.Finished → ∀ val, rest' ≠ .ret (.ok val)) : PopStep J req w w' rest rest'
  | drains {h : String} {now : ℕ}
    (handle : readHandle build "400 fpop needs handle" req = .ok h)
    (authorised : Authorised env J req h)
    (rewrites : Rewrites env h
      ((Queues.of w.queues h).drop (drainCount now (readMax req) (Queues.of w.queues h)))
      (popDropped now (readMax req) (Queues.of w.queues h)) w w')
    (result : rest' =
      .ret (.ok (pointersResponse (popOut now (readMax req) (Queues.of w.queues h))))) :
    PopStep J req w w' rest rest'

/-- Where the thread of a registration is. -/
inductive RegAt (req : Value) : Connection → Prop
  | start {made : List (Σ β, Op β)} : RegAt req ⟨made, (runFreg build cfg req).run⟩
  | registering {made : List (Σ β, Op β)} {r : FregRequest} (read : readFreg build req = .ok r)
    (now expires : ℕ) : RegAt req ⟨made, (do
      fregSection cfg r now expires
      return Value.object [("expires", .uint expires), ("token", .string r.token)] :
        Fallible Op Value).run⟩
  | done {t : Connection} (finished : t.rest.Finished) : RegAt req t

/-- Where the thread of a request is. -/
def VerbAt (v : Verb) (w : World σ) (t : Connection) : Prop :=
  match v with
  | .freg req => RegAt build cfg req t
  | .fput req _ => PutAt env build cfg written spared req w t
  | .fpop req _ => PopAt env build (fun _ _ => True) req t

/-- What a step of the thread of `v` does to queues and envelopes. -/
inductive StepEffect (v : Verb) (w w' : World σ) (rest rest' : Program Op (Except String Value)) :
    Prop
  | quiet (queues : w'.queues = w.queues)
    (keeps : ∀ c, (w.dir.lookup (fenvFile c)).isSome → (w'.dir.lookup (fenvFile c)).isSome)
    (silent : ¬ rest.Finished → (∃ val, rest' = .ret (.ok val)) → ∃ req, v = .freg req) :
    StepEffect v w w' rest rest'
  | put {req : Value} {ip : String} {p : Put} {now : ℕ} (verb : v = .fput req ip)
    (running : ¬ rest.Finished) (asked : p.Asked build req) (filed : Filed written p.envelope)
    (present : spared → (w.dir.lookup (fenvFile (p.envelope.cidHex build))).isSome)
    (rewrites : Rewrites env p.key (putKept cfg (p.entry build) now (Queues.of w.queues p.key))
      (putDropped cfg (p.entry build) now (Queues.of w.queues p.key)) w w')
    (result : rest' = .ret (.ok (.object [("queued", .bool true)]))) :
    StepEffect v w w' rest rest'
  | pop {req : Value} {ip h : String} {now : ℕ} (verb : v = .fpop req ip)
    (handle : readHandle build "400 fpop needs handle" req = .ok h)
    (rewrites : Rewrites env h
      ((Queues.of w.queues h).drop (drainCount now (readMax req) (Queues.of w.queues h)))
      (popDropped now (readMax req) (Queues.of w.queues h)) w w')
    (result : rest' =
      .ret (.ok (pointersResponse (popOut now (readMax req) (Queues.of w.queues h))))) :
    StepEffect v w w' rest rest'

/-- A step of the thread of `v` from `t`: the calls made, the rest of the program, and the state. -/
structure Stepped (v : Verb) (w : World σ) (t : Connection)
    (x : List (Σ β, Op β) × Program Op (Except String Value) × World σ) : Prop where
  at_ : VerbAt env build cfg written spared v x.2.2 ⟨t.made ++ x.1, x.2.1⟩
  reg : Registered x.2.2.reg
  effect : StepEffect env build cfg written spared v w x.2.2 t.rest x.2.1

end

section

variable {σ : Type} {env : Env σ} {build : Build} {cfg : FabricConfig} {written : Bytes → Prop}
  {spared : Prop} {w : World σ} {α : Type} {req : Value} {ip : String}

theorem advance_finished {p : Program Op α} (hp : p.Finished) (w : World σ) :
    Program.advance mutexes env.handle p w = ([], p, w) := by
  cases p with
  | ret a => rfl
  | panic q => rfl
  | call e next => exact hp.elim

/-- A step of the checks of a request leaves the relay as it is, but for its rate limiter. -/
theorem advance_gate {J : (Σ γ, Op γ) → World σ → Prop} {Q : α → Prop} {m : Fallible Op α} (hm : Only GateOp m)
    (hc : Closed mutexes m) (hy : Yields mutexes env.handle J Q m) (hrun : ¬ m.run.Finished)
    (f : α → Fallible Op Value) :
    ∃ cs w', ∃ m' : Fallible Op α,
      Program.advance mutexes env.handle (m >>= f).run w = (cs, (m' >>= f).run, w') ∧
      Only GateOp m' ∧ Closed mutexes m' ∧
      ((∀ c, m.run.first = some c → J c w) → Yields mutexes env.handle J Q m') ∧
      Untouched w w' := by
  let x := Program.advance mutexes env.handle m.run w
  have hstep : Program.advance mutexes env.handle (m >>= f).run w =
      (x.1, x.2.1 >>= ExceptT.bindCont f, x.2.2) := Program.advance_bind hc hrun _
  have hun : Untouched w x.2.2 := Program.Calls.advance_invariant (I := fun v => Untouched w v) hm
    (fun _ _ _ he hv => untouched_gateOp he hv) ⟨.refl w, rfl⟩
  exact ⟨x.1, x.2.2, ExceptT.mk x.2.1, hstep, Program.Calls.advance hm,
    Program.sectioned_advance hc, Program.Leads.advance hy, hun⟩

/-- A program whose checks are at their end goes on with what they have returned, or has come to
its end itself. -/
theorem run_gate {J : (Σ γ, Op γ) → World σ → Prop} {Q : α → Prop} {m : Fallible Op α}
    (hy : Yields mutexes env.handle J Q m) (hrun : m.run.Finished) (f : α → Fallible Op Value) :
    (m >>= f).run.Finished ∨ ∃ a, Q a ∧ (m >>= f).run = (f a).run := by
  have hb : (m >>= f).run = m.run >>= ExceptT.bindCont f := rfl
  rw [hb]
  unfold Yields at hy
  rcases hm : m.run with ⟨e | a⟩ | q | ⟨e, next⟩
  · exact .inl trivial
  · rw [hm] at hy
    cases hy with
    | ret ha => exact .inr ⟨a, ha a rfl, rfl⟩
  · exact .inl trivial
  · rw [hm] at hrun
    exact hrun.elim

/-- A thread that has come to its end stays there. -/
theorem stepped_done {v : Verb} {t : Connection} (hreg : Registered w.reg)
    (ht : VerbAt env build cfg written spared v w t) (hdone : t.rest.Finished) :
    Stepped env build cfg written spared v w t (Program.advance mutexes env.handle t.rest w) := by
  rw [advance_finished hdone]
  refine ⟨?_, hreg, .quiet rfl (fun _ => id) fun hrun => absurd hdone hrun⟩
  rw [List.append_nil]
  exact ht

/-- A step that ends a thread without an answer. -/
theorem stepped_quiet {v : Verb} {t : Connection}
    {x : List (Σ β, Op β) × Program Op (Except String Value) × World σ} (hreg : Registered w.reg)
    (hun : Untouched w x.2.2)
    (hat : VerbAt env build cfg written spared v x.2.2 ⟨t.made ++ x.1, x.2.1⟩)
    (hsilent : ∀ val, x.2.1 = .ret (.ok val) → ∃ req, v = .freg req) :
    Stepped env build cfg written spared v w t x := by
  refine ⟨hat, hun.reg ▸ hreg, .quiet hun.queues (fun c hc => ?_) fun _ ⟨val, hval⟩ =>
    hsilent val hval⟩
  rw [hun.dir]
  exact hc

/-! ## Drains -/

/-- A step of a drain. -/
theorem popAt_advance {J : (Σ γ, Op γ) → World σ → Prop} {t : Connection}
    (ht : PopAt env build J req t) :
    ((∀ c, t.rest.first = some c → J c w) → PopAt env build J req ⟨t.made ++ (Program.advance mutexes env.handle t.rest w).1,
        (Program.advance mutexes env.handle t.rest w).2.1⟩) ∧
      PopStep env build J req w (Program.advance mutexes env.handle t.rest w).2.2 t.rest
        (Program.advance mutexes env.handle t.rest w).2.1 := by
  by_cases hdone : t.rest.Finished
  · rw [advance_finished hdone]
    exact ⟨fun _ => .done hdone, .quiet ⟨.refl w, rfl⟩ fun hrun => absurd hdone hrun⟩
  cases ht with
  | done hfin => exact absurd hfin hdone
  | @checking made m hm hc hy =>
    let f (x : String × ℕ) : Fallible Op Value := do
      let out ← drainQueue x.1 x.2 (readMax req)
      return pointersResponse out
    change ¬ (m >>= f).run.Finished at hdone
    change ((∀ c, (m >>= f).run.first = some c → J c w) → PopAt env build J req
        ⟨made ++ (Program.advance mutexes env.handle (m >>= f).run w).1,
          (Program.advance mutexes env.handle (m >>= f).run w).2.1⟩) ∧
      PopStep env build J req w (Program.advance mutexes env.handle (m >>= f).run w).2.2
        (m >>= f).run (Program.advance mutexes env.handle (m >>= f).run w).2.1
    by_cases hrun : m.run.Finished
    -- the gate is not through, and its next operation drains nothing
    swap
    · obtain ⟨cs, w', m', hstep, hm', hc', hy', hun⟩ := advance_gate hm hc hy hrun f
      have hfirst : (m >>= f).run.first = m.run.first := Program.first_bind hrun _
      rw [hstep, hfirst]
      refine ⟨fun hJ => .checking hm' hc' (hy' hJ), .quiet hun fun _ val hval => ?_⟩
      obtain ⟨x, -, hx⟩ := run_bind_eq_ret hval
      cases hx
    -- the gate is through, and the drain is one section
    obtain ⟨⟨h, now⟩, ⟨hh, hauth⟩, heq⟩ := (run_gate hy hrun f).resolve_left hdone
    obtain ⟨w', hexec, -, hrw⟩ := exec_drainQueue env w h now (readMax req)
    obtain ⟨cs, hstep⟩ := (isSection_drainQueue h now (readMax req)).advance_bind hexec
      fun out => (pure (pointersResponse out) : Fallible Op Value)
    rw [heq, hstep]
    exact ⟨fun _ => .done trivial, .drains hh hauth hrw rfl⟩

theorem stepped_fpop {t : Connection} (hreg : Registered w.reg)
    (ht : PopAt env build (fun _ _ => True) req t) :
    Stepped env build cfg written spared (.fpop req ip) w t
      (Program.advance mutexes env.handle t.rest w) := by
  obtain ⟨hat, hstep⟩ := popAt_advance (w := w) ht
  cases hstep with
  | quiet hun hsilent =>
    refine ⟨hat fun _ _ => trivial, hun.reg ▸ hreg, .quiet hun.queues (fun c hc => ?_) fun hrun ⟨val, hval⟩ =>
      absurd hval (hsilent hrun val)⟩
    rw [hun.dir]
    exact hc
  | drains hh hauth hrw hres => exact ⟨hat fun _ _ => trivial, hrw.reg ▸ hreg, .pop rfl hh hrw hres⟩

/-! ## Registrations -/

theorem stepped_freg {t : Connection} (hreg : Registered w.reg) (ht : RegAt build cfg req t) :
    Stepped env build cfg written spared (.freg req) w t
      (Program.advance mutexes env.handle t.rest w) := by
  by_cases hdone : t.rest.Finished
  · exact stepped_done hreg ht hdone
  cases ht with
  | done hfin => exact absurd hfin hdone
  | @start made =>
    rw [runFreg_eq] at hdone ⊢
    rcases hr : readFreg build req with e | r
    · rw [hr] at hdone
      exact absurd trivial hdone
    let k (now : ℕ) : Fallible Op Value := do
      let expires ← orPanic (addU64 build.overflowChecks now (min r.lease cfg.maxLeaseSec))
      fregSection cfg r now expires
      return .object [("expires", .uint expires), ("token", .string r.token)]
    have hun : Untouched w w.next := ⟨w.next_sameMemory, rfl⟩
    have hnext (made : List (Σ β, Op β)) :
        RegAt build cfg req ⟨made, (k (env.clock w.tick)).run⟩ := by
      -- the end of the lease may overflow
      rcases hadd : addU64 build.overflowChecks (env.clock w.tick)
        (min r.lease cfg.maxLeaseSec) with q | expires
      · refine .done ?_
        simp only [k, hadd]
        trivial
      · simp only [k, hadd]
        exact .registering hr _ expires
    exact stepped_quiet (x := ([⟨_, .nowSec⟩], (k (env.clock w.tick)).run, w.next)) hreg hun
      (hnext _) fun _ _ => ⟨req, rfl⟩
  | @registering made r hr now expires =>
    obtain ⟨w', res, hexec⟩ := (isSection_fregSection cfg r now expires).total env w
    obtain ⟨cs, hstep⟩ := (isSection_fregSection cfg r now expires).advance_bind hexec
      fun _ => (pure (Value.object [("expires", .uint expires), ("token", .string r.token)]) :
        Fallible Op Value)
    have hkept : w'.dir = w.dir ∧ w'.queues = w.queues := by
      rw [exec_fregSection] at hexec
      dsimp only at hexec
      split at hexec <;>
      · obtain ⟨rfl, -⟩ := Prod.mk.inj hexec
        exact ⟨rfl, rfl⟩
    have hreg' : Registered w'.reg := by
      have hnext : Registered (exec env.handle (fregSection cfg r now expires) w).1.reg :=
        registered_fregSection hreg hr now expires
      rwa [hexec] at hnext
    dsimp only
    rw [hstep]
    refine ⟨RegAt.done ?_, hreg', .quiet hkept.2 (fun c hc => ?_) fun _ _ => ⟨req, rfl⟩⟩
    · cases res <;> trivial
    · rw [hkept.1]
      exact hc

/-! ## Puts -/

theorem putWriting_eq (build : Build) (cfg : FabricConfig) (p : Put) :
    putWriting build cfg p = (do
      let written ← ask (.write (tmpFile (p.envelope.cidHex build)) (marshalEnvelope p.envelope))
      orFail (written.mapError fun e => s!"500 envelope write: {e}")
      putRenaming build cfg p) := by
  simp only [putWriting, persistEnvelope, putRenaming, bind_assoc]

/-- A put that has passed its checks comes to its end without an answer, or makes its envelope. -/
theorem putStoring_cases (build : Build) (cfg : FabricConfig) (handle : U8Array 32)
    (pointer : Pointer) (now : ℕ) :
    (putStoring build cfg (Hex.encode handle.toList, pointer, now)).run.Finished ∧
        (∀ val, (putStoring build cfg (Hex.encode handle.toList, pointer, now)).run ≠
          .ret (.ok val)) ∨
      putStoring build cfg (Hex.encode handle.toList, pointer, now) =
        (ask .nowSec >>= fun receivedAt => putWriting build cfg ⟨handle, pointer, receivedAt⟩) := by
  rcases hadd : addU64 build.overflowChecks now cfg.maxDeadlineHorizonSec with q | horizon
  · left
    rw [putStoring, fputStore, hadd]
    exact ⟨trivial, fun _ h => by cases h⟩
  by_cases hle : pointer.deadline ≤ horizon
  · right
    rw [putStoring, fputStore_eq hadd hle]
    simp only [putWriting, putQueueing, bind_assoc]
  · left
    rw [putStoring, fputStore_beyond hadd hle]
    exact ⟨trivial, fun _ h => by cases h⟩

theorem putQueueing_silent (build : Build) (cfg : FabricConfig) (p : Put) (val : Value) :
    (putQueueing build cfg p).run ≠ .ret (.ok val) := nofun

/-- What a move of an envelope to its place does. -/
theorem Env.rename_envelope (env : Env σ) (w : World σ) (c : String) :
    SameMemory w (env.rename w (tmpFile c) (fenvFile c)).1 ∧
      (∀ c', (w.dir.lookup (fenvFile c')).isSome →
        ((env.rename w (tmpFile c) (fenvFile c)).1.dir.lookup (fenvFile c')).isSome) ∧
      ((env.rename w (tmpFile c) (fenvFile c)).2 = .ok () →
        ((env.rename w (tmpFile c) (fenvFile c)).1.dir.lookup (fenvFile c)).isSome) := by
  unfold Env.rename
  split
  · exact ⟨w.next_sameMemory, fun _ => id, nofun⟩
  split
  · exact ⟨w.next_sameMemory, fun _ => id, nofun⟩
  · refine ⟨⟨rfl, rfl, rfl, Nat.le_succ _⟩, fun c' hc' => ?_, fun _ => ?_⟩
    · dsimp only
      rw [Table.lookup_insert_eq]
      split
      · rfl
      · rw [Table.lookup_erase_eq, if_neg (tmpFile_ne_fenvFile c c').symm]
        exact hc'
    · dsimp only
      rw [AList.lookup_insert]
      rfl

/-- What a write of an envelope to its temporary file does. -/
theorem Env.write_envelope (env : Env σ) (w : World σ) (c : String) (raw : Bytes) :
    SameMemory w (env.write w (tmpFile c) raw).1 ∧
      ∀ c', (env.write w (tmpFile c) raw).1.dir.lookup (fenvFile c') =
        w.dir.lookup (fenvFile c') := by
  have hne (c' : String) : fenvFile c' ≠ tmpFile c := (tmpFile_ne_fenvFile c c').symm
  unfold Env.write
  split
  · exact ⟨⟨rfl, rfl, rfl, Nat.le_succ _⟩, fun c' => AList.lookup_insert_ne (hne c')⟩
  split
  · exact ⟨w.next_sameMemory, fun _ => rfl⟩
  · exact ⟨⟨rfl, rfl, rfl, Nat.le_succ _⟩, fun c' => AList.lookup_insert_ne (hne c')⟩

theorem stepped_queueing {made : List (Σ β, Op β)} {p : Put} (hreg : Registered w.reg)
    (hp : p.Asked build req) (hfiled : Filed written p.envelope)
    (hin : spared → (w.dir.lookup (fenvFile (p.envelope.cidHex build))).isSome) :
    Stepped env build cfg written spared (.fput req ip) w ⟨made, (putQueueing build cfg p).run⟩
      (Program.advance mutexes env.handle (putQueueing build cfg p).run w) := by
  obtain ⟨w', t, hexec, -, -, -, hrw⟩ := exec_putQueue env w cfg p.key (p.entry build)
  obtain ⟨cs, hstep⟩ := (isSection_putQueue cfg p.key (p.entry build)).advance_bind hexec
    fun _ => (pure (.object [("queued", .bool true)]) : Fallible Op Value)
  rw [putQueueing, hstep]
  exact ⟨PutAt.done trivial, hrw.reg ▸ hreg, .put rfl id hp hfiled hin hrw rfl⟩

theorem stepped_renaming {made : List (Σ β, Op β)} {p : Put} (hreg : Registered w.reg)
    (hp : p.Asked build req) (hfiled : Filed written p.envelope) :
    Stepped env build cfg written spared (.fput req ip) w ⟨made, (putRenaming build cfg p).run⟩
      (Program.advance mutexes env.handle (putRenaming build cfg p).run w) := by
  let c := p.envelope.cidHex build
  let call : Op (Except String Unit) := .rename (tmpFile c) (fenvFile c)
  let k (renamed : Except String Unit) : Fallible Op Value := do
    orFail (renamed.mapError fun e => s!"500 envelope rename: {e}")
    putQueueing build cfg p
  have hstep : Program.advance mutexes env.handle (putRenaming build cfg p).run w =
      ([⟨_, call⟩], (k (env.rename w (tmpFile c) (fenvFile c)).2).run,
        (env.rename w (tmpFile c) (fenvFile c)).1) := advance_ask_bind rfl k
  obtain ⟨hmem, hkeeps, hin⟩ := env.rename_envelope w c
  rw [hstep]
  refine ⟨?_, hmem.reg ▸ hreg, .quiet hmem.queues hkeeps fun _ ⟨val, hval⟩ => ?_⟩
  · change PutAt env build cfg written spared req _
      ⟨_, (k (env.rename w (tmpFile c) (fenvFile c)).2).run⟩
    rcases hres : (env.rename w (tmpFile c) (fenvFile c)).2 with e | ⟨⟩
    · exact .done trivial
    · refine .queueing hp hfiled ?_ fun _ => hin hres
      rw [List.filterMap_append]
      exact List.mem_append_right _ List.mem_cons_self
  · obtain ⟨-, -, hend⟩ := run_bind_eq_ret hval
    exact absurd hend (putQueueing_silent build cfg p val)

theorem stepped_writing {made : List (Σ β, Op β)} {p : Put} (hreg : Registered w.reg)
    (hp : p.Asked build req)
    (hw : ∀ b ∈ (Program.advance mutexes env.handle (putWriting build cfg p).run w).1.filterMap
      writtenBy, written b) :
    Stepped env build cfg written spared (.fput req ip) w ⟨made, (putWriting build cfg p).run⟩
      (Program.advance mutexes env.handle (putWriting build cfg p).run w) := by
  let c := p.envelope.cidHex build
  let raw := marshalEnvelope p.envelope
  let call : Op (Except String Unit) := .write (tmpFile c) raw
  let k (written : Except String Unit) : Fallible Op Value := do
    orFail (written.mapError fun e => s!"500 envelope write: {e}")
    putRenaming build cfg p
  have hstep : Program.advance mutexes env.handle (putWriting build cfg p).run w =
      ([⟨_, call⟩], (k (env.write w (tmpFile c) raw).2).run, (env.write w (tmpFile c) raw).1) := by
    rw [putWriting_eq]
    exact advance_ask_bind rfl k
  obtain ⟨hmem, hsame⟩ := env.write_envelope w c raw
  rw [hstep] at hw ⊢
  have hfiled : Filed written p.envelope :=
    ⟨hw raw List.mem_cons_self, fputPointer_ok hp.pointer, hp.arrived⟩
  refine ⟨?_, hmem.reg ▸ hreg, .quiet hmem.queues (fun c' hc' => ?_) fun _ ⟨val, hval⟩ => ?_⟩
  · change PutAt env build cfg written spared req _ ⟨_, (k (env.write w (tmpFile c) raw).2).run⟩
    -- a write that has failed ends the request
    rcases (env.write w (tmpFile c) raw).2 with e | ⟨⟩
    · exact .done trivial
    · exact .moving hp hfiled
  · rw [hsame]
    exact hc'
  · obtain ⟨-, -, hend⟩ := run_bind_eq_ret hval
    cases hend

theorem stepped_fput {t : Connection} (hreg : Registered w.reg)
    (ht : PutAt env build cfg written spared req w t)
    (hw : ∀ b ∈ (Program.advance mutexes env.handle t.rest w).1.filterMap writtenBy, written b) :
    Stepped env build cfg written spared (.fput req ip) w t
      (Program.advance mutexes env.handle t.rest w) := by
  by_cases hdone : t.rest.Finished
  · exact stepped_done hreg ht hdone
  cases ht with
  | done hfin => exact absurd hfin hdone
  | writing hp => exact stepped_writing hreg hp hw
  | moving hp hfiled => exact stepped_renaming hreg hp hfiled
  | queueing hp hfiled hmoved hin => exact stepped_queueing hreg hp hfiled hin
  | @checking made m hm hc hy =>
    let f := putStoring build cfg
    change ¬ (m >>= f).run.Finished at hdone
    change Stepped env build cfg written spared (.fput req ip) w ⟨made, (m >>= f).run⟩
      (Program.advance mutexes env.handle (m >>= f).run w)
    by_cases hrun : m.run.Finished
    -- the gate is not through, and its next operation stores nothing
    swap
    · obtain ⟨cs, w', m', hstep, hm', hc', hy', hun⟩ := advance_gate hm hc hy hrun f
      replace hy' := hy' fun _ _ => hreg
      rw [hstep]
      refine stepped_quiet hreg hun (PutAt.checking hm' hc' hy') fun val hval => ?_
      obtain ⟨x, hx, hend⟩ := run_bind_eq_ret hval
      rw [Yields, hx] at hy'
      cases hy' with
      | ret hQ =>
        obtain ⟨h, pointer, now⟩ := x
        obtain ⟨-, -, handle, rfl⟩ := hQ _ rfl
        rcases putStoring_cases build cfg handle pointer now with ⟨-, hnone⟩ | hask
        · exact absurd hend (hnone val)
        · change (putStoring build cfg _).run = _ at hend
          rw [hask] at hend
          cases hend
    -- the gate is through, and the clock is read for the envelope
    obtain ⟨⟨h, pointer, now⟩, ⟨hh, hptr, handle, rfl⟩, heq⟩ := (run_gate hy hrun f).resolve_left hdone
    rw [heq] at hdone ⊢
    have hask := (putStoring_cases build cfg handle pointer now).resolve_left fun hend =>
      hdone hend.1
    change Stepped env build cfg written spared (.fput req ip) w ⟨made, (putStoring build cfg _).run⟩
      (Program.advance mutexes env.handle (putStoring build cfg _).run w)
    rw [hask]
    have hun : Untouched w w.next := ⟨w.next_sameMemory, rfl⟩
    have hasked : (⟨handle, pointer, env.clock w.tick⟩ : Put).Asked build req :=
      ⟨hh, hptr, env.clock_lt _⟩
    exact stepped_quiet (x := ([⟨_, .nowSec⟩],
      (putWriting build cfg ⟨handle, pointer, env.clock w.tick⟩).run, w.next)) hreg hun
      (PutAt.writing hasked) fun val hval => by
        rw [putWriting_eq] at hval
        cases hval

/-! ## Requests -/

/-- **What a step of a request does.** -/
theorem stepped_verb {v : Verb} {t : Connection} (hreg : Registered w.reg)
    (ht : VerbAt env build cfg written spared v w t)
    (hw : ∀ b ∈ (Program.advance mutexes env.handle t.rest w).1.filterMap writtenBy, written b) :
    Stepped env build cfg written spared v w t
      (Program.advance mutexes env.handle t.rest w) := by
  cases v with
  | freg req => exact stepped_freg hreg ht
  | fput req ip => exact stepped_fput hreg ht hw
  | fpop req ip => exact stepped_fpop hreg ht

/-- A request starts with its checks. -/
theorem verbAt_start (v : Verb) (w : World σ) :
    VerbAt env build cfg written spared v w ⟨[], (v.run build cfg).run⟩ := by
  cases v with
  | freg req => exact RegAt.start
  | fput req ip =>
    have heq : runFput build cfg req ip = fputGate build cfg req ip >>= putStoring build cfg := rfl
    rw [Verb.run, heq]
    refine PutAt.checking (tidy_fputGate build cfg req ip).only closed_fputGate ?_
    refine yields_fputGate.mono fun x hx => ?_
    obtain ⟨hh, hp, w', r, hreg, hr⟩ := hx
    exact ⟨hh, hp, (hreg _ r hr).1⟩
  | fpop req ip =>
    rw [Verb.run, runFpop_eq]
    exact PopAt.checking (tidy_fpopGate build cfg req ip).only closed_fpopGate
      yields_fpopGate

end

end SporePeer
