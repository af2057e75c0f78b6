import SporePeer.Fabric.Queueing

/-!
# Runs of a relay

A relay is a process on a directory. It starts on whatever the directory holds, handles requests
one at a time, and may be cut off inside a request; then it is down until it is started again,
with the knobs of that start.

## Main definitions

* `Verb`, `Verb.run`: the requests
* `Step`, `Relay`, `Relay.step`, `Relay.run`: what happens to a relay
* `Relay.writes`: what a run writes to files
* `opened`, `serve`, `before`: a relay that starts on an empty directory, and its state after
  requests and before one of them

## Main results

* `Verb.exec_cases`: what a request can do to queues and directory
* `Relay.run_invariant`: what every step preserves, every run preserves
* `registered_verb`: the registry after a request
-/

namespace SporePeer

open Effects Text Bytes

/-- The requests to a relay. -/
inductive Verb
  | freg (req : Value)
  | fput (req : Value) (ip : String)
  | fpop (req : Value) (ip : String)

def Verb.run (build : Build) (cfg : FabricConfig) : Verb → Fallible Op Value
  | .freg req => runFreg build cfg req
  | .fput req ip => runFput build cfg req ip
  | .fpop req ip => runFpop build cfg req ip

/-- What happens to a relay: a request, a crash inside a request after so many calls, a start. -/
inductive Step
  | verb (v : Verb)
  | crash (v : Verb) (calls : ℕ)
  | start (cfg : FabricConfig)

/-- A relay, with the knobs of the running process if there is one. -/
structure Relay (σ : Type) where
  world : World σ
  cfg : Option FabricConfig

/-- A relay that was never started, on an empty directory. -/
def Relay.fresh {σ : Type} (peer : σ) : Relay σ := ⟨World.fresh peer, none⟩

namespace Relay

variable {σ : Type} (env : Env σ) (build : Build)

/-- A process that is down handles no request. A start that unwinds leaves it down. -/
def step (r : Relay σ) : Step → Relay σ
  | .verb v =>
    match r.cfg with
    | some cfg => ⟨(exec env.handle (v.run build cfg) r.world).1, r.cfg⟩
    | none => r
  | .crash v calls =>
    match r.cfg with
    | some cfg => ⟨(cutOff env.handle calls (v.run build cfg) r.world).2, none⟩
    | none => r
  | .start cfg =>
    match exec env.handle (fabricOpen build cfg) r.world with
    | (w, .ok (.ok ())) => ⟨w, some cfg⟩
    | (w, _) => ⟨w, none⟩

def run (r : Relay σ) (steps : List Step) : Relay σ := steps.foldl (step env build) r

/-- What a step writes to files. -/
def stepWrites (r : Relay σ) : Step → List Bytes
  | .verb v => r.cfg.elim [] fun cfg => written env (v.run build cfg) r.world
  | .crash v calls =>
    r.cfg.elim [] fun cfg =>
      (cutOff env.handle calls (v.run build cfg) r.world).1.filterMap writtenBy
  | .start _ => []

/-- What a run writes to files. -/
def writes (r : Relay σ) : List Step → List Bytes
  | [] => []
  | s :: steps => stepWrites env build r s ++ writes (step env build r s) steps

/-- Every step of a run meets the condition `C` in the state in which it is taken. -/
def Along (C : Relay σ → Step → Prop) (r : Relay σ) : List Step → Prop
  | [] => True
  | s :: steps => C r s ∧ Along C (step env build r s) steps

end Relay

/-- The state of a relay after the requests `vs`. -/
def serve {σ : Type} (env : Env σ) (build : Build) (cfg : FabricConfig) (w : World σ)
    (vs : List Verb) : World σ :=
  vs.foldl (fun w v => (exec env.handle (v.run build cfg) w).1) w

/-- The state before request `j` of the requests `vs`. -/
def before {σ : Type} (env : Env σ) (build : Build) (cfg : FabricConfig) (w : World σ)
    (vs : List Verb) (j : ℕ) : World σ :=
  serve env build cfg w (vs.take j)

/-- The state of a relay that has started on an empty directory. -/
def opened {σ : Type} (env : Env σ) (build : Build) (cfg : FabricConfig) (peer : σ) : World σ :=
  (exec env.handle (fabricOpen build cfg) (World.fresh peer)).1

section

variable {σ : Type} {env : Env σ} {build : Build} {cfg : FabricConfig} {w : World σ}

/-! ## Steps -/

/-- A registration touches neither queues nor directory. -/
theorem exec_runFreg_frame (env : Env σ) (build : Build) (cfg : FabricConfig) (w : World σ)
    (req : Value) :
    (exec env.handle (runFreg build cfg req) w).1.dir = w.dir ∧
      (exec env.handle (runFreg build cfg req) w).1.queues = w.queues ∧
      w.tick ≤ (exec env.handle (runFreg build cfg req) w).1.tick := by
  refine (only_runFreg build cfg req).invariant
    (I := fun v : World σ => v.dir = w.dir ∧ v.queues = w.queues ∧ w.tick ≤ v.tick)
    (fun γ e v he hv => ?_) ⟨rfl, rfl, le_rfl⟩
  obtain ⟨hd, hq, ht⟩ := hv
  cases e with
  | nowSec => exact ⟨hd, hq, ht.trans (Nat.le_succ _)⟩
  | lock m => exact ⟨hd, hq, ht⟩
  | unlock m => exact ⟨hd, hq, ht⟩
  | getReg => exact ⟨hd, hq, ht⟩
  | setReg reg => exact ⟨hd, hq, ht⟩
  | getLastSweep => exact ⟨hd, hq, ht⟩
  | setLastSweep sec => exact ⟨hd, hq, ht⟩
  | _ => exact he.elim

/-- A request leaves queues and directory alone, or is an accepted put or drain. -/
theorem Verb.exec_cases {P : World σ → Prop} (hreg : Registered w.reg) (v : Verb)
    (hfreg : ∀ req, v = .freg req → P (exec env.handle (runFreg build cfg req) w).1)
    (hun : ∀ w', Unstored env w w' → P w')
    (hput : ∀ req ip p now w', v = .fput req ip →
      Accepted env build cfg req ip p now w w' → P w')
    (hpop : ∀ req ip h now w', v = .fpop req ip → Drained env build req h now w w' → P w') :
    P (exec env.handle (v.run build cfg) w).1 := by
  cases v with
  | freg req => exact hfreg req rfl
  | fput req ip =>
    rcases exec_runFput env build cfg req ip hreg with
      ⟨p, now, -, h⟩ | ⟨-, h⟩
    · exact hput req ip p now _ rfl h
    · exact hun _ h
  | fpop req ip =>
    rcases exec_runFpop env w build cfg req ip with
      ⟨h, now, -, hd⟩ | ⟨-, h⟩
    · exact hpop req ip h now _ rfl hd
    · exact hun _ h.unstored

/-! ## Runs -/

theorem serve_append_singleton (env : Env σ) (build : Build) (cfg : FabricConfig) (w : World σ)
    (vs : List Verb) (v : Verb) : serve env build cfg w (vs ++ [v]) =
      (exec env.handle (v.run build cfg) (serve env build cfg w vs)).1 := by
  rw [serve, List.foldl_append]
  rfl

/-- What every request preserves, the requests of a run preserve. -/
theorem serve_invariant {I : World σ → Prop} {vs : List Verb}
    (hstep : ∀ w, ∀ v ∈ vs, I w → I (exec env.handle (v.run build cfg) w).1) (hw : I w) :
    I (serve env build cfg w vs) := by
  induction vs generalizing w with
  | nil => exact hw
  | cons v vs ih =>
    exact ih (fun w v hv => hstep w v (List.mem_cons_of_mem _ hv))
      (hstep w v List.mem_cons_self hw)

/-- What every request that meets its condition preserves holds before each of such requests. -/
theorem before_along {C : World σ → Verb → Prop} {I : World σ → Prop} {vs : List Verb}
    (hstep : ∀ w v, C w v → I w → I (exec env.handle (v.run build cfg) w).1)
    (hC : ∀ j v, vs[j]? = some v → C (before env build cfg w vs j) v) (hw : I w) (j : ℕ) :
    I (before env build cfg w vs j) := by
  induction vs generalizing w j with
  | nil =>
    rw [before, List.take_nil]
    exact hw
  | cons v vs ih =>
    cases j with
    | zero => exact hw
    | succ j => exact ih (fun j u hu => hC (j + 1) u hu) (hstep w v (hC 0 v rfl) hw) j

/-- What every request that meets its condition preserves, such requests preserve. -/
theorem serve_along {C : World σ → Verb → Prop} {I : World σ → Prop} {vs : List Verb}
    (hstep : ∀ w v, C w v → I w → I (exec env.handle (v.run build cfg) w).1)
    (hC : ∀ j v, vs[j]? = some v → C (before env build cfg w vs j) v) (hw : I w) :
    I (serve env build cfg w vs) := by
  have hlast := before_along hstep hC hw vs.length
  rwa [before, List.take_length] at hlast

theorem Relay.run_append (r : Relay σ) (steps more : List Step) :
    r.run env build (steps ++ more) = (r.run env build steps).run env build more :=
  List.foldl_append

theorem Relay.writes_append (r : Relay σ) (steps more : List Step) :
    r.writes env build (steps ++ more) =
      r.writes env build steps ++ (r.run env build steps).writes env build more := by
  induction steps generalizing r with
  | nil => rfl
  | cons s steps ih =>
    show _ ++ (r.step env build s).writes env build (steps ++ more) = _
    rw [ih, ← List.append_assoc]
    rfl

/-- A running relay writes what its request writes. -/
theorem Relay.writes_verb {r : Relay σ} (hup : r.cfg = some cfg) (v : Verb) :
    r.writes env build [.verb v] = written env (v.run build cfg) r.world := by
  show r.stepWrites env build (.verb v) ++ [] = _
  rw [List.append_nil, Relay.stepWrites, hup]
  rfl

/-- What every step preserves, every run preserves. The steps may rely on what the run writes. -/
theorem Relay.run_invariant {I : Relay σ → Prop} {written : Bytes → Prop} {steps : List Step}
    (hstep : ∀ r, ∀ s ∈ steps, (∀ b ∈ r.stepWrites env build s, written b) → I r →
      I (r.step env build s))
    {r : Relay σ} (hwrites : ∀ b ∈ r.writes env build steps, written b) (hr : I r) :
    I (r.run env build steps) := by
  induction steps generalizing r with
  | nil => exact hr
  | cons s steps ih =>
    rw [Relay.writes, List.forall_mem_append] at hwrites
    exact ih (fun r s hs => hstep r s (List.mem_cons_of_mem _ hs)) hwrites.2
      (hstep r s List.mem_cons_self hwrites.1 hr)

/-- What every step preserves, every run preserves. -/
theorem Relay.run_induction {I : Relay σ → Prop} {steps : List Step} {r : Relay σ}
    (hstep : ∀ r, ∀ s ∈ steps, I r → I (r.step env build s)) (hr : I r) :
    I (r.run env build steps) :=
  Relay.run_invariant (fun r s hs _ => hstep r s hs) (fun _ _ => trivial) hr

/-- What every step that meets its condition preserves, a run of such steps preserves. -/
theorem Relay.run_along {C : Relay σ → Step → Prop} {I : Relay σ → Prop}
    (hstep : ∀ r s, C r s → I r → I (r.step env build s)) {steps : List Step} {r : Relay σ}
    (hC : r.Along env build C steps) (hr : I r) : I (r.run env build steps) := by
  induction steps generalizing r with
  | nil => exact hr
  | cons s steps ih => exact ih hC.2 (hstep r s hC.1 hr)

/-- Up to a crash, the registry is a well-formed one. -/
theorem registered_verb (h : Registered w.reg) (v : Verb) :
    Registered (exec env.handle (v.run build cfg) w).1.reg := by
  cases v with
  | freg req => exact registered_runFreg h
  | fput req ip =>
    change Registered (exec env.handle (runFput build cfg req ip) w).1.reg
    rw [(reg_of_queueOp (only_runFput build cfg req ip)).1]
    exact h
  | fpop req ip =>
    change Registered (exec env.handle (runFpop build cfg req ip) w).1.reg
    rw [(reg_of_queueOp (tidy_runFpop build cfg req ip).only).1]
    exact h

end

/-! ## Requests -/

/-- A system without failures whose clock jumps from `sec` to `sec'` at its call `k`. -/
def Env.jump {σ : Type} (net : σ → Bytes → σ × Except String Bytes) (sec sec' : Fin (2 ^ 64))
    (k : ℕ) : Env σ :=
  { Env.still net sec with
    clock := fun t => if t < k then sec else sec'
    clock_lt := fun t => by split <;> exact Fin.isLt _ }

/-- The request that registers a handle. -/
def fregRequest (handle : U8Array 32) (token : String) (lease : ℕ) : Value :=
  .object [("handle", .string (Hex.encode handle.toList)), ("lease", .uint lease),
    ("token", .string token)]

/-- The request that queues a pointer. -/
def fputRequest (handle : U8Array 32) (p : Pointer) : Value :=
  .object [("handle", .string (Hex.encode handle.toList)),
    ("pointer_hex", .string (Hex.encode p.toList))]

/-- The request that drains a queue. -/
def fpopRequest (handle : U8Array 32) (token : String) (max : ℕ) : Value :=
  .object [("handle", .string (Hex.encode handle.toList)), ("max", .uint max),
    ("token", .string token)]

/-- A pointer, by the byte its content hash is made of and its deadline. -/
def pointerOf (cid : UInt8) (deadline : ℕ) : Pointer :=
  ⟨[1, 0] ++ List.replicate 32 0 ++ List.replicate 32 cid ++ toLe 8 deadline, by
    simp only [List.length_append, List.length_replicate, length_toLe, List.length_cons,
      List.length_nil, pointerLen]⟩

/-- A build whose hash is the end of its input, so that it separates envelopes that differ in the
end of their pointer or in their arrival. -/
def Build.trailing : Build :=
  { Build.const (.replicate 32 0) with
    sha256 := fun b => ⟨(b.reverse ++ List.replicate 32 0).take 32, by simp⟩ }

end SporePeer
