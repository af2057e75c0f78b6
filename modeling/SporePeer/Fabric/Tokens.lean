import SporePeer.Fabric.Eviction

/-!
# Tokens

A registration that lives answers to its token alone: without it, no request replaces the
registration, and none drains its queue.

## Main definitions

* `Verb.Carries`: a request that shows a token

## Main results

* `kept_verb`: a request without the token leaves a living registration as it is
* `kept_run`: so do all requests of a run
-/

namespace SporePeer

open Effects Text Bytes

/-! ## Requests -/

/-- The token that a request shows under the name `field`, if it is a text. -/
def shown (req : Value) (field : String) : Option String := (req.get field).bind Value.asStr

/-- The request carries the token `T`, as its token or as its previous one. -/
def Verb.Carries (T : String) : Verb → Prop
  | .freg req => shown req "token" = some T ∨ shown req "prev_token" = some T
  | .fput req _ => shown req "token" = some T ∨ shown req "prev_token" = some T
  | .fpop req _ => shown req "token" = some T ∨ shown req "prev_token" = some T

instance (T : String) (v : Verb) : Decidable (v.Carries T) :=
  match v with
  | .freg _ => inferInstanceAs (Decidable (_ ∨ _))
  | .fput _ _ => inferInstanceAs (Decidable (_ ∨ _))
  | .fpop _ _ => inferInstanceAs (Decidable (_ ∨ _))

section

variable {σ : Type} {env : Env σ} {build : Build} {cfg : FabricConfig} {w : World σ} {h : String}
  {r : Registration}

/-- A token that is not shown is not presented, not even by default. -/
theorem not_presented {req : Value} {field T : String} (hT : 16 ≤ T.utf8ByteSize)
    (hno : shown req field ≠ some T) : (shown req field).getD "" ≠ T := by
  rintro rfl
  rcases hs : shown req field with _ | s
  · rw [hs] at hT
    exact absurd hT (by decide)
  · rw [hs] at hno
    exact hno rfl

/-- A sweep spares what lives. -/
theorem lookup_sweptReg {now : ℕ} (hlook : w.reg.lookup h = some r) (hlive : now < r.expires) :
    (sweptReg w now).lookup h = some r := by
  unfold sweptReg
  split
  · rw [Table.lookup_retain, hlook, Option.filter_some, decide_eq_true hlive, if_pos rfl]
  · exact hlook

/-- Without the token of a living registration, the handle is not registered again. -/
theorem fregGate_refuses {reg : Table String Registration} {prev : String} {now : ℕ}
    (hlook : reg.lookup h = some r) (hlive : now < r.expires) (hprev : prev ≠ r.token) :
    fregGate cfg reg h prev now = .error "403 live registration: prev_token required" := by
  have hno : ¬ ctEq r.token prev = true := fun he => hprev (ctEq_iff.mp he).symm
  rw [fregGate, hlook, Option.filter_some, decide_eq_true hlive, if_pos rfl]
  exact if_neg hno

theorem readFreg_prevToken {req : Value} {r : FregRequest} (hr : readFreg build req = .ok r) :
    r.prevToken = (shown req "prev_token").getD "" := by
  unfold readFreg at hr
  split at hr
  · cases hr
  split at hr
  · cases hr
  split at hr
  · cases hr
  split at hr
  · cases hr
  · cases hr
    rfl

/-- A `freg` with the right fields reads the clock. -/
theorem lt_tick_runFreg {req : Value} {q : FregRequest} (hq : readFreg build req = .ok q) :
    w.tick < (exec env.handle (runFreg build cfg req) w).1.tick := by
  rw [exec_runFreg, hq]
  dsimp only
  split
  · exact Nat.lt_succ_self _
  · split <;> exact Nat.lt_succ_self _

/-- A `freg` without the token leaves a living registration as it is. -/
theorem kept_freg {req : Value} (hlook : w.reg.lookup h = some r)
    (hlive : ∀ q, readFreg build req = .ok q → env.clock w.tick < r.expires)
    (hT : 16 ≤ r.token.utf8ByteSize) (hno : shown req "prev_token" ≠ some r.token) :
    (exec env.handle (runFreg build cfg req) w).1.reg.lookup h = some r := by
  rw [exec_runFreg]
  split
  · exact hlook
  rename_i q hq
  have hlive := hlive q hq
  have hswept := lookup_sweptReg hlook hlive
  dsimp only
  split
  · exact hlook
  split
  · exact hswept
  rename_i hgate
  dsimp only
  rw [Table.lookup_insert_eq]
  split
  · rename_i hh
    -- the request does not present the token of the lease
    have hprev : q.prevToken ≠ r.token := by
      rw [readFreg_prevToken hq]
      exact not_presented hT hno
    rw [← hh, fregGate_refuses hswept hlive hprev] at hgate
    cases hgate
  · exact hswept

/-- An `fpop` without the token is refused, and drains nothing. -/
theorem refused_fpop {req : Value} {ip : String}
    (hread : readHandle build "400 fpop needs handle" req = .ok h)
    (hlook : w.reg.lookup h = some r) (hT : 16 ≤ r.token.utf8ByteSize)
    (hno : shown req "token" ≠ some r.token) :
    ¬ Succeeds (exec env.handle (runFpop build cfg req ip) w).2 ∧
      (exec env.handle (runFpop build cfg req ip) w).1.queues = w.queues := by
  rcases exec_runFpop env w build cfg req ip with ⟨k, now, -, hd⟩ | ⟨hres, hun⟩
  · exfalso
    obtain ⟨r', t, hr', -, -, -, htoken⟩ := hd.authorised
    obtain rfl : k = h := Except.ok.inj (hd.handle.symm.trans hread)
    rw [hlook, Option.some.injEq] at hr'
    subst r'
    exact not_presented hT hno (ctEq_iff.mp htoken).symm
  · exact ⟨fun ⟨v, hv⟩ => hres v hv, hun.queues⟩

/-- **A request without the token.** It leaves a living registration as it is, and if it is an
`fpop` of the handle, it fails and drains nothing. -/
theorem kept_verb {v : Verb} (hreg : Registered w.reg) (hlook : w.reg.lookup h = some r)
    (hlive : ∀ t, w.tick ≤ t → t < (exec env.handle (v.run build cfg) w).1.tick →
      env.clock t < r.expires)
    (hno : ¬ v.Carries r.token) :
    (exec env.handle (v.run build cfg) w).1.reg.lookup h = some r ∧
      ∀ req ip, v = .fpop req ip → readHandle build "400 fpop needs handle" req = .ok h →
        ¬ Succeeds (exec env.handle (v.run build cfg) w).2 ∧
          (exec env.handle (v.run build cfg) w).1.queues = w.queues := by
  have hT := (hreg h r hlook).2
  cases v with
  | freg req =>
    refine ⟨kept_freg hlook (fun q hq => ?_) hT fun hs => hno (.inr hs), nofun⟩
    exact hlive w.tick le_rfl (lt_tick_runFreg hq)
  | fput req ip =>
    refine ⟨?_, nofun⟩
    change (exec env.handle (runFput build cfg req ip) w).1.reg.lookup h = some r
    rw [(reg_of_queueOp (only_runFput build cfg req ip)).1]
    exact hlook
  | fpop req ip =>
    refine ⟨?_, ?_⟩
    · change (exec env.handle (runFpop build cfg req ip) w).1.reg.lookup h = some r
      rw [(reg_of_queueOp (tidy_runFpop build cfg req ip).only).1]
      exact hlook
    · rintro req' ip' hv hread
      cases hv
      exact refused_fpop hread hlook hT fun hs => hno (.inl hs)

theorem tick_le_serve (env : Env σ) (build : Build) (cfg : FabricConfig) (w : World σ)
    (vs : List Verb) : w.tick ≤ (serve env build cfg w vs).tick :=
  serve_invariant (I := fun v => w.tick ≤ v.tick)
    (fun u v _ hu => hu.trans (tick_le_exec env (v.run build cfg) u)) le_rfl

theorem kept_serve {vs : List Verb} (hreg : Registered w.reg) (hlook : w.reg.lookup h = some r)
    (hlive : ∀ t, w.tick ≤ t → t < (serve env build cfg w vs).tick → env.clock t < r.expires)
    (hno : ∀ v ∈ vs, ¬ v.Carries r.token) {j : ℕ} (hj : j ≤ vs.length) :
    (before env build cfg w vs j).reg.lookup h = some r ∧
      ∀ req ip, vs[j]? = some (.fpop req ip) →
        readHandle build "400 fpop needs handle" req = .ok h →
        ¬ Succeeds (exec env.handle (runFpop build cfg req ip) (before env build cfg w vs j)).2 ∧
          (before env build cfg w vs (j + 1)).queues = (before env build cfg w vs j).queues := by
  induction vs generalizing w j with
  | nil =>
    obtain rfl : j = 0 := Nat.le_zero.mp hj
    exact ⟨hlook, nofun⟩
  | cons v vs ih =>
    have hreg' : Registered (exec env.handle (v.run build cfg) w).1.reg := registered_verb hreg v
    obtain ⟨hkept, hpop⟩ := kept_verb hreg hlook
      (fun t ht ht' => hlive t ht (ht'.trans_le (tick_le_serve env build cfg _ vs)))
      (hno v List.mem_cons_self)
    cases j with
    | zero =>
      refine ⟨hlook, fun req ip hv hread => ?_⟩
      obtain rfl : v = .fpop req ip := Option.some.inj hv
      exact hpop req ip rfl hread
    | succ j =>
      -- the request before it has left the lease alone
      exact ih hreg' hkept
        (fun t ht ht' => hlive t ((tick_le_exec env (v.run build cfg) w).trans ht) ht')
        (fun u hu => hno u (List.mem_cons_of_mem _ hu)) (Nat.le_of_succ_le_succ hj)

/-- **A living registration withstands every run of requests without its token.** -/
theorem kept_run (env : Env σ) (build : Build) (w₀ : World σ) (steps : List Step)
    {cfg : FabricConfig} (hup : ((⟨w₀, none⟩ : Relay σ).run env build steps).cfg = some cfg)
    (h : String) (r : Registration) (vs : List Verb) :
    let w := ((⟨w₀, none⟩ : Relay σ).run env build steps).world
    w.reg.lookup h = some r →
    (∀ t, w.tick ≤ t → t < (serve env build cfg w vs).tick → env.clock t < r.expires) →
    (∀ v ∈ vs, ¬ v.Carries r.token) →
      ∀ j ≤ vs.length,
        (before env build cfg w vs j).reg.lookup h = some r ∧
        ∀ req ip, vs[j]? = some (.fpop req ip) →
          readHandle build "400 fpop needs handle" req = .ok h →
          ¬ Succeeds (exec env.handle (runFpop build cfg req ip) (before env build cfg w vs j)).2 ∧
            (before env build cfg w vs (j + 1)).queues = (before env build cfg w vs j).queues := by
  intro w hlook hlive hno j hj
  have hsome : ((⟨w₀, none⟩ : Relay σ).run env build steps).cfg.isSome := by rw [hup]; rfl
  exact kept_serve ((standing_run env build w₀ steps).reg hsome) hlook hlive hno hj

end

/-- A stranger asks for the queue of a registered handle in capital letters, and registers it. -/
theorem kept_run_stranger :
    let env : Env Unit := .still (fun p _ => (p, .error "closed")) 100
    let handle : U8Array 32 := .replicate 32 0xab
    let steps := [.start {}, .verb (.freg (fregRequest handle "token-0123456789" 60)),
      .verb (.fput (fputRequest handle (pointerOf 1 200)) "ip")]
    let vs := [.fpop (.object [("handle", .string (String.ofList (List.replicate 32 ['A', 'B']).flatten))]) "ip",
      .freg (fregRequest handle "token-abcdefghij" 60)]
    let w := ((⟨World.fresh (), none⟩ : Relay Unit).run env .trailing steps).world
    let h := Hex.encode handle.toList
    ∀ j ≤ vs.length,
      (before env .trailing {} w vs j).reg.lookup h = some ⟨"token-0123456789", 160⟩ ∧
      ∀ req ip, vs[j]? = some (.fpop req ip) →
        readHandle .trailing "400 fpop needs handle" req = .ok h →
        ¬ Succeeds (exec env.handle (runFpop .trailing {} req ip) (before env .trailing {} w vs j)).2 ∧
          (before env .trailing {} w vs (j + 1)).queues = (before env .trailing {} w vs j).queues := by
  intro env handle steps vs w h
  refine kept_run env .trailing (World.fresh ()) steps (by decide +kernel) h
    ⟨"token-0123456789", 160⟩ vs (by decide +kernel) (fun t _ _ => ?_) ?_
  · change 100 < 160
    decide
  · decide +kernel

end SporePeer
