import SporePeer.Fabric.Parallel
import SporePeer.Fabric.Tokens

/-!
# Drains and the registrations they rely on

A drain checks its token in a section on the registry and takes its pointers in a later one on the
queues. Between the two the token may be replaced, so that what a drain relies on is the
registration that it has seen, not the one that stands when it drains.

## Main results

* `popAt_run`: what the thread of a drain has seen
* `authorised_before`: a drain has seen its handle registered under its token
-/

namespace SporePeer

open Effects Text Bytes

section

variable {σ : Type} {env : Env σ} {build : Build} {cfg : FabricConfig} {vs : List Verb}
  {P : Connections σ} {i : ℕ} {req : Value} {ip : String}
  {J : (Σ γ, Op γ) → World σ → Prop}

/-- The thread of a drain, after steps of it and of others. -/
theorem popAt_step {k : ℕ} (hJ : k = i → ∀ c, P.nextCall i = some c → J c P.state)
    (h : ∃ t, P.threads[i]? = some t ∧ PopAt env build J req t) :
    ∃ t, (P.step mutexes env.handle k).threads[i]? = some t ∧ PopAt env build J req t := by
  obtain ⟨t, ht, hat⟩ := h
  rcases hk : P.threads[k]? with _ | u
  · rw [Pool.step, hk]
    exact ⟨t, ht, hat⟩
  by_cases hki : k = i
  · subst hki
    obtain ⟨hlt, -⟩ := List.getElem?_eq_some_iff.mp ht
    rw [Pool.step_eq ht]
    refine ⟨_, List.getElem?_set_self hlt, (popAt_advance hat).1 fun c hc => hJ rfl c ?_⟩
    rw [Pool.nextCall, ht]
    exact hc
  · rw [Pool.step_eq hk]
    exact ⟨t, (List.getElem?_set_ne hki).trans ht, hat⟩

theorem popAt_run {schedule : List ℕ}
    (hJ : P.Along mutexes env.handle
      (fun P k => k = i → ∀ c, P.nextCall i = some c → J c P.state) schedule)
    (h : ∃ t, P.threads[i]? = some t ∧ PopAt env build J req t) :
    ∃ t, (P.run mutexes env.handle schedule).threads[i]? = some t ∧ PopAt env build J req t :=
  Pool.run_along (C := fun P k => k = i → ∀ c, P.nextCall i = some c → J c P.state)
    (I := fun P => ∃ t, P.threads[i]? = some t ∧ PopAt env build J req t)
    (fun _ _ => popAt_step) hJ h

/-- A step of a thread that takes entries out of the queue of `h`, or returns some, is the section of
a drain that has seen `h` registered. -/
theorem authorised_step {t : Connection} (ht : P.threads[i]? = some t)
    (hv : vs[i]? = some (.fpop req ip)) (hat : PopAt env build J req t) {h : String}
    (heff : Queues.of (P.step mutexes env.handle i).state.queues h ≠ Queues.of P.state.queues h ∨
      returnsIn env build vs h P i ≠ []) :
    readHandle build "400 fpop needs handle" req = .ok h ∧ Authorised env J req h := by
  obtain ⟨-, hstep⟩ := popAt_advance (w := P.state) hat
  rw [Pool.step_eq ht] at heff
  cases hstep with
  | quiet hun hsilent =>
    rcases heff with hq | hret
    · exact absurd (congrArg (Queues.of · h) hun.queues) hq
    · rw [returnsIn, hv] at hret
      rcases hans : answerIn env P i with _ | val
      · rw [hans] at hret
        exact absurd rfl hret
      · obtain ⟨hrun, hval⟩ := (answerIn_eq_some ht).mp hans
        exact absurd hval (hsilent hrun val)
  | @drains k now hh hauth hrw hres =>
    -- only the queue of the handle in the request is drained
    suffices hk : h = k by
      rw [hk]
      exact ⟨hh, hauth⟩
    rcases heff with hq | hret
    · by_contra hk
      have hsame := hrw.queues h
      rw [if_neg hk] at hsame
      exact hq hsame
    · rw [returnsIn, hv] at hret
      rcases hans : answerIn env P i with _ | val
      · rw [hans] at hret
        exact absurd rfl hret
      · by_contra hk
        rw [hans] at hret
        dsimp only at hret
        rw [hh] at hret
        dsimp only at hret
        rw [if_neg (Ne.symm hk)] at hret
        exact hret rfl

/-- **A drain has seen its handle registered under its token.** Whenever a drain takes entries out
of a queue or returns some, then when the same request took the lock of the registry, at an earlier
step, the handle had a registration that lived, and its token was the one presented. -/
theorem authorised_before (peer : σ) (hv : vs[i]? = some (.fpop req ip)) (schedule : List ℕ)
    (h : String)
    (heff : Queues.of (scheduled env build cfg peer vs (schedule ++ [i])).state.queues h ≠
        Queues.of (scheduled env build cfg peer vs schedule).state.queues h ∨
      returnsIn env build vs h (scheduled env build cfg peer vs schedule) i ≠ []) :
    readHandle build "400 fpop needs handle" req = .ok h ∧ ∃ j r, schedule[j]? = some i ∧
      (scheduled env build cfg peer vs (schedule.take j)).nextCall i = some ⟨_, .lock .reg⟩ ∧
      (scheduled env build cfg peer vs (schedule.take j)).state.reg.lookup h = some r ∧
      env.clock (scheduled env build cfg peer vs (schedule.take j)).state.tick < r.expires ∧
      r.token = presentedToken req := by
  let P := connected env build cfg peer vs
  -- the states in which the request has taken its steps, and what each step has begun with
  let J (c : Σ γ, Op γ) (w : World σ) : Prop := ∃ j, schedule[j]? = some i ∧
    (scheduled env build cfg peer vs (schedule.take j)).nextCall i = some c ∧
    w = (scheduled env build cfg peer vs (schedule.take j)).state
  have hsteps : P.Along mutexes env.handle
      (fun P k => k = i → ∀ c, P.nextCall i = some c → J c P.state) schedule := by
    rw [Pool.along_iff]
    rintro j k hk rfl c hc
    exact ⟨j, hk, hc, rfl⟩
  have hstart : ∃ t, P.threads[i]? = some t ∧ PopAt env build J req t := by
    refine ⟨⟨[], (runFpop build cfg req ip).run⟩, ?_, ?_⟩
    · change ((vs.map fun v => (v.run build cfg).run).map fun p => (⟨[], p⟩ : Connection))[i]? = _
      rw [List.map_map, List.getElem?_map, hv]
      rfl
    · rw [runFpop_eq]
      exact .checking (tidy_fpopGate build cfg req ip).only closed_fpopGate yields_fpopGate
  obtain ⟨t, ht, hat⟩ := popAt_run hsteps hstart
  have hlast : (scheduled env build cfg peer vs (schedule ++ [i])).state =
      ((P.run mutexes env.handle schedule).step mutexes env.handle i).state := by
    rw [scheduled, Pool.run_append]
    rfl
  rw [hlast] at heff
  obtain ⟨hh, w, r, ⟨j, hj, hlock, rfl⟩, hr, hlive, htoken⟩ := authorised_step ht hv hat heff
  exact ⟨hh, j, r, hj, hlock, hr, hlive, ctEq_iff.mp htoken⟩

end

/-- A pointer is drained that was put at the same time. -/
theorem authorised_before_last :
    let env : Env Unit := .still (fun p _ => (p, .error "closed")) 100
    let handle : U8Array 32 := .replicate 32 7
    let h := Hex.encode handle.toList
    let req := fpopRequest handle "token-0123456789" 8
    let vs : List Verb := [.freg (fregRequest handle "token-0123456789" 60),
      .fput (fputRequest handle (pointerOf 1 200)) "ip", .fpop req "ip"]
    let schedule := [0, 0, 1, 2, 1, 2, 1, 2, 1, 1, 1, 1, 1, 2]
    readHandle .trailing "400 fpop needs handle" req = .ok h ∧ ∃ j r, schedule[j]? = some 2 ∧
      (scheduled env .trailing {} () vs (schedule.take j)).nextCall 2 = some ⟨_, .lock .reg⟩ ∧
      (scheduled env .trailing {} () vs (schedule.take j)).state.reg.lookup h = some r ∧
      env.clock (scheduled env .trailing {} () vs (schedule.take j)).state.tick < r.expires ∧
      r.token = presentedToken req :=
  authorised_before () (show _ = some (Verb.fpop _ "ip") from rfl) _ _ (.inr (by decide +kernel))

/-- The token of a registration. -/
theorem token_ne_of_all {reg : Table String Registration} {h token : String}
    (hall : (reg.lookup h).all fun r => r.token ≠ token) {r : Registration}
    (hr : reg.lookup h = some r) : r.token ≠ token := by
  rw [hr] at hall
  simpa using hall

/-- A token is replaced between the check of a drain and its section. The drain that presents the
old one returns a pointer, though the request that has replaced it has come to its end. -/
theorem rotated_before_draining :
    let env : Env Unit := .still (fun p _ => (p, .error "closed")) 100
    let handle : U8Array 32 := .replicate 32 7
    let h := Hex.encode handle.toList
    let rotation : Value := .object [("handle", .string h), ("lease", .uint 60),
      ("prev_token", .string "token-0123456789"), ("token", .string "token-9876543210")]
    let vs : List Verb := [.freg (fregRequest handle "token-0123456789" 60),
      .fput (fputRequest handle (pointerOf 1 200)) "ip",
      .fpop (fpopRequest handle "token-0123456789" 8) "ip", .freg rotation]
    let schedule := List.replicate 2 0 ++ List.replicate 8 1 ++ List.replicate 3 2 ++
      List.replicate 2 3 ++ [2]
    ((scheduled env .trailing {} () vs schedule).threads[3]?.any fun t => t.rest.Finished) ∧
      returnsIn env .trailing vs h (scheduled env .trailing {} () vs schedule) 2 ≠ [] ∧
      ∀ r, (scheduled env .trailing {} () vs schedule).state.reg.lookup h = some r →
        r.token ≠ "token-0123456789" := by
  refine ⟨?_, ?_, fun r => token_ne_of_all ?_⟩
  · decide +kernel
  · decide +kernel
  · decide +kernel

end SporePeer
