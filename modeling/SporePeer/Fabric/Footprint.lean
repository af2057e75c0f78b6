import SporePeer.Fabric.Isolation
import SporePeer.Fabric.Readings

/-!
# What a request looks at

A put or a drain is decided by the registration of its handle, the window of its address, the queue
of its handle and the clock, and it changes the queue of its handle and the window of its address
alone. Here is when the two are served, at which moments they read the clock, and what they leave.

## Main definitions

* `fputCounted`: the windows after a hit
* `Takes`, `Pops`: a put that is taken, and a drain that is served

## Main results

* `exec_runFput_takes`, `exec_runFpop_pops`: what they do then; `takes_of_exec`, `pops_of_exec`: and
  not otherwise
* `succeeds_runFput_iff`: when a put is accepted
* `lookup_fputWins_verb`, `queue_of_verb`: what requests leave to others
-/

namespace SporePeer

open Effects Text Bytes

/-! ## The windows -/

/-- The windows after a hit of an address. -/
def fputCounted (cfg : FabricConfig) (wins : Wins) (ip : String) (now : ℕ) : Wins :=
  if cfg.fputRate = 0 then wins else (countHit cfg.fputRate wins ip now).1

section

variable {σ : Type} {env : Env σ} {build : Build} {cfg : FabricConfig} {w : World σ}
  {wins wins' : Wins} {ip ip' : String} {now cap : ℕ}

theorem lookup_countHit_ne (hne : ip' ≠ ip) :
    (countHit cap wins ip now).1.lookup ip' = wins.lookup ip' := by
  unfold countHit
  dsimp only
  split
  · exact AList.lookup_insert_ne hne
  split
  · exact AList.lookup_insert_ne hne
  · exact AList.lookup_insert_ne hne

/-- A hit looks at the window of its address alone. -/
theorem countHit_congr (h : wins.lookup ip = wins'.lookup ip) :
    (countHit cap wins ip now).2 = (countHit cap wins' ip now).2 ∧
      (countHit cap wins ip now).1.lookup ip = (countHit cap wins' ip now).1.lookup ip := by
  unfold countHit
  rw [h]
  dsimp only
  split
  · exact ⟨rfl, by rw [AList.lookup_insert, AList.lookup_insert]⟩
  split
  · exact ⟨rfl, by rw [AList.lookup_insert, AList.lookup_insert]⟩
  · exact ⟨rfl, by rw [AList.lookup_insert, AList.lookup_insert]⟩

theorem lookup_fputCounted_ne (hne : ip' ≠ ip) :
    (fputCounted cfg wins ip now).lookup ip' = wins.lookup ip' := by
  unfold fputCounted
  split
  · rfl
  · exact lookup_countHit_ne hne

theorem fputCounted_congr (h : wins.lookup ip = wins'.lookup ip) :
    (fputCounted cfg wins ip now).lookup ip = (fputCounted cfg wins' ip now).lookup ip := by
  unfold fputCounted
  split
  · exact h
  · exact (countHit_congr h).2

theorem fputAdmitted_congr (h : wins.lookup ip = wins'.lookup ip) :
    FputAdmitted cfg wins ip now ↔ FputAdmitted cfg wins' ip now := by
  rw [FputAdmitted, FputAdmitted, (countHit_congr h).1]

/-- The limiter counts a hit, and says whether it is admitted. -/
theorem exec_allow_counted (env : Env σ) (cfg : FabricConfig) (w : World σ) (ip : String)
    (now : ℕ) :
    exec env.handle (allow .fput cfg.fputRate ip now) w =
      ({ w with fputWins := fputCounted cfg w.fputWins ip now },
        .ok (.ok (decide (FputAdmitted cfg w.fputWins ip now)))) := by
  obtain ⟨x, hx⟩ := exec_allow_fput env cfg w ip now
  rw [hx]
  unfold allow at hx
  unfold fputCounted
  split at hx
  · rw [if_pos ‹_›]
    obtain ⟨hw, -⟩ := Prod.mk.inj hx
    rw [← hw]
  · rw [if_neg ‹_›]
    rw [exec_locked, exec_ask_bind, exec_ask_bind] at hx
    obtain ⟨hw, -⟩ := Prod.mk.inj hx
    rw [← hw]
    rfl

/-! ## Puts -/

/-- The put `p` is taken. The clock is read four times before the envelope is stored. -/
structure Takes (env : Env σ) (build : Build) (cfg : FabricConfig) (req : Value) (ip : String)
    (p : Put) (w : World σ) : Prop where
  reaches : Reaches env build cfg req ip p.key p.pointer w
  ahead : env.clock (w.tick + 2) < p.pointer.deadline
  within : ∃ horizon, addU64 build.overflowChecks (env.clock (w.tick + 2))
    cfg.maxDeadlineHorizonSec = .ok horizon ∧ p.pointer.deadline ≤ horizon
  received : p.receivedAt = env.clock (w.tick + 3)

variable {req : Value}

/-- A put that is taken stores its envelope, and queues it. -/
theorem exec_runFput_of_takes {p : Put} (h : Takes env build cfg req ip p w) :
    ∃ wins, exec env.handle (runFput build cfg req ip) w = exec env.handle (do
      persistEnvelope (p.envelope.cidHex build) (marshalEnvelope p.envelope)
      putQueue cfg p.key (p.entry build)
      return .object [("queued", .bool true)]) { w with tick := w.tick + 4, fputWins := wins } := by
  obtain ⟨wins, hgate⟩ := exec_fputGate_of_reaches h.reaches h.ahead
  obtain ⟨horizon, hadd, hle⟩ := h.within
  let w₁ : World σ := { w with tick := w.tick + 3, fputWins := wins }
  have hp : p = ⟨p.handle, p.pointer, env.clock w₁.tick⟩ := by
    show p = ⟨p.handle, p.pointer, env.clock (w.tick + 3)⟩
    rw [← h.received]
  refine ⟨wins, ?_⟩
  rw [runFput, exec_bind_ok hgate]
  dsimp only
  -- the clock is read once more, for the envelope
  rw [Put.key, fputStore_eq hadd hle, bind_assoc, exec_ask_bind, bind_assoc]
  have hnow : (env.handle _ .nowSec w₁).2 = env.clock w₁.tick := rfl
  rw [hnow, ← hp]
  rfl

/-- An envelope gets to its place when both of its file operations succeed. -/
theorem succeeds_persistEnvelope_iff {c : String} {raw : Bytes} :
    Succeeds (exec env.handle (persistEnvelope c raw) w).2 ↔
      env.fault w.tick = none ∧ env.fault (w.tick + 1) = none := by
  rw [persistEnvelope, exec_ask_bind]
  simp only [Env.handle, Env.write]
  rcases hf : env.fault w.tick with _ | ⟨text, left⟩
  · dsimp only [Except.mapError]
    rw [exec_orFail_ok_bind, exec_ask_bind]
    simp only [Env.handle, Env.rename]
    dsimp only [World.next]
    rcases hf' : env.fault (w.tick + 1) with _ | f
    · rw [AList.lookup_insert]
      exact iff_of_true ⟨(), rfl⟩ ⟨trivial, rfl⟩
    · exact iff_of_false (not_succeeds_error _) fun h => Option.some_ne_none f h.2
  · refine iff_of_false ?_ fun h => Option.some_ne_none _ h.1
    cases left with
    | none => exact not_succeeds_error _
    | some n => exact not_succeeds_error _

/-- A put that is taken is queued. -/
theorem exec_runFput_takes (hcalm : env.Calm) {p : Put} (h : Takes env build cfg req ip p w) :
    ∃ w', exec env.handle (runFput build cfg req ip) w =
        (w', .ok (.ok (.object [("queued", .bool true)]))) ∧
      ∀ k, Queues.of w'.queues k =
        if k = p.key then putKept cfg (p.entry build)
          (env.clock (compostTick cfg (p.entry build) p.key w)) (Queues.of w.queues p.key)
        else Queues.of w.queues k := by
  obtain ⟨wins, hrun⟩ := exec_runFput_of_takes h
  let w₁ : World σ := { w with tick := w.tick + 4, fputWins := wins }
  obtain ⟨u, sec, hpersist, htick, hmem, -⟩ := exec_persistEnvelope_calm hcalm w₁
    (p.envelope.cidHex build) (marshalEnvelope p.envelope)
  -- the queue is touched once the envelope is on disk
  obtain ⟨w', hput, -, heff⟩ := exec_putQueue_at env u cfg p.key (p.entry build)
  have hqueues : u.queues = w.queues := hmem.queues
  have hcompost : u.tick + (putResult cfg (p.entry build) (Queues.of u.queues p.key)).2.length =
      compostTick cfg (p.entry build) p.key w := by
    rw [htick, hqueues]
    rfl
  rw [hcompost, hqueues] at heff
  refine ⟨w', ?_, fun k => ?_⟩
  · rw [hrun, exec_bind_ok hpersist, exec_bind_ok hput]
    rfl
  · rw [heff.queues, hqueues]

/-- A put that is not taken has no payload, and leaves the queues. -/
theorem takes_of_exec (hreg : Registered w.reg) {v : Value}
    (hok : (exec env.handle (runFput build cfg req ip) w).2 = .ok (.ok v)) :
    ∃ p, Takes env build cfg req ip p w := by
  rcases hgate : exec env.handle (fputGate build cfg req ip) w with ⟨w₁, q | e | ⟨h, pointer, now⟩⟩
  · rw [runFput, exec_bind_panic hgate] at hok
    cases hok
  · rw [runFput, exec_bind_error hgate] at hok
    cases hok
  obtain ⟨hr, hlive⟩ := reaches_of_exec hgate
  obtain ⟨wins, hgate'⟩ := exec_fputGate_of_reaches hr hlive
  obtain ⟨rfl, hnow⟩ := Prod.mk.inj (hgate.symm.trans hgate')
  obtain rfl : now = env.clock (w.tick + 2) := by simpa using hnow
  obtain ⟨r, hlook, -⟩ := hr.registered
  obtain ⟨⟨handle, rfl⟩, -⟩ := hreg h r hlook
  rw [runFput, exec_bind_ok hgate] at hok
  dsimp only at hok
  -- a put that is accepted has found its deadline within the horizon
  rcases hadd : addU64 build.overflowChecks (env.clock (w.tick + 2)) cfg.maxDeadlineHorizonSec with
    q | horizon
  · rw [fputStore, hadd] at hok
    cases hok
  have hle : pointer.deadline ≤ horizon := by
    by_contra hlt
    rw [fputStore_beyond hadd hlt] at hok
    cases hok
  exact ⟨⟨handle, pointer, env.clock (w.tick + 3)⟩, hr, hlive, ⟨horizon, hadd, hle⟩, rfl⟩

/-- **A put is accepted** when it is taken, and its two file operations succeed. -/
theorem succeeds_runFput_iff (hreg : Registered w.reg) :
    Succeeds (exec env.handle (runFput build cfg req ip) w).2 ↔
      (∃ p, Takes env build cfg req ip p w) ∧
        env.fault (w.tick + 4) = none ∧ env.fault (w.tick + 5) = none := by
  have hstored {p : Put} (hp : Takes env build cfg req ip p w) :
      Succeeds (exec env.handle (runFput build cfg req ip) w).2 ↔
        env.fault (w.tick + 4) = none ∧ env.fault (w.tick + 5) = none := by
    obtain ⟨wins, hrun⟩ := exec_runFput_of_takes hp
    let w₁ : World σ := { w with tick := w.tick + 4, fputWins := wins }
    have hpersist : Succeeds (exec env.handle (persistEnvelope (p.envelope.cidHex build)
        (marshalEnvelope p.envelope)) w₁).2 ↔ _ := succeeds_persistEnvelope_iff
    rw [hrun, ← hpersist]
    rcases hx : exec env.handle (persistEnvelope (p.envelope.cidHex build)
      (marshalEnvelope p.envelope)) w₁ with ⟨u, q | e | ⟨⟩⟩
    · rw [exec_bind_panic hx]
      exact iff_of_false nofun nofun
    · rw [exec_bind_error hx]
      exact iff_of_false nofun nofun
    · obtain ⟨w', hput, -⟩ := exec_putQueue_at env u cfg p.key (p.entry build)
      rw [exec_bind_ok hx, exec_bind_ok hput]
      exact iff_of_true ⟨_, rfl⟩ ⟨(), rfl⟩
  constructor
  · intro hok
    obtain ⟨v, hv⟩ := hok
    obtain ⟨p, hp⟩ := takes_of_exec hreg hv
    exact ⟨⟨p, hp⟩, (hstored hp).mp ⟨v, hv⟩⟩
  · rintro ⟨⟨p, hp⟩, hfaults⟩
    exact (hstored hp).mpr hfaults

/-- The calls that count no hit. -/
def CountsNothing : (β : Type) → Op β → Prop
  | _, .setWins _ _ => False
  | _, _ => True

theorem fputWins_of_countsNothing {α : Type} {m : Fallible Op α} (hm : Only CountsNothing m)
    (w : World σ) : (exec env.handle m w).1.fputWins = w.fputWins := by
  refine hm.invariant (I := fun v : World σ => v.fputWins = w.fputWins) (fun γ e v he hv => ?_) rfl
  cases e with
  | write name content =>
    simp only [Env.handle, Env.write]
    split
    · exact hv
    · split <;> exact hv
  | rename src dst =>
    simp only [Env.handle, Env.rename]
    split
    · exact hv
    · split <;> exact hv
  | removeFile name =>
    simp only [Env.handle, Env.removeFile]
    split <;> exact hv
  | setWins l x => exact he.elim
  | _ => exact hv

theorem countsNothing_of_dropOp {β : Type} {e : Op β} (h : DropOp β e) : CountsNothing β e := by
  cases e with
  | setWins l x => exact h.elim
  | _ => trivial

theorem countsNothing_fputStore (h : String) (pointer : Pointer) (now : ℕ) :
    Only CountsNothing (fputStore build cfg h pointer now) :=
  only_bind (only_orPanic _) fun _ => only_bind (only_refuseIf _ _) fun _ =>
    only_bind (only_orPanic _) fun _ => only_bind (only_ask trivial) fun _ =>
    only_bind (only_bind (only_ask trivial) fun _ => only_bind (only_orFail _) fun _ =>
      only_bind (only_ask trivial) fun _ => only_orFail _) fun _ =>
    (tidy_putQueue _ _ _).only.mono fun _ _ => countsNothing_of_dropOp

/-- A program that hits the limiter, and counts no other hit. -/
theorem fputWins_allow {α : Type} {f : Bool → Fallible Op α} (hf : ∀ ok, Only CountsNothing (f ok))
    (w : World σ) (ip : String) (now : ℕ) :
    (exec env.handle (allow .fput cfg.fputRate ip now >>= f) w).1.fputWins =
      fputCounted cfg w.fputWins ip now := by
  rw [exec_bind_ok (exec_allow_counted env cfg w ip now), fputWins_of_countsNothing (hf _)]

/-- A put at a live handle is counted. -/
theorem fputWins_runFput_live {h : String} {r : Registration}
    (hh : readHandle build "400 fput needs handle" req = .ok h) (hr : w.reg.lookup h = some r)
    (hlive : env.clock w.tick < r.expires) :
    (exec env.handle (runFput build cfg req ip) w).1.fputWins =
      fputCounted cfg w.fputWins ip (env.clock (w.tick + 1)) := by
  have hregistered : exec env.handle (fputRegistered h) w = (w.next, .ok (.ok ())) := by
    rw [exec_fputRegistered, hr]
    dsimp only
    rw [if_neg (not_le.mpr hlive)]
  rw [runFput_eq_fputRest, hh, exec_orFail_ok_bind, exec_bind_ok hregistered, fputRest,
    exec_ask_bind]
  refine fputWins_allow (fun ok => ?_) _ _ _
  have hclock : CountsNothing ℕ .nowSec := trivial
  exact only_bind (only_refuseIf _ _) fun _ => only_bind (only_orFail _) fun _ =>
    only_bind (only_refuseIf _ _) fun _ => only_bind (only_ask hclock) fun _ =>
    only_bind (only_refuseIf _ _) fun _ => only_bind (countsNothing_fputStore _ _ _) fun _ =>
    only_pure _

/-- A put at any other handle is not. -/
theorem fputWins_runFput_dead (hdead : ∀ h, readHandle build "400 fput needs handle" req = .ok h →
      ∀ r, w.reg.lookup h = some r → r.expires ≤ env.clock w.tick) :
    (exec env.handle (runFput build cfg req ip) w).1.fputWins = w.fputWins := by
  rw [runFput_eq_fputRest]
  rcases hh : readHandle build "400 fput needs handle" req with e | h
  · rfl
  rw [exec_orFail_ok_bind]
  rcases hr : w.reg.lookup h with _ | r
  · have hgone : exec env.handle (fputRegistered h) w =
        (w, .ok (.error "404 unknown handle")) := by
      rw [exec_fputRegistered, hr]
    rw [exec_bind_error hgone]
  · have hexpired : exec env.handle (fputRegistered h) w =
        (w.next, .ok (.error "404 handle lease expired")) := by
      rw [exec_fputRegistered, hr]
      dsimp only
      rw [if_pos (hdead h hh r hr)]
    rw [exec_bind_error hexpired]
    rfl

/-! ## Drains -/

/-- The drain of `h` is served. The clock is read for the limiter, the lease and the deadlines. -/
structure Pops (env : Env σ) (build : Build) (cfg : FabricConfig) (req : Value) (ip h : String)
    (w : World σ) : Prop where
  handle : readHandle build "400 fpop needs handle" req = .ok h
  admitted : FputAdmitted cfg w.fputWins ip (env.clock w.tick)
  authorised : ∃ r, w.reg.lookup h = some r ∧ env.clock (w.tick + 1) < r.expires ∧
    ctEq r.token (presentedToken req) = true

theorem exec_fpopRate (env : Env σ) (cfg : FabricConfig) (w : World σ) (ip : String) :
    exec env.handle (fpopRate cfg ip) w =
      ({ w.next with fputWins := fputCounted cfg w.fputWins ip (env.clock w.tick) },
        .ok (if FputAdmitted cfg w.fputWins ip (env.clock w.tick) then .ok ()
          else .error "429 fpop rate")) := by
  rw [fpopRate, exec_ask_bind]
  refine (exec_bind_ok (exec_allow_counted env cfg w.next ip (env.clock w.tick))).trans ?_
  rw [refuseIf, exec_orFail]
  by_cases hadm : FputAdmitted cfg w.fputWins ip (env.clock w.tick)
  · rw [decide_eq_true (show FputAdmitted cfg w.next.fputWins ip _ from hadm), if_pos hadm]
    rfl
  · rw [decide_eq_false (show ¬ FputAdmitted cfg w.next.fputWins ip _ from hadm), if_neg hadm]
    rfl

/-- A drain that is served takes the front of the queue. -/
theorem exec_runFpop_pops {h : String} (hp : Pops env build cfg req ip h w) :
    ∃ w', exec env.handle (runFpop build cfg req ip) w =
        (w', .ok (.ok (pointersResponse
          (popOut (env.clock (w.tick + 2)) (readMax req) (Queues.of w.queues h))))) ∧
      ∀ k, Queues.of w'.queues k =
        if k = h then (Queues.of w.queues h).drop
          (drainCount (env.clock (w.tick + 2)) (readMax req) (Queues.of w.queues h))
        else Queues.of w.queues k := by
  obtain ⟨r, hlook, hlive, htoken⟩ := hp.authorised
  let w₁ : World σ := { w.next with fputWins := fputCounted cfg w.fputWins ip (env.clock w.tick) }
  have hrate : exec env.handle (fpopRate cfg ip) w = (w₁, .ok (.ok ())) := by
    rw [exec_fpopRate, if_pos hp.admitted]
  have hauthorised : exec env.handle (fpopAuthorised h (presentedToken req)) w₁ =
      (w₁.next, .ok (.ok ())) := by
    have hlook' : w₁.reg.lookup h = some r := hlook
    have hpass : ¬ (r.expires ≤ env.clock w₁.tick ∨ ctEq r.token (presentedToken req) = false) := by
      rw [not_or, not_le, Bool.not_eq_false]
      exact ⟨hlive, htoken⟩
    rw [exec_fpopAuthorised, hlook']
    dsimp only
    rw [if_neg hpass]
  obtain ⟨w', hdrain, -, heff⟩ := exec_drainQueue env w₁.next.next h (env.clock (w.tick + 2))
    (readMax req)
  refine ⟨w', ?_, heff.queues⟩
  rw [runFpop_eq_fpopRate, hp.handle, exec_orFail_ok_bind, exec_bind_ok hrate,
    exec_bind_ok hauthorised, exec_ask_bind]
  exact (exec_bind_ok hdrain).trans rfl

theorem pops_of_exec {w' : World σ} {v : Value}
    (hok : exec env.handle (runFpop build cfg req ip) w = (w', .ok (.ok v))) :
    ∃ h, Pops env build cfg req ip h w := by
  rw [runFpop_eq_fpopRate] at hok
  obtain ⟨w₁, h, hread, hok⟩ := exec_bind_eq_ok.mp hok
  rw [exec_orFail] at hread
  obtain ⟨rfl, hh⟩ := Prod.mk.inj hread
  obtain ⟨w₂, ⟨⟩, hrate, hok⟩ := exec_bind_eq_ok.mp hok
  rw [exec_fpopRate] at hrate
  split at hrate
  swap
  · cases (Prod.mk.inj hrate).2
  obtain ⟨rfl, -⟩ := Prod.mk.inj hrate
  obtain ⟨w₃, ⟨⟩, hauthorised, -⟩ := exec_bind_eq_ok.mp hok
  rw [exec_fpopAuthorised] at hauthorised
  split at hauthorised
  · cases (Prod.mk.inj hauthorised).2
  rename_i r hr
  split at hauthorised
  · cases (Prod.mk.inj hauthorised).2
  rename_i hpass
  rw [not_or, not_le, Bool.not_eq_false] at hpass
  exact ⟨h, Except.ok.inj hh, ‹_›, r, hr, hpass⟩

/-- Every drain of a handle is counted. -/
theorem fputWins_runFpop {h : String} (hh : readHandle build "400 fpop needs handle" req = .ok h) :
    (exec env.handle (runFpop build cfg req ip) w).1.fputWins =
      fputCounted cfg w.fputWins ip (env.clock w.tick) := by
  rw [runFpop, hh, exec_orFail_ok_bind, exec_ask_bind]
  refine fputWins_allow (fun ok => ?_) _ _ _
  have hclock : CountsNothing ℕ .nowSec := trivial
  have hauthorised (h token : String) : Only CountsNothing (fpopAuthorised h token) := by
    refine only_locked trivial trivial <| only_bind (only_ask trivial) fun reg => ?_
    split
    · exact only_bind (only_ask hclock) fun _ => only_refuseIf _ _
    · exact only_throw _
  exact only_bind (only_refuseIf _ _) fun _ => only_bind (hauthorised _ _) fun _ =>
    only_bind (only_ask hclock) fun _ => only_bind ((tidy_drainQueue _ _ _).only.mono
      fun _ _ => countsNothing_of_dropOp) fun _ => only_pure _

/-! ## Requests on other handles -/

/-- The address that a request is counted for. -/
def Verb.addr : Verb → Option String
  | .freg _ => none
  | .fput _ ip => some ip
  | .fpop _ ip => some ip

/-- The window of an address is left alone by the requests of others. -/
theorem lookup_fputWins_verb (v : Verb) (hip : v.addr ≠ some ip') :
    (exec env.handle (v.run build cfg) w).1.fputWins.lookup ip' = w.fputWins.lookup ip' := by
  cases v with
  | freg req =>
    have hfreg : Only CountsNothing (runFreg build cfg req) := by
      refine (only_runFreg build cfg req).mono fun β e he => ?_
      cases e with
      | setWins l x => exact he.elim
      | _ => trivial
    exact congrArg (AList.lookup ip') (fputWins_of_countsNothing hfreg w)
  | fput req ip =>
    have hne : ip' ≠ ip := fun h => hip (congrArg some h.symm)
    by_cases hlive : ∃ h, readHandle build "400 fput needs handle" req = .ok h ∧
        ∃ r, w.reg.lookup h = some r ∧ env.clock w.tick < r.expires
    · obtain ⟨h, hh, r, hr, hlive⟩ := hlive
      exact (congrArg (AList.lookup ip') (fputWins_runFput_live hh hr hlive)).trans
        (lookup_fputCounted_ne hne)
    · refine congrArg (AList.lookup ip') (fputWins_runFput_dead fun h hh r hr => ?_)
      exact not_lt.mp fun hlt => hlive ⟨h, hh, r, hr, hlt⟩
  | fpop req ip =>
    have hne : ip' ≠ ip := fun h => hip (congrArg some h.symm)
    rcases hh : readHandle build "400 fpop needs handle" req with e | h
    · show (exec env.handle (runFpop build cfg req ip) w).1.fputWins.lookup ip' = _
      rw [runFpop, hh]
      rfl
    · exact (congrArg (AList.lookup ip') (fputWins_runFpop hh)).trans (lookup_fputCounted_ne hne)

/-- The queue of a handle is left alone by the requests on others. -/
theorem queue_of_verb (hreg : Registered w.reg) (v : Verb) {k : String}
    (hk : v.handle build ≠ some k) :
    Queues.of (exec env.handle (v.run build cfg) w).1.queues k = Queues.of w.queues k := by
  refine Verb.exec_cases (P := fun w' => Queues.of w'.queues k = Queues.of w.queues k) hreg v
    ?_ ?_ ?_ ?_
  · rintro req -
    rw [(exec_runFreg_frame env build cfg w req).2.1]
  · intro w' hun
    rw [hun.queues]
  · rintro req ip p now w' rfl hacc
    have hne : k ≠ p.key := fun he => hk (by
      show (readHandle build _ req).toOption = some k
      rw [hacc.handle, he]
      rfl)
    obtain ⟨u, sec, hmem, -, heff⟩ := hacc.effect
    rw [heff.queues, if_neg hne, hmem.queues]
  · rintro req ip h now w' rfl hd
    have hne : k ≠ h := fun he => hk (by
      show (readHandle build _ req).toOption = some k
      rw [hd.handle, he]
      rfl)
    obtain ⟨u, hun, heff⟩ := hd.effect
    rw [heff.queues, if_neg hne, hun.queues]

end

end SporePeer
