import SporePeer.Fabric.Opening

/-!
# The moments at which a put reads the clock

Every clock reading and every file operation of a relay takes a call, so that the moments at which
a put reads the clock are known: for the lease, for the limiter, for the deadline, for the arrival
of the envelope, and once more when it composts.

## Main definitions

* `FputAdmitted`: the limiter admits a put
* `Reaches`: a put comes to its deadline
* `compostTick`: the moment at which a put composts

## Main results

* `exec_fputGate_of_reaches`, `reaches_of_exec`: the checks before the deadline
* `written_runFput_iff`: when a put goes on to the disk
* `exec_runFput_calm`: an accepted put, with its moments
-/

namespace SporePeer

open Effects Text Bytes

section

variable {σ : Type} {env : Env σ} {build : Build} {cfg : FabricConfig} {req : Value}
  {ip h : String} {pointer : Pointer} {w w' : World σ} {now : ℕ}

/-! ## The checks before the deadline -/

/-- The limiter admits a put of the address. -/
def FputAdmitted (cfg : FabricConfig) (wins : Wins) (ip : String) (now : ℕ) : Prop :=
  cfg.fputRate = 0 ∨ (countHit cfg.fputRate wins ip now).2 = true

instance (cfg : FabricConfig) (wins : Wins) (ip : String) (now : ℕ) :
    Decidable (FputAdmitted cfg wins ip now) :=
  inferInstanceAs (Decidable (_ ∨ _))

theorem exec_allow_fput (env : Env σ) (cfg : FabricConfig) (w : World σ) (ip : String) (now : ℕ) :
    ∃ wins, exec env.handle (allow .fput cfg.fputRate ip now) w =
      ({ w with fputWins := wins }, .ok (.ok (decide (FputAdmitted cfg w.fputWins ip now)))) := by
  unfold allow
  by_cases hrate : cfg.fputRate = 0
  · -- a rate of 0 is no limit, and counts nothing
    have hadm : FputAdmitted cfg w.fputWins ip now := .inl hrate
    refine ⟨w.fputWins, ?_⟩
    rw [if_pos hrate, decide_eq_true hadm]
    rfl
  · have hadm : decide (FputAdmitted cfg w.fputWins ip now) =
        (countHit cfg.fputRate w.fputWins ip now).2 := by
      rw [Bool.eq_iff_iff, decide_eq_true_iff, FputAdmitted, or_iff_right hrate]
    refine ⟨(countHit cfg.fputRate w.fputWins ip now).1, ?_⟩
    rw [if_neg hrate, exec_locked, exec_ask_bind, exec_ask_bind, hadm]
    rfl

/-- The request comes to the check of its deadline: its handle is registered for a lease that has
not run out, the limiter admits the address, and it has a pointer. -/
structure Reaches (env : Env σ) (build : Build) (cfg : FabricConfig) (req : Value) (ip h : String)
    (pointer : Pointer) (w : World σ) : Prop where
  handle : readHandle build "400 fput needs handle" req = .ok h
  registered : ∃ r, w.reg.lookup h = some r ∧ env.clock w.tick < r.expires
  admitted : FputAdmitted cfg w.fputWins ip (env.clock (w.tick + 1))
  pointer : fputPointer req = .ok pointer

/-- The deadline is checked against the third reading of the clock. -/
theorem exec_fputGate_of_reaches (hr : Reaches env build cfg req ip h pointer w)
    (hlive : env.clock (w.tick + 2) < pointer.deadline) :
    ∃ wins, exec env.handle (fputGate build cfg req ip) w =
      ({ w with tick := w.tick + 3, fputWins := wins },
        .ok (.ok (h, pointer, env.clock (w.tick + 2)))) := by
  obtain ⟨r, hlook, hlease⟩ := hr.registered
  have hregistered : exec env.handle (fputRegistered h) w = (w.next, .ok (.ok ())) := by
    rw [exec_fputRegistered, hlook]
    dsimp only
    rw [if_neg (not_le.mpr hlease)]
  obtain ⟨wins, hallow⟩ := exec_allow_fput env cfg w.next.next ip
    (env.clock (w.tick + 1))
  have hadm : decide (FputAdmitted cfg w.next.next.fputWins ip (env.clock (w.tick + 1))) = true :=
    decide_eq_true hr.admitted
  rw [hadm] at hallow
  -- a deadline that is ahead is one
  have hpos : ¬ pointer.deadline = 0 := by omega
  refine ⟨wins, ?_⟩
  rw [fputGate, hr.handle, exec_orFail_ok_bind, exec_bind_ok hregistered, exec_ask_bind]
  refine (exec_bind_ok hallow).trans ?_
  rw [refuseIf_bind_of_not (by simp), hr.pointer, exec_orFail_ok_bind, refuseIf_bind_of_not hpos,
    exec_ask_bind]
  show exec env.handle (do
      refuseIf (pointer.deadline ≤ env.clock (w.tick + 2)) "410 gone"
      return (h, pointer, env.clock (w.tick + 2))) _ = _
  rw [refuseIf_bind_of_not (not_le.mpr hlive)]
  rfl

/-- A put passes its checks only if it comes to its deadline, which is still to come. -/
theorem reaches_of_exec
    (hgate : exec env.handle (fputGate build cfg req ip) w = (w', .ok (.ok (h, pointer, now)))) :
    Reaches env build cfg req ip h pointer w ∧ env.clock (w.tick + 2) < pointer.deadline := by
  simp only [fputGate, exec_bind_eq_ok, exec_orFail, exec_ask, exec_pure, exec_refuseIf_eq_ok,
    Prod.mk.injEq, Except.ok.injEq] at hgate
  obtain ⟨s₁, h', ⟨rfl, hh⟩, s₂, ⟨⟩, hreg, s₃, now₁, ⟨rfl, rfl⟩, s₄, ok, hallow, s₅, ⟨⟩,
    ⟨rfl, hrate⟩, s₆, p, ⟨rfl, hp⟩, s₇, ⟨⟩, ⟨rfl, -⟩, s₈, now₂, ⟨rfl, rfl⟩, s₉, ⟨⟩,
    ⟨rfl, hdead⟩, rfl, rfl, rfl, rfl⟩ := hgate
  rw [exec_fputRegistered] at hreg
  split at hreg
  · cases hreg
  rename_i r hlook
  simp only [Prod.mk.injEq, Except.ok.injEq] at hreg
  obtain ⟨rfl, hlease⟩ := hreg
  -- the limiter reads no clock
  obtain ⟨wins, hlimit⟩ := exec_allow_fput env cfg w.next.next ip
    (env.clock (w.tick + 1))
  have hboth := hallow.symm.trans hlimit
  simp only [Prod.mk.injEq, Except.ok.injEq] at hboth
  obtain ⟨rfl, rfl⟩ := hboth
  have hadm : FputAdmitted cfg w.next.next.fputWins ip (env.clock (w.tick + 1)) := by
    simpa using hrate
  refine ⟨⟨hh, ⟨r, hlook, ?_⟩, hadm, hp⟩, not_le.mp hdead⟩
  by_contra hle
  rw [if_pos (not_lt.mp hle)] at hlease
  cases hlease

/-! ## To the disk -/

/-- Within the horizon a put writes its envelope. -/
theorem mem_written_fputStore {handle : U8Array 32} {horizon : ℕ}
    (hadd : addU64 build.overflowChecks now cfg.maxDeadlineHorizonSec = .ok horizon)
    (hle : pointer.deadline ≤ horizon) :
    marshalEnvelope (Put.envelope ⟨handle, pointer, env.clock w.tick⟩) ∈
      written env (fputStore build cfg (Hex.encode handle.toList) pointer now) w := by
  rw [fputStore_eq hadd hle, written, trace_ask_bind]
  refine List.filterMap_subset _ (List.subset_cons_of_subset _ (trace_subset_bind _ _)) ?_
  exact written_persistEnvelope env w.next _ _

/-- The rest of a put writes an envelope exactly if the deadline is within the horizon. -/
theorem written_fputStore_iff {handle : U8Array 32} :
    (∃ raw, raw ∈ written env (fputStore build cfg (Hex.encode handle.toList) pointer now) w) ↔
      ∃ horizon, addU64 build.overflowChecks now cfg.maxDeadlineHorizonSec = .ok horizon ∧
        pointer.deadline ≤ horizon := by
  constructor
  · rintro ⟨raw, hraw⟩
    rcases hadd : addU64 build.overflowChecks now cfg.maxDeadlineHorizonSec with q | horizon
    · rw [fputStore, hadd] at hraw
      cases hraw
    · refine ⟨horizon, rfl, ?_⟩
      by_contra hlt
      rw [fputStore_beyond hadd hlt] at hraw
      cases hraw
  · rintro ⟨horizon, hadd, hle⟩
    exact ⟨_, mem_written_fputStore hadd hle⟩

theorem written_fputGate (env : Env σ) (w : World σ) (build : Build) (cfg : FabricConfig)
    (req : Value) (ip : String) : written env (fputGate build cfg req ip) w = [] := by
  refine List.filterMap_eq_nil_iff.mpr fun c hc => ?_
  have hgate := (tidy_fputGate build cfg req ip).only.forall_mem_trace c hc
  obtain ⟨β, e⟩ := c
  cases e with
  | write name content => exact hgate.elim
  | _ => rfl

/-- Once its checks have passed, a put writes what its rest writes. -/
theorem written_runFput_of_exec
    (hgate : exec env.handle (fputGate build cfg req ip) w = (w', .ok (.ok (h, pointer, now)))) :
    written env (runFput build cfg req ip) w =
      written env (fputStore build cfg h pointer now) w' := by
  have hnone := written_fputGate env w build cfg req ip
  rw [written] at hnone
  rw [runFput, written, trace_bind_ok hgate, List.filterMap_append, hnone, List.nil_append]
  exact congrArg _ (trace_bind_pure _ _)

/-- A put that comes to its deadline goes on to the disk exactly if it accepts the deadline. -/
theorem written_runFput_iff (hreg : Registered w.reg)
    (hr : Reaches env build cfg req ip h pointer w) :
    (∃ raw, raw ∈ written env (runFput build cfg req ip) w) ↔
      env.clock (w.tick + 2) < pointer.deadline ∧ ∃ horizon,
        addU64 build.overflowChecks (env.clock (w.tick + 2)) cfg.maxDeadlineHorizonSec =
          .ok horizon ∧ pointer.deadline ≤ horizon := by
  obtain ⟨r, hlook, -⟩ := hr.registered
  obtain ⟨⟨handle, rfl⟩, -⟩ := hreg h r hlook
  by_cases hlive : env.clock (w.tick + 2) < pointer.deadline
  · obtain ⟨wins, hgate⟩ := exec_fputGate_of_reaches hr hlive
    rw [and_iff_right hlive, written_runFput_of_exec hgate, written_fputStore_iff]
  · refine iff_of_false ?_ fun hboth => hlive hboth.1
    rintro ⟨raw, hraw⟩
    have hnone := written_fputGate env w build cfg req ip
    rw [written] at hnone
    -- the checks have refused, and they write nothing
    rcases hgate : exec env.handle (fputGate build cfg req ip) w with ⟨v, q | e | ⟨k, p, now⟩⟩
    · rw [runFput, written, trace_bind_panic hgate, hnone] at hraw
      cases hraw
    · rw [runFput, written, trace_bind_error hgate, hnone] at hraw
      cases hraw
    · obtain ⟨hreach, hahead⟩ := reaches_of_exec hgate
      obtain rfl : p = pointer := Except.ok.inj (hreach.pointer.symm.trans hr.pointer)
      exact hlive hahead

/-! ## An accepted put -/

/-- The call in which a put reads the clock to compost: the removals of the cap come first. -/
def compostTick (cfg : FabricConfig) (new : Queued) (h : String) (w : World σ) : ℕ :=
  w.tick + 6 + (putResult cfg new (Queues.of w.queues h)).2.length

/-- Where file operations succeed, an envelope is stored by two of them. -/
theorem exec_persistEnvelope_calm (hcalm : env.Calm) (w : World σ) (c : String) (raw : Bytes) :
    ∃ v sec, exec env.handle (persistEnvelope c raw) w = (v, .ok (.ok ())) ∧
      v.tick = w.tick + 2 ∧ SameMemory w v ∧ Persists c ⟨raw, sec⟩ w v := by
  rcases exec_persistEnvelope env w c raw with ⟨v, sec, hok, hmem, hp⟩ | ⟨v, e, -, -, hstorm⟩
  swap
  · exact absurd hcalm hstorm
  refine ⟨v, sec, hok, ?_, hmem, hp⟩
  have htick : (exec env.handle (persistEnvelope c raw) w).1.tick = w.tick + 2 := by
    have hfirst := hcalm w.tick
    have hsecond := hcalm (w.tick + 1)
    rw [persistEnvelope, exec_ask_bind]
    simp only [Env.handle, Env.write, hfirst]
    dsimp only [Except.mapError]
    rw [exec_orFail_ok_bind, exec_ask_bind]
    simp only [Env.handle, Env.rename, World.next, hsecond, AList.lookup_insert]
    rfl
  rwa [hok] at htick

/-- **An accepted put**, where file operations succeed: what it stores, and the moments at which its
envelope arrives and at which it composts. -/
theorem exec_runFput_calm (hcalm : env.Calm) (hreg : Registered w.reg) {v : Value}
    (hok : (exec env.handle (runFput build cfg req ip) w).2 = .ok (.ok v)) :
    ∃ p : Put, Reaches env build cfg req ip p.key p.pointer w ∧
      p.receivedAt = env.clock (w.tick + 3) ∧
      marshalEnvelope p.envelope ∈ written env (runFput build cfg req ip) w ∧
      let w' := (exec env.handle (runFput build cfg req ip) w).1
      let t := compostTick cfg (p.entry build) p.key w
      t < w'.tick ∧ ∃ u sec, SameMemory w u ∧
        Persists (p.envelope.cidHex build) ⟨marshalEnvelope p.envelope, sec⟩ w u ∧
        Rewrites env p.key (putKept cfg (p.entry build) (env.clock t) (Queues.of w.queues p.key))
          (putDropped cfg (p.entry build) (env.clock t) (Queues.of w.queues p.key)) u w' := by
  rcases hgate : exec env.handle (fputGate build cfg req ip) w with ⟨w₁, q | e | ⟨h, pointer, now⟩⟩
  · rw [runFput, exec_bind_panic hgate] at hok
    cases hok
  · rw [runFput, exec_bind_error hgate] at hok
    cases hok
  -- behind the checks the clock has been read three times, and only the windows have changed
  obtain ⟨hr, hlive⟩ := reaches_of_exec hgate
  obtain ⟨wins, hgate'⟩ := exec_fputGate_of_reaches hr hlive
  obtain ⟨rfl, hnow⟩ := Prod.mk.inj (hgate.symm.trans hgate')
  obtain rfl : now = env.clock (w.tick + 2) := by simpa using hnow
  obtain ⟨r, hlook, -⟩ := hr.registered
  obtain ⟨⟨handle, rfl⟩, -⟩ := hreg h r hlook
  let w₁ : World σ := { w with tick := w.tick + 3, fputWins := wins }
  let p : Put := ⟨handle, pointer, env.clock (w.tick + 3)⟩
  have hrun : exec env.handle (runFput build cfg req ip) w = exec env.handle (do
      fputStore build cfg p.key pointer (env.clock (w.tick + 2))
      return Value.object [("queued", .bool true)]) w₁ := exec_bind_ok hgate
  -- a put that is accepted has found its deadline within the horizon
  rcases hadd : addU64 build.overflowChecks (env.clock (w.tick + 2)) cfg.maxDeadlineHorizonSec with
    q | horizon
  · rw [hrun, fputStore, hadd] at hok
    cases hok
  have hle : pointer.deadline ≤ horizon := by
    by_contra hlt
    rw [hrun, fputStore_beyond hadd hlt] at hok
    cases hok
  -- the fourth reading is the arrival; the file operations are the fifth and the sixth call
  obtain ⟨u, sec, hpersist, htick, hmem, hp⟩ := exec_persistEnvelope_calm hcalm w₁.next
    (p.envelope.cidHex build) (marshalEnvelope p.envelope)
  obtain ⟨w', hput, ht, heff⟩ := exec_putQueue_at env u cfg p.key (p.entry build)
  have hstore : exec env.handle (fputStore build cfg p.key pointer (env.clock (w.tick + 2))) w₁ =
      (w', .ok (.ok ())) := by
    rw [Put.key, fputStore_eq hadd hle, exec_ask_bind]
    exact (exec_bind_ok hpersist).trans hput
  have hend : (exec env.handle (runFput build cfg req ip) w).1 = w' := by
    rw [hrun, exec_bind_ok hstore]
    rfl
  have hqueues : u.queues = w.queues := hmem.queues
  -- every entry that the put replaces or the cap removes is a call before the composting
  have hcompost : u.tick + (putResult cfg (p.entry build) (Queues.of u.queues p.key)).2.length =
      compostTick cfg (p.entry build) p.key w := by
    rw [htick, hqueues]
    rfl
  rw [hcompost, hqueues] at heff
  rw [hcompost] at ht
  refine ⟨p, hr, rfl, ?_, ?_⟩
  · rw [written_runFput_of_exec hgate]
    exact mem_written_fputStore hadd hle
  · rw [hend]
    refine ⟨ht, u, sec, ⟨hmem.reg, hqueues, hmem.lastSweepSec, ?_⟩, hp, heff⟩
    rw [htick]
    exact Nat.le_add_right _ 6

end

end SporePeer
