import SporePeer.Fabric.Relay

/-!
# What the verbs of the relay do

Every verb reads its request, takes its checks in order, and only then changes the relay. Here is
what each part calls and returns, in any environment.

## Main definitions

* `QueueOp`: the calls of `fput` and `fpop`; `GateOp`, `DropOp`: those of their parts
* `Registered`: a registry whose keys are handles and whose tokens have the shape `freg` wants
* `sweptReg`: the registry after a sweep

## Main results

* `exec_runFreg`: the outcome of `freg`
* `registered_runFreg`: it keeps the registry well formed
* `tidy_fputGate`, `tidy_runFpop`: what does not unwind
* `unwinds_runFreg_iff`, `unwinds_runFput_iff`: when the rest does
-/

namespace SporePeer

open Effects Text Bytes

/-! ## Calls -/

/-- The calls of the checks of `fput` and `fpop`. -/
def GateOp : (β : Type) → Op β → Prop
  | _, .nowSec => True
  | _, .lock _ => True
  | _, .unlock _ => True
  | _, .getWins l => l = .fput
  | _, .setWins l _ => l = .fput
  | _, .getReg => True
  | _, _ => False

/-- The calls of `fput` and `fpop`. An envelope is written to a temporary file, which becomes the
envelope file of that name. -/
def QueueOp : (β : Type) → Op β → Prop
  | _, .write name _ => ∃ c, name = tmpFile c
  | _, .rename src dst => ∃ c, src = tmpFile c ∧ dst = fenvFile c
  | _, .removeFile name => ∃ c, name = fenvFile c
  | _, .getQueues => True
  | _, .setQueues _ => True
  | _, e => GateOp _ e

/-- The removal of envelopes. -/
def RemoveOp : (β : Type) → Op β → Prop
  | _, .removeFile name => ∃ c, name = fenvFile c
  | _, _ => False

/-- The calls of a section on a queue. -/
def DropOp : (β : Type) → Op β → Prop
  | _, .nowSec => True
  | _, .lock _ => True
  | _, .unlock _ => True
  | _, .removeFile name => ∃ c, name = fenvFile c
  | _, .getQueues => True
  | _, .setQueues _ => True
  | _, _ => False

theorem dropOp_of_removeOp {β : Type} {e : Op β} (h : RemoveOp β e) : DropOp β e := by
  cases e with
  | removeFile name => exact h
  | _ => exact h.elim

theorem queueOp_of_dropOp {β : Type} {e : Op β} (h : DropOp β e) : QueueOp β e := by
  cases e with
  | nowSec => trivial
  | lock m => trivial
  | unlock m => trivial
  | removeFile name => exact h
  | getQueues => trivial
  | setQueues q => trivial
  | _ => exact h.elim

theorem queueOp_of_gateOp {β : Type} {e : Op β} (h : GateOp β e) : QueueOp β e := by
  cases e with
  | write name content => exact h.elim
  | rename src dst => exact h.elim
  | removeFile name => exact h.elim
  | getQueues => exact h.elim
  | setQueues q => exact h.elim
  | _ => exact h

/-- The calls of `freg`. -/
def RegOp : (β : Type) → Op β → Prop
  | _, .nowSec => True
  | _, .lock _ => True
  | _, .unlock _ => True
  | _, .getReg => True
  | _, .setReg _ => True
  | _, .getLastSweep => True
  | _, .setLastSweep _ => True
  | _, _ => False

/-- The token that an `fpop` presents. -/
def presentedToken (req : Value) : String := ((req.get "token").bind Value.asStr).getD ""

/-- The checks of `fpop`: the handle, the rate and the token. -/
def fpopGate (build : Build) (cfg : FabricConfig) (req : Value) (ip : String) :
    Fallible Op (String × ℕ) := do
  let h ← orFail (readHandle build "400 fpop needs handle" req)
  let now ← ask .nowSec
  let ok ← allow .fput cfg.fputRate ip now
  refuseIf (ok = false) "429 fpop rate"
  fpopAuthorised h (presentedToken req)
  let now ← ask .nowSec
  return (h, now)

theorem runFpop_eq (build : Build) (cfg : FabricConfig) (req : Value) (ip : String) :
    runFpop build cfg req ip = (do
      let (h, now) ← fpopGate build cfg req ip
      let out ← drainQueue h now (readMax req)
      return pointersResponse out) := by
  simp only [runFpop, fpopGate, presentedToken, bind_assoc, pure_bind]

section Calls

variable (build : Build) (cfg : FabricConfig) (req : Value) (ip : String)

theorem tidy_sweepExpired (now : ℕ) : Tidy RegOp (sweepExpired now) := by
  refine tidy_bind (tidy_ask trivial) fun last => ?_
  split
  · exact tidy_bind (tidy_ask trivial) fun _ => tidy_bind (tidy_ask trivial) fun _ =>
      tidy_ask trivial
  · exact tidy_pure _

theorem only_runFreg : Only RegOp (runFreg build cfg req) := by
  refine only_bind (only_orFail _) fun r => only_bind (only_ask trivial) fun now =>
    only_bind (only_orPanic _) fun expires => only_bind ?_ fun _ => only_pure _
  exact only_locked trivial trivial <| only_bind (tidy_sweepExpired _).only fun _ =>
    only_bind (only_ask trivial) fun _ => only_bind (only_orFail _) fun _ => only_ask trivial

theorem tidy_allow_fput (max : ℕ) (now : ℕ) : Tidy GateOp (allow .fput max ip now) :=
  tidy_allow (fun _ => trivial) (fun _ => trivial) rfl (fun _ => rfl) _ _ _

theorem tidy_fputRegistered (h : String) : Tidy GateOp (fputRegistered h) := by
  refine tidy_locked trivial trivial <| tidy_bind (tidy_ask trivial) fun reg => ?_
  split
  · exact tidy_bind (tidy_ask trivial) fun _ => tidy_refuseIf _ _
  · exact tidy_throw _

theorem tidy_fputGate : Tidy GateOp (fputGate build cfg req ip) :=
  tidy_bind (tidy_orFail _) fun _ => tidy_bind (tidy_fputRegistered _) fun _ =>
    tidy_bind (tidy_ask trivial) fun _ => tidy_bind (tidy_allow_fput _ _ _) fun _ =>
    tidy_bind (tidy_refuseIf _ _) fun _ => tidy_bind (tidy_orFail _) fun _ =>
    tidy_bind (tidy_refuseIf _ _) fun _ => tidy_bind (tidy_ask trivial) fun _ =>
    tidy_bind (tidy_refuseIf _ _) fun _ => tidy_pure _

theorem tidy_persistEnvelope (cidHex : String) (raw : Bytes) :
    Tidy QueueOp (persistEnvelope cidHex raw) :=
  tidy_bind (tidy_ask ⟨_, rfl⟩) fun _ => tidy_bind (tidy_orFail _) fun _ =>
    tidy_bind (tidy_ask ⟨_, rfl, rfl⟩) fun _ => tidy_orFail _

theorem tidy_dropEnvelope (cidHex : String) : Tidy RemoveOp (dropEnvelope cidHex) :=
  tidy_ask ⟨_, rfl⟩

theorem tidy_evictOldest (max : ℕ) (q : List Queued) : Tidy RemoveOp (evictOldest max q) := by
  induction q with
  | nil => exact tidy_pure _
  | cons x q ih =>
    unfold evictOldest
    split
    · exact tidy_bind (tidy_dropEnvelope _) fun _ => ih
    · exact tidy_pure _

theorem tidy_putPointer (new : Queued) (q : List Queued) : Tidy RemoveOp (putPointer cfg new q) := by
  unfold putPointer
  split
  · split
    · exact tidy_bind (tidy_dropEnvelope _) fun _ => tidy_pure _
    · exact tidy_pure _
  · exact tidy_evictOldest _ _

theorem tidy_retainLive (now : ℕ) (q : List Queued) : Tidy RemoveOp (retainLive now q) := by
  induction q with
  | nil => exact tidy_pure _
  | cons x q ih =>
    unfold retainLive
    split
    · exact tidy_bind (tidy_dropEnvelope _) fun _ => ih
    · exact tidy_bind ih fun _ => tidy_pure _

theorem tidy_putQueue (h : String) (new : Queued) : Tidy DropOp (putQueue cfg h new) :=
  tidy_locked trivial trivial <| tidy_bind (tidy_ask trivial) fun _ =>
    tidy_bind ((tidy_putPointer _ _ _).mono fun _ _ => dropOp_of_removeOp) fun _ =>
    tidy_bind (tidy_ask trivial) fun _ =>
    tidy_bind ((tidy_retainLive _ _).mono fun _ _ => dropOp_of_removeOp) fun _ => tidy_ask trivial

theorem only_fputStore (h : String) (pointer : Pointer) (now : ℕ) :
    Only QueueOp (fputStore build cfg h pointer now) :=
  only_bind (only_orPanic _) fun _ => only_bind (only_refuseIf _ _) fun _ =>
    only_bind (only_orPanic _) fun _ => only_bind (only_ask trivial) fun _ =>
    only_bind (tidy_persistEnvelope _ _).only fun _ =>
    (tidy_putQueue _ _ _).only.mono fun _ _ => queueOp_of_dropOp

theorem only_runFput : Only QueueOp (runFput build cfg req ip) :=
  only_bind ((tidy_fputGate _ _ _ _).only.mono fun _ _ => queueOp_of_gateOp) fun _ =>
    only_bind (only_fputStore _ _ _ _ _) fun _ => only_pure _

theorem tidy_drain (now max : ℕ) (q : List Queued) (out : List Pointer) :
    Tidy RemoveOp (drain now max q out) := by
  induction q generalizing out with
  | nil => exact tidy_pure _
  | cons item q ih =>
    unfold drain
    split
    · exact tidy_bind (tidy_dropEnvelope _) fun _ => ih _
    · exact tidy_pure _

theorem tidy_drainQueue (h : String) (now max : ℕ) : Tidy DropOp (drainQueue h now max) := by
  refine tidy_locked trivial trivial <| tidy_bind (tidy_ask trivial) fun queues => ?_
  split
  · exact tidy_pure _
  · exact tidy_bind ((tidy_drain _ _ _ _).mono fun _ _ => dropOp_of_removeOp) fun _ =>
      tidy_bind (tidy_ask trivial) fun _ => tidy_pure _

theorem tidy_fpopAuthorised (h token : String) : Tidy GateOp (fpopAuthorised h token) := by
  refine tidy_locked trivial trivial <| tidy_bind (tidy_ask trivial) fun reg => ?_
  split
  · exact tidy_bind (tidy_ask trivial) fun _ => tidy_refuseIf _ _
  · exact tidy_throw _

theorem tidy_runFpop : Tidy QueueOp (runFpop build cfg req ip) :=
  tidy_bind (tidy_orFail _) fun _ => tidy_bind (tidy_ask trivial) fun _ =>
    tidy_bind ((tidy_allow_fput _ _ _).mono fun _ _ => queueOp_of_gateOp) fun _ =>
    tidy_bind (tidy_refuseIf _ _) fun _ =>
    tidy_bind ((tidy_fpopAuthorised _ _).mono fun _ _ => queueOp_of_gateOp) fun _ =>
    tidy_bind (tidy_ask trivial) fun _ =>
    tidy_bind ((tidy_drainQueue _ _ _).mono fun _ _ => queueOp_of_dropOp) fun _ => tidy_pure _

theorem tidy_fpopGate : Tidy GateOp (fpopGate build cfg req ip) :=
  tidy_bind (tidy_orFail _) fun _ => tidy_bind (tidy_ask trivial) fun _ =>
    tidy_bind (tidy_allow_fput _ _ _) fun _ => tidy_bind (tidy_refuseIf _ _) fun _ =>
    tidy_bind (tidy_fpopAuthorised _ _) fun _ => tidy_bind (tidy_ask trivial) fun _ => tidy_pure _

end Calls

/-! ## The registry -/

/-- The keys are handles in lower case, and the tokens have the shape that `freg` wants. -/
def Registered (reg : Table String Registration) : Prop :=
  ∀ h r, reg.lookup h = some r →
    (∃ handle : U8Array 32, h = Hex.encode handle.toList) ∧ 16 ≤ r.token.utf8ByteSize

theorem registered_empty : Registered ∅ := by
  intro h r hr
  rw [AList.lookup_empty] at hr
  cases hr

section

variable {σ : Type} {env : Env σ} {build : Build} {cfg : FabricConfig} {req : Value}
  {w : World σ}

theorem reg_of_queueOp {α : Type} {m : Fallible Op α} (hm : Only QueueOp m) :
    (exec env.handle m w).1.reg = w.reg ∧
      (exec env.handle m w).1.lastSweepSec = w.lastSweepSec := by
  refine hm.invariant (I := fun v : World σ => v.reg = w.reg ∧ v.lastSweepSec = w.lastSweepSec)
    (fun γ e v he hv => ?_) ⟨rfl, rfl⟩
  cases e with
  | write name content =>
    simp only [Env.handle, Env.write]
    split
    · exact hv
    · split <;> exact hv
  | rename src dst =>
    simp only [Env.handle, Env.rename]
    split
    · exact hv
    · split <;> exact hv
  | removeFile name =>
    simp only [Env.handle, Env.removeFile]
    split <;> exact hv
  | setWins l x => cases l <;> exact hv
  | setReg reg => exact he.elim
  | setLastSweep sec => exact he.elim
  | _ => exact hv

theorem readFreg_ok {r : FregRequest} (h : readFreg build req = .ok r) :
    (∃ handle : U8Array 32, r.handle = Hex.encode handle.toList) ∧
      16 ≤ r.token.utf8ByteSize ∧ r.token.utf8ByteSize ≤ 128 := by
  unfold readFreg at h
  split at h
  · cases h
  rename_i text _
  split at h
  · cases h
  rename_i hhex
  split at h
  · cases h
  rename_i token _
  split at h
  · cases h
  rename_i htoken
  cases h
  rw [Bool.not_eq_false] at hhex
  rcases hb : Hex.decode text with _ | b
  · simp [hb] at hhex
  · rw [hb, Option.any_some, decide_eq_true_eq] at hhex
    exact ⟨⟨⟨b, hhex⟩, Hex.toLowercase_of_decode hb⟩, not_not.mp htoken⟩

/-- The registry after the sweep of a `freg` at the time `now`. -/
def sweptReg (w : World σ) (now : ℕ) : Table String Registration :=
  if w.lastSweepSec < now then w.reg.retain fun _ r => now < r.expires else w.reg

theorem exec_sweepExpired (now : ℕ) :
    exec env.handle (sweepExpired now) w =
      ({ w with reg := sweptReg w now, lastSweepSec := max w.lastSweepSec now }, .ok (.ok ())) := by
  have hlast : (env.handle _ .getLastSweep w).2 = w.lastSweepSec := rfl
  rw [sweepExpired, exec_ask_bind, sweptReg]
  by_cases hlt : w.lastSweepSec < now
  · rw [if_pos (hlast ▸ hlt), if_pos hlt, max_eq_right hlt.le]
    rfl
  · rw [if_neg (hlast ▸ hlt), if_neg hlt, max_eq_left (not_lt.mp hlt)]
    rfl

/-- The section of `freg`: the sweep, the gate, and the new registration. -/
def fregSection (cfg : FabricConfig) (r : FregRequest) (now expires : ℕ) : Fallible Op Unit :=
  locked .reg do
    sweepExpired now
    let reg ← ask .getReg
    orFail (fregGate cfg reg r.handle r.prevToken now)
    ask (.setReg (reg.insert r.handle ⟨r.token, expires⟩))

theorem runFreg_eq (build : Build) (cfg : FabricConfig) (req : Value) :
    runFreg build cfg req = (do
      let r ← orFail (readFreg build req)
      let now ← ask .nowSec
      let expires ← orPanic (addU64 build.overflowChecks now (min r.lease cfg.maxLeaseSec))
      fregSection cfg r now expires
      return .object [("expires", .uint expires), ("token", .string r.token)]) := rfl

theorem exec_fregSection (w : World σ) (cfg : FabricConfig) (r : FregRequest) (now expires : ℕ) :
    exec env.handle (fregSection cfg r now expires) w =
      let w' := { w with reg := sweptReg w now, lastSweepSec := max w.lastSweepSec now }
      match fregGate cfg (sweptReg w now) r.handle r.prevToken now with
      | .error e => (w', .ok (.error e))
      | .ok () =>
        ({ w' with reg := (sweptReg w now).insert r.handle ⟨r.token, expires⟩ }, .ok (.ok ())) := by
  rw [fregSection, exec_locked, exec_bind, exec_sweepExpired]
  dsimp only
  rw [exec_ask_bind]
  simp only [Env.handle]
  rcases fregGate cfg (sweptReg w now) r.handle r.prevToken now with e | ⟨⟨⟩⟩ <;> rfl

/-- The outcome of `freg`. -/
theorem exec_runFreg :
    exec env.handle (runFreg build cfg req) w =
      match readFreg build req with
      | .error e => (w, .ok (.error e))
      | .ok r =>
        let now := env.clock w.tick
        match addU64 build.overflowChecks now (min r.lease cfg.maxLeaseSec) with
        | .error p => (w.next, .error p)
        | .ok expires =>
          let w' := { w.next with
            reg := sweptReg w now
            lastSweepSec := max w.lastSweepSec now }
          match fregGate cfg (sweptReg w now) r.handle r.prevToken now with
          | .error e => (w', .ok (.error e))
          | .ok () =>
            ({ w' with reg := (sweptReg w now).insert r.handle ⟨r.token, expires⟩ },
              .ok (.ok (.object [("expires", .uint expires), ("token", .string r.token)]))) := by
  rw [runFreg_eq]
  rcases readFreg build req with e | r
  · rfl
  rw [exec_orFail_ok_bind, exec_ask_bind]
  simp only [Env.handle]
  rcases addU64 build.overflowChecks (env.clock w.tick) (min r.lease cfg.maxLeaseSec) with
    p | expires
  · rfl
  have hswept : sweptReg w.next (env.clock w.tick) = sweptReg w (env.clock w.tick) := rfl
  rw [exec_orPanic_ok_bind, exec_bind, exec_fregSection, hswept]
  dsimp only
  rcases fregGate cfg (sweptReg w (env.clock w.tick)) r.handle r.prevToken (env.clock w.tick) with
    e | ⟨⟨⟩⟩ <;> rfl

theorem registered_sweptReg (h : Registered w.reg) (now : ℕ) : Registered (sweptReg w now) := by
  unfold sweptReg
  split
  · intro k r hr
    rw [Table.lookup_retain] at hr
    exact h k r (Option.filter_eq_some_iff.mp hr).1
  · exact h

/-- The section of a `freg` whose fields are right keeps the registry well formed. -/
theorem registered_fregSection (h : Registered w.reg) {r : FregRequest}
    (hr : readFreg build req = .ok r) (now expires : ℕ) :
    Registered (exec env.handle (fregSection cfg r now expires) w).1.reg := by
  rw [exec_fregSection]
  dsimp only
  split
  · exact registered_sweptReg h _
  intro k r' hk
  dsimp only at hk
  rw [Table.lookup_insert_eq] at hk
  split at hk
  · cases hk
    subst k
    obtain ⟨hhandle, htoken, -⟩ := readFreg_ok hr
    exact ⟨hhandle, htoken⟩
  · exact registered_sweptReg h _ k r' hk

/-- **The registry stays well formed.** -/
theorem registered_runFreg (h : Registered w.reg) :
    Registered (exec env.handle (runFreg build cfg req) w).1.reg := by
  have hnext : Registered w.next.reg := h
  rw [runFreg_eq]
  rcases hr : readFreg build req with e | r
  · exact h
  rw [exec_orFail_ok_bind, exec_ask_bind]
  refine exec_bind_invariant (I := fun w : World σ => Registered w.reg) ?_ fun expires w' hw' => ?_
  · rw [exec_orPanic]
    exact hnext
  · exact exec_bind_invariant (I := fun w : World σ => Registered w.reg)
      (registered_fregSection hw' hr _ expires) fun _ _ hw => hw

/-- `freg` unwinds exactly when its fields are right and the end of the lease overflows. -/
theorem unwinds_runFreg_iff :
    Unwinds env.handle (runFreg build cfg req) w ↔
      ∃ r, readFreg build req = .ok r ∧ build.overflowChecks = true ∧
        2 ^ 64 ≤ env.clock w.tick + min r.lease cfg.maxLeaseSec := by
  rw [Unwinds, exec_runFreg]
  rcases readFreg build req with e | r
  · simp
  simp only [Except.ok.injEq, exists_eq_left', ← addU64_error_iff]
  rcases hadd : addU64 build.overflowChecks (env.clock w.tick) (min r.lease cfg.maxLeaseSec) with
    p | expires
  · simp
  dsimp only
  rcases fregGate cfg (sweptReg w (env.clock w.tick)) r.handle r.prevToken
    (env.clock w.tick) with e | ⟨⟨⟩⟩ <;> simp

/-! ## The checks of a put -/

/-- The memory of the relay is as before. -/
structure SameMemory (w w' : World σ) : Prop where
  reg : w'.reg = w.reg
  queues : w'.queues = w.queues
  lastSweepSec : w'.lastSweepSec = w.lastSweepSec
  tick : w.tick ≤ w'.tick

theorem SameMemory.refl (w : World σ) : SameMemory w w := ⟨rfl, rfl, rfl, le_rfl⟩

theorem SameMemory.trans {w w' w'' : World σ} (h : SameMemory w w') (h' : SameMemory w' w'') :
    SameMemory w w'' :=
  ⟨h'.reg.trans h.reg, h'.queues.trans h.queues, h'.lastSweepSec.trans h.lastSweepSec,
    h.tick.trans h'.tick⟩

theorem World.next_sameMemory (w : World σ) : SameMemory w w.next :=
  ⟨rfl, rfl, rfl, Nat.le_succ _⟩

/-- The relay is as before, but for its rate limiter. -/
structure Untouched (w w' : World σ) : Prop extends SameMemory w w' where
  dir : w'.dir = w.dir

theorem untouched_gateOp {v w : World σ} {β : Type} {e : Op β} (he : GateOp β e)
    (hv : Untouched w v) : Untouched w (env.handle _ e v).1 := by
  obtain ⟨⟨hr, hq, hl, ht⟩, hd⟩ := hv
  cases e with
  | nowSec => exact ⟨⟨hr, hq, hl, ht.trans (Nat.le_succ _)⟩, hd⟩
  | lock m => exact ⟨⟨hr, hq, hl, ht⟩, hd⟩
  | unlock m => exact ⟨⟨hr, hq, hl, ht⟩, hd⟩
  | getWins l => exact ⟨⟨hr, hq, hl, ht⟩, hd⟩
  | setWins l x => cases l <;> exact ⟨⟨hr, hq, hl, ht⟩, hd⟩
  | getReg => exact ⟨⟨hr, hq, hl, ht⟩, hd⟩
  | _ => exact he.elim

theorem untouched_of_gateOp (env : Env σ) (w : World σ) {α : Type} {m : Fallible Op α}
    (hm : Only GateOp m) :
    Untouched w (exec env.handle m w).1 :=
  hm.invariant (I := fun v : World σ => Untouched w v) (fun _ _ _ he hv => untouched_gateOp he hv)
    ⟨.refl w, rfl⟩

theorem exec_fputRegistered (h : String) :
    exec env.handle (fputRegistered h) w =
      match w.reg.lookup h with
      | none => (w, .ok (.error "404 unknown handle"))
      | some r => (w.next, .ok (if r.expires ≤ env.clock w.tick then
          .error "404 handle lease expired" else .ok ())) := by
  rw [fputRegistered, exec_locked, exec_ask_bind]
  simp only [Env.handle]
  rcases w.reg.lookup h with _ | r
  · rfl
  · dsimp only
    rw [exec_ask_bind]
    rfl

/-- A put passes its checks only at a handle that is registered, with a pointer whose deadline is
still to come. -/
theorem exec_fputGate_ok {ip h : String} {pointer : Pointer} {now : ℕ} {w' : World σ}
    (hgate : exec env.handle (fputGate build cfg req ip) w = (w', .ok (.ok (h, pointer, now)))) :
    readHandle build "400 fput needs handle" req = .ok h ∧ (∃ r, w.reg.lookup h = some r) ∧
      fputPointer req = .ok pointer ∧ now < pointer.deadline ∧
      ∃ t, w.tick ≤ t ∧ t < w'.tick ∧ now = env.clock t := by
  simp only [fputGate, exec_bind_eq_ok, exec_orFail, exec_ask, exec_pure, exec_refuseIf_eq_ok,
    Prod.mk.injEq, Except.ok.injEq] at hgate
  obtain ⟨s₁, h', ⟨rfl, hh⟩, s₂, ⟨⟩, hreg, s₃, now₁, ⟨rfl, -⟩, s₄, ok, hallow, s₅, ⟨⟩, ⟨rfl, -⟩, s₆, p,
    ⟨rfl, hp⟩, s₇, ⟨⟩, ⟨rfl, -⟩, s₈, now₂, ⟨rfl, hnow⟩, s₉, ⟨⟩, ⟨rfl, hdead⟩, rfl, rfl, rfl, rfl⟩ :=
      hgate
  have hticks : w.tick ≤ s₂.tick ∧ s₂.tick + 1 ≤ s₇.tick := by
    have h₂ := (untouched_of_gateOp env w (tidy_fputRegistered h').only).tick
    have h₄ := (untouched_of_gateOp env (env.handle ℕ .nowSec s₂).1
      (tidy_allow_fput ip cfg.fputRate now₁).only).tick
    rw [hreg] at h₂
    rw [hallow] at h₄
    exact ⟨h₂, h₄⟩
  rw [exec_fputRegistered] at hreg
  refine ⟨hh, ?_, hp, not_le.mp hdead, s₇.tick, by omega, Nat.lt_succ_self _, hnow.symm⟩
  split at hreg
  · cases hreg
  · exact ⟨_, ‹_›⟩

/-! ## The checks of a drain -/

theorem exec_fpopAuthorised (h token : String) :
    exec env.handle (fpopAuthorised h token) w =
      match w.reg.lookup h with
      | none => (w, .ok (.error "404 unknown handle"))
      | some r => (w.next, .ok (if r.expires ≤ env.clock w.tick ∨ ctEq r.token token = false then
          .error "403 wrong token" else .ok ())) := by
  rw [fpopAuthorised, exec_locked, exec_ask_bind]
  simp only [Env.handle]
  rcases w.reg.lookup h with _ | r
  · rfl
  · dsimp only
    rw [exec_ask_bind]
    rfl

/-- A drain passes its checks only at a live registration under the token presented. -/
theorem exec_fpopGate_ok {ip h : String} {now : ℕ} {w' : World σ}
    (hgate : exec env.handle (fpopGate build cfg req ip) w = (w', .ok (.ok (h, now)))) :
    readHandle build "400 fpop needs handle" req = .ok h ∧
      (∃ r t, w.reg.lookup h = some r ∧ w.tick ≤ t ∧ t < w'.tick ∧ env.clock t < r.expires ∧
        ctEq r.token (presentedToken req) = true) ∧
      ∃ t, w.tick ≤ t ∧ t < w'.tick ∧ now = env.clock t := by
  -- the operations of the gate, in the order of the source
  simp only [fpopGate, exec_bind_eq_ok, exec_orFail, exec_ask, exec_pure, exec_refuseIf_eq_ok,
    Prod.mk.injEq, Except.ok.injEq] at hgate
  obtain ⟨s₁, h', ⟨rfl, hh⟩, s₂, now₁, ⟨rfl, -⟩, s₃, ok, hallow, s₄, ⟨⟩, ⟨rfl, -⟩, s₅, ⟨⟩, hauth, s₆,
    now₂, ⟨rfl, hnow⟩, rfl, rfl, rfl⟩ := hgate
  have hun := untouched_of_gateOp env (env.handle ℕ .nowSec w).1
    (tidy_allow_fput ip cfg.fputRate now₁).only
  rw [hallow] at hun
  have hreg : s₄.reg = w.reg := hun.reg
  have htick : w.tick < s₄.tick := hun.tick
  rw [exec_fpopAuthorised, hreg] at hauth
  refine ⟨hh, ?_, ?_⟩
  · rcases hr : w.reg.lookup h' with _ | r
    · rw [hr] at hauth
      cases hauth
    · rw [hr] at hauth
      simp only [Prod.mk.injEq, Except.ok.injEq] at hauth
      obtain ⟨rfl, hok⟩ := hauth
      split at hok
      · cases hok
      · rename_i hlive
        rw [not_or, not_le, Bool.not_eq_false] at hlive
        refine ⟨r, s₄.tick, rfl, htick.le, ?_, hlive.1, hlive.2⟩
        exact (Nat.lt_succ_self _).trans (Nat.lt_succ_self _)
  · have h₅ : s₄.tick ≤ s₅.tick := by
      split at hauth
      · cases hauth
      · obtain ⟨rfl, -⟩ := Prod.mk.inj hauth
        exact Nat.le_succ _
    exact ⟨s₅.tick, htick.le.trans h₅, Nat.lt_succ_self _, hnow.symm⟩

/-! ## The rest of a put -/

theorem handleBytes_encode (handle : U8Array 32) :
    handleBytes (Hex.encode handle.toList) = .ok handle := by
  rw [handleBytes, Hex.decode_encode]
  exact copyFromSlice_toList handle

/-- Once its checks have passed, a put at a well-formed handle unwinds exactly when the horizon
overflows. -/
theorem unwinds_fputStore_iff {handle : U8Array 32} {pointer : Pointer} {now : ℕ} :
    Unwinds env.handle (fputStore build cfg (Hex.encode handle.toList) pointer now) w ↔
      build.overflowChecks = true ∧ 2 ^ 64 ≤ now + cfg.maxDeadlineHorizonSec := by
  have htotal : Tidy QueueOp (do
      let receivedAt ← ask .nowSec
      let raw := marshalEnvelope ⟨handle, pointer, receivedAt⟩
      let cidHex := Hex.encode (build.sha256 raw).toList
      persistEnvelope cidHex raw
      putQueue cfg (Hex.encode handle.toList)
        ⟨pointer, cidHex, pointer.deadline, receivedAt⟩) :=
    tidy_bind (tidy_ask trivial) fun _ => tidy_bind (tidy_persistEnvelope _ _) fun _ =>
      (tidy_putQueue _ _ _).mono fun _ _ => queueOp_of_dropOp
  rw [← addU64_error_iff, fputStore, unwinds_bind, unwinds_orPanic]
  refine or_iff_left ?_
  rintro ⟨w', horizon, -, hrest⟩
  rw [handleBytes_encode, unwinds_bind_of_total (total_refuseIf _ _)] at hrest
  obtain ⟨w'', -, -, hrest⟩ := hrest
  exact htotal.total.not_unwinds hrest

/-- `fput` unwinds exactly when its checks pass and the horizon overflows. -/
theorem unwinds_runFput_iff (hreg : Registered w.reg) (ip : String) :
    Unwinds env.handle (runFput build cfg req ip) w ↔
      ∃ w' h pointer now,
        exec env.handle (fputGate build cfg req ip) w = (w', .ok (.ok (h, pointer, now))) ∧
        build.overflowChecks = true ∧ 2 ^ 64 ≤ now + cfg.maxDeadlineHorizonSec := by
  have hstore {w' : World σ} {h : String} {pointer : Pointer} {now : ℕ}
      (hgate : exec env.handle (fputGate build cfg req ip) w = (w', .ok (.ok (h, pointer, now)))) :
      Unwinds env.handle (fputStore build cfg h pointer now) w' ↔
        build.overflowChecks = true ∧ 2 ^ 64 ≤ now + cfg.maxDeadlineHorizonSec := by
    obtain ⟨-, ⟨r, hr⟩, -⟩ := exec_fputGate_ok hgate
    obtain ⟨⟨handle, rfl⟩, -⟩ := hreg h r hr
    exact unwinds_fputStore_iff
  rw [runFput, unwinds_bind_of_total (tidy_fputGate _ _ _ _).total]
  constructor
  · rintro ⟨w', ⟨h, pointer, now⟩, hgate, hrest⟩
    rw [unwinds_bind_total fun _ => total_pure _] at hrest
    exact ⟨w', h, pointer, now, hgate, (hstore hgate).mp hrest⟩
  · rintro ⟨w', h, pointer, now, hgate, hover⟩
    exact ⟨w', (h, pointer, now), hgate, unwinds_bind.mpr (.inl ((hstore hgate).mpr hover))⟩

/-! ## What the verbs return -/

theorem exec_runFreg_ok {v : Value}
    (h : (exec env.handle (runFreg build cfg req) w).2 = .ok (.ok v)) :
    ∃ (expires : ℕ) (token : String), token.utf8ByteSize ≤ 128 ∧
      v = .object [("expires", .uint expires), ("token", .string token)] := by
  rw [exec_runFreg] at h
  split at h
  · cases h
  rename_i r hr
  dsimp only at h
  split at h
  · cases h
  split at h
  · cases h
  · cases h
    exact ⟨_, r.token, (readFreg_ok hr).2.2, rfl⟩

theorem exec_runFput_ok {ip : String} {v : Value}
    (h : (exec env.handle (runFput build cfg req ip) w).2 = .ok (.ok v)) :
    v = .object [("queued", .bool true)] := by
  rcases hx : exec env.handle (runFput build cfg req ip) w with ⟨w', r⟩
  rw [hx] at h
  obtain rfl : r = _ := h
  simp only [runFput, exec_bind_eq_ok] at hx
  obtain ⟨s₁, a, -, s₂, u, -, hret⟩ := hx
  cases hret
  rfl

theorem length_drain {now max : ℕ} {q q' : List Queued} {out out' : List Pointer} {w' : World σ}
    (hout : out.length ≤ max)
    (h : exec env.handle (drain now max q out) w = (w', .ok (.ok (q', out')))) :
    out'.length ≤ max := by
  induction q generalizing out w with
  | nil =>
    cases h
    exact hout
  | cons item q ih =>
    unfold drain at h
    split at h
    · rw [dropEnvelope, exec_ask_bind] at h
      refine ih ?_ h
      split
      · rw [List.length_append, List.length_singleton]
        omega
      · exact hout
    · cases h
      exact hout

theorem exec_runFpop_ok {ip : String} {v : Value}
    (h : (exec env.handle (runFpop build cfg req ip) w).2 = .ok (.ok v)) :
    ∃ out, out.length ≤ readMax req ∧ v = pointersResponse out := by
  rcases hx : exec env.handle (runFpop build cfg req ip) w with ⟨w', r⟩
  rw [hx] at h
  obtain rfl : r = _ := h
  simp only [runFpop, exec_bind_eq_ok] at hx
  obtain ⟨s₁, hd, -, s₂, now, -, s₃, ok, -, s₄, u, -, s₅, u', -, s₆, now', -, s₇, out, hdrain,
    hret⟩ := hx
  cases hret
  refine ⟨out, ?_, rfl⟩
  rw [drainQueue, exec_locked, exec_ask_bind] at hdrain
  split at hdrain
  · cases hdrain
    exact Nat.zero_le _
  · simp only [exec_bind_eq_ok] at hdrain
    obtain ⟨s₈, ⟨q', out'⟩, hq, s₉, u'', -, hlast⟩ := hdrain
    cases hlast
    exact length_drain (Nat.zero_le _) hq

end

end SporePeer
