import Mathlib.Algebra.BigOperators.Group.Finset.Piecewise
import Mathlib.Algebra.Order.BigOperators.Group.Finset
import SporePeer.Fabric.Runs
import SporePeer.Node.Server
import SporePeer.Node.Windows

/-!
# The push rate

The rate of pushes is configured per minute, and the limiter counts per second: the value of the
clock itself names the window. So in every second an address has as many pushes admitted as it
makes, up to the rate, and over a minute this adds up.

## Main definitions

* `Hit`, `hits`: the pushes that reach the limiter in a run of requests
* `hitsAt`, `admittedAt`, `admittedIn`: their numbers in a second and in a minute

## Main results

* `counted_handlePutObject`: what a request does to the limiter
* `admittedIn_eq_sum`: how many pushes of a minute are admitted
* `rate_per_minute_iff`: when these are no more than configured
-/

namespace SporePeer

open Effects Text

/-! ## Hits -/

/-- A push that reaches the limiter: its address, the second, and whether it is admitted. -/
structure Hit where
  ip : String
  second : ℕ
  admitted : Bool

section

variable {σ : Type} (env : Env σ) (build : Build) (cfg : ServeConfig) (dir : String)

/-- The question that `enforce_write_policy` asks the limiter first. -/
def askLimiter (ip : String) : Fallible Op Bool := do
  let now ← ask .nowSec
  allow .put cfg.putRate ip now

/-- What follows the limiter in `enforce_write_policy`: the token and the quota. -/
def restOfPolicy (bodyLen : ℕ) (payload : Value) : Fallible Op Unit := do
  let given := ((payload.get "TOKEN").bind Value.asStr).getD ""
  refuseIf (cfg.token.any fun tok => !ctEq given tok) "401 bad write token"
  if 0 < cfg.maxStoreBytes then
    let used ← storeBytes
    refuseIf (cfg.maxStoreBytes < min (used + bodyLen) (2 ^ 64 - 1)) "507 store full"

theorem enforceWritePolicy_eq (ip : String) (bodyLen : ℕ) (payload : Value) :
    enforceWritePolicy cfg ip bodyLen payload = (do
      let ok ← askLimiter cfg ip
      refuseIf (ok = false) "429 put rate limit exceeded"
      restOfPolicy cfg bodyLen payload) := by
  simp only [enforceWritePolicy, askLimiter, restOfPolicy, bind_assoc]

/-- The limiter lets the address pass in the state `w`. -/
def limiterPasses (w : World σ) (ip : String) : Bool :=
  match (exec env.handle (askLimiter cfg ip) w).2 with
  | .ok (.ok ok) => ok
  | _ => false

/-- The hit of a push, unless its body is no hexadecimal text. -/
def hitOf (w : World σ) (ip : String) (msg : Rpc2Message) : List Hit :=
  match Hex.decode (payloadText msg "BODY") with
  | none => []
  | some _ => [⟨ip, env.clock w.tick, limiterPasses env cfg w ip⟩]

/-- The pushes that reach the limiter when the requests are served one after another. -/
def hits (w : World σ) : List (String × Rpc2Message) → List Hit
  | [] => []
  | r :: rest => hitOf env cfg w r.1 r.2 ++
      hits (exec env.handle (handlePutObject build cfg dir r.1 r.2) w).1 rest

end

/-- The hits of an address in a second. -/
def hitsAt (H : List Hit) (ip : String) (t : ℕ) : ℕ :=
  H.countP fun x => x.ip = ip ∧ x.second = t

/-- The hits of an address in a second that are admitted. -/
def admittedAt (H : List Hit) (ip : String) (t : ℕ) : ℕ :=
  H.countP fun x => (x.ip = ip ∧ x.second = t) ∧ x.admitted

/-- The hits of an address in a minute that are admitted. -/
def admittedIn (H : List Hit) (ip : String) (minute : ℕ) : ℕ :=
  H.countP fun x => (x.ip = ip ∧ x.second / 60 = minute) ∧ x.admitted

/-! ## The limiter -/

section

variable {σ : Type} {env : Env σ} {build : Build} {cfg : ServeConfig} {dir : String} {w : World σ}

theorem exec_askLimiter (hrate : 0 < cfg.putRate) (ip : String) :
    exec env.handle (askLimiter cfg ip) w =
      ({ w.next with putWins := (countHit cfg.putRate w.putWins ip (env.clock w.tick)).1 },
        .ok (.ok (countHit cfg.putRate w.putWins ip (env.clock w.tick)).2)) := by
  rw [askLimiter, exec_ask_bind]
  simp only [Env.handle]
  rw [allow, if_neg hrate.ne', exec_locked, exec_ask_bind, exec_ask_bind]
  rfl

/-- The calls that leave the limiter of pushes alone. -/
def KeepsWins : (β : Type) → Op β → Prop
  | _, .setWins .put _ => False
  | _, _ => True

theorem putWins_of_keepsWins {α : Type} {m : Fallible Op α} (hm : Only KeepsWins m)
    (w : World σ) : (exec env.handle m w).1.putWins = w.putWins := by
  refine hm.invariant (I := fun v : World σ => v.putWins = w.putWins)
    (fun γ e v he hv => ?_) rfl
  cases e with
  | setWins l x =>
    cases l with
    | put => exact he.elim
    | fput => exact hv
  | write name content =>
    simp only [Env.handle, Env.write]
    split
    · exact hv
    · split <;> exact hv
  | rename src dst =>
    simp only [Env.handle, Env.rename]
    split
    · exact hv
    · split <;> exact hv
  | removeFile name =>
    simp only [Env.handle, Env.removeFile]
    split <;> exact hv
  | _ => exact hv

theorem only_restOfPolicy_keepsWins (cfg : ServeConfig) (bodyLen : ℕ) (payload : Value) :
    Only KeepsWins (restOfPolicy cfg bodyLen payload) := by
  refine only_bind (only_refuseIf _ _) fun _ => ?_
  split
  · exact only_bind (tidy_storeBytes trivial fun _ => trivial).only fun _ => only_refuseIf _ _
  · exact only_pure _

theorem only_storeBody_keepsWins (build : Build) (dir : String) (body : Bytes) :
    Only KeepsWins (storeBody build dir body) := by
  refine only_bind (only_refuseIf _ _) fun _ => only_bind (only_refuseIf _ _) fun _ =>
    only_bind (only_ask trivial) fun present => ?_
  split
  · exact only_pure _
  · refine only_bind (only_ask trivial) fun _ => only_bind (only_orFail _) fun _ =>
      only_bind (only_ask trivial) fun _ => only_bind (only_orFail _) fun _ =>
      only_bind (only_ask trivial) fun renamed => ?_
    split
    · exact only_bind (only_ask trivial) fun _ => only_throw _
    · exact only_pure _

theorem only_respond_keepsWins (frame : Bytes) : Only KeepsWins (respond frame) := only_ask trivial

/-- A push whose body can be read is one hit, and no other call touches the limiter. -/
theorem putWins_handlePutObject (hrate : 0 < cfg.putRate) (ip : String) (msg : Rpc2Message) :
    (exec env.handle (handlePutObject build cfg dir ip msg) w).1.putWins =
      match Hex.decode (payloadText msg "BODY") with
      | none => w.putWins
      | some _ => (countHit cfg.putRate w.putWins ip (env.clock w.tick)).1 := by
  unfold handlePutObject
  rcases Hex.decode (payloadText msg "BODY") with _ | body
  · exact putWins_of_keepsWins (only_respond_keepsWins _) w
  dsimp only
  let I (v : World σ) : Prop := v.putWins = (countHit cfg.putRate w.putWins ip (env.clock w.tick)).1
  have hkeeps {α : Type} {m : Fallible Op α} (hm : Only KeepsWins m) {v : World σ} (hv : I v) :
      I (exec env.handle m v).1 := (putWins_of_keepsWins hm v).trans hv
  -- the limiter is asked once, before all else that is enforced
  have hpolicy : I (exec env.handle (enforceWritePolicy cfg ip body.length msg.payload) w).1 := by
    rw [enforceWritePolicy_eq, exec_bind_ok (exec_askLimiter hrate ip)]
    apply hkeeps _ rfl
    exact only_bind (only_refuseIf _ _) fun _ => only_restOfPolicy_keepsWins _ _ _
  show I _
  refine exec_bind_invariant (I := I) ?_ fun policy v hv => ?_
  · rw [exec_attempt]
    exact hpolicy
  split
  · exact hkeeps (only_respond_keepsWins _) hv
  apply hkeeps _ hv
  refine only_bind (only_orPanic _) fun blid => ?_
  split
  · exact only_respond_keepsWins _
  refine only_bind (only_attempt (only_storeBody_keepsWins _ _ _)) fun stored => ?_
  split
  · exact only_bind (only_orPanic _) fun _ => only_bind (only_orPanic _) fun _ =>
      only_respond_keepsWins _
  · exact only_respond_keepsWins _

theorem limiterPasses_eq (hrate : 0 < cfg.putRate) (ip : String) :
    limiterPasses env cfg w ip = (countHit cfg.putRate w.putWins ip (env.clock w.tick)).2 := by
  rw [limiterPasses, exec_askLimiter hrate]

/-! ## Counting -/

/-- The windows of the limiter after the hits `H`: the last second of each address, and how many
of its pushes were admitted in it. -/
structure Counted (env : Env σ) (max : ℕ) (H : List Hit) (w : World σ) : Prop where
  fresh : ∀ ip, w.putWins.lookup ip = none → ∀ x ∈ H, x.ip ≠ ip
  past : ∀ x ∈ H, x.second ≤ env.clock w.tick
  window : ∀ ip t c, w.putWins.lookup ip = some (t, c) →
    c = min max (hitsAt H ip t) ∧ t ≤ env.clock w.tick ∧ ∀ x ∈ H, x.ip = ip → x.second ≤ t
  admitted : ∀ ip t, admittedAt H ip t = min max (hitsAt H ip t)

theorem hitsAt_concat (H : List Hit) (x : Hit) (ip : String) (t : ℕ) :
    hitsAt (H ++ [x]) ip t = hitsAt H ip t + if x.ip = ip ∧ x.second = t then 1 else 0 := by
  rw [hitsAt, List.countP_append, List.countP_singleton]
  simp only [decide_eq_true_iff]
  rfl

theorem admittedAt_concat (H : List Hit) (x : Hit) (ip : String) (t : ℕ) :
    admittedAt (H ++ [x]) ip t =
      admittedAt H ip t + if (x.ip = ip ∧ x.second = t) ∧ x.admitted then 1 else 0 := by
  rw [admittedAt, List.countP_append, List.countP_singleton]
  simp only [decide_eq_true_iff]
  rfl

theorem admittedIn_concat (H : List Hit) (x : Hit) (ip : String) (minute : ℕ) :
    admittedIn (H ++ [x]) ip minute = admittedIn H ip minute +
      if (x.ip = ip ∧ x.second / 60 = minute) ∧ x.admitted then 1 else 0 := by
  rw [admittedIn, List.countP_append, List.countP_singleton]
  simp only [decide_eq_true_iff]
  rfl

theorem hitsAt_eq_zero {H : List Hit} {ip : String} {t : ℕ}
    (h : ∀ x ∈ H, x.ip = ip → x.second ≠ t) : hitsAt H ip t = 0 := by
  rw [hitsAt, List.countP_eq_zero]
  intro x hx hp
  obtain ⟨hip, ht⟩ := of_decide_eq_true hp
  exact h x hx hip ht

/-- An address has used up its hits of the second, up to the rate. -/
theorem Counted.used_eq {max : ℕ} {H : List Hit} (h : Counted env max H w) (ip : String) :
    used w.putWins ip (env.clock w.tick) = min max (hitsAt H ip (env.clock w.tick)) := by
  rcases hlook : w.putWins.lookup ip with _ | ⟨t, c⟩
  · have hzero : hitsAt H ip (env.clock w.tick) = 0 :=
      hitsAt_eq_zero fun x hx hip => absurd hip (h.fresh ip hlook x hx)
    rw [used, hlook, hzero, Nat.min_zero]
    rfl
  · obtain ⟨rfl, hle, hlast⟩ := h.window ip t c hlook
    rw [used_of_lookup hlook]
    by_cases ht : t = env.clock w.tick
    · rw [if_pos ht, ht]
    · -- the window is of an earlier second, so this second has no hits yet
      have hzero : hitsAt H ip (env.clock w.tick) = 0 := by
        apply hitsAt_eq_zero
        intro x hx hip hsec
        have hx := hlast x hx hip
        exact ht (Nat.le_antisymm hle (hsec ▸ hx))
      rw [if_neg ht, hzero, Nat.min_zero]

/-- An address is admitted exactly as long as its hits of the second are fewer than the rate. -/
theorem Counted.countHit_eq {max : ℕ} {H : List Hit} (h : Counted env max H w) (hmax : 0 < max)
    (ip : String) :
    let now := env.clock w.tick
    countHit max w.putWins ip now = (w.putWins.insert ip (now, min max (hitsAt H ip now + 1)),
      decide (hitsAt H ip now < max)) := by
  intro now
  rw [SporePeer.countHit_eq hmax, h.used_eq ip]
  by_cases hroom : hitsAt H ip now < max
  · have hmin : min max (hitsAt H ip now) = hitsAt H ip now := min_eq_right hroom.le
    rw [hmin, if_pos hroom, min_eq_right hroom]
  · have hmin : min max (hitsAt H ip now) = max := min_eq_left (not_lt.mp hroom)
    have hnext : min max (hitsAt H ip now + 1) = max := min_eq_left (by omega)
    rw [hmin, if_neg (lt_irrefl max), hnext, decide_eq_false (lt_irrefl max),
      decide_eq_false hroom]

/-- **One push.** The windows and the hits go on together. -/
theorem counted_handlePutObject (hrate : 0 < cfg.putRate) (hmono : Monotone env.clock)
    {H : List Hit} (h : Counted env cfg.putRate H w) (ip : String) (msg : Rpc2Message) :
    Counted env cfg.putRate (H ++ hitOf env cfg w ip msg)
      (exec env.handle (handlePutObject build cfg dir ip msg) w).1 := by
  have htick := hmono (tick_le_exec env (handlePutObject build cfg dir ip msg) w)
  have hwins : (exec env.handle (handlePutObject build cfg dir ip msg) w).1.putWins = _ :=
    putWins_handlePutObject hrate ip msg
  generalize (exec env.handle (handlePutObject build cfg dir ip msg) w).1 = w' at htick hwins ⊢
  rcases hbody : Hex.decode (payloadText msg "BODY") with _ | body
  · -- a request whose body is no hexadecimal does not get to the limiter
    rw [hbody] at hwins
    dsimp only at hwins
    rw [show hitOf env cfg w ip msg = [] by rw [hitOf, hbody], List.append_nil]
    refine ⟨fun ip' hlook => h.fresh ip' (hwins ▸ hlook), fun x hx => (h.past x hx).trans htick,
      fun ip' t c hlook => ?_, h.admitted⟩
    obtain ⟨hc, hle, hlast⟩ := h.window ip' t c (hwins ▸ hlook)
    exact ⟨hc, hle.trans htick, hlast⟩
  rw [hbody] at hwins
  dsimp only at hwins
  rw [show hitOf env cfg w ip msg = [⟨ip, env.clock w.tick, limiterPasses env cfg w ip⟩] by
    rw [hitOf, hbody]]
  set now := env.clock w.tick with hnow
  have hcount := h.countHit_eq hrate ip
  have hpass : limiterPasses env cfg w ip = decide (hitsAt H ip now < cfg.putRate) := by
    rw [limiterPasses_eq hrate, hcount]
  rw [hcount] at hwins
  dsimp only at hwins
  -- only the window of this address changes
  have hlook (ip' : String) : w'.putWins.lookup ip' =
      if ip' = ip then some (now, min cfg.putRate (hitsAt H ip now + 1))
      else w.putWins.lookup ip' := by
    rw [hwins, Table.lookup_insert_eq]
  constructor
  · intro ip' hnone x hx
    rw [hlook] at hnone
    split at hnone
    · cases hnone
    · rename_i hne
      rcases List.mem_append.mp hx with hx | hx
      · exact h.fresh ip' hnone x hx
      · rw [List.mem_singleton.mp hx]
        exact fun he => hne he.symm
  · intro x hx
    rcases List.mem_append.mp hx with hx | hx
    · exact (h.past x hx).trans htick
    · rw [List.mem_singleton.mp hx]
      exact htick
  · intro ip' t c hsome
    rw [hlook] at hsome
    split at hsome
    · -- the window of this address is of this second, and counts the hit
      rename_i hip
      obtain ⟨rfl, rfl⟩ := Prod.mk.inj (Option.some.inj hsome)
      refine ⟨?_, htick, fun x hx _ => ?_⟩
      · rw [hip, hitsAt_concat, if_pos ⟨rfl, rfl⟩]
      · rcases List.mem_append.mp hx with hx | hx
        · exact h.past x hx
        · rw [List.mem_singleton.mp hx]
    · -- the windows of the others are as they were
      rename_i hne
      obtain ⟨hc, hle, hlast⟩ := h.window ip' t c hsome
      refine ⟨?_, hle.trans htick, fun x hx hip => ?_⟩
      · rw [hitsAt_concat, if_neg fun he => hne he.1.symm]
        exact hc
      · rcases List.mem_append.mp hx with hx | hx
        · exact hlast x hx hip
        · rw [List.mem_singleton.mp hx] at hip
          exact absurd hip.symm hne
  · intro ip' t
    rw [hitsAt_concat, admittedAt_concat, h.admitted, hpass]
    by_cases hhere : ip = ip' ∧ now = t
    · -- the hit counted last is admitted as long as the rate is not reached
      rw [if_pos hhere, ← hhere.1, ← hhere.2]
      by_cases hfull : hitsAt H ip now < cfg.putRate
      · rw [if_pos ⟨⟨rfl, rfl⟩, decide_eq_true hfull⟩, min_eq_right (by omega),
          min_eq_right (by omega)]
      · rw [if_neg fun he => hfull (of_decide_eq_true he.2), min_eq_left (by omega),
          min_eq_left (by omega), Nat.add_zero]
    · rw [if_neg hhere, if_neg fun he => hhere he.1]
      rfl

/-- Along a run of requests. -/
theorem counted_hits (hrate : 0 < cfg.putRate) (hmono : Monotone env.clock)
    (reqs : List (String × Rpc2Message)) {H : List Hit} (h : Counted env cfg.putRate H w) :
    ∀ ip t, admittedAt (H ++ hits env build cfg dir w reqs) ip t =
      min cfg.putRate (hitsAt (H ++ hits env build cfg dir w reqs) ip t) := by
  induction reqs generalizing w H with
  | nil =>
    rw [hits, List.append_nil]
    exact h.admitted
  | cons r reqs ih =>
    rw [hits, ← List.append_assoc]
    exact ih (counted_handlePutObject hrate hmono h r.1 r.2)

/-! ## Minutes -/

/-- A hit is admitted in a minute as often as in the seconds of the minute. -/
theorem sum_admitted (x : Hit) (ip : String) (minute : ℕ) :
    (∑ j ∈ Finset.range 60,
      if (x.ip = ip ∧ x.second = 60 * minute + j) ∧ x.admitted then 1 else 0) =
      if (x.ip = ip ∧ x.second / 60 = minute) ∧ x.admitted then 1 else 0 := by
  by_cases hx : (x.ip = ip ∧ x.second / 60 = minute) ∧ x.admitted
  · -- its second is one of the minute
    have hj : x.second % 60 ∈ Finset.range 60 := Finset.mem_range.mpr (by omega)
    have hsec : x.second = 60 * minute + x.second % 60 := by omega
    rw [if_pos hx, Finset.sum_eq_single_of_mem _ hj, if_pos ⟨⟨hx.1.1, hsec⟩, hx.2⟩]
    intro j _ hne
    refine if_neg fun he => hne ?_
    have := he.1.2
    omega
  · rw [if_neg hx]
    refine Finset.sum_eq_zero fun j hj => if_neg fun he => hx ⟨⟨he.1.1, ?_⟩, he.2⟩
    have := Finset.mem_range.mp hj
    have := he.1.2
    omega

/-- The pushes admitted in a minute are those admitted in its seconds. -/
theorem admittedIn_eq_sum (H : List Hit) (ip : String) (minute : ℕ) :
    admittedIn H ip minute = ∑ j ∈ Finset.range 60, admittedAt H ip (60 * minute + j) := by
  induction H using List.reverseRecOn with
  | nil =>
    symm
    exact Finset.sum_eq_zero fun _ _ => rfl
  | append_singleton H x ih =>
    simp only [admittedAt_concat]
    rw [Finset.sum_add_distrib, ← ih, sum_admitted, admittedIn_concat]

/-- **The rate of pushes holds per second.** From an address, a minute admits no more pushes than
configured exactly if its seconds, none counted beyond the rate, add up to no more. -/
theorem rate_per_minute_iff (env : Env σ) (build : Build) (cfg : ServeConfig) (dir : String)
    (w : World σ) (reqs : List (String × Rpc2Message)) (hrate : 0 < cfg.putRate)
    (hmono : Monotone env.clock) (hnew : w.putWins = ∅) (ip : String) (minute : ℕ) :
    let H := hits env build cfg dir w reqs
    admittedIn H ip minute ≤ cfg.putRate ↔
      ∑ j ∈ Finset.range 60, min cfg.putRate (hitsAt H ip (60 * minute + j)) ≤ cfg.putRate := by
  intro H
  have hstart : Counted env cfg.putRate [] w := by
    refine ⟨nofun, nofun, fun ip t c hlook => ?_, fun ip t => ?_⟩
    · rw [hnew, AList.lookup_empty] at hlook
      cases hlook
    · exact (Nat.min_zero _).symm
  have hadmitted : ∀ ip t, admittedAt ([] ++ hits env build cfg dir w reqs) ip t =
      min cfg.putRate (hitsAt ([] ++ hits env build cfg dir w reqs) ip t) :=
    counted_hits hrate hmono reqs hstart
  rw [List.nil_append] at hadmitted
  have hsum : admittedIn H ip minute =
      ∑ j ∈ Finset.range 60, min cfg.putRate (hitsAt H ip (60 * minute + j)) := by
    rw [admittedIn_eq_sum]
    exact Finset.sum_congr rfl fun j _ => hadmitted ip _
  rw [hsum]

end

/-- The push of a body. -/
def pushRequest (body : Bytes) : Rpc2Message :=
  ⟨"Peer.PutObject", 1, "", .object [("BODY", .string (Hex.encode body))]⟩

/-- Two pushes in one second, under a rate of 1. -/
theorem rate_per_minute_iff_second :
    let env : Env Unit := .still (fun p _ => (p, .error "closed")) 60
    let H := hits env .trailing { putRate := 1 } "" (.fresh ()) [("ip", pushRequest [1]),
      ("ip", pushRequest [2])]
    admittedIn H "ip" 1 ≤ 1 ↔ ∑ j ∈ Finset.range 60, min 1 (hitsAt H "ip" (60 * 1 + j)) ≤ 1 :=
  rate_per_minute_iff _ .trailing { putRate := 1 } "" (.fresh ()) _ (by decide) monotone_const rfl
    "ip" 1

/-- Under a rate of 1 per minute, two pushes one second apart are both admitted. -/
theorem two_seconds_two_pushes :
    let env : Env Unit := .jump (fun p _ => (p, .error "closed")) 60 61 1
    let H := hits env .trailing { putRate := 1 } "" (.fresh ()) [("ip", pushRequest [1]),
      ("ip", pushRequest [2])]
    Monotone env.clock ∧ ¬ admittedIn H "ip" 1 ≤ 1 := by
  refine ⟨fun s t hst => ?_, by decide +kernel⟩
  show (if s < 1 then (60 : ℕ) else 61) ≤ if t < 1 then 60 else 61
  split <;> split <;> omega

end SporePeer
