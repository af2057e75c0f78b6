import SporePeer.Fabric.Footprint
import SporePeer.Library.Purge

/-!
# Interference

All handles of a relay share one registry, one table of windows and one sweep. What a request on a
handle of a group is answered does not depend on the requests on other handles, as long as those
come from other addresses and leave room in the registry: the relay that never gets them answers the
same.

The other requests are seen in one more way, which is not in the payloads: they may cause the sweep
that turns the refusal of an expired handle into that of an unknown one.

## Main definitions

* `Apart`: a relay, and one that has taken the requests of a group alone
* `serveGroup`: a run of both
* `Separate`: the conditions on the requests

## Main results

* `apart_inside`, `apart_outside`: one request
* `unaffected_run`: the payloads of a group in any run
-/

namespace SporePeer

open Effects Text Bytes

section

variable {σ : Type} {env : Env σ} {build : Build} {cfg : FabricConfig} {w : World σ}
  {ip : String} {now : ℕ} {req : Value}

/-! ## Two relays -/

/-- The relay `u` has what the relay `w` has for the handles of a group and for the addresses of
their requests; it has registered no other handle, and may be behind in sweeping. -/
structure Apart (group addrs : String → Prop) (now : ℕ) (w u : World σ) : Prop where
  live : ∀ h, group h → ∀ r, now < r.expires → (w.reg.lookup h = some r ↔ u.reg.lookup h = some r)
  own : ∀ h r, u.reg.lookup h = some r → group h ∧
    (w.reg.lookup h = some r ∨ r.expires ≤ w.lastSweepSec ∧ u.lastSweepSec < w.lastSweepSec)
  swept : u.lastSweepSec = w.lastSweepSec ∨ u.lastSweepSec < w.lastSweepSec ∧ w.lastSweepSec ≤ now
  queue : ∀ h, group h → Queues.of u.queues h = Queues.of w.queues h
  wins : ∀ ip, addrs ip → u.fputWins.lookup ip = w.fputWins.lookup ip
  registered : Registered w.reg
  registered' : Registered u.reg

variable {group addrs : String → Prop} {u : World σ}

theorem Apart.mono {now' : ℕ} (h : Apart group addrs now w u) (hle : now ≤ now') :
    Apart group addrs now' w u :=
  { h with
    live := fun k hk r hlive => h.live k hk r (hle.trans_lt hlive)
    swept := h.swept.imp_right fun hs => ⟨hs.1, hs.2.trans hle⟩ }

/-- What happens to the queues and the windows does not concern the registries. -/
theorem Apart.of_reg (h : Apart group addrs now w u) {w' u' : World σ} (hw : w'.reg = w.reg)
    (hu : u'.reg = u.reg) (hw' : w'.lastSweepSec = w.lastSweepSec)
    (hu' : u'.lastSweepSec = u.lastSweepSec)
    (hq : ∀ k, group k → Queues.of u'.queues k = Queues.of w'.queues k)
    (hwins : ∀ ip, addrs ip → u'.fputWins.lookup ip = w'.fputWins.lookup ip) :
    Apart group addrs now w' u' := by
  obtain ⟨hlive, hown, hswept, -, -, hreg, hreg'⟩ := h
  refine ⟨?_, ?_, ?_, hq, hwins, ?_, ?_⟩
  · rw [hw, hu]
    exact hlive
  · rw [hw, hu, hw', hu']
    exact hown
  · rw [hw', hu']
    exact hswept
  · rw [hw]
    exact hreg
  · rw [hu]
    exact hreg'

/-! ### Registrations -/

theorem Apart.live_sweptReg (h : Apart group addrs now w u) {k : String} (hk : group k)
    {r : Registration} (hlive : now < r.expires) :
    (sweptReg w now).lookup k = some r ↔ (sweptReg u now).lookup k = some r := by
  rw [← sameLive_sweptReg w now k r hlive, ← sameLive_sweptReg u now k r hlive]
  exact h.live k hk r hlive

/-- After its sweep, the relay with fewer requests has no more than the other. -/
theorem Apart.lookup_sweptReg (h : Apart group addrs now w u) {k : String} {r : Registration}
    (hr : (sweptReg u now).lookup k = some r) : (sweptReg w now).lookup k = some r := by
  by_cases hlive : now < r.expires
  · have hu : u.reg.lookup k = some r := (sameLive_sweptReg u now k r hlive).mpr hr
    exact (h.live_sweptReg (h.own k r hu).1 hlive).mpr hr
  -- what has expired is there because neither has swept
  have hsec : ¬ u.lastSweepSec < now := by
    intro hlt
    rw [sweptReg, if_pos hlt, Table.lookup_retain, Option.filter_eq_some_iff] at hr
    exact hlive (of_decide_eq_true hr.2)
  have hu : u.reg.lookup k = some r := by rwa [sweptReg, if_neg hsec] at hr
  have hsame : w.lastSweepSec = u.lastSweepSec := by
    rcases h.swept with hs | hs
    · exact hs.symm
    · omega
  rw [sweptReg, if_neg (by omega)]
  rcases (h.own k r hu).2 with hw | hs
  · exact hw
  · omega

/-- What finds room in the relay with more registrations is decided alike in the other. -/
theorem Apart.fregGate_eq (h : Apart group addrs now w u) (cfg : FabricConfig) (prev : String)
    {k : String} (hk : group k)
    (hroom : fregGate cfg (sweptReg w now) k prev now ≠ .error "503 fabric registry full") :
    fregGate cfg (sweptReg u now) k prev now = fregGate cfg (sweptReg w now) k prev now := by
  have hfilter : ((sweptReg u now).lookup k).filter (fun cur => now < cur.expires) =
      ((sweptReg w now).lookup k).filter fun cur => now < cur.expires := by
    refine Option.ext fun r => ?_
    rw [Option.filter_eq_some_iff, Option.filter_eq_some_iff, decide_eq_true_iff]
    exact and_congr_left fun hlive => (h.live_sweptReg hk hlive).symm
  have hsize : (sweptReg u now).size ≤ (sweptReg w now).size :=
    Table.size_le_of_lookup fun _ _ hr => h.lookup_sweptReg hr
  simp only [fregGate, hfilter] at hroom ⊢
  split
  · rfl
  · rename_i hnone
    rw [hnone] at hroom
    dsimp only at hroom
    split at hroom
    · exact absurd rfl hroom
    · rename_i hfree
      rw [if_neg (by omega), if_neg hfree]

theorem max_eq_max {a b now : ℕ} (h : a = b ∨ a < b ∧ b ≤ now) : max a now = max b now := by omega

/-- A sweep of both. -/
theorem Apart.sweep (h : Apart group addrs now w u) :
    Apart group addrs now
      { w.next with reg := sweptReg w now, lastSweepSec := max w.lastSweepSec now }
      { u.next with reg := sweptReg u now, lastSweepSec := max u.lastSweepSec now } where
  live _ hk _ hlive := h.live_sweptReg hk hlive
  own k r hr := by
    refine ⟨?_, .inl (h.lookup_sweptReg hr)⟩
    have hu : u.reg.lookup k = some r := by
      rw [sweptReg] at hr
      split at hr
      · rw [Table.lookup_retain, Option.filter_eq_some_iff] at hr
        exact hr.1
      · exact hr
    exact (h.own k r hu).1
  swept := .inl (max_eq_max h.swept)
  queue := h.queue
  wins := h.wins
  registered := registered_sweptReg h.registered now
  registered' := registered_sweptReg h.registered' now

/-- A registration that both take. -/
theorem Apart.insert (h : Apart group addrs now w u) {k : String} (hk : group k)
    {r : Registration} (hw : Registered (w.reg.insert k r : Table String Registration))
    (hu : Registered (u.reg.insert k r : Table String Registration)) :
    Apart group addrs now { w with reg := w.reg.insert k r }
      { u with reg := u.reg.insert k r } where
  live k' hk' r' hlive := by
    dsimp only
    rw [Table.lookup_insert_eq, Table.lookup_insert_eq]
    split
    · rfl
    · exact h.live k' hk' r' hlive
  own k' r' hr' := by
    dsimp only at hr' ⊢
    rw [Table.lookup_insert_eq] at hr' ⊢
    split at hr'
    · rename_i hkk
      rw [if_pos hkk]
      exact ⟨hkk ▸ hk, .inl hr'⟩
    · rename_i hkk
      rw [if_neg hkk]
      exact h.own k' r' hr'
  swept := h.swept
  queue := h.queue
  wins := h.wins
  registered := hw
  registered' := hu

/-- The result of a request, as far as it has a payload. -/
def payload {α : Type} : Result (Except String α) → Option α
  | .ok (.ok a) => some a
  | _ => none

theorem registered_insert {reg : Table String Registration} (h : Registered reg) {r : FregRequest}
    (hr : readFreg build req = .ok r) (expires : ℕ) :
    Registered (reg.insert r.handle ⟨r.token, expires⟩ : Table String Registration) := by
  intro k r' hk
  rw [Table.lookup_insert_eq] at hk
  split at hk
  · cases hk
    subst k
    obtain ⟨hhandle, htoken, -⟩ := readFreg_ok hr
    exact ⟨hhandle, htoken⟩
  · exact h k r' hk

/-- The refusal of a full registry. -/
def full : String := "503 fabric registry full"

/-- A registration in the group. -/
theorem apart_freg (h : Apart group addrs (env.clock w.tick) w u) (htick : u.tick = w.tick)
    {r : FregRequest} (hr : readFreg build req = .ok r) (hgroup : group r.handle)
    (hroom : refusal (exec env.handle (runFreg build cfg req) w).2 ≠ some full) :
    payload (exec env.handle (runFreg build cfg req) w).2 =
        payload (exec env.handle (runFreg build cfg req) u).2 ∧
      Apart group addrs (env.clock w.tick) (exec env.handle (runFreg build cfg req) w).1
        (exec env.handle (runFreg build cfg req) u).1 := by
  rw [exec_runFreg, hr] at hroom ⊢
  rw [exec_runFreg, hr]
  dsimp only at hroom ⊢
  rw [htick]
  rcases hadd : addU64 build.overflowChecks (env.clock w.tick) (min r.lease cfg.maxLeaseSec) with
    q | expires
  · exact ⟨rfl, h.of_reg rfl rfl rfl rfl h.queue h.wins⟩
  rw [hadd] at hroom
  dsimp only at hroom ⊢
  have hgate := h.fregGate_eq cfg r.prevToken hgroup (by
    intro hfull
    rw [hfull] at hroom
    exact hroom rfl)
  rw [hgate]
  rcases fregGate cfg (sweptReg w (env.clock w.tick)) r.handle r.prevToken (env.clock w.tick) with
    e | ⟨⟨⟩⟩
  · exact ⟨rfl, h.sweep⟩
  · have hw := registered_insert (registered_sweptReg h.registered (env.clock w.tick)) hr expires
    have hu := registered_insert (registered_sweptReg h.registered' (env.clock w.tick)) hr expires
    exact ⟨rfl, h.sweep.insert hgroup hw hu⟩

/-- A sweep of the relay with more requests alone. -/
theorem Apart.sweep_left (h : Apart group addrs now w u) :
    Apart group addrs now
      { w.next with reg := sweptReg w now, lastSweepSec := max w.lastSweepSec now } u where
  live k hk r hlive := (sameLive_sweptReg w now k r hlive).symm.trans (h.live k hk r hlive)
  own k r hr := by
    obtain ⟨hk, hw | hold⟩ := h.own k r hr
    · refine ⟨hk, ?_⟩
      dsimp only
      by_cases hsec : w.lastSweepSec < now
      · -- what the sweep removes has expired by then
        rw [sweptReg, if_pos hsec, Table.lookup_retain, Option.filter_eq_some_iff,
          decide_eq_true_iff]
        by_cases hlive : now < r.expires
        · exact .inl ⟨hw, hlive⟩
        · refine .inr ⟨(not_lt.mp hlive).trans (le_max_right _ _), ?_⟩
          rcases h.swept with hs | hs
          · exact lt_max_of_lt_right (hs ▸ hsec)
          · exact lt_max_of_lt_left hs.1
      · rw [sweptReg, if_neg hsec]
        exact .inl hw
    · exact ⟨hk, .inr ⟨hold.1.trans (le_max_left _ _), lt_max_of_lt_left hold.2⟩⟩
  swept := by
    have := h.swept
    dsimp only
    omega
  queue := h.queue
  wins := h.wins
  registered := registered_sweptReg h.registered now
  registered' := h.registered'

/-- A registration that one of them takes. -/
theorem Apart.insert_left (h : Apart group addrs now w u) {k : String} (hk : ¬ group k)
    {r : Registration} (hw : Registered (w.reg.insert k r : Table String Registration)) :
    Apart group addrs now { w with reg := w.reg.insert k r } u where
  live k' hk' r' hlive := by
    have hne : k' ≠ k := fun he => hk (he ▸ hk')
    dsimp only
    rw [Table.lookup_insert_eq, if_neg hne]
    exact h.live k' hk' r' hlive
  own k' r' hr' := by
    obtain ⟨hk', hold⟩ := h.own k' r' hr'
    have hne : k' ≠ k := fun he => hk (he ▸ hk')
    dsimp only
    rw [Table.lookup_insert_eq, if_neg hne]
    exact ⟨hk', hold⟩
  swept := h.swept
  queue := h.queue
  wins := h.wins
  registered := hw
  registered' := h.registered'

/-- A registration of another handle. -/
theorem apart_freg_other (h : Apart group addrs (env.clock w.tick) w u)
    (hother : ∀ r, readFreg build req = .ok r → ¬ group r.handle) :
    Apart group addrs (env.clock w.tick) (exec env.handle (runFreg build cfg req) w).1 u := by
  rw [exec_runFreg]
  rcases hr : readFreg build req with e | r
  · exact h
  dsimp only
  split
  · exact h.of_reg rfl rfl rfl rfl h.queue h.wins
  rename_i expires _
  split
  · exact h.sweep_left
  · exact h.sweep_left.insert_left (hother r hr)
      (registered_insert (registered_sweptReg h.registered _) hr expires)

/-! ### Puts and drains -/

theorem reg_runFput (env : Env σ) (build : Build) (cfg : FabricConfig) (req : Value) (ip : String)
    (w : World σ) :
    (exec env.handle (runFput build cfg req ip) w).1.reg = w.reg ∧
      (exec env.handle (runFput build cfg req ip) w).1.lastSweepSec = w.lastSweepSec :=
  reg_of_queueOp (only_runFput build cfg req ip)

theorem reg_runFpop (env : Env σ) (build : Build) (cfg : FabricConfig) (req : Value) (ip : String)
    (w : World σ) :
    (exec env.handle (runFpop build cfg req ip) w).1.reg = w.reg ∧
      (exec env.handle (runFpop build cfg req ip) w).1.lastSweepSec = w.lastSweepSec :=
  reg_of_queueOp (tidy_runFpop build cfg req ip).only

theorem Apart.takes (h : Apart group addrs (env.clock w.tick) w u) (htick : u.tick = w.tick)
    (hip : addrs ip) {p : Put} (hp : group p.key) :
    Takes env build cfg req ip p w ↔ Takes env build cfg req ip p u := by
  have hregistered : (∃ r, w.reg.lookup p.key = some r ∧ env.clock w.tick < r.expires) ↔
      ∃ r, u.reg.lookup p.key = some r ∧ env.clock u.tick < r.expires := by
    rw [htick]
    exact exists_congr fun r => and_congr_left fun hlive => h.live p.key hp r hlive
  have hadmitted : FputAdmitted cfg w.fputWins ip (env.clock (w.tick + 1)) ↔
      FputAdmitted cfg u.fputWins ip (env.clock (u.tick + 1)) := by
    rw [htick]
    exact fputAdmitted_congr (h.wins ip hip).symm
  constructor
  · rintro ⟨⟨hh, hr, ha, hp⟩, hahead, hwithin, hreceived⟩
    refine ⟨⟨hh, hregistered.mp hr, hadmitted.mp ha, hp⟩, ?_, ?_, ?_⟩
    · rw [htick]
      exact hahead
    · rw [htick]
      exact hwithin
    · rw [htick]
      exact hreceived
  · rintro ⟨⟨hh, hr, ha, hp⟩, hahead, hwithin, hreceived⟩
    rw [htick] at hahead hwithin hreceived
    exact ⟨⟨hh, hregistered.mpr hr, hadmitted.mpr ha, hp⟩, hahead, hwithin, hreceived⟩

/-- A put that is not taken has no payload, and leaves the queues. -/
theorem untaken_runFput (hreg : Registered w.reg) (hno : ∀ p, ¬ Takes env build cfg req ip p w) :
    payload (exec env.handle (runFput build cfg req ip) w).2 = none ∧
      (exec env.handle (runFput build cfg req ip) w).1.queues = w.queues := by
  rcases exec_runFput env build cfg req ip hreg with ⟨p, now, hok, -⟩ | ⟨hfail, hun⟩
  · obtain ⟨p, hp⟩ := takes_of_exec hreg hok
    exact absurd hp (hno p)
  · refine ⟨?_, hun.queues⟩
    rcases hx : (exec env.handle (runFput build cfg req ip) w).2 with q | e | v
    · rfl
    · rfl
    · exact absurd hx (hfail v)

/-- The windows that matter stay the same. -/
theorem Apart.wins_runFput (h : Apart group addrs (env.clock w.tick) w u) (cfg : FabricConfig)
    (htick : u.tick = w.tick) (hip : addrs ip) {k : String}
    (hk : readHandle build "400 fput needs handle" req = .ok k) (hgroup : group k) (ip' : String)
    (hip' : addrs ip') :
    (exec env.handle (runFput build cfg req ip) u).1.fputWins.lookup ip' =
      (exec env.handle (runFput build cfg req ip) w).1.fputWins.lookup ip' := by
  by_cases hlive : ∃ r, w.reg.lookup k = some r ∧ env.clock w.tick < r.expires
  · obtain ⟨r, hr, hlive⟩ := hlive
    have hr' : u.reg.lookup k = some r := (h.live k hgroup r hlive).mp hr
    rw [fputWins_runFput_live hk hr hlive, fputWins_runFput_live hk hr' (htick ▸ hlive), htick]
    by_cases hsame : ip' = ip
    · rw [hsame]
      exact fputCounted_congr (h.wins ip hip)
    · rw [lookup_fputCounted_ne hsame, lookup_fputCounted_ne hsame]
      exact h.wins ip' hip'
  · rw [fputWins_runFput_dead fun k' hk' r hr => ?_, fputWins_runFput_dead fun k' hk' r hr => ?_]
    · exact h.wins ip' hip'
    · obtain rfl : k = k' := Except.ok.inj (hk.symm.trans hk')
      exact not_lt.mp fun hlt => hlive ⟨r, hr, hlt⟩
    · obtain rfl : k = k' := Except.ok.inj (hk.symm.trans hk')
      rw [htick]
      exact not_lt.mp fun hlt => hlive ⟨r, (h.live k hgroup r hlt).mpr hr, hlt⟩

/-- A put in the group. -/
theorem apart_fput (hcalm : env.Calm) (h : Apart group addrs (env.clock w.tick) w u)
    (htick : u.tick = w.tick) (hip : addrs ip) {k : String}
    (hk : readHandle build "400 fput needs handle" req = .ok k) (hgroup : group k) :
    payload (exec env.handle (runFput build cfg req ip) w).2 =
        payload (exec env.handle (runFput build cfg req ip) u).2 ∧
      Apart group addrs (env.clock w.tick) (exec env.handle (runFput build cfg req ip) w).1
        (exec env.handle (runFput build cfg req ip) u).1 := by
  have hwins := h.wins_runFput cfg htick hip hk hgroup
  obtain ⟨hreg, hsec⟩ := reg_runFput env build cfg req ip w
  obtain ⟨hreg', hsec'⟩ := reg_runFput env build cfg req ip u
  by_cases htaken : ∃ p, Takes env build cfg req ip p w
  · -- taken in both runs, by queues that are the same
    obtain ⟨p, hp⟩ := htaken
    obtain rfl : k = p.key := Except.ok.inj (hk.symm.trans hp.reaches.handle)
    obtain ⟨w', hw, hqw⟩ := exec_runFput_takes hcalm hp
    obtain ⟨u', hu, hqu⟩ := exec_runFput_takes hcalm ((h.takes htick hip hgroup).mp hp)
    have hqueue (k : String) (hk : group k) : Queues.of u'.queues k = Queues.of w'.queues k := by
      rw [hqw, hqu, compostTick, compostTick, htick, h.queue p.key hgroup, h.queue k hk]
    rw [hw] at hreg hsec hwins ⊢
    rw [hu] at hreg' hsec' hwins ⊢
    exact ⟨rfl, h.of_reg hreg hreg' hsec hsec' hqueue hwins⟩
  · -- taken in neither of them
    have hno (p : Put) : ¬ Takes env build cfg req ip p u := by
      intro hp
      obtain rfl : k = p.key := Except.ok.inj (hk.symm.trans hp.reaches.handle)
      exact htaken ⟨p, (h.takes htick hip hgroup).mpr hp⟩
    obtain ⟨hpay, hqw⟩ := untaken_runFput h.registered fun p hp => htaken ⟨p, hp⟩
    obtain ⟨hpay', hqu⟩ := untaken_runFput h.registered' hno
    refine ⟨hpay.trans hpay'.symm, h.of_reg hreg hreg' hsec hsec' (fun k hk => ?_) hwins⟩
    rw [hqw, hqu]
    exact h.queue k hk

theorem Apart.pops (h : Apart group addrs (env.clock w.tick) w u) (hclock : Monotone env.clock)
    (htick : u.tick = w.tick) (hip : addrs ip) {k : String} (hk : group k) :
    Pops env build cfg req ip k w ↔ Pops env build cfg req ip k u := by
  have hadmitted : FputAdmitted cfg w.fputWins ip (env.clock w.tick) ↔
      FputAdmitted cfg u.fputWins ip (env.clock u.tick) := by
    rw [htick]
    exact fputAdmitted_congr (h.wins ip hip).symm
  have hauthorised : (∃ r, w.reg.lookup k = some r ∧ env.clock (w.tick + 1) < r.expires ∧
        ctEq r.token (presentedToken req) = true) ↔
      ∃ r, u.reg.lookup k = some r ∧ env.clock (u.tick + 1) < r.expires ∧
        ctEq r.token (presentedToken req) = true := by
    rw [htick]
    -- the registries may differ in what has expired, which authorises nobody
    refine exists_congr fun r => and_congr_left fun hr => ?_
    exact h.live k hk r ((hclock (Nat.le_succ _)).trans_lt hr.1)
  constructor
  · exact fun hp => ⟨hp.handle, hadmitted.mp hp.admitted, hauthorised.mp hp.authorised⟩
  · exact fun hp => ⟨hp.handle, hadmitted.mpr hp.admitted, hauthorised.mpr hp.authorised⟩

/-- A drain that is not served has no payload, and leaves the queues. -/
theorem unserved_runFpop (hno : ∀ k, ¬ Pops env build cfg req ip k w) :
    payload (exec env.handle (runFpop build cfg req ip) w).2 = none ∧
      (exec env.handle (runFpop build cfg req ip) w).1.queues = w.queues := by
  rcases exec_runFpop env w build cfg req ip with ⟨k, now, hok, -⟩ | ⟨hfail, hun⟩
  · obtain ⟨k, hp⟩ := pops_of_exec (Prod.ext rfl hok)
    exact absurd hp (hno k)
  · refine ⟨?_, hun.queues⟩
    rcases hx : (exec env.handle (runFpop build cfg req ip) w).2 with q | e | v
    · rfl
    · rfl
    · exact absurd hx (hfail v)

/-- A drain in the group. -/
theorem apart_fpop (h : Apart group addrs (env.clock w.tick) w u) (hclock : Monotone env.clock)
    (htick : u.tick = w.tick) (hip : addrs ip) {k : String}
    (hk : readHandle build "400 fpop needs handle" req = .ok k) (hgroup : group k) :
    payload (exec env.handle (runFpop build cfg req ip) w).2 =
        payload (exec env.handle (runFpop build cfg req ip) u).2 ∧
      Apart group addrs (env.clock w.tick) (exec env.handle (runFpop build cfg req ip) w).1
        (exec env.handle (runFpop build cfg req ip) u).1 := by
  have hwins (ip' : String) (hip' : addrs ip') :
      (exec env.handle (runFpop build cfg req ip) u).1.fputWins.lookup ip' =
        (exec env.handle (runFpop build cfg req ip) w).1.fputWins.lookup ip' := by
    rw [fputWins_runFpop hk, fputWins_runFpop hk, htick]
    by_cases hsame : ip' = ip
    · rw [hsame]
      exact fputCounted_congr (h.wins ip hip)
    · rw [lookup_fputCounted_ne hsame, lookup_fputCounted_ne hsame]
      exact h.wins ip' hip'
  obtain ⟨hreg, hsec⟩ := reg_runFpop env build cfg req ip w
  obtain ⟨hreg', hsec'⟩ := reg_runFpop env build cfg req ip u
  by_cases hp : Pops env build cfg req ip k w
  · -- served in both runs, from queues that are the same
    obtain ⟨w', hw, hqw⟩ := exec_runFpop_pops hp
    obtain ⟨u', hu, hqu⟩ := exec_runFpop_pops ((h.pops hclock htick hip hgroup).mp hp)
    have hqueue (k' : String) (hk' : group k') :
        Queues.of u'.queues k' = Queues.of w'.queues k' := by
      rw [hqw, hqu, htick, h.queue k hgroup, h.queue k' hk']
    rw [hw] at hreg hsec hwins ⊢
    rw [hu] at hreg' hsec' hwins ⊢
    refine ⟨?_, h.of_reg hreg hreg' hsec hsec' hqueue hwins⟩
    rw [htick, h.queue k hgroup]
  · -- served in neither of them
    have hno (k' : String) : ¬ Pops env build cfg req ip k' w := by
      intro hp'
      obtain rfl : k = k' := Except.ok.inj (hk.symm.trans hp'.handle)
      exact hp hp'
    have hno' (k' : String) : ¬ Pops env build cfg req ip k' u := by
      intro hp'
      obtain rfl : k = k' := Except.ok.inj (hk.symm.trans hp'.handle)
      exact hp ((h.pops hclock htick hip hgroup).mpr hp')
    obtain ⟨hpay, hqw⟩ := unserved_runFpop hno
    obtain ⟨hpay', hqu⟩ := unserved_runFpop hno'
    refine ⟨hpay.trans hpay'.symm, h.of_reg hreg hreg' hsec hsec' (fun k hk => ?_) hwins⟩
    rw [hqw, hqu]
    exact h.queue k hk

end

/-! ## Runs -/

/-- The request is about a handle of the group. -/
def Verb.Concerns (build : Build) (group : String → Prop) (v : Verb) : Prop :=
  ∃ h ∈ v.handle build, group h

instance (build : Build) (group : String → Prop) [DecidablePred group] (v : Verb) :
    Decidable (v.Concerns build group) :=
  inferInstanceAs (Decidable (∃ h ∈ v.handle build, group h))

section

variable {σ : Type} (env : Env σ) (build : Build) (cfg : FabricConfig)

/-- A relay at the moment of another. -/
def World.at (w u : World σ) : World σ := { u with tick := w.tick }

/-- The relay after the requests, and after those of them that concern the group. Each of these
arrives at the same moment at both. -/
def serveGroup (group : String → Prop) [DecidablePred group] (w : World σ) (vs : List Verb) :
    World σ × World σ :=
  Purge.both (fun w v => (exec env.handle (v.run build cfg) w).1) (Verb.Concerns build group)
    World.at (w, w) vs

/-- A request of the group comes from one of its addresses and is not refused for want of room, and
any other request comes from none of its addresses. -/
structure Separate (group addrs : String → Prop) (w : World σ) (v : Verb) : Prop where
  inside : v.Concerns build group → ∀ ip, v.addr = some ip → addrs ip
  outside : ¬ v.Concerns build group → ∀ ip, v.addr = some ip → ¬ addrs ip
  room : v.Concerns build group → refusal (exec env.handle (v.run build cfg) w).2 ≠ some full

end

section

variable {σ : Type} {env : Env σ} {build : Build} {cfg : FabricConfig} {w u : World σ}
  {group addrs : String → Prop} {v : Verb}

/-- **A request of the group.** -/
theorem apart_inside (hcalm : env.Calm) (hclock : Monotone env.clock)
    (h : Apart group addrs (env.clock w.tick) w u) (htick : u.tick = w.tick)
    (hv : Separate env build cfg group addrs w v) (hin : v.Concerns build group) :
    payload (exec env.handle (v.run build cfg) w).2 =
        payload (exec env.handle (v.run build cfg) u).2 ∧
      Apart group addrs (env.clock w.tick) (exec env.handle (v.run build cfg) w).1
        (exec env.handle (v.run build cfg) u).1 := by
  obtain ⟨k, hk, hgroup⟩ := id hin
  cases v with
  | freg req =>
    obtain ⟨r, hr, rfl⟩ := Option.map_eq_some_iff.mp hk
    rcases hread : readFreg build req with e | r'
    · rw [hread] at hr
      cases hr
    · rw [hread] at hr
      obtain rfl : r' = r := Option.some.inj hr
      exact apart_freg h htick hread hgroup (hv.room hin)
  | fput req ip =>
    rcases hread : readHandle build "400 fput needs handle" req with e | k'
    · rw [Verb.handle, hread] at hk
      cases hk
    · rw [Verb.handle, hread] at hk
      obtain rfl : k' = k := Option.some.inj hk
      exact apart_fput hcalm h htick (hv.inside hin ip rfl) hread hgroup
  | fpop req ip =>
    rcases hread : readHandle build "400 fpop needs handle" req with e | k'
    · rw [Verb.handle, hread] at hk
      cases hk
    · rw [Verb.handle, hread] at hk
      obtain rfl : k' = k := Option.some.inj hk
      exact apart_fpop h hclock htick (hv.inside hin ip rfl) hread hgroup

/-- **Any other request.** -/
theorem apart_outside (h : Apart group addrs (env.clock w.tick) w u)
    (hv : Separate env build cfg group addrs w v) (hout : ¬ v.Concerns build group) :
    Apart group addrs (env.clock w.tick) (exec env.handle (v.run build cfg) w).1 u := by
  have hqueue (k : String) (hk : group k) :
      Queues.of u.queues k = Queues.of (exec env.handle (v.run build cfg) w).1.queues k := by
    rw [queue_of_verb h.registered v fun he => hout ⟨k, he, hk⟩]
    exact h.queue k hk
  have hwins (ip : String) (hip : addrs ip) :
      u.fputWins.lookup ip = (exec env.handle (v.run build cfg) w).1.fputWins.lookup ip := by
    rw [lookup_fputWins_verb v fun he => hv.outside hout ip he hip]
    exact h.wins ip hip
  cases v with
  | freg req =>
    refine apart_freg_other h fun r hr hgroup => hout ⟨r.handle, ?_, hgroup⟩
    rw [Verb.handle, hr]
    rfl
  | fput req ip =>
    obtain ⟨hreg, hsec⟩ := reg_runFput env build cfg req ip w
    exact h.of_reg hreg rfl hsec rfl hqueue hwins
  | fpop req ip =>
    obtain ⟨hreg, hsec⟩ := reg_runFpop env build cfg req ip w
    exact h.of_reg hreg rfl hsec rfl hqueue hwins

theorem apart_at (h : Apart group addrs (env.clock w.tick) w u) :
    Apart group addrs (env.clock w.tick) w (w.at u) := h.of_reg rfl rfl rfl rfl h.queue h.wins

/-- A relay stays apart from the relay that takes the requests of the group alone. -/
theorem apart_unwinds (hcalm : env.Calm) (hclock : Monotone env.clock) (build : Build)
    (cfg : FabricConfig) (group addrs : String → Prop) [DecidablePred group] :
    Purge.Unwinds (fun w v => (exec env.handle (v.run build cfg) w).1) (Verb.Concerns build group)
      World.at (Separate env build cfg group addrs)
      (fun w u => Apart group addrs (env.clock w.tick) w u)
      (fun w v => payload (exec env.handle (v.run build cfg) w).2) where
  view_eq h hv hin := (apart_inside hcalm hclock (apart_at h) rfl hv hin).1
  step_kept h hv hin := (apart_inside hcalm hclock (apart_at h) rfl hv hin).2.mono
    (hclock (tick_le_exec env _ _))
  step_other h hv hout := (apart_outside h hv hout).mono (hclock (tick_le_exec env _ _))

theorem apart_empty (hreg : w.reg = ∅) : Apart group addrs now w w where
  live _ _ _ _ := .rfl
  own k r hr := by
    rw [hreg, AList.lookup_empty] at hr
    cases hr
  swept := .inl rfl
  queue _ _ := rfl
  wins _ _ := rfl
  registered := hreg ▸ registered_empty
  registered' := hreg ▸ registered_empty

/-- **Handles do not interfere.** In any run of a relay that starts without registrations, each
request on a handle of a group gets the payload that it would get if the requests on other handles
had never been made, provided that those come from other addresses, and that none of the group finds
the registry full. -/
theorem unaffected_run (hcalm : env.Calm) (hclock : Monotone env.clock) (build : Build)
    (cfg : FabricConfig) (group : String → Prop) [DecidablePred group] (hreg : w.reg = ∅)
    {vs : List Verb}
    (haddr : ∀ v ∈ vs, ∀ v' ∈ vs, v.Concerns build group → ¬ v'.Concerns build group →
      v.addr.isSome → v.addr ≠ v'.addr)
    (hroom : ∀ j v, vs[j]? = some v → v.Concerns build group →
      refusal (exec env.handle (v.run build cfg) (before env build cfg w vs j)).2 ≠ some full)
    {j : ℕ} (hv : vs[j]? = some v) (hin : v.Concerns build group) :
    let x := serveGroup env build cfg group w (vs.take j)
    payload (exec env.handle (v.run build cfg) x.1).2 =
      payload (exec env.handle (v.run build cfg) (x.1.at x.2)).2 := by
  let addrs (ip : String) : Prop := ∃ v ∈ vs, v.Concerns build group ∧ v.addr = some ip
  refine Purge.view_both (apart_unwinds hcalm hclock build cfg group addrs) (apart_empty hreg)
    (fun j v hv => ⟨fun hin ip hip => ?_, ?_, hroom j v hv⟩) hv hin
  · exact ⟨v, List.mem_of_getElem? hv, hin, hip⟩
  · rintro hout ip hip ⟨v', hv', hin', hip'⟩
    refine haddr v' hv' v (List.mem_of_getElem? hv) hin' hout ?_ (hip'.trans hip.symm)
    rw [hip']
    rfl

end

/-- One handle is drained after another has been registered, filled and drained. -/
theorem unaffected_run_two :
    let env : Env Unit := .still (fun p _ => (p, .error "closed")) 100
    let alice : U8Array 32 := .replicate 32 7
    let bob : U8Array 32 := .replicate 32 8
    let group (h : String) : Prop := h = Hex.encode alice.toList
    let vs : List Verb := [.freg (fregRequest alice "token-0123456789" 60),
      .freg (fregRequest bob "token-abcdefghij" 60),
      .fput (fputRequest alice (pointerOf 1 200)) "a",
      .fput (fputRequest bob (pointerOf 2 200)) "b",
      .fpop (fpopRequest bob "token-abcdefghij" 1) "b",
      .fpop (fpopRequest alice "token-0123456789" 8) "a"]
    let v := Verb.fpop (fpopRequest alice "token-0123456789" 8) "a"
    let x := serveGroup env .trailing {} group (.fresh ()) (vs.take 5)
    (payload (exec env.handle (v.run .trailing {}) x.1).2).isSome ∧
      payload (exec env.handle (v.run .trailing {}) x.1).2 =
        payload (exec env.handle (v.run .trailing {}) (x.1.at x.2)).2 := by
  intro env alice bob group vs v x
  have hrooms : ∀ j < 6, ∀ v ∈ vs[j]?,
      refusal (exec env.handle (v.run .trailing {})
        (before env .trailing {} (.fresh ()) vs j)).2 ≠ some full := by decide +kernel
  refine ⟨by decide +kernel, ?_⟩
  have hcalm : env.Calm := Env.still_calm _ 100
  have haddr : ∀ v ∈ vs, ∀ v' ∈ vs, v.Concerns .trailing group → ¬ v'.Concerns .trailing group →
      v.addr.isSome → v.addr ≠ v'.addr := by decide +kernel
  have hv : vs[5]? = some v := rfl
  exact unaffected_run hcalm (fun _ _ _ => le_rfl) .trailing {} group rfl haddr
    (fun j v hv _ => hrooms j (List.getElem?_eq_some_iff.mp hv).1 v hv) hv (by decide +kernel)

end SporePeer
