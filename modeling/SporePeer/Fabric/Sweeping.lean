import SporePeer.Fabric.Tokens

/-!
# The sweep

A relay sweeps expired registrations at most once a second. Its reference sweeps before every
request, so that there an expired registration is simply absent. The two are told apart by the
budget, which counts what the sweep has left, and by a drain, which is refused with another code.

## Main definitions

* `liveReg`, `SameLive`: the registrations alive at a time, and those alive from a time on
* `eager`, `serveBoth`: the reference, and a run of both on the same requests
* `Gated`: a request that does not tell them apart
* `Unseen`: the same answer, and the same registrations alive

## Main results

* `unseen_verb`: what one request shows
* `unseen_run`: the sweep is not observed in a run of requests that do not tell
-/

namespace SporePeer

open Effects Text Bytes

/-! ## Registries -/

/-- The registrations that live at `now`. -/
def liveReg (now : ℕ) (reg : Table String Registration) : Table String Registration :=
  reg.retain fun _ r => now < r.expires

/-- The same registrations live at `now` and at any time after it. -/
def SameLive (now : ℕ) (reg reg' : Table String Registration) : Prop :=
  ∀ h r, now < r.expires → (reg.lookup h = some r ↔ reg'.lookup h = some r)

section

variable {now now' : ℕ} {reg reg' : Table String Registration} {h : String} {r : Registration}

theorem lookup_liveReg : (liveReg now reg).lookup h = some r ↔
    reg.lookup h = some r ∧ now < r.expires := by
  rw [liveReg, Table.lookup_retain, Option.filter_eq_some_iff, decide_eq_true_iff]

theorem SameLive.refl (now : ℕ) (reg : Table String Registration) : SameLive now reg reg :=
  fun _ _ _ => .rfl

theorem SameLive.mono (hsame : SameLive now reg reg') (hle : now ≤ now') :
    SameLive now' reg reg' :=
  fun h r hlive => hsame h r (hle.trans_lt hlive)

theorem SameLive.liveReg_right (hsame : SameLive now reg reg') :
    SameLive now reg (liveReg now reg') := by
  intro h r hlive
  rw [lookup_liveReg, hsame h r hlive, and_iff_left hlive]

theorem SameLive.insert (hsame : SameLive now reg reg') (k : String) (v : Registration) :
    SameLive now (reg.insert k v) (reg'.insert k v) := by
  intro h r hlive
  rw [Table.lookup_insert_eq, Table.lookup_insert_eq]
  split
  · rfl
  · exact hsame h r hlive

/-- Registries with the same registrations alive have as many of them. -/
theorem SameLive.filter_lookup (hsame : SameLive now reg reg') (h : String) :
    ((reg.lookup h).filter fun r => now < r.expires) =
      (reg'.lookup h).filter fun r => now < r.expires := by
  refine Option.ext fun r => ?_
  rw [Option.filter_eq_some_iff, Option.filter_eq_some_iff, decide_eq_true_iff]
  exact and_congr_left fun hlive => hsame h r hlive

theorem SameLive.size_liveReg (hsame : SameLive now reg reg') :
    (liveReg now reg).size = (liveReg now reg').size := by
  refine Table.size_eq_of_lookup fun h => ?_
  rw [liveReg, liveReg, Table.lookup_retain, Table.lookup_retain]
  exact hsame.filter_lookup h

/-- Where every registration of a handle lives, the same is found. -/
theorem SameLive.lookup_eq (hsame : SameLive now reg reg')
    (hlive : ∀ r, reg.lookup h = some r → now < r.expires)
    (hlive' : ∀ r, reg'.lookup h = some r → now < r.expires) : reg.lookup h = reg'.lookup h := by
  refine Option.ext fun r => ⟨fun hr => ?_, fun hr => ?_⟩
  · exact (hsame h r (hlive r hr)).mp hr
  · exact (hsame h r (hlive' r hr)).mpr hr

end

/-! ## The reference -/

section

variable {σ : Type} (env : Env σ) (build : Build) (cfg : FabricConfig)

/-- The reference when a request arrives, at the call `t`: no registration is there that has
expired. -/
def eager (t : ℕ) (u : World σ) : World σ :=
  { u with tick := t, reg := liveReg (env.clock t) u.reg }

/-- The relay and the reference after the same requests, each arriving at the same moment. -/
def serveBoth (w u : World σ) (vs : List Verb) : World σ × World σ :=
  vs.foldl (fun x v => ((exec env.handle (v.run build cfg) x.1).1,
    (exec env.handle (v.run build cfg) (eager env x.1.tick x.2)).1)) (w, u)

/-- The rate check of a drain. -/
def fpopRate (ip : String) : Fallible Op Unit := do
  let now ← ask .nowSec
  let ok ← allow .fput cfg.fputRate ip now
  refuseIf (ok = false) "429 fpop rate"

/-- A request that does not tell the relay from its reference: no registration of a new handle
while the budget is used up by what the sweep has left, and no admitted drain of a handle whose
registration has expired and is still there. -/
def Gated (w : World σ) : Verb → Prop
  | .freg req => ∀ r, readFreg build req = .ok r →
      (∀ cur, w.reg.lookup r.handle = some cur → cur.expires ≤ env.clock w.tick) →
      env.clock w.tick ≤ w.lastSweepSec → cfg.maxRegs ≤ w.reg.size →
      cfg.maxRegs ≤ (liveReg (env.clock w.tick) w.reg).size
  | .fput _ _ => True
  | .fpop req ip => ∀ h, readHandle build "400 fpop needs handle" req = .ok h →
      (exec env.handle (fpopRate cfg ip) w).2 = .ok (.ok ()) →
      ∀ r, w.reg.lookup h = some r → env.clock w.tick < r.expires

/-- The three digits at the start of a refusal. -/
def codeOf (e : String) : List Char := e.toList.take 3

/-- A result, its refusal without the text. -/
def answerCode {α : Type} : Result (Except String α) → Result (Except (List Char) α)
  | .error q => .error q
  | .ok (.error e) => .ok (.error (codeOf e))
  | .ok (.ok a) => .ok (.ok a)

/-- The request `v` shows no difference between the relay `w` and the reference `u`. -/
structure Unseen (w u : World σ) (v : Verb) : Prop where
  answer : answerCode (exec env.handle (v.run build cfg) w).2 =
    answerCode (exec env.handle (v.run build cfg) (eager env w.tick u)).2
  live : SameLive (env.clock w.tick) (exec env.handle (v.run build cfg) w).1.reg
    (exec env.handle (v.run build cfg) (eager env w.tick u)).1.reg
  full : ∀ req e, v = .freg req →
    (exec env.handle (v.run build cfg) w).2 = .ok (.error e) → codeOf e = ['5', '0', '3'] →
    cfg.maxRegs ≤ (liveReg (env.clock w.tick) w.reg).size

/-- The reference `u` differs from the relay `w` in registrations that have expired before `now`, in
the time of its last sweep and in the number of its calls. -/
structure Shadows (now : ℕ) (w u : World σ) : Prop where
  rest : u = { w with reg := u.reg, lastSweepSec := u.lastSweepSec, tick := u.tick }
  live : SameLive now w.reg u.reg

/-- A put at a registered handle. -/
def fputRest (req : Value) (ip h : String) : Fallible Op Value := do
  let now ← ask .nowSec
  let ok ← allow .fput cfg.fputRate ip now
  refuseIf (ok = false) "429 fput rate"
  let pointer ← orFail (fputPointer req)
  refuseIf (pointer.deadline = 0) "400 zero pointer deadline"
  let now ← ask .nowSec
  refuseIf (pointer.deadline ≤ now) "410 gone"
  fputStore build cfg h pointer now
  return .object [("queued", .bool true)]

/-- The calls that neither read nor write the registry. -/
def BlindOp : (β : Type) → Op β → Prop
  | _, .getReg => False
  | _, .setReg _ => False
  | _, .getLastSweep => False
  | _, .setLastSweep _ => False
  | _, _ => True

/-- Relays that differ in their registries, `reg` and `reg'`, and in the times of their sweeps. -/
structure Twins (reg reg' : Table String Registration) (w u : World σ) : Prop where
  reg : w.reg = reg
  rest : u = { w with reg := reg', lastSweepSec := u.lastSweepSec }

end

section

variable {σ : Type} {env : Env σ} {build : Build} {cfg : FabricConfig} {w u : World σ}
  {reg reg' : Table String Registration} {req : Value} {ip h : String}

/-! ## Calls -/

/-- A call that does not concern the registry has the same answer at both. -/
theorem alike_blindOp {β : Type} {e : Op β} (he : BlindOp β e) (hw : Twins reg reg' w u) :
    Program.Alike (Twins reg reg') (env.handle _ e w) (env.handle _ e u) := by
  obtain ⟨hreg, hu⟩ := hw
  rw [hu]
  cases e with
  | getReg => exact he.elim
  | setReg x => exact he.elim
  | getLastSweep => exact he.elim
  | setLastSweep x => exact he.elim
  | write name content =>
    -- the two worlds have the same files and the same faults
    simp only [Env.handle, Env.write]
    rcases env.fault w.tick with _ | ⟨text, left⟩
    · exact ⟨⟨hreg, rfl⟩, rfl⟩
    · cases left <;> exact ⟨⟨hreg, rfl⟩, rfl⟩
  | rename src dst =>
    simp only [Env.handle, Env.rename]
    rcases env.fault w.tick with _ | f
    · dsimp only
      rcases w.dir.lookup src with _ | d
      · exact ⟨⟨hreg, rfl⟩, rfl⟩
      · exact ⟨⟨hreg, rfl⟩, rfl⟩
    · exact ⟨⟨hreg, rfl⟩, rfl⟩
  | removeFile name =>
    simp only [Env.handle, Env.removeFile]
    rcases env.fault w.tick with _ | f
    · exact ⟨⟨hreg, rfl⟩, rfl⟩
    · exact ⟨⟨hreg, rfl⟩, rfl⟩
  | setWins l x => cases l <;> exact ⟨⟨hreg, rfl⟩, rfl⟩
  | getWins l => cases l <;> exact ⟨⟨hreg, rfl⟩, rfl⟩
  | _ => exact ⟨⟨hreg, rfl⟩, rfl⟩

theorem alike_of_blind {α : Type} {m : Fallible Op α} (hm : Only BlindOp m)
    (hw : Twins reg reg' w u) :
    Program.Alike (Twins reg reg') (exec env.handle m w) (exec env.handle m u) :=
  hm.alike (fun _ _ _ _ => alike_blindOp) hw

theorem blindOp_of_dropOp {β : Type} {e : Op β} (he : DropOp β e) : BlindOp β e := by
  cases e with
  | getReg => exact he.elim
  | setReg x => exact he.elim
  | getLastSweep => exact he.elim
  | setLastSweep x => exact he.elim
  | _ => trivial

theorem blind_allow (max : ℕ) (ip : String) (now : ℕ) : Only BlindOp (allow .fput max ip now) :=
  (tidy_allow (fun _ => trivial) (fun _ => trivial) trivial (fun _ => trivial) _ _ _).only

theorem blind_fpopRate : Only BlindOp (fpopRate cfg ip) :=
  only_bind (only_ask trivial) fun _ => only_bind (blind_allow _ _ _) fun _ => only_refuseIf _ _

theorem blind_fputRest : Only BlindOp (fputRest build cfg req ip h) :=
  only_bind (only_ask trivial) fun _ => only_bind (blind_allow _ _ _) fun _ =>
    only_bind (only_refuseIf _ _) fun _ => only_bind (only_orFail _) fun _ =>
    only_bind (only_refuseIf _ _) fun _ => only_bind (only_ask trivial) fun _ =>
    only_bind (only_refuseIf _ _) fun _ => only_bind (only_bind (only_orPanic _) fun _ =>
      only_bind (only_refuseIf _ _) fun _ => only_bind (only_orPanic _) fun _ =>
      only_bind (only_ask trivial) fun _ => only_bind (only_bind (only_ask trivial) fun _ =>
        only_bind (only_orFail _) fun _ => only_bind (only_ask trivial) fun _ =>
        only_orFail _) fun _ =>
      (tidy_putQueue _ _ _).only.mono fun _ _ => blindOp_of_dropOp) fun _ => only_pure _

theorem runFput_eq_fputRest (build : Build) (cfg : FabricConfig) (req : Value) (ip : String) :
    runFput build cfg req ip = (do
      let h ← orFail (readHandle build "400 fput needs handle" req)
      fputRegistered h
      fputRest build cfg req ip h) := by
  simp only [runFput, fputGate, fputRest, bind_assoc, pure_bind]

theorem runFpop_eq_fpopRate (build : Build) (cfg : FabricConfig) (req : Value) (ip : String) :
    runFpop build cfg req ip = (do
      let h ← orFail (readHandle build "400 fpop needs handle" req)
      fpopRate cfg ip
      fpopAuthorised h (presentedToken req)
      let now ← ask .nowSec
      let out ← drainQueue h now (readMax req)
      return pointersResponse out) := by
  simp only [runFpop, fpopRate, presentedToken, bind_assoc]

/-! ## Drains -/

theorem alike_fpopAuthorised {token : String} (hlook : reg.lookup h = reg'.lookup h)
    (hw : Twins reg reg' w u) : Program.Alike (Twins reg reg')
      (exec env.handle (fpopAuthorised h token) w) (exec env.handle (fpopAuthorised h token) u) := by
  obtain ⟨hreg, hu⟩ := hw
  have hu' : u.reg.lookup h = w.reg.lookup h := by rw [hu, hreg, hlook]
  have htick : u.tick = w.tick := by rw [hu]
  rw [exec_fpopAuthorised, exec_fpopAuthorised, hu', htick]
  rcases w.reg.lookup h with _ | r
  · exact ⟨⟨hreg, hu⟩, rfl⟩
  · refine ⟨⟨hreg, ?_⟩, rfl⟩
    dsimp only
    rw [hu]
    rfl

/-- A drain of a handle whose registrations live is served alike. -/
theorem alike_fpop (hgated : ∀ h, readHandle build "400 fpop needs handle" req = .ok h →
      (exec env.handle (fpopRate cfg ip) w).2 = .ok (.ok ()) → reg.lookup h = reg'.lookup h)
    (hw : Twins reg reg' w u) : Program.Alike (Twins reg reg')
      (exec env.handle (runFpop build cfg req ip) w)
      (exec env.handle (runFpop build cfg req ip) u) := by
  rw [runFpop_eq_fpopRate]
  rcases hh : readHandle build "400 fpop needs handle" req with e | h
  · exact ⟨hw, rfl⟩
  rw [exec_orFail_ok_bind, exec_orFail_ok_bind]
  have hrate : Program.Alike (Twins reg reg') (exec env.handle (fpopRate cfg ip) w)
      (exec env.handle (fpopRate cfg ip) u) := alike_of_blind blind_fpopRate hw
  rcases hr : (exec env.handle (fpopRate cfg ip) w).2 with q | e | ⟨⟨⟩⟩
  · have hr' := hrate.results.symm.trans hr
    rw [exec_bind_panic (Prod.ext rfl hr), exec_bind_panic (Prod.ext rfl hr')]
    exact ⟨hrate.states, rfl⟩
  · have hr' := hrate.results.symm.trans hr
    rw [exec_bind_error (Prod.ext rfl hr), exec_bind_error (Prod.ext rfl hr')]
    exact ⟨hrate.states, rfl⟩
  · have hlook := hgated h hh hr
    refine exec_bind_alike hrate fun _ s t hst => exec_bind_alike
      (alike_fpopAuthorised hlook hst) fun _ s t hst => ?_
    refine alike_of_blind (only_bind (only_ask trivial) fun _ => only_bind ?_ fun _ => only_pure _)
      hst
    exact (tidy_drainQueue _ _ _).only.mono fun _ _ => blindOp_of_dropOp

/-! ## Puts -/

theorem alike_fputRegistered (hlook : reg.lookup h = reg'.lookup h) (hw : Twins reg reg' w u) :
    Program.Alike (Twins reg reg') (exec env.handle (fputRegistered h) w)
      (exec env.handle (fputRegistered h) u) := by
  obtain ⟨hreg, hu⟩ := hw
  have hu' : u.reg.lookup h = w.reg.lookup h := by rw [hu, hreg, hlook]
  have htick : u.tick = w.tick := by rw [hu]
  rw [exec_fputRegistered, exec_fputRegistered, hu', htick]
  rcases w.reg.lookup h with _ | r
  · exact ⟨⟨hreg, hu⟩, rfl⟩
  · refine ⟨⟨hreg, ?_⟩, rfl⟩
    dsimp only
    rw [hu]
    rfl

theorem Twins.shadows {now : ℕ} (hw : Twins reg reg' w u) (hsame : SameLive now reg reg') :
    Shadows now w u := by
  obtain ⟨hreg, hu⟩ := hw
  refine ⟨?_, ?_⟩
  · rw [hu]
  · rw [hu, hreg]
    exact hsame

theorem answerCode_eq_of_alike {α : Type} {x y : World σ × Result (Except String α)}
    (h : Program.Alike (Twins reg reg') x y) : answerCode x.2 = answerCode y.2 := by rw [h.results]

/-- A put at an expired handle is refused with the code of an unknown one. -/
theorem shadows_fput (hw : Twins reg reg' w u) (hsame : SameLive (env.clock w.tick) reg reg')
    (hlive : ∀ h r, reg'.lookup h = some r → env.clock w.tick < r.expires) :
    answerCode (exec env.handle (runFput build cfg req ip) w).2 =
        answerCode (exec env.handle (runFput build cfg req ip) u).2 ∧
      Shadows (env.clock w.tick) (exec env.handle (runFput build cfg req ip) w).1
        (exec env.handle (runFput build cfg req ip) u).1 := by
  rw [runFput_eq_fputRest]
  rcases hh : readHandle build "400 fput needs handle" req with e | h
  · exact ⟨rfl, hw.shadows hsame⟩
  rw [exec_orFail_ok_bind, exec_orFail_ok_bind]
  -- where no lease of this handle has run out, both find the same lease
  by_cases hall : ∀ r, reg.lookup h = some r → env.clock w.tick < r.expires
  · have hlook := hsame.lookup_eq hall (hlive h)
    have halike : Program.Alike (Twins reg reg')
        (exec env.handle (fputRegistered h >>= fun _ => fputRest build cfg req ip h) w)
        (exec env.handle (fputRegistered h >>= fun _ => fputRest build cfg req ip h) u) :=
      exec_bind_alike (alike_fputRegistered hlook hw) fun _ _ _ => alike_of_blind blind_fputRest
    exact ⟨answerCode_eq_of_alike halike, halike.states.shadows hsame⟩
  · obtain ⟨r, hr⟩ : ∃ r, reg.lookup h = some r ∧ r.expires ≤ env.clock w.tick := by
      simpa using hall
    -- the lease has run out: one finds it so, and the other finds none
    have hgone : reg'.lookup h = none := by
      refine Option.eq_none_iff_forall_not_mem.mpr fun r' hr' => ?_
      have hlive' := hlive h r' hr'
      have hr'' := (hsame h r' hlive').mpr hr'
      rw [hr.1, Option.some.injEq] at hr''
      rw [← hr''] at hlive'
      exact absurd hlive' (not_lt.mpr hr.2)
    have hexec : exec env.handle (fputRegistered h) w =
        (w.next, .ok (.error "404 handle lease expired")) := by
      rw [exec_fputRegistered, hw.reg, hr.1]
      dsimp only
      rw [if_pos hr.2]
    have hexec' : exec env.handle (fputRegistered h) u =
        (u, .ok (.error "404 unknown handle")) := by
      have hu : u.reg = reg' := by rw [hw.rest]
      rw [exec_fputRegistered, hu, hgone]
    rw [exec_bind_error hexec, exec_bind_error hexec']
    refine ⟨rfl, ?_, ?_⟩
    · dsimp only
      rw [hw.rest]
      rfl
    · dsimp only
      rw [hw.rest, World.next, hw.reg]
      exact hsame

/-! ## Registrations -/

theorem sameLive_sweptReg (w : World σ) (now : ℕ) : SameLive now w.reg (sweptReg w now) := by
  unfold sweptReg
  split
  · exact (SameLive.refl now w.reg).liveReg_right
  · exact SameLive.refl now w.reg

/-- The gate looks at the registrations alive, and at how many are there. -/
theorem fregGate_congr {cfg : FabricConfig} {prev : String} {now : ℕ}
    (hsame : SameLive now reg reg')
    (hsize : (∀ cur, reg.lookup h = some cur → cur.expires ≤ now) →
      (cfg.maxRegs ≤ reg.size ↔ cfg.maxRegs ≤ reg'.size)) :
    fregGate cfg reg h prev now = fregGate cfg reg' h prev now := by
  rcases hf : (reg.lookup h).filter fun cur => now < cur.expires with _ | cur
  · have hf' := (hsame.filter_lookup h).symm.trans hf
    have hgone (cur : Registration) (hcur : reg.lookup h = some cur) : cur.expires ≤ now := by
      rw [hcur, Option.filter_eq_none_iff] at hf
      simpa using hf cur rfl
    simp only [fregGate, hf, hf', if_congr (hsize hgone) rfl rfl]
  · have hf' := (hsame.filter_lookup h).symm.trans hf
    simp only [fregGate, hf, hf']

/-- What the sweep has left counts as much as what lives, unless the budget is used up by it. -/
theorem size_sweptReg_iff {r : FregRequest} (hgated : Gated env build cfg w (.freg req))
    (hr : readFreg build req = .ok r)
    (hgone : ∀ cur, w.reg.lookup r.handle = some cur → cur.expires ≤ env.clock w.tick) :
    cfg.maxRegs ≤ (sweptReg w (env.clock w.tick)).size ↔
      cfg.maxRegs ≤ (liveReg (env.clock w.tick) w.reg).size := by
  unfold sweptReg
  split
  · rfl
  · exact ⟨hgated r hr hgone (not_lt.mp ‹_›), fun h => h.trans (Table.size_retain_le _ _)⟩

theorem size_sweptReg_of_live {now : ℕ}
    (hlive : ∀ h r, u.reg.lookup h = some r → now < r.expires) :
    (sweptReg u now).size = (liveReg now u.reg).size := by
  unfold sweptReg
  split
  · rfl
  · refine Table.size_eq_of_lookup fun h => Option.ext fun r => ?_
    rw [lookup_liveReg]
    exact (and_iff_left_of_imp (hlive h r)).symm

/-- The gate of a registration answers alike. -/
theorem fregGate_eq {r : FregRequest} (hw : Twins w.reg reg' w u)
    (hsame : SameLive (env.clock w.tick) w.reg reg')
    (hlive : ∀ h r, reg'.lookup h = some r → env.clock w.tick < r.expires)
    (hgated : Gated env build cfg w (.freg req)) (hr : readFreg build req = .ok r) :
    fregGate cfg (sweptReg w (env.clock w.tick)) r.handle r.prevToken (env.clock w.tick) =
      fregGate cfg (sweptReg u (env.clock w.tick)) r.handle r.prevToken (env.clock w.tick) := by
  have hu : u.reg = reg' := by rw [hw.rest]
  have hw' := sameLive_sweptReg w (env.clock w.tick)
  have hu' := sameLive_sweptReg u (env.clock w.tick)
  refine fregGate_congr (fun h r hl => ?_) fun hgone => ?_
  · rw [← hw' h r hl, ← hu' h r hl, hu]
    exact hsame h r hl
  · rw [size_sweptReg_iff hgated hr fun cur hcur => ?_, size_sweptReg_of_live (hu ▸ hlive), hu,
      hsame.size_liveReg]
    by_contra hcur'
    exact hcur' (hgone cur ((hw' _ _ (not_le.mp hcur')).mp hcur))

theorem shadows_freg (hw : Twins w.reg reg' w u) (hsame : SameLive (env.clock w.tick) w.reg reg')
    (hlive : ∀ h r, reg'.lookup h = some r → env.clock w.tick < r.expires)
    (hgated : Gated env build cfg w (.freg req)) :
    answerCode (exec env.handle (runFreg build cfg req) w).2 =
        answerCode (exec env.handle (runFreg build cfg req) u).2 ∧
      Shadows (env.clock w.tick) (exec env.handle (runFreg build cfg req) w).1
        (exec env.handle (runFreg build cfg req) u).1 := by
  have hu : u.reg = reg' := by rw [hw.rest]
  have htick : u.tick = w.tick := by rw [hw.rest]
  -- both sweep before they look, and what is left over lives in both
  have hswept : SameLive (env.clock w.tick) (sweptReg w (env.clock w.tick))
      (sweptReg u (env.clock w.tick)) := fun h r hl => by
    rw [← sameLive_sweptReg w _ h r hl, ← sameLive_sweptReg u _ h r hl, hu]
    exact hsame h r hl
  rw [exec_runFreg, exec_runFreg]
  rcases hr : readFreg build req with e | r
  · exact ⟨rfl, hw.shadows hsame⟩
  dsimp only
  rw [htick]
  rcases addU64 build.overflowChecks (env.clock w.tick) (min r.lease cfg.maxLeaseSec) with q | expires
  · refine ⟨rfl, ?_, ?_⟩
    · dsimp only
      rw [hw.rest]
      rfl
    · dsimp only [World.next]
      rw [hu]
      exact hsame
  dsimp only
  rw [← fregGate_eq hw hsame hlive hgated hr]
  rcases fregGate cfg (sweptReg w (env.clock w.tick)) r.handle r.prevToken (env.clock w.tick) with
    e | ⟨⟨⟩⟩
  · refine ⟨rfl, ?_, hswept⟩
    dsimp only
    rw [hw.rest]
    rfl
  · refine ⟨rfl, ?_, hswept.insert _ _⟩
    dsimp only
    rw [hw.rest]
    rfl

theorem codeOf_readFreg {e : String} (h : readFreg build req = .error e) :
    codeOf e = ['4', '0', '0'] := by
  unfold readFreg at h
  split at h
  · cases h
    rfl
  split at h
  · cases h
    rfl
  split at h
  · cases h
    rfl
  split at h
  · cases h
    rfl
  · cases h

/-- The budget refuses only when it is used up by what lives. -/
theorem full_freg {e : String} (hgated : Gated env build cfg w (.freg req))
    (hres : (exec env.handle (runFreg build cfg req) w).2 = .ok (.error e))
    (hcode : codeOf e = ['5', '0', '3']) :
    cfg.maxRegs ≤ (liveReg (env.clock w.tick) w.reg).size := by
  rw [exec_runFreg] at hres
  rcases hr : readFreg build req with e' | r
  · rw [hr] at hres
    cases hres
    rw [codeOf_readFreg hr] at hcode
    cases hcode
  rw [hr] at hres
  dsimp only at hres
  split at hres
  · cases hres
  split at hres
  swap
  · cases hres
  rename_i hgate
  cases hres
  unfold fregGate at hgate
  split at hgate
  · split at hgate
    · cases hgate
    · cases hgate
      cases hcode
  rename_i hf
  split at hgate
  · rename_i hfull
    refine (size_sweptReg_iff hgated hr fun cur hcur => ?_).mp hfull
    -- a lease that lives would have been swept in, and the handle found
    by_contra hlive
    have hswept := (sameLive_sweptReg w _ _ cur (not_le.mp hlive)).mp hcur
    rw [hswept, Option.filter_eq_none_iff] at hf
    exact hf cur rfl (by simpa using hlive)
  · cases hgate

/-! ## Requests and runs -/

/-- **A request that does not tell shows no difference.** -/
theorem unseen_verb {now : ℕ} {v : Verb} (hshadow : Shadows now w u) (hnow : now ≤ env.clock w.tick)
    (hgated : Gated env build cfg w v) :
    Unseen env build cfg w u v ∧
      Shadows (env.clock w.tick) (exec env.handle (v.run build cfg) w).1
        (exec env.handle (v.run build cfg) (eager env w.tick u)).1 := by
  let reg' := liveReg (env.clock w.tick) u.reg
  have hw : Twins w.reg reg' w (eager env w.tick u) := by
    refine ⟨rfl, ?_⟩
    rw [eager, hshadow.rest]
  have hsame : SameLive (env.clock w.tick) w.reg reg' := (hshadow.live.mono hnow).liveReg_right
  have hlive (h : String) (r : Registration) (hr : reg'.lookup h = some r) :
      env.clock w.tick < r.expires := (lookup_liveReg.mp hr).2
  -- a full registry is told by what is left after the sweep
  suffices hboth : answerCode (exec env.handle (v.run build cfg) w).2 =
        answerCode (exec env.handle (v.run build cfg) (eager env w.tick u)).2 ∧
      Shadows (env.clock w.tick) (exec env.handle (v.run build cfg) w).1
        (exec env.handle (v.run build cfg) (eager env w.tick u)).1 by
    refine ⟨⟨hboth.1, hboth.2.live, ?_⟩, hboth.2⟩
    rintro req e rfl hres hcode
    exact full_freg hgated hres hcode
  cases v with
  | freg req => exact shadows_freg hw hsame hlive hgated
  | fput req ip => exact shadows_fput hw hsame hlive
  | fpop req ip =>
    have halike : Program.Alike (Twins w.reg reg') (exec env.handle (runFpop build cfg req ip) w)
        (exec env.handle (runFpop build cfg req ip) (eager env w.tick u)) :=
      alike_fpop (fun h hh hrate => hsame.lookup_eq (hgated h hh hrate) (hlive h)) hw
    exact ⟨answerCode_eq_of_alike halike, halike.states.shadows hsame⟩

theorem unseen_serveBoth (hclock : Monotone env.clock) {now : ℕ} {vs : List Verb}
    (hshadow : Shadows now w u) (hnow : now ≤ env.clock w.tick)
    (hgated : ∀ j v, vs[j]? = some v → Gated env build cfg (before env build cfg w vs j) v)
    {j : ℕ} {v : Verb} (hv : vs[j]? = some v) :
    Unseen env build cfg (serveBoth env build cfg w u (vs.take j)).1
      (serveBoth env build cfg w u (vs.take j)).2 v := by
  induction vs generalizing w u now j with
  | nil => cases hv
  | cons a vs ih =>
    obtain ⟨hunseen, hnext⟩ := unseen_verb hshadow hnow (hgated 0 a rfl)
    cases j with
    | zero =>
      obtain rfl : a = v := Option.some.inj hv
      exact hunseen
    | succ j =>
      have hlater := hclock (tick_le_exec env (a.run build cfg) w)
      exact ih hnext hlater (fun j v hv => hgated (j + 1) v hv) hv

/-- **The sweep is not observed.** In a run of requests that do not tell, every request has the
answer that the reference gives, up to the text of a refusal, and leaves the same registrations
alive. -/
theorem unseen_run (hclock : Monotone env.clock) (w : World σ) {vs : List Verb}
    (hgated : ∀ j v, vs[j]? = some v → Gated env build cfg (before env build cfg w vs j) v)
    {j : ℕ} {v : Verb} (hv : vs[j]? = some v) :
    Unseen env build cfg (serveBoth env build cfg w w (vs.take j)).1
      (serveBoth env build cfg w w (vs.take j)).2 v :=
  unseen_serveBoth hclock ⟨rfl, .refl _ _⟩ le_rfl hgated hv

theorem gated_freg (hroom : w.reg.size < cfg.maxRegs) : Gated env build cfg w (.freg req) :=
  fun _ _ _ _ hfull => absurd hroom (not_lt.mpr hfull)

theorem gated_fpop (hh : readHandle build "400 fpop needs handle" req = .ok h)
    (hall : (w.reg.lookup h).all fun r => env.clock w.tick < r.expires) :
    Gated env build cfg w (.fpop req ip) := by
  intro k hk _ r hr
  obtain rfl : h = k := Except.ok.inj (hh.symm.trans hk)
  rw [hr] at hall
  simpa using hall

end

theorem Env.jump_monotone {σ : Type} (net : σ → Bytes → σ × Except String Bytes)
    {sec sec' : Fin (2 ^ 64)} (hle : sec ≤ sec') (k : ℕ) :
    Monotone (Env.jump net sec sec' k).clock := by
  intro a b hab
  change (if a < k then (sec : ℕ) else sec') ≤ if b < k then (sec : ℕ) else sec'
  split <;> split
  · exact le_rfl
  · exact hle
  · omega
  · exact le_rfl

/-- A registration expires, another handle is registered, and a put at the first is refused. -/
theorem unseen_run_expired :
    let env : Env Unit := .jump (fun p _ => (p, .error "closed")) 100 102 8
    let handle : U8Array 32 := .replicate 32 7
    let vs : List Verb := [.freg (fregRequest handle "token-0123456789" 1),
      .fput (fputRequest handle (pointerOf 1 200)) "ip",
      .freg (fregRequest (.replicate 32 8) "token-0123456789" 60),
      .fpop (fpopRequest (.replicate 32 8) "token-0123456789" 8) "ip",
      .fput (fputRequest handle (pointerOf 1 200)) "ip"]
    Unseen env .trailing {} (serveBoth env .trailing {} (.fresh ()) (.fresh ()) (vs.take 4)).1
      (serveBoth env .trailing {} (.fresh ()) (.fresh ()) (vs.take 4)).2
      (.fput (fputRequest handle (pointerOf 1 200)) "ip") := by
  refine unseen_run (Env.jump_monotone _ (by decide) _) _ (fun j v hv => ?_) rfl
  match j, hv with
  | 0, rfl => exact gated_freg (by decide +kernel)
  | 1, rfl => trivial
  | 2, rfl => exact gated_freg (by decide +kernel)
  | 3, rfl =>
    exact gated_fpop (h := Hex.encode (List.Vector.replicate 32 8).toList) (by decide +kernel)
      (by decide +kernel)
  | 4, rfl => trivial

/-- The text of a refusal. -/
def refusal {α : Type} : Result (Except String α) → Option String
  | .ok (.error e) => some e
  | _ => none

/-- A registration that has expired at once fills the budget until the next second, and its drain is
refused for its token. -/
theorem expired_counts :
    let env : Env Unit := .still (fun p _ => (p, .error "closed")) 100
    let handle : U8Array 32 := .replicate 32 7
    let cfg : FabricConfig := { maxRegs := 1 }
    let vs : List Verb := [.freg (fregRequest handle "token-0123456789" 0)]
    let w := (serveBoth env .trailing cfg (.fresh ()) (.fresh ()) vs).1
    let u := (serveBoth env .trailing cfg (.fresh ()) (.fresh ()) vs).2
    let other := fregRequest (.replicate 32 8) "token-0123456789" 60
    let drain := fpopRequest handle "token-0123456789" 8
    (refusal (exec env.handle (runFreg .trailing cfg other) w).2 =
          some "503 fabric registry full" ∧
        Succeeds (exec env.handle (runFreg .trailing cfg other) (eager env w.tick u)).2) ∧
      refusal (exec env.handle (runFpop .trailing cfg drain "ip") w).2 = some "403 wrong token" ∧
      refusal (exec env.handle (runFpop .trailing cfg drain "ip") (eager env w.tick u)).2 =
        some "404 unknown handle" := by
  decide +kernel

end SporePeer