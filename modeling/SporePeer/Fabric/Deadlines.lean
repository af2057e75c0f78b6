import SporePeer.Fabric.Keeping

/-!
# Deadlines

Everything that a relay keeps expires, and no later than the horizon allows: a put checks its
deadline before it stores anything, and a start removes the files that earlier processes left
with a deadline beyond the horizon.

## Main definitions

* `Env.now`: the second of the last call
* `Mortal`: a deadline that is set, and within the horizon
* `FilesMortal`, `EntriesMortal`: what is kept, with such deadlines
* `Relay.Expires`: a relay that keeps nothing else

## Main results

* `expires_step`: a step keeps nothing else
* `fpop_live`: a drain delivers nothing that has expired
* `deadlines_bounded`: both, for every run
-/

namespace SporePeer

open Effects Text Bytes

section

variable {σ : Type}

/-- The second of the last call. -/
def Env.now (env : Env σ) (w : World σ) : ℕ := env.clock (w.tick - 1)

/-- The deadline of a pointer is set, and at the second `now` within the horizon. -/
structure Mortal (cfg : FabricConfig) (now : ℕ) (p : Pointer) : Prop where
  nonzero : p.deadline ≠ 0
  near : p.deadline ≤ now + cfg.maxDeadlineHorizonSec

/-- Every envelope file holds an envelope with such a deadline. -/
def FilesMortal (cfg : FabricConfig) (now : ℕ) (dir : Table String FileData) : Prop :=
  ∀ name d, extension name = some "fenv" → dir.lookup name = some d →
    ∃ e, parseEnvelope d.content = .ok e ∧ Mortal cfg now e.pointer

/-- Every entry records such a deadline. -/
def EntriesMortal (cfg : FabricConfig) (now : ℕ) (queues : Queues) : Prop :=
  ∀ h, ∀ x ∈ Queues.of queues h, x.deadline = x.pointer.deadline ∧ Mortal cfg now x.pointer

/-- A start can read and remove every file. -/
def Cleanable (env : Env σ) (dir : Table String FileData) : Prop :=
  env.Calm ∧ ∀ name d, dir.lookup name = some d → d.content.length < 2 ^ 63

/-- A relay under the knobs `cfg` keeps nothing that does not expire, up to the files before its
first start. -/
structure Relay.Expires (env : Env σ) (cfg : FabricConfig) (r : Relay σ) : Prop where
  knobs : ∀ c, r.cfg = some c → c = cfg
  reg : r.cfg.isSome → Registered r.world.reg
  entries : r.cfg.isSome → EntriesMortal cfg (env.now r.world) r.world.queues
  files : FilesMortal cfg (env.now r.world) r.world.dir ∨
    r.cfg = none ∧ Cleanable env r.world.dir

variable {env : Env σ} {build : Build} {cfg : FabricConfig} {now now' : ℕ} {p : Pointer}
  {w w' : World σ} {dir dir' : Table String FileData} {queues : Queues}

/-! ## Time -/

theorem Mortal.later (h : Mortal cfg now p) (hle : now ≤ now') : Mortal cfg now' p :=
  ⟨h.nonzero, h.near.trans (Nat.add_le_add_right hle _)⟩

theorem FilesMortal.later (h : FilesMortal cfg now dir) (hle : now ≤ now') :
    FilesMortal cfg now' dir := by
  intro name d hext hd
  obtain ⟨e, he, hmortal⟩ := h name d hext hd
  exact ⟨e, he, hmortal.later hle⟩

theorem EntriesMortal.later (h : EntriesMortal cfg now queues) (hle : now ≤ now') :
    EntriesMortal cfg now' queues := by
  intro k x hx
  obtain ⟨hd, hmortal⟩ := h k x hx
  exact ⟨hd, hmortal.later hle⟩

theorem now_le_now (hmono : Monotone env.clock) (h : w.tick ≤ w'.tick) : env.now w ≤ env.now w' :=
  hmono (Nat.sub_le_sub_right h 1)

/-- What was within the horizon at a reading of the clock is so ever after. -/
theorem mortal_of_horizon (hmono : Monotone env.clock)
    (hroom : ∀ t, env.clock t + cfg.maxDeadlineHorizonSec < 2 ^ 64) {t horizon : ℕ}
    (ht : t < w'.tick) (hlive : now < p.deadline)
    (hadd : addU64 build.overflowChecks (env.clock t) cfg.maxDeadlineHorizonSec = .ok horizon)
    (hle : p.deadline ≤ horizon) : Mortal cfg (env.now w') p := by
  rw [addU64_ok (hroom t)] at hadd
  obtain rfl := Except.ok.inj hadd
  have hclock : env.clock t ≤ env.now w' := hmono (Nat.le_sub_one_of_lt ht)
  exact ⟨(Nat.zero_le _).trans_lt hlive |>.ne', hle.trans (Nat.add_le_add_right hclock _)⟩

/-! ## Files -/

theorem FilesMortal.of_shrinks (h : FilesMortal cfg now dir)
    (hshrinks : ∀ c, dir'.lookup (fenvFile c) = dir.lookup (fenvFile c) ∨
      dir'.lookup (fenvFile c) = none) : FilesMortal cfg now dir' := by
  intro name d hext hd
  obtain ⟨c, rfl⟩ := fenvFile_of_extension hext
  rcases hshrinks c with heq | hnone
  · exact h _ d hext (heq ▸ hd)
  · rw [hnone] at hd
    cases hd

/-- The envelope of a put is readable. -/
theorem FilesMortal.of_persists {q : Put} {sec : ℕ} (h : FilesMortal cfg now w.dir)
    (hheader : q.pointer.HasHeader) (harrived : q.receivedAt < 2 ^ 64)
    (hmortal : Mortal cfg now q.pointer)
    (hpersist : Persists (q.envelope.cidHex build) ⟨marshalEnvelope q.envelope, sec⟩ w w') :
    FilesMortal cfg now w'.dir := by
  intro name d hext hd
  obtain ⟨c, rfl⟩ := fenvFile_of_extension hext
  rw [hpersist.fenv] at hd
  split at hd
  · obtain rfl := Option.some.inj hd
    exact ⟨q.envelope, parseEnvelope_marshalEnvelope hheader harrived, hmortal⟩
  · exact h _ d hext hd

/-! ## Requests -/

/-- An entry that a put keeps is its own or an old one. -/
theorem entries_putKept {q : Put} {sec : ℕ} {l : List Queued} (hmortal : Mortal cfg now q.pointer)
    (hl : ∀ x ∈ l, x.deadline = x.pointer.deadline ∧ Mortal cfg now x.pointer) {x : Queued}
    (hx : x ∈ putKept cfg (q.entry build) sec l) :
    x.deadline = x.pointer.deadline ∧ Mortal cfg now x.pointer := by
  rcases mem_placed (putKept_sublist.subset hx) with ⟨hptr, -, hd⟩ | hx
  · rw [hptr]
    exact ⟨hd, hmortal⟩
  · exact hl x hx

theorem mortal_verb (hmono : Monotone env.clock)
    (hroom : ∀ t, env.clock t + cfg.maxDeadlineHorizonSec < 2 ^ 64) (hreg : Registered w.reg)
    (hentries : EntriesMortal cfg (env.now w) w.queues) (hfiles : FilesMortal cfg (env.now w) w.dir)
    (v : Verb) :
    EntriesMortal cfg (env.now (exec env.handle (v.run build cfg) w).1)
        (exec env.handle (v.run build cfg) w).1.queues ∧
      FilesMortal cfg (env.now (exec env.handle (v.run build cfg) w).1)
        (exec env.handle (v.run build cfg) w).1.dir := by
  have hnow := now_le_now hmono (tick_le_exec env (v.run build cfg) w)
  -- what the request does not touch is as it was, only later
  have hentries' := hentries.later hnow
  have hfiles' := hfiles.later hnow
  revert hentries' hfiles'
  refine Verb.exec_cases (P := fun w' => EntriesMortal cfg (env.now w') w.queues →
    FilesMortal cfg (env.now w') w.dir →
    EntriesMortal cfg (env.now w') w'.queues ∧ FilesMortal cfg (env.now w') w'.dir) hreg v ?_ ?_ ?_ ?_
  · rintro req - hentries' hfiles'
    obtain ⟨hd, hq, -⟩ := exec_runFreg_frame env build cfg w req
    rw [hd, hq]
    exact ⟨hentries', hfiles'⟩
  · intro w' hun hentries' hfiles'
    rw [hun.queues]
    exact ⟨hentries', hfiles'.of_shrinks fun c => .inl (hun.keeps_fenv c)⟩
  · rintro req ip q sec w' - hacc hentries' hfiles'
    obtain ⟨t₀, t₁, t₂, -, h₀₁, h₁₂, h₂, hlive, harr, -, -, horizon, hadd, hle⟩ := hacc.clock
    have hmortal : Mortal cfg (env.now w') q.pointer :=
      mortal_of_horizon hmono hroom (h₀₁.trans (h₁₂.trans h₂)) hlive hadd hle
    have harrived : q.receivedAt < 2 ^ 64 := harr ▸ env.clock_lt t₁
    obtain ⟨u, sec', hmem, hpersist, heff⟩ := hacc.effect
    refine ⟨fun h x hx => ?_, ?_⟩
    · rw [heff.queues] at hx
      split at hx
      · exact entries_putKept hmortal (hentries' _) hx
      · rw [hmem.queues] at hx
        exact hentries' h x hx
    · exact (hfiles'.of_persists (fputPointer_ok hacc.pointer) harrived hmortal hpersist).of_shrinks
        heff.shrinks_fenv
  · rintro req ip h sec w' - hdrained hentries' hfiles'
    obtain ⟨u, hun, heff⟩ := hdrained.effect
    refine ⟨fun k x hx => ?_, ?_⟩
    · rw [heff.queues] at hx
      split at hx
      · exact hentries' h x (List.mem_of_mem_drop hx)
      · rw [hun.queues] at hx
        exact hentries' k x hx
    · rw [← hun.dir] at hfiles'
      exact hfiles'.of_shrinks heff.shrinks_fenv

/-- A request that is cut off leaves no other envelope files. -/
theorem filesMortal_crash (hmono : Monotone env.clock)
    (hroom : ∀ t, env.clock t + cfg.maxDeadlineHorizonSec < 2 ^ 64) (hreg : Registered w.reg)
    (hfiles : FilesMortal cfg (env.now w) w.dir) (v : Verb) (n : ℕ) :
    FilesMortal cfg (env.now (cutOff env.handle n (v.run build cfg) w).2)
      (cutOff env.handle n (v.run build cfg) w).2.dir := by
  have hnow := now_le_now hmono (tick_le_cutOff env (v.run build cfg) w n)
  have hfiles' := hfiles.later hnow
  rcases noWrite_run build cfg v with hm | ⟨req, ip, rfl⟩
  · exact hfiles'.of_shrinks fun c => cutOff_noWrite hm w n (fenvFile c)
  rcases crash_fput env hreg n with hsame | ⟨q, hcut, t, ht, hlive, horizon, hadd, hle⟩
  · exact hfiles'.of_shrinks fun c => .inl (hsame c)
  have hmortal := mortal_of_horizon hmono hroom ht hlive hadd hle
  obtain ⟨u, sec, hu, hsub⟩ := hcut.stored
  exact (hfiles'.of_persists (fputPointer_ok hcut.pointer) hcut.arrived hmortal hu).of_shrinks
    fun c => hsub (fenvFile c)

/-- **A drain delivers nothing that has expired** at the second that it takes for the present. -/
theorem fpop_live {req : Value} {ip : String} {v : Value}
    (hentries : EntriesMortal cfg now w.queues)
    (hv : (exec env.handle (runFpop build cfg req ip) w).2 = .ok (.ok v)) :
    ∃ h sec w₁ out, exec env.handle (fpopGate build cfg req ip) w = (w₁, .ok (.ok (h, sec))) ∧
      v = pointersResponse out ∧ ∀ p ∈ out, sec < p.deadline := by
  have hun := untouched_of_gateOp env w (tidy_fpopGate build cfg req ip).only
  rw [runFpop_eq] at hv
  rcases hgate : exec env.handle (fpopGate build cfg req ip) w with ⟨w₁, q | e | ⟨h, sec⟩⟩
  · rw [exec_bind_panic hgate] at hv
    cases hv
  · rw [exec_bind_error hgate] at hv
    cases hv
  rw [hgate] at hun
  obtain ⟨w', hdrain, -⟩ := exec_drainQueue env w₁ h sec (readMax req)
  rw [exec_bind_ok hgate] at hv
  dsimp only at hv
  rw [exec_bind_ok hdrain] at hv
  refine ⟨h, sec, w₁, _, rfl, (Except.ok.inj (Except.ok.inj hv)).symm, fun p hp => ?_⟩
  obtain ⟨x, hx, hlive, rfl⟩ := mem_popOut hp
  rw [hun.queues] at hx
  rw [← (hentries h x hx).1]
  exact hlive

/-! ## Starts -/

/-- A start that comes up keeps what expires. -/
theorem entries_started {kept : List (String × Envelope)} (hmono : Monotone env.clock)
    (hroom : ∀ t, env.clock t + cfg.maxDeadlineHorizonSec < 2 ^ 64)
    (h : Started env build cfg kept w w') :
    (∀ f ∈ kept, Mortal cfg (env.now w') f.2.pointer) ∧
      EntriesMortal cfg (env.now w') w'.queues := by
  have hkept : ∀ f ∈ kept, Mortal cfg (env.now w') f.2.pointer := by
    intro f hf
    obtain ⟨-, d, t, -, -, -, ht, hlive, horizon, hadd, hle⟩ := h.files f hf
    exact mortal_of_horizon hmono hroom ht hlive hadd hle
  refine ⟨hkept, fun k x hx => ?_⟩
  rw [h.queues, List.mem_insertionSort] at hx
  obtain ⟨f, hf, rfl⟩ := List.mem_map.mp hx
  exact ⟨rfl, hkept f (List.mem_of_mem_filter hf)⟩

/-- It removes every other envelope file that it can. -/
theorem files_started {kept : List (String × Envelope)} (hmono : Monotone env.clock)
    (hroom : ∀ t, env.clock t + cfg.maxDeadlineHorizonSec < 2 ^ 64)
    (h : Started env build cfg kept w w') (hclean : Cleanable env w.dir) :
    FilesMortal cfg (env.now w') w'.dir := by
  intro name d hext hd
  have hd₀ : w.dir.lookup name = some d := by
    rcases h.shrinks name with heq | ⟨hnone, -⟩
    · exact heq ▸ hd
    · rw [hnone] at hd
      cases hd
  have hin : name ∈ kept.map Prod.fst := by
    by_contra hnot
    rw [(h.removes hclean.1 name hext hnot d hd₀ (hclean.2 name d hd₀)).1] at hd
    cases hd
  obtain ⟨f, hf, rfl⟩ := List.mem_map.mp hin
  obtain ⟨-, d', t, hd', hparse, -⟩ := h.files f hf
  obtain rfl : d' = d := Option.some.inj (hd'.symm.trans hd₀)
  exact ⟨f.2, hparse, (entries_started hmono hroom h).1 f hf⟩

/-- Where the horizon does not overflow, a start comes up. -/
theorem fabricOpen_ok (hroom : ∀ t, env.clock t + cfg.maxDeadlineHorizonSec < 2 ^ 64)
    {res : Result (Except String Unit)}
    (h : exec env.handle (fabricOpen build cfg) w = (w', res)) : res = .ok (.ok ()) := by
  by_contra hres
  obtain ⟨names, name, -, -, d, e, t, q, -, -, -, -, -, hadd⟩ := exec_fabricOpen_stopped h hres
  rw [addU64_ok (hroom _)] at hadd
  cases hadd

/-! ## Runs -/

/-- **A step keeps nothing that does not expire.** -/
theorem expires_step (hmono : Monotone env.clock)
    (hroom : ∀ t, env.clock t + cfg.maxDeadlineHorizonSec < 2 ^ 64) {r : Relay σ}
    (h : r.Expires env cfg) {s : Step} (hs : ∀ c, s = .start c → c = cfg) :
    (r.step env build s).Expires env cfg := by
  obtain ⟨w, running⟩ := r
  cases s with
  | verb v =>
    cases running with
    | none => exact h
    | some c =>
      obtain rfl := h.knobs c rfl
      have hreg := h.reg rfl
      obtain ⟨hentries, hfiles⟩ := mortal_verb hmono hroom hreg (h.entries rfl)
        (h.files.resolve_right nofun) v
      exact ⟨h.knobs, fun _ => registered_verb hreg v, fun _ => hentries, .inl hfiles⟩
  | crash v n =>
    -- a crash forgets the queues, and leaves files of requests that were admitted
    cases running with
    | none => exact h
    | some c =>
      obtain rfl := h.knobs c rfl
      refine ⟨nofun, nofun, nofun, .inl ?_⟩
      exact filesMortal_crash hmono hroom (h.reg rfl) (h.files.resolve_right nofun) v n
  | start c =>
    obtain rfl := hs c rfl
    rcases hopen : exec env.handle (fabricOpen build c) w with ⟨w', res⟩
    obtain rfl := fabricOpen_ok hroom hopen
    obtain ⟨kept, hst⟩ := exec_fabricOpen hopen
    have hstep : Relay.step env build ⟨w, running⟩ (.start c) = ⟨w', some c⟩ := by
      simp only [Relay.step, hopen]
    rw [hstep]
    refine ⟨fun c' hc' => (Option.some.inj hc').symm, fun _ => ?_,
      fun _ => (entries_started hmono hroom hst).2, .inl ?_⟩
    · show Registered w'.reg
      rw [hst.reg]
      exact registered_empty
    · -- a restart reads its own files; a first start, a clean directory
      rcases h.files with hfiles | ⟨-, hclean⟩
      · have hlater := hfiles.later (now_le_now hmono hst.tick.le)
        exact hlater.of_shrinks fun c' => (hst.shrinks (fenvFile c')).imp_right And.left
      · exact files_started hmono hroom hst hclean

theorem expires_run (hmono : Monotone env.clock)
    (hroom : ∀ t, env.clock t + cfg.maxDeadlineHorizonSec < 2 ^ 64) {r : Relay σ}
    (h : r.Expires env cfg) {steps : List Step} (hcfg : ∀ c, Step.start c ∈ steps → c = cfg) :
    (r.run env build steps).Expires env cfg := by
  refine Relay.run_induction (fun r s hs hr => expires_step hmono hroom hr fun c hc => ?_) h
  exact hcfg c (hc ▸ hs)

/-- **No envelope is immortal, and none is delivered stale.** In every state of a run in which the
relay is up, every entry records the deadline of its pointer, which is set and within the horizon;
so is that of every envelope file; and a drain delivers nothing that has expired. -/
theorem deadlines_bounded {r : Relay σ} (hdown : r.cfg = none) (hmono : Monotone env.clock)
    (hroom : ∀ t, env.clock t + cfg.maxDeadlineHorizonSec < 2 ^ 64)
    (hinit : FilesMortal cfg (env.now r.world) r.world.dir ∨ Cleanable env r.world.dir)
    {steps : List Step} (hcfg : ∀ c, Step.start c ∈ steps → c = cfg)
    (hup : (r.run env build steps).cfg.isSome) :
    EntriesMortal cfg (env.now (r.run env build steps).world)
        (r.run env build steps).world.queues ∧
      FilesMortal cfg (env.now (r.run env build steps).world)
        (r.run env build steps).world.dir ∧
      ∀ req ip v, (exec env.handle (runFpop build cfg req ip)
          (r.run env build steps).world).2 = .ok (.ok v) →
        ∃ h now w₁ out, exec env.handle (fpopGate build cfg req ip)
            (r.run env build steps).world = (w₁, .ok (.ok (h, now))) ∧
          v = pointersResponse out ∧ ∀ p ∈ out, now < p.deadline := by
  have hfresh : r.Expires env cfg := by
    refine ⟨?_, ?_, ?_, hinit.imp_right fun hclean => ⟨hdown, hclean⟩⟩ <;> rw [hdown] <;> exact nofun
  have h : (r.run env build steps).Expires env cfg := expires_run hmono hroom hfresh hcfg
  refine ⟨h.entries hup, h.files.resolve_right fun hnone => ?_, fun req ip v hv => ?_⟩
  · rw [hnone.1] at hup
    cases hup
  · exact fpop_live (h.entries hup) hv

end

/-- A relay on an empty directory that queues one pointer. -/
theorem deadlines_bounded_put :
    let env : Env Unit := .still (fun p _ => (p, .error "closed")) 1000
    let steps : List Step := [.start {},
      .verb (.freg (fregRequest (.replicate 32 5) "0123456789abcdef" 60)),
      .verb (.fput (fputRequest (.replicate 32 5) (pointerOf 7 1030)) "")]
    let w := ((Relay.fresh ()).run env Build.trailing steps).world
    EntriesMortal {} (env.now w) w.queues ∧ FilesMortal {} (env.now w) w.dir ∧
      ∀ req ip v, (exec env.handle (runFpop Build.trailing {} req ip) w).2 = .ok (.ok v) →
        ∃ h now w₁ out, exec env.handle (fpopGate Build.trailing {} req ip) w =
            (w₁, .ok (.ok (h, now))) ∧
          v = pointersResponse out ∧ ∀ p ∈ out, now < p.deadline := by
  intro env steps w
  have hempty : Cleanable env (Relay.fresh ()).world.dir := ⟨Env.still_calm _ _, nofun⟩
  refine deadlines_bounded rfl (fun _ _ _ => le_rfl) (fun _ => ?_) (.inr hempty) ?_ rfl
  · show 1000 + 7 * 24 * 3600 < 2 ^ 64
    omega
  · intro c hc
    simp only [steps, List.mem_cons, Step.start.injEq, reduceCtorEq, List.not_mem_nil, or_false] at hc
    exact hc

end SporePeer
