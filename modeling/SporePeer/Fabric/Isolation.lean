import SporePeer.Fabric.Matching
import SporePeer.Fabric.Sweeping

/-!
# Isolation

Handles share one registry, one table of queues and one directory. A request on one of them leaves
the live registration, the queue and the envelope files of every other as they are, and no run
takes the registry over its budget.

## Main definitions

* `Verb.handle`: the handle of a request
* `SameFor`: what a handle has is the same
* `Budgeted`: a registry within the budget, under handles in lower case

## Main results

* `sameFor_verb`: one request
* `budgeted_verb`, `size_step`: the registry after a request, and after a step of a relay
* `isolated_run`: handles are isolated in every reachable state
-/

namespace SporePeer

open Effects Text Bytes

/-! ## Handles -/

/-- The handle that a request is about, if it names one. -/
def Verb.handle (build : Build) : Verb → Option String
  | .freg req => (readFreg build req).toOption.map FregRequest.handle
  | .fput req _ => (readHandle build "400 fput needs handle" req).toOption
  | .fpop req _ => (readHandle build "400 fpop needs handle" req).toOption

/-- The handle `k` has the same in `w'` as in `w`: the registration, if it lives at a clock reading
of the step from `w` to `w'`, the queue, and the envelope files. -/
structure SameFor {σ : Type} (env : Env σ) (k : String) (w w' : World σ) : Prop where
  reg : ∀ r t, w.tick ≤ t → t = w.tick ∨ t < w'.tick → env.clock t < r.expires →
    (w.reg.lookup k = some r ↔ w'.reg.lookup k = some r)
  queue : Queues.of w'.queues k = Queues.of w.queues k
  files : ∀ c d e, parseEnvelope d.content = .ok e → e.key = k →
    (w.dir.lookup (fenvFile c) = some d ↔ w'.dir.lookup (fenvFile c) = some d)

/-- A registry within its budget, expired registrations included, under keys of 64 digits. -/
structure Budgeted (cfg : FabricConfig) (reg : Table String Registration) : Prop where
  size : reg.size ≤ cfg.maxRegs
  key : ∀ h ∈ reg, h.length = 64 ∧ ∀ c ∈ h.toList, c ∈ "0123456789abcdef".toList

section

variable {σ : Type} {env : Env σ} {build : Build} {cfg : FabricConfig} {w u w' : World σ}
  {written : Bytes → Prop} {k : String}

/-! ## One request -/

/-- A section on the queue of `h` that removes envelopes of `h` leaves those of other handles. -/
theorem files_rewrites {h : String} {q : List Queued} {cids : List String}
    (hnc : NoCollision build written) (hfiles : FilesRecorded build written u.dir)
    (hrw : Rewrites env h q cids u w')
    (hcids : ∀ c ∈ cids, ∃ y, Recorded build written h y ∧ y.envCidHex = c) (hk : k ≠ h)
    {c : String} {d : FileData} {e : Envelope} (he : parseEnvelope d.content = .ok e)
    (hkey : e.key = k) :
    u.dir.lookup (fenvFile c) = some d ↔ w'.dir.lookup (fenvFile c) = some d := by
  rcases hrw.shrinks (fenvFile c) with heq | ⟨hnone, c', hc', hname⟩
  · rw [heq]
  rw [hnone]
  refine iff_of_false (fun hd => ?_) nofun
  -- the file that is gone holds the envelope of an entry of `h`
  obtain ⟨e₁, he₁, hc₁, hcont⟩ := hfiles c d hd
  rw [hcont, parseEnvelope_marshalEnvelope he₁.header he₁.arrived] at he
  obtain rfl : e₁ = e := Except.ok.inj he
  obtain ⟨y, ⟨e₂, he₂, hh, -, hyc, -⟩, hy⟩ := hcids c' hc'
  have hcid : e₁.cidHex build = e₂.cidHex build := by
    rw [← hc₁, fenvFile_inj.mp hname, ← hy, hyc]
  apply hk
  rw [hh, ← hkey, hnc.envelope he₁ he₂ hcid]

/-- An envelope that is stored takes the place of none of another handle. -/
theorem files_persists {p : Put} {sec : ℕ} (hnc : NoCollision build written)
    (hfiles : FilesRecorded build written w.dir) (hp : Filed written p.envelope)
    (hpersist : Persists (p.envelope.cidHex build) ⟨marshalEnvelope p.envelope, sec⟩ w u)
    (hk : k ≠ p.key) {c : String} {d : FileData} {e : Envelope}
    (he : parseEnvelope d.content = .ok e) (hkey : e.key = k) :
    w.dir.lookup (fenvFile c) = some d ↔ u.dir.lookup (fenvFile c) = some d := by
  rw [hpersist.fenv]
  split
  · rename_i hc
    refine iff_of_false (fun hd => ?_) fun hd => ?_
    · obtain ⟨e₁, he₁, hc₁, hcont⟩ := hfiles c d hd
      rw [hcont, parseEnvelope_marshalEnvelope he₁.header he₁.arrived] at he
      obtain rfl : e₁ = e := Except.ok.inj he
      apply hk
      rw [← hkey, hnc.envelope he₁ hp (hc₁.symm.trans hc)]
      rfl
    · cases hd
      rw [parseEnvelope_marshalEnvelope hp.header hp.arrived] at he
      apply hk
      rw [← hkey, ← Except.ok.inj he]
      rfl
  · rfl

/-- A registration touches the registry alone, and there another handle only if it has expired. -/
theorem sameFor_freg {req : Value} (hk : (Verb.freg req).handle build ≠ some k) :
    SameFor env k w (exec env.handle (runFreg build cfg req) w).1 := by
  obtain ⟨hdir, hqueues, -⟩ := exec_runFreg_frame env build cfg w req
  refine ⟨fun r t ht ht' hlive => ?_, by rw [hqueues], fun c d e _ _ => by rw [hdir]⟩
  rw [exec_runFreg] at ht' ⊢
  rcases hr : readFreg build req with e | q
  · rfl
  rw [hr] at ht'
  have hne : k ≠ q.handle := fun he => hk (by simp [Verb.handle, hr, he, Except.toOption])
  dsimp only at ht' ⊢
  split
  · rfl
  rename_i expires hadd
  rw [hadd] at ht'
  -- the clock is read once
  have hread : env.clock w.tick < r.expires := by
    have htick : t = w.tick := by
      dsimp only at ht'
      split at ht'
      · exact ht'.elim id fun hlt => Nat.le_antisymm (Nat.lt_succ_iff.mp hlt) ht
      · exact ht'.elim id fun hlt => Nat.le_antisymm (Nat.lt_succ_iff.mp hlt) ht
    rwa [← htick]
  have hswept : w.reg.lookup k = some r ↔
      (sweptReg w (env.clock w.tick)).lookup k = some r := sameLive_sweptReg w _ k r hread
  split
  · exact hswept
  · dsimp only
    rw [Table.lookup_insert_eq, if_neg hne]
    exact hswept

/-- **A request leaves other handles alone.** -/
theorem sameFor_verb (hnc : NoCollision build written) (hreg : Registered w.reg)
    (hfiles : FilesRecorded build written w.dir)
    (hrec : ∀ h, ∀ x ∈ Queues.of w.queues h, Recorded build written h x) (v : Verb)
    (hw : ∀ b ∈ SporePeer.written env (v.run build cfg) w, written b)
    (hk : v.handle build ≠ some k) : SameFor env k w (exec env.handle (v.run build cfg) w).1 := by
  refine Verb.exec_cases (P := SameFor env k w) hreg v ?_ ?_ ?_ ?_
  · rintro req rfl
    exact sameFor_freg hk
  · intro w' hun
    refine ⟨fun r t _ _ _ => by rw [hun.reg], by rw [hun.queues], fun c d e _ _ => ?_⟩
    rw [hun.keeps_fenv]
  · -- a put of another handle persists and evicts files of that handle only
    rintro req ip p now w' rfl hacc
    have hne : k ≠ p.key := fun he => hk (by
      show (readHandle build _ req).toOption = some k
      rw [hacc.handle, he]
      rfl)
    have hp : Filed written p.envelope := hacc.filed hw
    obtain ⟨u, sec, hmem, hpersist, heff⟩ := hacc.effect
    have hstored : FilesRecorded build written u.dir := hfiles.of_persists hp hpersist
    refine ⟨fun r t _ _ _ => by rw [heff.reg, hmem.reg], ?_, fun c d e he hkey => ?_⟩
    · rw [heff.queues, if_neg hne, hmem.queues]
    · apply (files_persists hnc hfiles hp hpersist hne he hkey).trans
      apply files_rewrites hnc hstored heff ?_ hne he hkey
      intro c hc
      exact recorded_putDropped hp (hrec p.key) hc
  · -- and so does a pop
    rintro req ip h now w' rfl hd
    have hne : k ≠ h := fun he => hk (by
      show (readHandle build _ req).toOption = some k
      rw [hd.handle, he]
      rfl)
    obtain ⟨u, hun, heff⟩ := hd.effect
    refine ⟨fun r t _ _ _ => by rw [heff.reg, hun.reg], ?_, fun c d e he hkey => ?_⟩
    · rw [heff.queues, if_neg hne, hun.queues]
    · rw [← hun.dir]
      apply files_rewrites hnc (hun.dir ▸ hfiles) heff ?_ hne he hkey
      intro c hc
      exact recorded_popDropped (hrec h) hc

/-! ## The budget -/

/-- A new handle has to find room, and one that is there takes none. -/
theorem size_insert_of_fregGate {reg : Table String Registration} {h prev : String} {now : ℕ}
    {r : Registration} (hsize : reg.size ≤ cfg.maxRegs)
    (hgate : fregGate cfg reg h prev now = .ok ()) :
    Table.size (reg.insert h r : Table String Registration) ≤ cfg.maxRegs := by
  unfold fregGate at hgate
  split at hgate
  · rename_i cur hcur
    have hlook : reg.lookup h = some cur := (Option.filter_eq_some_iff.mp hcur).1
    rw [Table.size_insert_of_mem (Table.mem_of_lookup hlook)]
    exact hsize
  · split at hgate
    · cases hgate
    · rename_i hroom
      apply (Table.size_insert_le reg h r).trans
      omega

/-- A registration stays within the budget. -/
theorem budgeted_verb (hreg : Registered w.reg) (hsize : w.reg.size ≤ cfg.maxRegs) (v : Verb) :
    (exec env.handle (v.run build cfg) w).1.reg.size ≤ cfg.maxRegs := by
  refine Verb.exec_cases (P := fun w' => w'.reg.size ≤ cfg.maxRegs) hreg v ?_ ?_ ?_ ?_
  · rintro req -
    -- a sweep makes the registry no larger, and the gate looks at it after that
    have hswept (now : ℕ) : (sweptReg w now).size ≤ cfg.maxRegs := by
      unfold sweptReg
      split
      · exact (Table.size_retain_le _ _).trans hsize
      · exact hsize
    rw [exec_runFreg]
    split
    · exact hsize
    · dsimp only
      split
      · exact hsize
      · split
        · exact hswept _
        · rename_i hgate
          exact size_insert_of_fregGate (hswept _) hgate
  · intro w' hun
    rw [hun.reg]
    exact hsize
  · rintro req ip p now w' - hacc
    obtain ⟨u, sec, hmem, -, heff⟩ := hacc.effect
    rw [heff.reg, hmem.reg]
    exact hsize
  · rintro req ip h now w' - hd
    obtain ⟨u, hun, heff⟩ := hd.effect
    rw [heff.reg, hun.reg]
    exact hsize

/-- The registry of a running relay is within its budget, after any step. -/
theorem size_step {r : Relay σ} (hreg : r.cfg.isSome → Registered r.world.reg)
    (h : ∀ cfg, r.cfg = some cfg → r.world.reg.size ≤ cfg.maxRegs) (s : Step) :
    ∀ cfg, (r.step env build s).cfg = some cfg →
      (r.step env build s).world.reg.size ≤ cfg.maxRegs := by
  obtain ⟨w, running⟩ := r
  intro cfg hcfg
  cases s with
  | verb v =>
    cases running with
    | none => exact absurd hcfg nofun
    | some c =>
      obtain rfl : c = cfg := Option.some.inj hcfg
      exact budgeted_verb (hreg rfl) (h c rfl) v
  | crash v n =>
    -- a crash leaves no relay to speak of
    have hdown : (Relay.step env build ⟨w, running⟩ (.crash v n)).cfg = none := by
      cases running <;> rfl
    rw [hdown] at hcfg
    cases hcfg
  | start c =>
    unfold Relay.step at hcfg ⊢
    dsimp only at hcfg ⊢
    split at hcfg
    · rename_i w' he
      obtain rfl : c = cfg := Option.some.inj hcfg
      obtain ⟨kept, hst⟩ := exec_fabricOpen he
      show w'.reg.size ≤ c.maxRegs
      rw [hst.reg]
      exact Nat.zero_le _
    · cases hcfg

/-- Keys of a registry are spelled in lower case. -/
theorem Registered.key {reg : Table String Registration} (h : Registered reg) {k : String}
    (hk : k ∈ reg) : k.length = 64 ∧ ∀ c ∈ k.toList, c ∈ "0123456789abcdef".toList := by
  obtain ⟨r, hr⟩ := Option.isSome_iff_exists.mp (AList.lookup_isSome.mpr hk)
  obtain ⟨⟨handle, rfl⟩, -⟩ := h k r hr
  refine ⟨?_, Hex.mem_digits_of_mem_encode _⟩
  rw [Hex.length_encode, List.Vector.toList_length]

/-! ## Runs -/

/-- **Handles are isolated.** In every reachable state of a relay, crashes and restarts under other
knobs included, a request leaves the other handles as they are; and the registry is within its
budget. -/
theorem isolated_run (env : Env σ) (build : Build) (peer : σ) (steps : List Step)
    {cfg : FabricConfig} (hup : ((Relay.fresh peer).run env build steps).cfg = some cfg) (v : Verb)
    (hnc : NoCollision build (· ∈ (Relay.fresh peer).writes env build (steps ++ [.verb v]))) :
    let w := ((Relay.fresh peer).run env build steps).world
    (∀ k, v.handle build ≠ some k → SameFor env k w (exec env.handle (v.run build cfg) w).1) ∧
      Budgeted cfg w.reg := by
  intro w
  let written (b : Bytes) : Prop := b ∈ (Relay.fresh peer).writes env build (steps ++ [.verb v])
  -- what the last request writes counts as well
  have hsplit (b : Bytes) : written b ↔ b ∈ (Relay.fresh peer).writes env build steps ∨
      b ∈ SporePeer.written env (v.run build cfg) w := by
    show b ∈ (Relay.fresh peer).writes env build (steps ++ [.verb v]) ↔ _
    rw [Relay.writes_append, List.mem_append, Relay.writes_verb hup]
  have hsome : ((Relay.fresh peer).run env build steps).cfg.isSome := by rw [hup]; rfl
  have hs : ((Relay.fresh peer).run env build steps).Sound build written :=
    sound_run (fun b hb => (hsplit b).mpr (.inl hb)) (sound_fresh peer)
  have hreg : Registered w.reg := hs.reg hsome
  refine ⟨fun k hk => ?_, ?_, fun h hh => hreg.key hh⟩
  · exact sameFor_verb hnc hreg hs.files (hs.entries hsome) v
      (fun b hb => (hsplit b).mpr (.inr hb)) hk
  · let I (r : Relay σ) : Prop := r.Sound build (fun _ => True) ∧
      ∀ cfg, r.cfg = some cfg → r.world.reg.size ≤ cfg.maxRegs
    have hsize : I ((Relay.fresh peer).run env build steps) :=
      Relay.run_induction
        (fun r s _ hr => ⟨sound_step hr.1 fun _ _ => trivial, size_step hr.1.reg hr.2 s⟩)
        ⟨sound_fresh peer, nofun⟩
    exact hsize.2 cfg hup

end

/-- Two handles have mail, and one of them is drained. -/
theorem isolated_run_two :
    let env : Env Unit := .still (fun p _ => (p, .error "closed")) 100
    let alice : U8Array 32 := .replicate 32 7
    let bob : U8Array 32 := .replicate 32 8
    let steps := [.start {}, .verb (.freg (fregRequest alice "token-0123456789" 60)),
      .verb (.freg (fregRequest bob "token-abcdefghij" 60)),
      .verb (.fput (fputRequest alice (pointerOf 1 200)) "ip"),
      .verb (.fput (fputRequest bob (pointerOf 2 200)) "ip")]
    let v := Verb.fpop (fpopRequest bob "token-abcdefghij" 1) "ip"
    let w := ((Relay.fresh ()).run env .trailing steps).world
    (∀ k, v.handle .trailing ≠ some k →
      SameFor env k w (exec env.handle (v.run .trailing {}) w).1) ∧ Budgeted {} w.reg := by
  intro env alice bob steps v
  refine isolated_run env .trailing () steps ?_ v (noCollision_of_mem ?_)
  · decide +kernel
  · decide +kernel

end SporePeer
