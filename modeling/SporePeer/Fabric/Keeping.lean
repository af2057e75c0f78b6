import SporePeer.Fabric.Cutting

/-!
# What a relay keeps

Every envelope file of a run holds an envelope that the run wrote, under the hash of its bytes,
and every queued entry is the entry of such an envelope. Where file operations succeed and hashes
do not collide, entries and envelope files correspond one to one.

## Main definitions

* `Filed`: an envelope that a run wrote
* `FilesRecorded`, `Recorded`: files and entries of envelopes written
* `Relay.Sound`: a relay that keeps nothing else

## Main results

* `sound_run`: a run keeps nothing else
-/

namespace SporePeer

open Effects Text Bytes

/-- An envelope written, with what makes it readable. -/
structure Filed (written : Bytes → Prop) (e : Envelope) : Prop where
  written : written (marshalEnvelope e)
  header : e.pointer.HasHeader
  arrived : e.receivedAt < 2 ^ 64

/-- Every envelope file holds an envelope written, under its name. -/
def FilesRecorded (build : Build) (written : Bytes → Prop) (dir : Table String FileData) : Prop :=
  ∀ c d, dir.lookup (fenvFile c) = some d →
    ∃ e, Filed written e ∧ c = e.cidHex build ∧ d.content = marshalEnvelope e

/-- An entry of the queue of `h` is the entry of an envelope written. -/
def Recorded (build : Build) (written : Bytes → Prop) (h : String) (x : Queued) : Prop :=
  ∃ e, Filed written e ∧ h = e.key ∧ x.pointer = e.pointer ∧ x.envCidHex = e.cidHex build ∧
    x.deadline = e.pointer.deadline

/-- A relay keeps nothing but what was written. -/
structure Relay.Sound {σ : Type} (build : Build) (written : Bytes → Prop) (r : Relay σ) : Prop where
  files : FilesRecorded build written r.world.dir
  reg : r.cfg.isSome → Registered r.world.reg
  entries : r.cfg.isSome → ∀ h, ∀ x ∈ Queues.of r.world.queues h, Recorded build written h x

/-- A step other than a crash, under the knobs `cfg`. -/
def Step.Orderly (cfg : FabricConfig) : Step → Prop
  | .verb _ => True
  | .crash _ _ => False
  | .start c => c = cfg

theorem fputPointer_ok {req : Value} {p : Pointer} (h : fputPointer req = .ok p) : p.HasHeader := by
  unfold fputPointer at h
  split at h
  · cases h
  split at h
  · cases h
  split at h
  · cases h
  split at h
  · dsimp only at h
    split at h
    · cases h
    · cases h
      exact not_not.mp ‹_›
  · cases h

theorem FilesRecorded.of_shrinks {build : Build} {written : Bytes → Prop}
    {dir dir' : Table String FileData} (h : FilesRecorded build written dir)
    (hshrinks : ∀ c, dir'.lookup (fenvFile c) = dir.lookup (fenvFile c) ∨
      dir'.lookup (fenvFile c) = none) : FilesRecorded build written dir' := by
  intro c d hd
  rcases hshrinks c with heq | hnone
  · exact h c d (heq ▸ hd)
  · rw [hnone] at hd
    cases hd

section

variable {σ : Type} {env : Env σ} {build : Build} {cfg : FabricConfig} {w v w' : World σ}
  {written : Bytes → Prop}

theorem Rewrites.shrinks_fenv {h : String} {q : List Queued} {cids : List String}
    (hrw : Rewrites env h q cids w w') (c : String) :
    w'.dir.lookup (fenvFile c) = w.dir.lookup (fenvFile c) ∨
      w'.dir.lookup (fenvFile c) = none :=
  (hrw.shrinks _).imp_right And.left

theorem Unstored.keeps_fenv (h : Unstored env w w') (c : String) :
    w'.dir.lookup (fenvFile c) = w.dir.lookup (fenvFile c) :=
  h.keeps _ fun c' he => tmpFile_ne_fenvFile c' c he.symm

/-- An envelope stored is the only new envelope file. -/
theorem Persists.fenv {c : String} {d : FileData} (h : Persists c d w v) (c' : String) :
    v.dir.lookup (fenvFile c') = if c' = c then some d else w.dir.lookup (fenvFile c') := by
  rw [h, if_neg (tmpFile_ne_fenvFile c c').symm]
  by_cases hc : c' = c
  · rw [if_pos hc, if_pos (fenvFile_inj.mpr hc)]
  · rw [if_neg hc, if_neg fun he => hc (fenvFile_inj.mp he)]

theorem FilesRecorded.of_persists {p : Put} {sec : ℕ} (h : FilesRecorded build written w.dir)
    (hp : Filed written p.envelope)
    (hpersist : Persists (p.envelope.cidHex build) ⟨marshalEnvelope p.envelope, sec⟩ w v) :
    FilesRecorded build written v.dir := by
  intro c d hd
  rw [hpersist.fenv] at hd
  split at hd
  · cases hd
    exact ⟨p.envelope, hp, ‹_›, rfl⟩
  · exact h c d hd

/-- The envelope of an accepted put is among those written. -/
theorem Accepted.filed {req : Value} {ip : String} {p : Put} {now : ℕ}
    (h : Accepted env build cfg req ip p now w w')
    (hw : ∀ b ∈ SporePeer.written env (runFput build cfg req ip) w, written b) :
    Filed written p.envelope := by
  obtain ⟨t₀, t₁, t₂, -, -, -, -, -, harr, -⟩ := h.clock
  refine ⟨hw _ h.written, fputPointer_ok h.pointer, ?_⟩
  change p.receivedAt < 2 ^ 64
  rw [harr]
  exact env.clock_lt t₁

/-- An entry that a put keeps is its own or an old one. -/
theorem recorded_putKept {p : Put} {now : ℕ} {q : List Queued} (hp : Filed written p.envelope)
    (hq : ∀ x ∈ q, Recorded build written p.key x) {x : Queued}
    (hx : x ∈ putKept cfg (p.entry build) now q) : Recorded build written p.key x := by
  rcases mem_placed (putKept_sublist.subset hx) with ⟨hptr, hc, hd⟩ | hx
  · exact ⟨p.envelope, hp, rfl, hptr, hc, hd⟩
  · exact hq x hx

/-- What a request keeps. -/
theorem sound_verb (hfiles : FilesRecorded build written w.dir) (hreg : Registered w.reg)
    (hentries : ∀ h, ∀ x ∈ Queues.of w.queues h, Recorded build written h x) (v : Verb)
    (hw : ∀ b ∈ SporePeer.written env (v.run build cfg) w, written b) :
    FilesRecorded build written (exec env.handle (v.run build cfg) w).1.dir ∧
      ∀ h, ∀ x ∈ Queues.of (exec env.handle (v.run build cfg) w).1.queues h,
        Recorded build written h x := by
  refine Verb.exec_cases (P := fun w' => FilesRecorded build written w'.dir ∧
    ∀ h, ∀ x ∈ Queues.of w'.queues h, Recorded build written h x) hreg v ?_ ?_ ?_ ?_
  · -- a registration changes no file and no queue
    rintro req -
    obtain ⟨hd, hq, -⟩ := exec_runFreg_frame env build cfg w req
    rw [hd, hq]
    exact ⟨hfiles, hentries⟩
  · -- nothing is stored
    intro w' hun
    rw [hun.queues]
    exact ⟨hfiles.of_shrinks fun c => .inl (hun.keeps_fenv c), hentries⟩
  · -- a put is stored: what is queued is its envelope, or was queued
    rintro req ip p now w' rfl hacc
    have hp : Filed written p.envelope := hacc.filed hw
    obtain ⟨u, sec, hmem, hpersist, heff⟩ := hacc.effect
    refine ⟨(hfiles.of_persists hp hpersist).of_shrinks heff.shrinks_fenv, fun h x hx => ?_⟩
    rw [heff.queues] at hx
    split at hx
    · rename_i hh
      subst h
      exact recorded_putKept hp (hentries _) hx
    · rw [hmem.queues] at hx
      exact hentries h x hx
  · -- a queue is drained: what is left was queued
    rintro req ip h now w' rfl hd
    obtain ⟨u, hun, heff⟩ := hd.effect
    refine ⟨(hfiles.of_shrinks fun c => .inl (by rw [hun.dir])).of_shrinks heff.shrinks_fenv,
      fun k x hx => ?_⟩
    rw [heff.queues] at hx
    split at hx
    · rename_i hk
      subst k
      exact hentries h x (List.mem_of_mem_drop hx)
    · rw [hun.queues] at hx
      exact hentries k x hx

/-- The name of an envelope has no dot in it. -/
theorem dot_notMem_cidHex (build : Build) (e : Envelope) : '.' ∉ (e.cidHex build).toList :=
  Hex.notMem_encode (by decide) _

/-- The entry of an envelope file that holds an envelope written. -/
theorem recorded_entryOf (hfiles : FilesRecorded build written w.dir) {f : String × Envelope}
    (hext : extension f.1 = some "fenv") {d : FileData} (hd : w.dir.lookup f.1 = some d)
    (hp : parseEnvelope d.content = .ok f.2) :
    Filed written f.2 ∧ f.1 = fenvFile (f.2.cidHex build) ∧
      (entryOf f).envCidHex = f.2.cidHex build ∧
      Recorded build written f.2.key (entryOf f) := by
  obtain ⟨name, e⟩ := f
  obtain ⟨c, rfl⟩ := fenvFile_of_extension hext
  obtain ⟨e', he', rfl, hc⟩ := hfiles c d hd
  rw [hc, parseEnvelope_marshalEnvelope he'.header he'.arrived] at hp
  obtain rfl : e' = e := Except.ok.inj hp
  have hcid : (entryOf (fenvFile (e'.cidHex build), e')).envCidHex = e'.cidHex build :=
    trimEndMatches_fenvFile (dot_notMem_cidHex build e')
  exact ⟨he', rfl, hcid, e', he', rfl, rfl, hcid, rfl⟩

/-- What a request keeps that is cut off. -/
theorem filesRecorded_crash (hfiles : FilesRecorded build written w.dir) (hreg : Registered w.reg)
    (v : Verb) (n : ℕ)
    (hw : ∀ b ∈ (cutOff env.handle n (v.run build cfg) w).1.filterMap writtenBy, written b) :
    FilesRecorded build written (cutOff env.handle n (v.run build cfg) w).2.dir := by
  rcases noWrite_run build cfg v with hm | ⟨req, ip, rfl⟩
  · exact hfiles.of_shrinks fun c => cutOff_noWrite hm w n (fenvFile c)
  rcases crash_fput env hreg n with hsame | ⟨p, hcut, -⟩
  · exact hfiles.of_shrinks fun c => .inl (hsame c)
  obtain ⟨v, sec, hv, hsub⟩ := hcut.stored
  have hp : Filed written p.envelope :=
    ⟨hw _ hcut.written, fputPointer_ok hcut.pointer, hcut.arrived⟩
  exact (hfiles.of_persists hp hv).of_shrinks fun c => hsub (fenvFile c)

/-- **A step keeps nothing but what was written.** -/
theorem sound_step {r : Relay σ} (h : r.Sound build written) {s : Step}
    (hw : ∀ b ∈ r.stepWrites env build s, written b) :
    (r.step env build s).Sound build written := by
  obtain ⟨w, running⟩ := r
  cases s with
  | crash v n =>
    cases running with
    | none => exact h
    | some c => exact ⟨filesRecorded_crash h.files (h.reg rfl) v n hw, nofun, nofun⟩
  | verb v =>
    cases running with
    | none => exact h
    | some c =>
      have hreg := h.reg rfl
      obtain ⟨hfiles, hentries⟩ := sound_verb h.files hreg (h.entries rfl) v hw
      exact ⟨hfiles, fun _ => registered_verb hreg v, fun _ => hentries⟩
  | start c =>
    have hshrinks (w' : World σ) (res) (he : exec env.handle (fabricOpen build c) w = (w', res)) :
        FilesRecorded build written w'.dir := by
      refine h.files.of_shrinks fun c' => ?_
      have := exec_fabricOpen_shrinks env build c w (fenvFile c')
      rwa [he] at this
    unfold Relay.step
    dsimp only
    split
    · -- what is queued at a start comes from a file that is kept
      rename_i w' he
      obtain ⟨kept, hst⟩ := exec_fabricOpen he
      refine ⟨hshrinks _ _ he, fun _ => ?_, fun _ k x hx => ?_⟩
      · change Registered w'.reg
        rw [hst.reg]
        exact registered_empty
      · change x ∈ Queues.of w'.queues k at hx
        rw [hst.queues, List.mem_insertionSort] at hx
        obtain ⟨f, hf, rfl⟩ := List.mem_map.mp hx
        obtain ⟨hf, hk⟩ := List.mem_filter.mp hf
        obtain ⟨hext, d, t, hd, hp, -⟩ := hst.files f hf
        obtain ⟨-, -, -, hrec⟩ := recorded_entryOf h.files hext hd hp
        have hk : f.2.key = k := by simpa using hk
        rwa [← hk]
    · -- a start that fails leaves the relay down, and files may be gone
      rename_i w' res hne he
      exact ⟨hshrinks _ _ he, nofun, nofun⟩

theorem sound_fresh (peer : σ) : (Relay.fresh peer).Sound build written :=
  ⟨nofun, nofun, nofun⟩

/-- **A run keeps nothing but what it wrote.** -/
theorem sound_run {r : Relay σ} {steps : List Step}
    (hw : ∀ b ∈ r.writes env build steps, written b) (h : r.Sound build written) :
    (r.run env build steps).Sound build written :=
  Relay.run_invariant (fun _ _ _ hws hr => sound_step hr hws) hw h

end

end SporePeer
