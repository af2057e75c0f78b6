import SporePeer.Fabric.Eviction
import SporePeer.Fabric.Keeping
import SporePeer.Fabric.Sweeping

/-!
# Requests that are refused

A relay refuses a request at one of some twenty places, some of them behind the rate limiter, the
sweep or a write to the disk. While the two sums with the clock fit into a word, a refusal changes
no live registration, no queue and no envelope file, and no request unwinds.

## Main definitions

* `Spared`: what a refusal leaves as it is

## Main results

* `unwinds_verb`: a request unwinds on an overflow only
* `spared_verb`: what every verb leaves when it is refused
* `verbs_refuse_spared`: both, in every state of a run
-/

namespace SporePeer

open Effects Text Bytes

section

variable {σ : Type} {env : Env σ} {build : Build} {cfg : FabricConfig} {w w' : World σ}

/-- The registrations that live when the request arrives, the queues and the envelope files are as
they were. -/
structure Spared (env : Env σ) (w w' : World σ) : Prop where
  live : SameLive (env.clock w.tick) w.reg w'.reg
  queues : w'.queues = w.queues
  files : ∀ name, extension name = some "fenv" → w'.dir.lookup name = w.dir.lookup name

/-- A part of an envelope under its temporary name is no envelope file. -/
theorem Unstored.spared (h : Unstored env w w') : Spared env w w' where
  live := by
    rw [h.reg]
    exact .refl _ _
  queues := h.queues
  files name hext := by
    obtain ⟨c, rfl⟩ := fenvFile_of_extension hext
    exact h.keeps_fenv c

/-- A registration that is refused has at most swept. -/
theorem spared_runFreg {req : Value} {e : String}
    (h : (exec env.handle (runFreg build cfg req) w).2 = .ok (.error e)) :
    Spared env w (exec env.handle (runFreg build cfg req) w).1 := by
  obtain ⟨hdir, hqueues, -⟩ := exec_runFreg_frame env build cfg w req
  refine ⟨?_, hqueues, fun name _ => by rw [hdir]⟩
  rw [exec_runFreg] at h ⊢
  rcases hread : readFreg build req with msg | r
  · exact .refl _ _
  rw [hread] at h
  dsimp only at h ⊢
  rcases hadd : addU64 build.overflowChecks (env.clock w.tick) (min r.lease cfg.maxLeaseSec) with
    p | expires
  · exact .refl _ _
  rw [hadd] at h
  dsimp only at h ⊢
  rcases hgate : fregGate cfg (sweptReg w (env.clock w.tick)) r.handle r.prevToken
    (env.clock w.tick) with msg | ⟨⟨⟩⟩
  · -- what the sweep removes has expired
    exact sameLive_sweptReg w _
  · rw [hgate] at h
    cases h

/-- **A refusal changes nothing**, whichever verb it is and wherever in it. -/
theorem spared_verb (hreg : Registered w.reg) (v : Verb) {e : String}
    (h : (exec env.handle (v.run build cfg) w).2 = .ok (.error e)) :
    Spared env w (exec env.handle (v.run build cfg) w).1 := by
  cases v with
  | freg req => exact spared_runFreg h
  | fput req ip =>
    rcases exec_runFput env build cfg req ip hreg with ⟨p, now, hok, -⟩ | ⟨-, hun⟩
    · rw [Verb.run, hok] at h
      cases h
    · exact hun.spared
  | fpop req ip =>
    rcases exec_runFpop env w build cfg req ip with ⟨k, now, hok, -⟩ | ⟨-, hun⟩
    · rw [Verb.run, hok] at h
      cases h
    · exact hun.unstored.spared

/-- **A request unwinds on an overflow only**: of the end of a lease, or of the horizon. -/
theorem unwinds_verb (hreg : Registered w.reg) (v : Verb)
    (h : Unwinds env.handle (v.run build cfg) w) :
    ∃ t, w.tick ≤ t ∧ (2 ^ 64 ≤ env.clock t + cfg.maxLeaseSec ∨
      2 ^ 64 ≤ env.clock t + cfg.maxDeadlineHorizonSec) := by
  cases v with
  | freg req =>
    obtain ⟨r, -, -, hover⟩ := unwinds_runFreg_iff.mp h
    have hmin := Nat.min_le_right r.lease cfg.maxLeaseSec
    exact ⟨w.tick, le_rfl, .inl (by omega)⟩
  | fput req ip =>
    obtain ⟨w₁, k, pointer, now, hgate, -, hover⟩ := (unwinds_runFput_iff hreg ip).mp h
    obtain ⟨-, -, -, -, t, ht, -, rfl⟩ := exec_fputGate_ok hgate
    exact ⟨t, ht, .inr hover⟩
  | fpop req ip => exact absurd h (tidy_runFpop build cfg req ip).total.not_unwinds

/-- **Requests do not unwind, and refusals change nothing**: in every state of a relay that is up,
whatever the request and whichever file operations fail, while the sums of the clock with the knobs
fit into a word. -/
theorem verbs_refuse_spared (env : Env σ) (build : Build) (w₀ : World σ) (steps : List Step)
    {cfg : FabricConfig} (hup : ((⟨w₀, none⟩ : Relay σ).run env build steps).cfg = some cfg)
    (hroom : ∀ t, ((⟨w₀, none⟩ : Relay σ).run env build steps).world.tick ≤ t →
      env.clock t + cfg.maxLeaseSec < 2 ^ 64 ∧ env.clock t + cfg.maxDeadlineHorizonSec < 2 ^ 64)
    (v : Verb) :
    let w := ((⟨w₀, none⟩ : Relay σ).run env build steps).world
    ¬ Unwinds env.handle (v.run build cfg) w ∧
      ∀ e, (exec env.handle (v.run build cfg) w).2 = .ok (.error e) →
        Spared env w (exec env.handle (v.run build cfg) w).1 := by
  intro w
  have hreg := (standing_run env build w₀ steps).reg (by rw [hup]; rfl)
  refine ⟨fun hu => ?_, fun e he => spared_verb hreg v he⟩
  obtain ⟨t, ht, hover⟩ := unwinds_verb hreg v hu
  obtain ⟨hlease, hhorizon⟩ := hroom t ht
  rcases hover with h | h <;> omega

end

/-- A put whose write to the disk fails in its middle. -/
theorem verbs_refuse_spared_write :
    let env : Env Unit := { Env.still (fun p _ => (p, .error "closed")) 100 with
      fault := fun t => if t = 6 then some ⟨"no space", some 10⟩ else none }
    let handle : U8Array 32 := .replicate 32 7
    let steps := [.start {}, .verb (.freg (fregRequest handle "token-0123456789" 60))]
    let v : Verb := .fput (fputRequest handle (pointerOf 1 200)) "ip"
    let w := ((⟨World.fresh (), none⟩ : Relay Unit).run env .trailing steps).world
    ¬ Unwinds env.handle (v.run .trailing {}) w ∧
      ∀ e, (exec env.handle (v.run .trailing {}) w).2 = .ok (.error e) →
        Spared env w (exec env.handle (v.run .trailing {}) w).1 :=
  verbs_refuse_spared _ _ _ _ (by decide +kernel)
    (fun _ _ => show 100 + 604800 < 2 ^ 64 ∧ 100 + 604800 < 2 ^ 64 by decide) _

end SporePeer
