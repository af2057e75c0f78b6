import SporePeer.Fabric.Eviction
import SporePeer.Fabric.Readings

/-!
# The arithmetic of leases and horizons

Three sums of the clock and a knob are formed in words of 64 bits: the end of a lease, and the
horizon of a deadline at a put and at a start. A sum that fits is exact. One that does not fit
unwinds where the build checks overflow; elsewhere it wraps around, so that the lease has ended
before it begins, and no deadline is within the horizon.

## Main definitions

* `LeaseKept`: a registration that neither unwinds nor ends in the past
* `KeepsFile`: a start keeps an envelope file

## Main results

* `addU64_le_iff`: what a sum bounds
* `leaseKept_iff`: when the lease of a registration is kept
* `arithmetic_exact_iff`: when the three sums are exact, over every run
-/

namespace SporePeer

open Effects Text Bytes

/-! ## Sums -/

/-- What a sum bounds: a wrapped one bounds only what is as far below the exact one. -/
theorem addU64_le_iff {c : Bool} {a b d : ℕ} (ha : a < 2 ^ 64) (hb : b < 2 ^ 64) :
    (∃ s, addU64 c a b = .ok s ∧ d ≤ s) ↔
      d ≤ a + b ∧ (a + b < 2 ^ 64 ∨ c = false ∧ d + 2 ^ 64 ≤ a + b) := by
  unfold addU64
  by_cases hfit : a + b < 2 ^ 64
  · rw [if_pos hfit]
    constructor
    · rintro ⟨s, hs, hle⟩
      cases hs
      exact ⟨hle, .inl hfit⟩
    · rintro ⟨hle, -⟩
      exact ⟨_, rfl, hle⟩
  rw [if_neg hfit]
  cases c with
  | true =>
    refine iff_of_false (by simp) ?_
    rintro ⟨-, h | ⟨h, -⟩⟩
    · exact hfit h
    · cases h
  | false =>
    have hmod : (a + b) % 2 ^ 64 + 2 ^ 64 = a + b := by omega
    constructor
    · rintro ⟨s, hs, hle⟩
      cases hs
      exact ⟨by omega, .inr ⟨rfl, by omega⟩⟩
    · rintro ⟨-, h | ⟨-, h⟩⟩
      · exact absurd h hfit
      · exact ⟨_, rfl, by omega⟩

/-- A deadline is a word. -/
theorem Pointer.deadline_lt (p : Pointer) : p.deadline < 2 ^ 64 := by
  have hlt := ofLe_lt ((p.toList.drop 66).take 8)
  have h74 : p.toList.length = 74 := p.toList_length
  have hlen : ((p.toList.drop 66).take 8).length = 8 := by
    rw [List.length_take, List.length_drop, h74]
    rfl
  rwa [hlen] at hlt

/-- A bound on a deadline is exact if the sum fits, or the deadline has passed anyway, or the clock
has jumped between its two readings beyond what the sum wraps to. -/
theorem bound_exact_iff {c : Bool} {a a' b d : ℕ} (ha' : a' < 2 ^ 64) (hb : b < 2 ^ 64)
    (hd : d < 2 ^ 64) :
    ((a < d ∧ ∃ s, addU64 c a' b = .ok s ∧ d ≤ s) ↔ a < d ∧ d ≤ a' + b) ↔
      a' + b < 2 ^ 64 ∨ d ≤ a ∨ c = false ∧ d + 2 ^ 64 ≤ a' + b := by
  rw [addU64_le_iff ha' hb]
  constructor
  · intro h
    by_contra hnot
    push Not at hnot
    obtain ⟨hover, hlive, hwrap⟩ := hnot
    -- the deadline is ahead and within the exact horizon, which is beyond every word
    obtain ⟨-, -, hfit | ⟨hc, hle⟩⟩ := h.mpr ⟨hlive, by omega⟩
    · omega
    · exact absurd hle (not_le.mpr (hwrap hc))
  · intro h
    constructor
    · rintro ⟨hlive, hle, -⟩
      exact ⟨hlive, hle⟩
    · rintro ⟨hlive, hle⟩
      refine ⟨hlive, hle, ?_⟩
      rcases h with h | h | h
      · exact .inl h
      · omega
      · exact .inr h

section

variable {σ : Type} {env : Env σ} {build : Build} {cfg : FabricConfig} {w : World σ}

/-! ## Leases -/

/-- The registration does not unwind, and where it is accepted, its lease does not end before the
clock reading it starts from. -/
def LeaseKept (env : Env σ) (build : Build) (cfg : FabricConfig) (req : Value) (w : World σ) :
    Prop :=
  ¬ Unwinds env.handle (runFreg build cfg req) w ∧
    ∀ v, (exec env.handle (runFreg build cfg req) w).2 = .ok (.ok v) →
      ∃ q r, readFreg build req = .ok q ∧
        (exec env.handle (runFreg build cfg req) w).1.reg.lookup q.handle = some r ∧
        env.clock w.tick ≤ r.expires

/-- **When a lease is kept**: the request is refused for its fields, the end of the lease fits, or
it wraps around and the registry refuses. -/
theorem leaseKept_iff (hlease : cfg.maxLeaseSec < 2 ^ 64) (req : Value) :
    LeaseKept env build cfg req w ↔ ∀ q, readFreg build req = .ok q →
      env.clock w.tick + min q.lease cfg.maxLeaseSec < 2 ^ 64 ∨
        build.overflowChecks = false ∧ ∃ e, fregGate cfg (sweptReg w (env.clock w.tick)) q.handle
          q.prevToken (env.clock w.tick) = .error e := by
  have hnow := env.clock_lt w.tick
  unfold LeaseKept
  rw [unwinds_runFreg_iff, exec_runFreg]
  rcases hread : readFreg build req with msg | q
  · simp
  simp only [Except.ok.injEq, exists_eq_left', forall_eq']
  have hmin := Nat.min_le_right q.lease cfg.maxLeaseSec
  by_cases hfit : env.clock w.tick + min q.lease cfg.maxLeaseSec < 2 ^ 64
  · -- the end fits, so that it is not before the reading it starts from
    rw [addU64_ok hfit]
    refine iff_of_true ⟨fun h => by omega, fun v hv => ?_⟩ (.inl hfit)
    dsimp only at hv ⊢
    rcases hgate : fregGate cfg (sweptReg w (env.clock w.tick)) q.handle q.prevToken
      (env.clock w.tick) with msg | ⟨⟨⟩⟩
    · rw [hgate] at hv
      cases hv
    · exact ⟨q, _, rfl, AList.lookup_insert _, Nat.le_add_right _ _⟩
  · cases hc : build.overflowChecks with
    | true =>
      -- the sum unwinds before the registry is looked at
      refine iff_of_false (fun h => h.1 ⟨rfl, not_lt.mp hfit⟩) ?_
      rintro (h | ⟨h, -⟩)
      · exact hfit h
      · cases h
    | false =>
      have hadd : addU64 false (env.clock w.tick) (min q.lease cfg.maxLeaseSec) =
          .ok ((env.clock w.tick + min q.lease cfg.maxLeaseSec) % 2 ^ 64) := by
        rw [addU64, if_neg hfit]
        rfl
      rw [hadd]
      dsimp only
      rcases hgate : fregGate cfg (sweptReg w (env.clock w.tick)) q.handle q.prevToken
        (env.clock w.tick) with msg | ⟨⟨⟩⟩
      · -- a request that is refused has no lease
        exact iff_of_true ⟨by simp, nofun⟩ (.inr ⟨rfl, msg, rfl⟩)
      · -- the end of the lease is registered, though it lies in the past
        refine iff_of_false (fun h => ?_) ?_
        · obtain ⟨q', r, rfl, hlook, hle⟩ := h.2 _ rfl
          rw [AList.lookup_insert] at hlook
          obtain rfl := Option.some.inj hlook
          dsimp only at hle
          omega
        · rintro (h | ⟨-, e, he⟩)
          · exact hfit h
          · cases he

/-! ## Files -/

/-- Reading the file `name`, a start leaves it and queues its envelope. -/
def KeepsFile (env : Env σ) (build : Build) (cfg : FabricConfig) (name : String) (e : Envelope)
    (queues : Queues) (w : World σ) : Prop :=
  ∃ w' queues', exec env.handle (openFiles build cfg [name] queues) w = (w', .ok (.ok queues')) ∧
    w'.dir.lookup name = w.dir.lookup name ∧
    Queues.of queues' e.key = Queues.of queues e.key ++ [entryOf (name, e)]

/-- A start keeps a file exactly if it admits its envelope. -/
theorem keepsFile_iff {name : String} {e : Envelope} {raw : Bytes} (queues : Queues)
    (hext : extension name = some "fenv") (hread : env.read w name = some raw)
    (hparse : parseEnvelope raw = .ok e) :
    KeepsFile env build cfg name e queues w ↔ Admits env build cfg e (w.tick + 1) := by
  -- where the file is removed, the queue stays as it was
  have hgone (v : World σ) : ¬ ∃ w' queues',
      exec env.handle (openFiles build cfg [] queues) v = (w', .ok (.ok queues')) ∧
        w'.dir.lookup name = w.dir.lookup name ∧
        Queues.of queues' e.key = Queues.of queues e.key ++ [entryOf (name, e)] := by
    rintro ⟨w', queues', heq, -, hq⟩
    obtain rfl : queues = queues' := Except.ok.inj (Except.ok.inj (congrArg Prod.snd heq))
    simp at hq
  unfold KeepsFile Admits
  rw [exec_openFiles_cons queues hext hread hparse]
  by_cases hdead : e.pointer.deadline ≤ env.clock (w.tick + 1)
  · rw [if_pos hdead]
    exact iff_of_false (hgone _) fun h => absurd h.1 (not_lt.mpr hdead)
  rw [if_neg hdead, and_iff_right (not_le.mp hdead)]
  rcases addU64 build.overflowChecks (env.clock (w.tick + 2)) cfg.maxDeadlineHorizonSec with
    q | horizon
  · simp
  dsimp only
  by_cases hbeyond : horizon < e.pointer.deadline
  · rw [if_pos hbeyond]
    refine iff_of_false (hgone _) ?_
    rintro ⟨horizon', hh, hle⟩
    obtain rfl := Except.ok.inj hh
    exact absurd hbeyond (not_lt.mpr hle)
  · rw [if_neg hbeyond]
    refine iff_of_true ⟨_, _, rfl, rfl, ?_⟩ ⟨horizon, rfl, not_lt.mp hbeyond⟩
    rw [Queues.of_insert, if_pos rfl]

/-! ## The three sums -/

/-- **When the arithmetic is exact**, in every state of a relay that is up and at every start. A
lease is kept if its end fits, or the request is refused anyway. A put goes on to the disk for the
deadlines ahead and within the exact horizon, and a start keeps the files of these, just if the
horizon fits or the deadline has passed anyway; a start reads the clock twice, and where the sum
wraps around, a jump of the clock between the two may make up for it. -/
theorem arithmetic_exact_iff (env : Env σ) (build : Build) (w₀ : World σ) (steps : List Step)
    (cfg : FabricConfig) (hup : ((⟨w₀, none⟩ : Relay σ).run env build steps).cfg = some cfg)
    (hlease : cfg.maxLeaseSec < 2 ^ 64) (hhorizon : cfg.maxDeadlineHorizonSec < 2 ^ 64) :
    let w := ((⟨w₀, none⟩ : Relay σ).run env build steps).world
    (∀ req, LeaseKept env build cfg req w ↔ ∀ q, readFreg build req = .ok q →
      env.clock w.tick + min q.lease cfg.maxLeaseSec < 2 ^ 64 ∨
        build.overflowChecks = false ∧ ∃ e, fregGate cfg (sweptReg w (env.clock w.tick)) q.handle
          q.prevToken (env.clock w.tick) = .error e) ∧
      (∀ req ip h pointer, Reaches env build cfg req ip h pointer w →
        let now := env.clock (w.tick + 2)
        (((∃ raw, raw ∈ written env (runFput build cfg req ip) w) ↔
            now < pointer.deadline ∧ pointer.deadline ≤ now + cfg.maxDeadlineHorizonSec) ↔
          now + cfg.maxDeadlineHorizonSec < 2 ^ 64 ∨ pointer.deadline ≤ now)) ∧
      ∀ (v : World σ) name e queues raw, extension name = some "fenv" →
        env.read v name = some raw → parseEnvelope raw = .ok e →
        let now := env.clock (v.tick + 1)
        let now' := env.clock (v.tick + 2)
        ((KeepsFile env build cfg name e queues v ↔ now < e.pointer.deadline ∧
            e.pointer.deadline ≤ now' + cfg.maxDeadlineHorizonSec) ↔
          now' + cfg.maxDeadlineHorizonSec < 2 ^ 64 ∨ e.pointer.deadline ≤ now ∨
            build.overflowChecks = false ∧
              e.pointer.deadline + 2 ^ 64 ≤ now' + cfg.maxDeadlineHorizonSec) := by
  intro w
  have hreg := (standing_run env build w₀ steps).reg (by rw [hup]; rfl)
  refine ⟨fun req => leaseKept_iff hlease req, fun req ip h pointer hr => ?_,
    fun v name e queues raw hext hread hparse => ?_⟩
  · have hnow := env.clock_lt (w.tick + 2)
    dsimp only
    rw [written_runFput_iff hreg hr, bound_exact_iff hnow hhorizon pointer.deadline_lt]
    -- with one reading of the clock the wrapped horizon lies in the past
    constructor
    · rintro (h | h | ⟨-, h⟩)
      · exact .inl h
      · exact .inr h
      · exact .inr (by omega)
    · rintro (h | h)
      · exact .inl h
      · exact .inr (.inl h)
  · dsimp only
    rw [keepsFile_iff queues hext hread hparse, Admits]
    exact bound_exact_iff (env.clock_lt _) hhorizon e.pointer.deadline_lt

end

/-- A relay with the default knobs. -/
theorem arithmetic_exact_iff_default :
    let env : Env Unit := .still (fun p _ => (p, .error "closed")) 100
    let handle : U8Array 32 := .replicate 32 7
    let steps := [.start {}, .verb (.freg (fregRequest handle "token-0123456789" 60))]
    let w := ((⟨World.fresh (), none⟩ : Relay Unit).run env .trailing steps).world
    ((∃ raw, raw ∈ written env (runFput .trailing {} (fputRequest handle (pointerOf 1 200)) "ip") w)
        ↔ 100 < (pointerOf 1 200).deadline ∧ (pointerOf 1 200).deadline ≤ 100 + 604800) ↔
      100 + 604800 < 2 ^ 64 ∨ (pointerOf 1 200).deadline ≤ 100 := by
  intro env handle steps w
  refine (arithmetic_exact_iff env .trailing (World.fresh ()) steps {} ?_ ?_ ?_).2.1
    (fputRequest handle (pointerOf 1 200)) "ip" (Hex.encode handle.toList) (pointerOf 1 200) ?_
  · decide +kernel
  · decide
  · decide
  · refine ⟨by decide +kernel, ⟨⟨"token-0123456789", 160⟩, ?_, ?_⟩, ?_, by decide +kernel⟩
    · decide +kernel
    · decide +kernel
    · decide +kernel

/-- Without a limit on leases a lease ends before it begins. Without a limit on deadlines a put is
refused as too late, and a start removes what was queued. -/
theorem no_limit_refuses :
    let env : Env Unit := .still (fun p _ => (p, .error "closed")) 100
    let cfg : FabricConfig :=
      { maxLeaseSec := 2 ^ 64 - 1, maxDeadlineHorizonSec := 2 ^ 64 - 1 }
    let handle : U8Array 32 := .replicate 32 7
    let key := Hex.encode handle.toList
    let freg (lease : ℕ) : Verb := .freg (fregRequest handle "token-0123456789" lease)
    let fput : Verb := .fput (fputRequest handle (pointerOf 1 200)) "ip"
    let up := (Relay.fresh ()).run env .trailing [.start cfg, .verb (freg 60)]
    let full := (Relay.fresh ()).run env .trailing [.start {}, .verb (freg 60), .verb fput]
    (((Relay.fresh ()).run env .trailing [.start cfg, .verb (freg (2 ^ 64 - 1))]).world.reg.lookup
        key = some ⟨"token-0123456789", 99⟩) ∧
      (100 < (pointerOf 1 200).deadline ∧ (pointerOf 1 200).deadline ≤ 100 + (2 ^ 64 - 1)) ∧
      written env (fput.run .trailing cfg) up.world = [] ∧
      ¬ Succeeds (exec env.handle (fput.run .trailing cfg) up.world).2 ∧
      (Queues.of full.world.queues key).map Queued.pointer = [pointerOf 1 200] ∧
      (Queues.of (full.step env .trailing (.start cfg)).world.queues key).map Queued.pointer = [] ∧
      (full.step env .trailing (.start cfg)).world.dir.keys = [] := by
  decide +kernel

end SporePeer
