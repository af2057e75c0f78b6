import SporePeer.Library.Outcomes
import SporePeer.Fabric.Eviction
import SporePeer.Fabric.Matching

/-!
# What is stored reads back

The envelope format is a bijection between the envelopes with a version 1 pointer and the byte
strings that the reader accepts. Every file that a put writes is in the format, with the handle and
the pointer of the request, and a later start reads these fields back.

## Main definitions

* `Put.Of`: a put, as its request asks for it
* `EnvelopeCall`: the calls that store nothing but the envelope of a request

## Main results

* `exists_parseEnvelope_iff`: the byte strings that are accepted
* `eachCall_runFput`: what a put writes and moves
* `Started.reads`: a start queues an envelope file, or removes it for its deadline
* `envelopes_read_back`: the format, and what runs make of it
-/

namespace SporePeer

open Effects Text Bytes

/-! ## What is accepted -/

/-- The header of the pointer stands behind the handle. -/
theorem hasHeader_readEnvelope {b : Bytes} (h : b.length = envelopeLen) :
    (readEnvelope b h).pointer.HasHeader ↔ b[33]? = some 1 ∧ b[34]? = some 0 := by
  have hat {i : ℕ} (hi : i < pointerLen) :
      (readEnvelope b h).pointer.toList[i]? = b[33 + i]? := by
    change ((b.drop 33).take pointerLen)[i]? = b[33 + i]?
    rw [List.getElem?_take_of_lt hi, List.getElem?_drop]
  rw [Pointer.HasHeader, hat (by decide), hat (by decide)]

/-- **What the reader accepts**: the length, the version and the header of the pointer. -/
theorem exists_parseEnvelope_iff {b : Bytes} :
    (∃ e, parseEnvelope b = .ok e) ↔
      b.length = 115 ∧ b[0]? = some 1 ∧ b[33]? = some 1 ∧ b[34]? = some 0 := by
  constructor
  · rintro ⟨e, he⟩
    obtain ⟨hlen, hver, hptr, -⟩ := parseEnvelope_eq_ok.mp he
    exact ⟨hlen, hver, (hasHeader_readEnvelope hlen).mp hptr⟩
  · rintro ⟨hlen, hver, hptr⟩
    exact ⟨readEnvelope b hlen,
      parseEnvelope_eq_ok.mpr ⟨hlen, hver, (hasHeader_readEnvelope hlen).mpr hptr, rfl⟩⟩

/-! ## What a put writes -/

section

variable {σ : Type} {env : Env σ} {build : Build} {cfg : FabricConfig} {w : World σ}

/-- The handle and the pointer of `p` are those of the request, and it arrives at a second that the
clock read between the worlds `w` and `v`. -/
structure Put.Of (env : Env σ) (build : Build) (req : Value) (p : Put) (w v : World σ) :
    Prop where
  handle : readHandle build "400 fput needs handle" req = .ok p.key
  pointer : fputPointer req = .ok p.pointer
  arrived : ∃ t, w.tick ≤ t ∧ t < v.tick ∧ p.receivedAt = env.clock t

theorem Put.Of.header {req : Value} {p : Put} {v : World σ} (h : p.Of env build req w v) :
    p.pointer.HasHeader := fputPointer_ok h.pointer

theorem Put.Of.arrived_lt {req : Value} {p : Put} {v : World σ} (h : p.Of env build req w v) :
    p.receivedAt < 2 ^ 64 := by
  obtain ⟨t, -, -, harr⟩ := h.arrived
  rw [harr]
  exact env.clock_lt t

/-- A call, made in the world `v`, that writes nothing but the envelope of the request, and moves
nothing but this envelope to its place. -/
def EnvelopeCall (env : Env σ) (build : Build) (req : Value) (w v : World σ) :
    (Σ β, Op β) → Prop
  | ⟨_, .write name raw⟩ => ∃ p : Put, p.Of env build req w v ∧
      name = tmpFile (p.envelope.cidHex build) ∧ raw = marshalEnvelope p.envelope
  | ⟨_, .rename src dst⟩ => ∃ p : Put, p.Of env build req w v ∧
      src = tmpFile (p.envelope.cidHex build) ∧ dst = fenvFile (p.envelope.cidHex build)
  | _ => True

theorem NoWrite.envelopeCall {req : Value} {v : World σ} {β : Type} {e : Op β}
    (h : NoWrite β e) : EnvelopeCall env build req w v ⟨β, e⟩ := by
  cases e with
  | write name raw => exact h.elim
  | rename src dst => exact h.elim
  | _ => trivial

theorem Env.write_tick (env : Env σ) (w : World σ) (name : String) (raw : Bytes) :
    (env.write w name raw).1.tick = w.tick + 1 := by
  unfold Env.write
  split
  · rfl
  · split <;> rfl

/-- **What a put writes and moves** is the envelope of its request, however it ends. -/
theorem eachCall_runFput (hreg : Registered w.reg) (req : Value) (ip : String) :
    EachCall env.handle (EnvelopeCall env build req w) (runFput build cfg req ip) w := by
  have hgate := (tidy_fputGate build cfg req ip).only.mono fun _ _ => noWrite_of_gateOp
  unfold runFput
  refine eachCall_bind (hgate.eachCall fun _ _ _ he => he.envelopeCall) fun w₁ x hx => ?_
  obtain ⟨h, pointer, now⟩ := x
  obtain ⟨hh, ⟨r, hr⟩, hp, hlive, t₀, ht₀, ht₁, rfl⟩ := exec_fputGate_ok hx
  obtain ⟨⟨handle, rfl⟩, -⟩ := hreg h r hr
  refine eachCall_bind ?_ fun _ _ _ => eachCall_pure _
  -- beyond the horizon nothing is stored
  rcases hadd : addU64 build.overflowChecks (env.clock t₀) cfg.maxDeadlineHorizonSec with q | horizon
  · rw [fputStore, hadd]
    trivial
  by_cases hle : pointer.deadline ≤ horizon
  swap
  · rw [fputStore_beyond hadd hle]
    exact eachCall_throw _
  rw [fputStore_eq hadd hle]
  refine eachCall_bind (eachCall_ask trivial) fun v now hv => ?_
  obtain ⟨rfl, hnow⟩ := Prod.mk.inj hv
  obtain rfl : env.clock w₁.tick = now := Except.ok.inj (Except.ok.inj hnow)
  -- the second of arrival is read before the envelope is written
  let p : Put := ⟨handle, pointer, env.clock w₁.tick⟩
  have hof (v : World σ) (hv : w₁.next.tick ≤ v.tick) : p.Of env build req w v :=
    ⟨hh, hp, w₁.tick, ht₀.trans ht₁.le, hv, rfl⟩
  refine eachCall_bind ?_ fun v u _ => ?_
  · refine eachCall_bind (eachCall_ask ⟨p, hof _ le_rfl, rfl, rfl⟩) fun v₁ written hwrite => ?_
    have hv₁ : v₁ = (env.write w₁.next (tmpFile (p.envelope.cidHex build))
        (marshalEnvelope p.envelope)).1 := (congrArg Prod.fst hwrite).symm
    refine eachCall_bind (eachCall_orFail _) fun v₂ _ hok => ?_
    rw [exec_orFail] at hok
    obtain rfl : v₁ = v₂ := congrArg Prod.fst hok
    refine eachCall_bind (eachCall_ask ⟨p, hof _ ?_, rfl, rfl⟩) fun _ _ _ => eachCall_orFail _
    rw [hv₁, Env.write_tick]
    exact Nat.le_succ _
  · refine Only.eachCall ((tidy_putQueue cfg p.key (p.entry build)).only.mono
      fun _ _ => noWrite_of_dropOp) fun _ _ _ he => ?_
    exact he.envelopeCall

/-! ## What a start reads -/

/-- **A start and an envelope file**, named by its contents: the envelope is queued at its handle, or
its deadline is not admitted and the file is gone. -/
theorem Started.reads {kept : List (String × Envelope)} {w w' : World σ} (hcalm : env.Calm)
    (hst : Started env build cfg kept w w') {e : Envelope} {d : FileData}
    (hd : w.dir.lookup (fenvFile (e.cidHex build)) = some d)
    (hp : parseEnvelope d.content = .ok e) :
    ⟨e.pointer, e.cidHex build, e.pointer.deadline, e.receivedAt⟩ ∈ Queues.of w'.queues e.key ∨
      w'.dir.lookup (fenvFile (e.cidHex build)) = none ∧ ∃ t, Rejects env build cfg e t := by
  by_cases hk : fenvFile (e.cidHex build) ∈ kept.map Prod.fst
  · left
    obtain ⟨f, hf, hname⟩ := List.mem_map.mp hk
    obtain ⟨-, d', t, hd', hp', -⟩ := hst.files f hf
    -- the file that the start kept is this one
    rw [hname, hd] at hd'
    obtain rfl := Option.some.inj hd'
    obtain rfl : e = f.2 := Except.ok.inj (hp.symm.trans hp')
    have hentry : entryOf f =
        ⟨f.2.pointer, f.2.cidHex build, f.2.pointer.deadline, f.2.receivedAt⟩ := by
      rw [entryOf, hname, trimEndMatches_fenvFile (dot_notMem_cidHex build f.2)]
    rw [hst.queues, List.mem_insertionSort, ← hentry]
    exact List.mem_map_of_mem (List.mem_filter.mpr ⟨hf, by simp⟩)
  · right
    obtain ⟨hlen, -⟩ := parseEnvelope_eq_ok.mp hp
    obtain ⟨hnone, hrej⟩ := hst.removes hcalm _ (extension_fenvFile (cidHex_ne_empty build e)) hk d
      hd (by rw [hlen]; decide)
    obtain ⟨t, -, -, ht⟩ := hrej e hp
    exact ⟨hnone, t, ht⟩

/-- The contents `raw` are read back as the envelope of `p`, at once and by any later start on a
directory that holds them under their name. -/
structure Put.ReadsBack (σ : Type) (build : Build) (p : Put) (raw : Bytes) : Prop where
  parses : parseEnvelope raw = .ok p.envelope
  starts : ∀ (env : Env σ) (cfg : FabricConfig) (v v' : World σ) (d : FileData), env.Calm →
    v.dir.lookup (fenvFile (p.envelope.cidHex build)) = some d → d.content = raw →
    exec env.handle (fabricOpen build cfg) v = (v', .ok (.ok ())) →
    p.entry build ∈ Queues.of v'.queues p.key ∨
      v'.dir.lookup (fenvFile (p.envelope.cidHex build)) = none ∧
        ∃ t, Rejects env build cfg p.envelope t

theorem Put.Of.readsBack {req : Value} {p : Put} {v : World σ} (h : p.Of env build req w v) :
    p.ReadsBack σ build (marshalEnvelope p.envelope) where
  parses := parseEnvelope_marshalEnvelope h.header h.arrived_lt
  starts env cfg v v' d hcalm hd hraw hopen := by
    obtain ⟨kept, hst⟩ := exec_fabricOpen hopen
    refine hst.reads hcalm hd ?_
    rw [hraw]
    exact parseEnvelope_marshalEnvelope h.header h.arrived_lt

/-- **The envelope format, and what runs make of it.** What is accepted is what would be written for
the envelope read from it; the accepted byte strings are given by their length and three bytes; what
is written for an envelope with a version 1 pointer is read back. Whatever call a put makes, cut off
or not, in whatever state of a run: a file that it writes holds the envelope of its request, and is
read back with the same handle, pointer, deadline and arrival. -/
theorem envelopes_read_back (env : Env σ) (build : Build) (w₀ : World σ) (steps : List Step)
    {cfg : FabricConfig} (hup : ((⟨w₀, none⟩ : Relay σ).run env build steps).cfg = some cfg)
    (req : Value) (ip : String) :
    (∀ b e, parseEnvelope b = .ok e → marshalEnvelope e = b) ∧
      (∀ b, (∃ e, parseEnvelope b = .ok e) ↔
        b.length = 115 ∧ b[0]? = some 1 ∧ b[33]? = some 1 ∧ b[34]? = some 0) ∧
      (∀ e : Envelope, e.receivedAt < 2 ^ 64 → e.pointer.HasHeader →
        parseEnvelope (marshalEnvelope e) = .ok e) ∧
      let w := ((⟨w₀, none⟩ : Relay σ).run env build steps).world
      EachCall env.handle (fun v call => EnvelopeCall env build req w v call ∧
        ∀ raw, writtenBy call = some raw → ∃ p : Put, p.Of env build req w v ∧
          raw = marshalEnvelope p.envelope ∧ p.ReadsBack σ build raw)
        (runFput build cfg req ip) w := by
  have hreg := (standing_run env build w₀ steps).reg (by rw [hup]; rfl)
  refine ⟨fun b e he => (marshalEnvelope_of_parse he).1, fun b => exists_parseEnvelope_iff,
    fun e hr hp => parseEnvelope_marshalEnvelope hp hr, ?_⟩
  refine (eachCall_runFput hreg req ip).mono fun v call hcall => ⟨hcall, fun raw hraw => ?_⟩
  obtain ⟨β, e⟩ := call
  cases e with
  | write name content =>
    obtain rfl : content = raw := Option.some.inj hraw
    obtain ⟨p, hof, -, rfl⟩ := hcall
    exact ⟨p, hof, rfl, hof.readsBack⟩
  | _ => cases hraw

end

/-- A put on a relay that is up. -/
theorem envelopes_read_back_put :
    let env : Env Unit := .still (fun p _ => (p, .error "closed")) 100
    let handle : U8Array 32 := .replicate 32 7
    let steps := [.start {}, .verb (.freg (fregRequest handle "token-0123456789" 60))]
    let req := fputRequest handle (pointerOf 1 200)
    let w := ((⟨World.fresh (), none⟩ : Relay Unit).run env .trailing steps).world
    EachCall env.handle (fun v call => EnvelopeCall env .trailing req w v call ∧
      ∀ raw, writtenBy call = some raw → ∃ p : Put, p.Of env .trailing req w v ∧
        raw = marshalEnvelope p.envelope ∧ p.ReadsBack Unit .trailing raw)
      (runFput .trailing {} req "ip") w :=
  (envelopes_read_back _ _ _ _ (by decide +kernel) _ _).2.2.2

end SporePeer
