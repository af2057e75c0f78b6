import SporePeer.Fabric.Matching
import SporePeer.Fabric.Readings

/-!
# What an accepted put leaves

Behind the entry of a put come the eviction by the cap and the composting of what has expired, and
only then the answer. The answer is the same whether the entry is still there or not. It is there
unless the cap leaves no room at all or the clock has jumped back behind the composting.

## Main definitions

* `Durable`: the pointer is queued, and its file is on disk

## Main results

* `durable_iff`: the section on the queue
* `durable_put_iff`: an accepted put, in every state of a run
-/

namespace SporePeer

open Effects Text Bytes

section

variable {σ : Type} {env : Env σ} {build : Build} {cfg : FabricConfig} {w u w' : World σ}
  {written : Bytes → Prop}

/-- The pointer of the put is queued at its handle, and the file named by the entry is on disk and
parses to an envelope of this handle and this pointer. -/
def Durable (p : Put) (w : World σ) : Prop :=
  ∃ x ∈ Queues.of w.queues p.key, x.pointer = p.pointer ∧
    ∃ d e, w.dir.lookup (fenvFile x.envCidHex) = some d ∧ parseEnvelope d.content = .ok e ∧
      e.handle = p.handle ∧ e.pointer = p.pointer

/-- Over the cap, every entry goes that has a place. -/
theorem drop_overflow_eq_nil {new : Queued} {q : List Queued} (hcap : cfg.maxPerHandle = 0)
    (hnew : ¬ IsQueued new.pointer q) : (placed new q).drop (overflow cfg new q) = [] := by
  rw [placed, overflow, if_neg hnew, if_neg hnew, hcap]
  exact List.drop_eq_nil_of_le (by simp)

/-- Where the cap leaves room, the pointer of the put keeps its place. -/
theorem exists_mem_drop_overflow (new : Queued) {q : List Queued}
    (hroom : 1 ≤ cfg.maxPerHandle ∨ IsQueued new.pointer q) :
    ∃ x ∈ (placed new q).drop (overflow cfg new q),
      x.pointer = new.pointer ∧ x.envCidHex = new.envCidHex ∧ x.deadline = new.deadline := by
  by_cases hq : IsQueued new.pointer q
  · -- refreshed in its place, where the cap does not look
    rw [overflow, if_pos hq, List.drop_zero]
    exact exists_mem_placed new q
  · -- appended, while the cap takes from the front
    have hcap := hroom.resolve_right hq
    rw [placed, overflow, if_neg hq, if_neg hq, List.drop_append_of_le_length (by omega)]
    exact ⟨new, List.mem_append_right _ List.mem_cons_self, rfl, rfl, rfl⟩

/-- While the pointer of a put keeps its place and lives, its envelope is not removed. -/
theorem cidHex_notMem_putDropped {p : Put} {now : ℕ} {q : List Queued}
    (hnc : NoCollision build written) (hp : Filed written p.envelope)
    (hq : ∀ x ∈ q, Recorded build written p.key x)
    (hroom : 1 ≤ cfg.maxPerHandle ∨ IsQueued p.pointer q) (hlive : now < p.pointer.deadline) :
    p.envelope.cidHex build ∉ putDropped cfg (p.entry build) now q := by
  intro hc
  rw [putDropped_eq] at hc
  rcases List.mem_append.mp hc with hc | hc
  · exact (mem_superseded hc).1 rfl
  obtain ⟨y, hy, hyc⟩ := List.mem_map.mp hc
  have hplaced : y ∈ placed (p.entry build) q :=
    (perm_placed cfg (p.entry build) now q).mem_iff.mpr (List.mem_append_left _ hy)
  -- an entry under the name of the envelope is an entry of its pointer
  obtain ⟨e, he, -, hptr, hec, hd⟩ := recorded_placed hp hq hplaced
  obtain rfl := hnc.envelope he hp (hec.symm.trans hyc)
  rcases List.mem_append.mp hy with hy | hy
  · -- among those over the cap there is none
    by_cases hin : IsQueued p.pointer q
    · have hzero : overflow cfg (p.entry build) q = 0 := if_pos hin
      rw [hzero, List.take_zero] at hy
      cases hy
    · have hcap := hroom.resolve_right hin
      have hsplit : placed (p.entry build) q = q ++ [p.entry build] := if_neg hin
      have hover : overflow cfg (p.entry build) q = q.length + 1 - cfg.maxPerHandle := if_neg hin
      rw [hsplit, hover, List.take_append_of_le_length (by omega)] at hy
      exact hin ⟨y, List.mem_of_mem_take hy, hptr⟩
  · -- and it has not expired
    have hexpired : y.deadline ≤ now := by simpa using (List.mem_filter.mp hy).2
    rw [hd] at hexpired
    exact absurd hlive (not_lt.mpr hexpired)

/-- **The section on the queue**: behind it the put is durable exactly if the cap leaves room, or the
pointer was queued already, and the composting finds it alive. -/
theorem durable_iff {p : Put} {now sec : ℕ} (hnc : NoCollision build written)
    (hp : Filed written p.envelope)
    (hrec : ∀ x ∈ Queues.of w.queues p.key, Recorded build written p.key x)
    (hpersist : Persists (p.envelope.cidHex build) ⟨marshalEnvelope p.envelope, sec⟩ w u)
    (heff : Rewrites env p.key (putKept cfg (p.entry build) now (Queues.of w.queues p.key))
      (putDropped cfg (p.entry build) now (Queues.of w.queues p.key)) u w') :
    Durable p w' ↔ (1 ≤ cfg.maxPerHandle ∨ IsQueued p.pointer (Queues.of w.queues p.key)) ∧
      now < p.pointer.deadline := by
  have hqueue : Queues.of w'.queues p.key =
      putKept cfg (p.entry build) now (Queues.of w.queues p.key) := by
    rw [heff.queues, if_pos rfl]
  constructor
  · -- an entry of the pointer has survived the cap and the composting
    rintro ⟨x, hx, hptr, -⟩
    rw [hqueue] at hx
    obtain ⟨e, -, -, hxe, -, hd⟩ := recorded_putKept hp hrec hx
    rw [putKept_eq] at hx
    obtain ⟨hin, hlive⟩ := List.mem_filter.mp hx
    refine ⟨?_, ?_⟩
    · by_contra hnot
      rw [not_or, Nat.not_le, Nat.lt_one_iff] at hnot
      rw [drop_overflow_eq_nil hnot.1 hnot.2] at hin
      cases hin
    · have hlive : now < x.deadline := by simpa using hlive
      rwa [hd, ← hxe, hptr] at hlive
  · rintro ⟨hroom, hlive⟩
    obtain ⟨x, hx, hptr, hc, hd⟩ := exists_mem_drop_overflow (p.entry build) hroom
    refine ⟨x, ?_, hptr, ⟨marshalEnvelope p.envelope, sec⟩, p.envelope, ?_,
      parseEnvelope_marshalEnvelope hp.header hp.arrived, rfl, rfl⟩
    · rw [hqueue, putKept_eq]
      refine List.mem_filter.mpr ⟨hx, ?_⟩
      rw [hd]
      exact decide_eq_true hlive
    · -- the file was put in its place, and nothing removes it
      have hc : x.envCidHex = p.envelope.cidHex build := hc
      rw [hc]
      rcases heff.shrinks (fenvFile (p.envelope.cidHex build)) with heq | ⟨-, c, hdrop, hname⟩
      · rw [heq, hpersist.fenv, if_pos rfl]
      · rw [← fenvFile_inj.mp hname] at hdrop
        exact absurd hdrop (cidHex_notMem_putDropped hnc hp hrec hroom hlive)

/-- **An accepted put**, in every state of a run, crashes and restarts included, where file
operations succeed and hashes do not collide. If its deadline is ahead when it returns, it is durable
exactly if the cap leaves room for one pointer, or its pointer was queued already, and the clock was
behind its deadline when the queue was composted, as it is unless the clock has gone back since. -/
theorem durable_put_iff (hcalm : env.Calm) (peer : σ) (steps : List Step) (cfg : FabricConfig)
    (hup : ((Relay.fresh peer).run env build steps).cfg = some cfg) (req : Value) (ip : String)
    (hnc : NoCollision build
      (· ∈ (Relay.fresh peer).writes env build (steps ++ [.verb (.fput req ip)])))
    (hok : Succeeds (exec env.handle (runFput build cfg req ip)
      ((Relay.fresh peer).run env build steps).world).2) :
    let w := ((Relay.fresh peer).run env build steps).world
    let w' := (exec env.handle (runFput build cfg req ip) w).1
    ∃ p : Put, readHandle build "400 fput needs handle" req = .ok p.key ∧
      fputPointer req = .ok p.pointer ∧ p.receivedAt = env.clock (w.tick + 3) ∧
      let room := 1 ≤ cfg.maxPerHandle ∨ IsQueued p.pointer (Queues.of w.queues p.key)
      (env.clock w'.tick < p.pointer.deadline → (Durable p w' ↔ room ∧
        env.clock (compostTick cfg (p.entry build) p.key w) < p.pointer.deadline)) ∧
      ((∀ t t', t ≤ t' → env.clock t ≤ env.clock t') →
        env.clock w'.tick < p.pointer.deadline → (Durable p w' ↔ room)) := by
  intro w w'
  obtain ⟨answer, hanswer⟩ := hok
  let written (b : Bytes) : Prop :=
    b ∈ (Relay.fresh peer).writes env build (steps ++ [.verb (.fput req ip)])
  -- what this put writes counts as well
  have hsplit (b : Bytes) : written b ↔ b ∈ (Relay.fresh peer).writes env build steps ∨
      b ∈ SporePeer.written env (runFput build cfg req ip) w := by
    show b ∈ (Relay.fresh peer).writes env build (steps ++ [.verb (.fput req ip)]) ↔ _
    rw [Relay.writes_append, List.mem_append, Relay.writes_verb hup]
    rfl
  have hsome : ((Relay.fresh peer).run env build steps).cfg.isSome := by rw [hup]; rfl
  have hs : ((Relay.fresh peer).run env build steps).Sound build written :=
    sound_run (fun b hb => (hsplit b).mpr (.inl hb)) (sound_fresh peer)
  obtain ⟨p, hr, harr, hwritten, ht, v, sec, hmem, hpersist, heff⟩ :=
    exec_runFput_calm hcalm (hs.reg hsome) hanswer
  have hfiled : Filed written p.envelope := by
    refine ⟨(hsplit _).mpr (.inr hwritten), fputPointer_ok hr.pointer, ?_⟩
    change p.receivedAt < 2 ^ 64
    rw [harr]
    exact env.clock_lt _
  have hiff := durable_iff hnc hfiled (hs.entries hsome p.key) hpersist heff
  refine ⟨p, hr.handle, hr.pointer, harr, fun _ => hiff, fun hmono hlive => ?_⟩
  -- a clock that does not go back has composted before it returned
  rw [hiff, and_iff_left]
  exact (hmono _ _ ht.le).trans_lt hlive

end

/-- A put under the default knobs. -/
theorem durable_put_iff_default :
    let env : Env Unit := .still (fun p _ => (p, .error "closed")) 100
    let handle : U8Array 32 := .replicate 32 7
    let steps := [.start {}, .verb (.freg (fregRequest handle "token-0123456789" 60))]
    let req := fputRequest handle (pointerOf 1 200)
    let w := ((Relay.fresh ()).run env .trailing steps).world
    let w' := (exec env.handle (runFput .trailing {} req "ip") w).1
    ∃ p : Put, readHandle .trailing "400 fput needs handle" req = .ok p.key ∧
      fputPointer req = .ok p.pointer ∧ p.receivedAt = env.clock (w.tick + 3) ∧
      let room := 1 ≤ 32 ∨ IsQueued p.pointer (Queues.of w.queues p.key)
      (env.clock w'.tick < p.pointer.deadline → (Durable p w' ↔ room ∧
        env.clock (compostTick {} (p.entry .trailing) p.key w) < p.pointer.deadline)) ∧
      ((∀ t t', t ≤ t' → env.clock t ≤ env.clock t') →
        env.clock w'.tick < p.pointer.deadline → (Durable p w' ↔ room)) := by
  intro env handle steps req
  refine durable_put_iff (Env.still_calm _ _) () steps {} ?_ req "ip"
    (noCollision_of_mem ?_) ?_
  · decide +kernel
  · decide +kernel
  · decide +kernel

/-- Under a cap of zero a put is accepted, and its pointer is gone at once, from the queue and from
the disk. -/
theorem put_accepted_and_lost :
    let env : Env Unit := .still (fun p _ => (p, .error "closed")) 100
    let cfg : FabricConfig := { maxPerHandle := 0 }
    let handle : U8Array 32 := .replicate 32 7
    let steps := [.start cfg, .verb (.freg (fregRequest handle "token-0123456789" 60))]
    let w := ((Relay.fresh ()).run env .trailing steps).world
    let r := exec env.handle (runFput .trailing cfg (fputRequest handle (pointerOf 1 200)) "ip") w
    Succeeds r.2 ∧ env.clock r.1.tick < (pointerOf 1 200).deadline ∧
      ¬ Durable ⟨handle, pointerOf 1 200, 100⟩ r.1 ∧ r.1.dir.keys = [] := by
  intro env cfg handle steps w r
  have hempty : (Queues.of r.1.queues (Hex.encode handle.toList)).map Queued.pointer = [] := by
    decide +kernel
  refine ⟨by decide +kernel, by decide +kernel, ?_, by decide +kernel⟩
  rintro ⟨x, hx, -⟩
  rw [Put.key, List.map_eq_nil_iff.mp hempty] at hx
  cases hx

end SporePeer
