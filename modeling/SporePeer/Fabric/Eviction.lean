import SporePeer.Fabric.Delivery
import SporePeer.Fabric.Opening

/-!
# Eviction

A put removes what is over the cap before it removes what has expired. So an expired pointer
still counts against the cap, and a living one may be evicted in its place; but only the oldest
pointers over the cap are.

## Main definitions

* `Relay.Standing`: what holds of a relay that is up, whatever directory it started on

## Main results

* `standing_run`: it holds in every run, crashes and restarts included
* `evicts_oldest`: what a put may remove while it lives
-/

namespace SporePeer

open Effects Text Bytes Ledger

section

variable {σ : Type} {env : Env σ} {build : Build} {cfg : FabricConfig}

/-- The registry is well formed, and entries are under the deadlines of their pointers. -/
structure Relay.Standing (r : Relay σ) : Prop where
  reg : r.cfg.isSome → Registered r.world.reg
  dated : r.cfg.isSome → ∀ h, Dated (Queues.of r.world.queues h)

theorem Started.dated {kept : List (String × Envelope)} {w w' : World σ}
    (hst : Started env build cfg kept w w') (h : String) : Dated (Queues.of w'.queues h) := by
  intro x hx
  rw [hst.queues, List.mem_insertionSort] at hx
  obtain ⟨f, -, rfl⟩ := List.mem_map.mp hx
  rfl

theorem standing_step {r : Relay σ} (hr : r.Standing) (s : Step) :
    (r.step env build s).Standing := by
  obtain ⟨w, running⟩ := r
  cases s with
  | verb v =>
    cases running with
    | none => exact hr
    | some c =>
      refine ⟨fun _ => registered_verb (hr.reg rfl) v, fun _ h => ?_⟩
      obtain ⟨o, ho⟩ := touches_verb env build c (hr.reg rfl) (hr.dated rfl h) v
      exact ho.dated
  | crash v n =>
    cases running with
    | none => exact hr
    | some c => exact ⟨nofun, nofun⟩
  | start c =>
    unfold Relay.step
    dsimp only
    split
    · rename_i w' hopen
      obtain ⟨kept, hst⟩ := exec_fabricOpen hopen
      refine ⟨fun _ => ?_, fun _ => hst.dated⟩
      rw [hst.reg]
      exact registered_empty
    · exact ⟨nofun, nofun⟩

/-- **A relay that is up stands well**, whatever it started on and whatever befell it. -/
theorem standing_run (env : Env σ) (build : Build) (w : World σ) (steps : List Step) :
    ((⟨w, none⟩ : Relay σ).run env build steps).Standing :=
  Relay.run_induction (fun _ s _ hr => standing_step hr s) ⟨nofun, nofun⟩

/-- **What a put may remove while it lives.** A pointer that was queued and lives when the put reads
the clock for the last time, to compost, but is removed, was among the oldest over the cap, the
expired ones and the new one counted. -/
theorem evicts_oldest (env : Env σ) (build : Build) (w₀ : World σ) (steps : List Step)
    {cfg : FabricConfig} (hup : ((⟨w₀, none⟩ : Relay σ).run env build steps).cfg = some cfg)
    (req : Value) (ip : String) :
    let w := ((⟨w₀, none⟩ : Relay σ).run env build steps).world
    let w' := (exec env.handle (runFput build cfg req ip) w).1
    Succeeds (exec env.handle (runFput build cfg req ip) w).2 →
      ∃ h pointer t, readHandle build "400 fput needs handle" req = .ok h ∧
        fputPointer req = .ok pointer ∧ w.tick ≤ t ∧ t < w'.tick ∧
        lastReading env (runFput build cfg req ip) w = some t ∧
        (∀ k ≠ h, Queues.of w'.queues k = Queues.of w.queues k) ∧
        let q := (Queues.of w.queues h).map Queued.pointer
        let q' := (Queues.of w'.queues h).map Queued.pointer
        ∀ p ∈ q, env.clock t < p.deadline → p ∉ q' →
          cfg.maxPerHandle < q.length + 1 ∧ pointer ∉ q ∧
            p ∈ q.take (q.length + 1 - cfg.maxPerHandle) := by
  intro w w' hv
  have hr := standing_run env build w₀ steps
  have hsome : ((⟨w₀, none⟩ : Relay σ).run env build steps).cfg.isSome := by rw [hup]; rfl
  rcases exec_runFput env build cfg req ip (hr.reg hsome) with ⟨put, now, -, hacc⟩ | ⟨hno, -⟩
  swap
  · obtain ⟨v, hv⟩ := hv
    exact absurd hv (hno v)
  obtain ⟨u, sec, hmem, -, heff⟩ := hacc.effect
  obtain ⟨t₀, t₁, t, ht₀, ht₁, ht₂, ht, -, -, rfl, hlast, -⟩ := hacc.clock
  refine ⟨put.key, put.pointer, t, hacc.handle, hacc.pointer, ht₀.trans (ht₁.trans ht₂).le, ht, hlast,
    fun k hk => ?_, ?_⟩
  · rw [heff.queues, if_neg hk, hmem.queues]
  intro q q' p hp hlive hgone
  have hq' : q' = (Touch.put put.pointer (env.clock t)).after Pointer.deadline cfg.maxPerHandle q := by
    change (Queues.of (exec env.handle (runFput build cfg req ip) w).1.queues put.key).map _ = _
    rw [heff.queues, if_pos rfl]
    exact map_pointer_putKept (hr.dated hsome put.key) rfl
  -- what lives is not composted, so the cap has removed it
  have htake : p ∈ q.take ((Touch.put put.pointer (env.clock t)).leaving Pointer.deadline
      cfg.maxPerHandle q) := by
    by_contra hnot
    have hdrop : p ∈ q.drop ((Touch.put put.pointer (env.clock t)).leaving Pointer.deadline
        cfg.maxPerHandle q) := by
      rw [← List.take_append_drop ((Touch.put put.pointer (env.clock t)).leaving Pointer.deadline
        cfg.maxPerHandle q) q] at hp
      exact (List.mem_append.mp hp).resolve_left hnot
    apply hgone
    rw [hq', Touch.after, List.mem_filter]
    refine ⟨?_, decide_eq_true hlive⟩
    rw [List.drop_append]
    exact List.mem_append_left _ hdrop
  -- a pointer that is queued already makes no room
  unfold Touch.leaving at htake
  dsimp only at htake
  split at htake
  · rw [List.take_zero] at htake
    cases htake
  · rename_i hnew
    refine ⟨?_, hnew, htake⟩
    by_contra hle
    rw [Nat.sub_eq_zero_of_le (not_lt.mp hle), List.take_zero] at htake
    cases htake

end

/-- A put over the cap evicts the oldest pointer, which lives. -/
theorem evicts_oldest_full :
    let env : Env Unit := .still (fun p _ => (p, .error "closed")) 100
    let cfg : FabricConfig := { maxPerHandle := 1 }
    let handle : U8Array 32 := .replicate 32 7
    let steps := [.start cfg, .verb (.freg (fregRequest handle "token-0123456789" 60)),
      .verb (.fput (fputRequest handle (pointerOf 1 200)) "ip")]
    let req := fputRequest handle (pointerOf 2 200)
    let w := ((⟨World.fresh (), none⟩ : Relay Unit).run env .trailing steps).world
    let w' := (exec env.handle (runFput .trailing cfg req "ip") w).1
    ∃ h pointer t, readHandle .trailing "400 fput needs handle" req = .ok h ∧
      fputPointer req = .ok pointer ∧ w.tick ≤ t ∧ t < w'.tick ∧
      lastReading env (runFput .trailing cfg req "ip") w = some t ∧
      (∀ k ≠ h, Queues.of w'.queues k = Queues.of w.queues k) ∧
      let q := (Queues.of w.queues h).map Queued.pointer
      let q' := (Queues.of w'.queues h).map Queued.pointer
      ∀ p ∈ q, env.clock t < p.deadline → p ∉ q' →
        cfg.maxPerHandle < q.length + 1 ∧ pointer ∉ q ∧
          p ∈ q.take (q.length + 1 - cfg.maxPerHandle) :=
  evicts_oldest _ _ _ _ (by decide +kernel) _ _ (by decide +kernel)

/-- Under a cap of two, with one living and one expired pointer queued, a put evicts the living one,
though only two pointers live. -/
theorem living_evicted_for_expired :
    let env : Env Unit := .jump (fun p _ => (p, .error "closed")) 100 160 16
    let cfg : FabricConfig := { maxPerHandle := 2 }
    let handle : U8Array 32 := .replicate 32 7
    let steps := [.start cfg, .verb (.freg (fregRequest handle "token-0123456789" 3600)),
      .verb (.fput (fputRequest handle (pointerOf 1 300)) "ip"),
      .verb (.fput (fputRequest handle (pointerOf 2 150)) "ip")]
    let w := ((Relay.fresh ()).run env .trailing steps).world
    let r := exec env.handle (runFput .trailing cfg (fputRequest handle (pointerOf 3 300)) "ip") w
    let q := (Queues.of w.queues (Hex.encode handle.toList)).map Queued.pointer
    let q' := (Queues.of r.1.queues (Hex.encode handle.toList)).map Queued.pointer
    (∀ t, w.tick ≤ t → env.clock t = 160) ∧ Succeeds r.2 ∧
      q = [pointerOf 1 300, pointerOf 2 150] ∧ q' = [pointerOf 3 300] ∧
      ((q ++ [pointerOf 3 300]).filter fun p => 160 < p.deadline).length ≤ cfg.maxPerHandle := by
  intro env cfg handle steps w r q q'
  have htick : w.tick = 16 := by decide +kernel
  refine ⟨fun t ht => if_neg (not_lt.mpr (htick ▸ ht)), ?_⟩
  decide +kernel

end SporePeer
