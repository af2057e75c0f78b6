import SporePeer.Fabric.Delivery

/-!
# One entry for a pointer

A put looks for the whole pointer in the queue, not for the content hash in it. Pointers that share
a content hash, and differ in their deadline or in another field, are queued side by side. Where no
put publishes such a pointer, a queue holds every content hash once, and a put of a pointer that is
queued leaves its one entry, at the deadline published.

## Main definitions

* `Pointer.cid`, `DistinctCids`: the content hash of a pointer, and a queue that holds each once
* `Verb.Plain`: a put that shares no content hash with another pointer of the queue
* `Republishes`: a put of a queued content hash leaves one entry for it

## Main results

* `distinctCids_verb`, `republishes_fput`: what one request does
* `deduped_run`: what the requests of a run do
-/

namespace SporePeer

open Effects Text Bytes

/-- The content hash in a pointer. -/
def Pointer.cid (p : Pointer) : Bytes := (p.toList.drop 34).take 32

/-- A queue holds every content hash once. -/
def DistinctCids (q : List Queued) : Prop := (q.map fun x => x.pointer.cid).Nodup

instance (q : List Queued) : Decidable (DistinctCids q) :=
  inferInstanceAs (Decidable (q.map fun x => x.pointer.cid).Nodup)

section

variable {σ : Type} (env : Env σ) (build : Build) (cfg : FabricConfig) (w : World σ)

/-- Where a put passes its checks, the queue holds no other pointer with the content hash published,
and while a pointer is published again the clock stays below its deadline. -/
def Verb.Plain : Verb → Prop
  | .fput req ip => ∀ w' h p now,
      exec env.handle (fputGate build cfg req ip) w = (w', .ok (.ok (h, p, now))) →
      ∀ x ∈ Queues.of w.queues h, x.pointer.cid = p.cid → x.pointer = p ∧
        ∀ t, w.tick ≤ t → t < (exec env.handle (runFput build cfg req ip) w).1.tick →
          env.clock t < p.deadline
  | _ => True

/-- A put that succeeds with a content hash that is queued leaves one entry for it, which carries
the deadline published. -/
def Republishes : Verb → Prop
  | .fput req ip => ∀ h p, readHandle build "400 fput needs handle" req = .ok h →
      fputPointer req = .ok p → Succeeds (exec env.handle (runFput build cfg req ip) w).2 →
      (∃ x ∈ Queues.of w.queues h, x.pointer.cid = p.cid) →
      ∃ x, ((Queues.of (exec env.handle (runFput build cfg req ip) w).1.queues h).filter
          fun y => y.pointer.cid = p.cid) = [x] ∧
        x.deadline = p.deadline ∧ x.pointer.deadline = p.deadline
  | _ => True

end

section

variable {cfg : FabricConfig} {new : Queued} {now : ℕ} {q : List Queued}

/-! ## Queues -/

/-- Of a queue that holds every content hash once, one entry has the content hash of an entry. -/
theorem filter_cid_eq (h : DistinctCids q) {x : Queued} (hx : x ∈ q) :
    (q.filter fun y => y.pointer.cid = x.pointer.cid) = [x] := by
  induction q with
  | nil => cases hx
  | cons y q ih =>
    rw [DistinctCids, List.map_cons, List.nodup_cons] at h
    obtain ⟨hy, hq⟩ := h
    rcases List.mem_cons.mp hx with rfl | hx
    · -- no later entry shares the content hash of the first
      have hnone : (q.filter fun y => y.pointer.cid = x.pointer.cid) = [] := by
        rw [List.filter_eq_nil_iff]
        intro z hz hzx
        exact hy (List.mem_map.mpr ⟨z, hz, by simpa using hzx⟩)
      rw [List.filter_cons_of_pos (by simp), hnone]
    · have hne : ¬ y.pointer.cid = x.pointer.cid := by
        intro hyx
        exact hy (List.mem_map.mpr ⟨x, hx, hyx.symm⟩)
      rw [List.filter_cons_of_neg (by simpa using hne)]
      exact ih hq hx

theorem map_cid (q : List Queued) :
    (q.map fun x => x.pointer.cid) = (q.map Queued.pointer).map Pointer.cid := by
  rw [List.map_map]
  rfl

theorem distinctCids_placed (h : DistinctCids q)
    (hplain : ∀ x ∈ q, x.pointer.cid = new.pointer.cid → x.pointer = new.pointer) :
    DistinctCids (placed new q) := by
  rw [DistinctCids, map_cid, map_pointer_placed, List.map_append, ← map_cid]
  split
  · rw [List.map_nil, List.append_nil]
    exact h
  · rename_i hnew
    rw [List.map_singleton, List.nodup_append]
    refine ⟨h, List.nodup_singleton _, ?_⟩
    -- an entry with the content hash of the new one would have its pointer queued
    rintro c hc d hd rfl
    obtain ⟨x, hx, rfl⟩ := List.mem_map.mp hc
    have hcid := List.mem_singleton.mp hd
    exact hnew ⟨x, hx, hplain x hx hcid⟩

theorem distinctCids_putKept (h : DistinctCids q)
    (hplain : ∀ x ∈ q, x.pointer.cid = new.pointer.cid → x.pointer = new.pointer) :
    DistinctCids (putKept cfg new now q) :=
  (distinctCids_placed h hplain).sublist (putKept_sublist.map _)

/-- A pointer that is queued keeps its place, and is kept while its deadline lies ahead. -/
theorem exists_mem_putKept (hqueued : IsQueued new.pointer q) (hlive : now < new.deadline) :
    ∃ x ∈ putKept cfg new now q, x.pointer = new.pointer ∧ x.deadline = new.deadline := by
  obtain ⟨x, hx, hp, -, hd⟩ := exists_mem_placed new q
  have hroom : overflow cfg new q = 0 := if_pos hqueued
  refine ⟨x, ?_, hp, hd⟩
  rw [putKept_eq, hroom, List.drop_zero, List.mem_filter]
  exact ⟨hx, by simpa [hd] using hlive⟩

end

section

variable {σ : Type} {env : Env σ} {build : Build} {cfg : FabricConfig} {w : World σ}
  {req : Value} {ip : String}

/-! ## Requests -/

/-- A put that succeeds has passed its checks. -/
theorem fputGate_of_succeeds (h : Succeeds (exec env.handle (runFput build cfg req ip) w).2) :
    ∃ w' k p now, exec env.handle (fputGate build cfg req ip) w = (w', .ok (.ok (k, p, now))) ∧
      readHandle build "400 fput needs handle" req = .ok k ∧ fputPointer req = .ok p := by
  obtain ⟨v, hv⟩ := h
  rcases hgate : exec env.handle (fputGate build cfg req ip) w with ⟨w', q | e | ⟨k, p, now⟩⟩
  · rw [runFput, exec_bind_panic hgate] at hv
    cases hv
  · rw [runFput, exec_bind_error hgate] at hv
    cases hv
  · obtain ⟨hk, -, hp, -⟩ := exec_fputGate_ok hgate
    exact ⟨w', k, p, now, rfl, hk, hp⟩

/-- An accepted put at a queue that holds no other pointer with its content hash. -/
theorem Verb.Plain.accepted (hplain : Verb.Plain env build cfg w (.fput req ip)) {p : Put}
    {now : ℕ} {w' : World σ} (hacc : Accepted env build cfg req ip p now w w')
    (hok : Succeeds (exec env.handle (runFput build cfg req ip) w).2) {x : Queued}
    (hx : x ∈ Queues.of w.queues p.key) (hcid : x.pointer.cid = p.pointer.cid) :
    x.pointer = p.pointer ∧ ∀ t, w.tick ≤ t →
      t < (exec env.handle (runFput build cfg req ip) w).1.tick →
      env.clock t < p.pointer.deadline := by
  obtain ⟨v, k, ptr, sec, hgate, hk, hptr⟩ := fputGate_of_succeeds hok
  obtain rfl : p.key = k := Except.ok.inj (hacc.handle.symm.trans hk)
  obtain rfl : p.pointer = ptr := Except.ok.inj (hacc.pointer.symm.trans hptr)
  exact hplain v p.key p.pointer sec hgate x hx hcid

theorem distinctCids_fput (hreg : Registered w.reg)
    (h : ∀ k, DistinctCids (Queues.of w.queues k))
    (hplain : Verb.Plain env build cfg w (.fput req ip)) (k : String) :
    DistinctCids (Queues.of (exec env.handle (runFput build cfg req ip) w).1.queues k) := by
  rcases exec_runFput env build cfg req ip hreg with ⟨p, now, hok, hacc⟩ | ⟨-, hun⟩
  · obtain ⟨u, sec, hmem, -, heff⟩ := hacc.effect
    rw [heff.queues]
    split
    · exact distinctCids_putKept (h _) fun x hx hcid =>
        (hplain.accepted hacc ⟨_, hok⟩ hx hcid).1
    · rw [hmem.queues]
      exact h k
  · rw [hun.queues]
    exact h k

/-- **A request keeps the content hashes of a queue distinct.** -/
theorem distinctCids_verb (hreg : Registered w.reg)
    (h : ∀ k, DistinctCids (Queues.of w.queues k)) {v : Verb}
    (hplain : v.Plain env build cfg w) (k : String) :
    DistinctCids (Queues.of (exec env.handle (v.run build cfg) w).1.queues k) := by
  cases v with
  | freg req =>
    change DistinctCids (Queues.of (exec env.handle (runFreg build cfg req) w).1.queues k)
    rw [(exec_runFreg_frame env build cfg w req).2.1]
    exact h k
  | fput req ip => exact distinctCids_fput hreg h hplain k
  | fpop req ip =>
    change DistinctCids (Queues.of (exec env.handle (runFpop build cfg req ip) w).1.queues k)
    rcases exec_runFpop env w build cfg req ip with ⟨j, now, -, hd⟩ | ⟨-, hun⟩
    · obtain ⟨u, hun, heff⟩ := hd.effect
      rw [heff.queues]
      split
      · exact (h j).sublist ((List.drop_sublist _ _).map _)
      · rw [hun.queues]
        exact h k
    · rw [hun.queues]
      exact h k

/-- **A put of a pointer that is queued leaves its one entry.** -/
theorem republishes_fput (hreg : Registered w.reg)
    (h : ∀ k, DistinctCids (Queues.of w.queues k))
    (hplain : Verb.Plain env build cfg w (.fput req ip)) :
    Republishes env build cfg w (.fput req ip) := by
  intro k ptr hk hptr hok ⟨y, hy, hcid⟩
  have hnext := distinctCids_fput hreg h hplain k
  rcases exec_runFput env build cfg req ip hreg with ⟨p, now, -, hacc⟩ | ⟨hnone, -⟩
  swap
  · obtain ⟨v, hv⟩ := hok
    exact absurd hv (hnone v)
  obtain rfl : p.key = k := Except.ok.inj (hacc.handle.symm.trans hk)
  obtain rfl : p.pointer = ptr := Except.ok.inj (hacc.pointer.symm.trans hptr)
  obtain ⟨hyp, hclock⟩ := hplain.accepted hacc hok hy hcid
  -- the put composts before the deadline of what it has published
  obtain ⟨t₀, t₁, t₂, ht₀, ht₁, ht₂, ht, -, -, hnow, -⟩ := hacc.clock
  have hlive : now < (p.entry build).deadline := by
    rw [hnow]
    exact hclock t₂ ((ht₀.trans ht₁.le).trans ht₂.le) ht
  obtain ⟨u, sec, hmem, -, heff⟩ := hacc.effect
  have hkept : ∃ x ∈ putKept cfg (p.entry build) now (Queues.of w.queues p.key),
      x.pointer = (p.entry build).pointer ∧ x.deadline = (p.entry build).deadline :=
    exists_mem_putKept ⟨y, hy, hyp⟩ hlive
  obtain ⟨x, hx, hxp, hxd⟩ := hkept
  rw [heff.queues, if_pos rfl] at hnext ⊢
  have hptr' : x.pointer = p.pointer := hxp
  refine ⟨x, ?_, hxd, by rw [hptr']⟩
  rw [← hptr']
  exact filter_cid_eq hnext hx

theorem republishes_verb (hreg : Registered w.reg)
    (h : ∀ k, DistinctCids (Queues.of w.queues k)) {v : Verb}
    (hplain : v.Plain env build cfg w) : Republishes env build cfg w v := by
  cases v with
  | freg req => trivial
  | fput req ip => exact republishes_fput hreg h hplain
  | fpop req ip => trivial

/-! ## Runs -/

theorem distinctCids_before (hreg : Registered w.reg)
    (h : ∀ k, DistinctCids (Queues.of w.queues k)) {vs : List Verb}
    (hplain : ∀ (j : ℕ) (v : Verb), vs[j]? = some v →
      v.Plain env build cfg (before env build cfg w vs j)) (j : ℕ) :
    Registered (before env build cfg w vs j).reg ∧
      ∀ k, DistinctCids (Queues.of (before env build cfg w vs j).queues k) :=
  before_along (C := fun w v => v.Plain env build cfg w)
    (I := fun w => Registered w.reg ∧ ∀ k, DistinctCids (Queues.of w.queues k))
    (fun _ v hv hw => ⟨registered_verb hw.1 v, distinctCids_verb hw.1 hw.2 hv⟩) hplain ⟨hreg, h⟩ j

theorem plain_fput {k : String} {p : Pointer}
    (hk : readHandle build "400 fput needs handle" req = .ok k) (hp : fputPointer req = .ok p)
    (hqueue : ∀ x ∈ Queues.of w.queues k, x.pointer.cid = p.cid → x.pointer = p)
    (hclock : ∀ t, env.clock t < p.deadline) : Verb.Plain env build cfg w (.fput req ip) := by
  intro w' k' p' now hgate x hx hcid
  obtain ⟨hk', -, hp', -⟩ := exec_fputGate_ok hgate
  obtain rfl : k = k' := Except.ok.inj (hk.symm.trans hk')
  obtain rfl : p = p' := Except.ok.inj (hp.symm.trans hp')
  exact ⟨hqueue x hx hcid, fun t _ _ => hclock t⟩

/-- **A run of plain requests.** Every queue holds every content hash once, and a put that succeeds
with one that is queued leaves one entry for it, at the deadline published. -/
theorem deduped_run (peer : σ) {vs : List Verb}
    (hplain : ∀ (j : ℕ) (v : Verb), vs[j]? = some v →
      v.Plain env build cfg (before env build cfg (opened env build cfg peer) vs j)) (j : ℕ) :
    (∀ h, DistinctCids
        (Queues.of (before env build cfg (opened env build cfg peer) vs j).queues h)) ∧
      ∀ v, vs[j]? = some v →
        Republishes env build cfg (before env build cfg (opened env build cfg peer) vs j) v := by
  have hopened : opened env build cfg peer = (World.fresh peer).next := by
    rw [opened, opened_eq]
  have hreg : Registered (opened env build cfg peer).reg := by
    rw [hopened]
    exact registered_empty
  have hempty (k : String) : DistinctCids (Queues.of (opened env build cfg peer).queues k) := by
    rw [hopened]
    exact List.nodup_nil
  obtain ⟨hreg', hcids⟩ := distinctCids_before hreg hempty hplain j
  exact ⟨hcids, fun v hv => republishes_verb hreg' hcids (hplain j v hv)⟩

end

/-- Two pointers are queued, and one of them is published again in a later second. -/
theorem deduped_run_again :
    let env : Env Unit := .jump (fun p _ => (p, .error "closed")) 100 101 16
    let handle : U8Array 32 := .replicate 32 7
    let vs : List Verb := [.freg (fregRequest handle "token-0123456789" 60),
      .fput (fputRequest handle (pointerOf 1 200)) "ip",
      .fput (fputRequest handle (pointerOf 2 200)) "ip",
      .fput (fputRequest handle (pointerOf 1 200)) "ip"]
    (∀ h, DistinctCids
        (Queues.of (before env .trailing {} (opened env .trailing {} ()) vs 3).queues h)) ∧
      ∀ v, vs[3]? = some v → Republishes env .trailing {}
        (before env .trailing {} (opened env .trailing {} ()) vs 3) v := by
  refine deduped_run () (fun j v hv => ?_) 3
  have hlate (c : UInt8) (h : 101 < (pointerOf c 200).deadline) (t : ℕ) :
      (Env.jump (fun (p : Unit) _ => (p, .error "closed")) 100 101 16).clock t <
        (pointerOf c 200).deadline := by
    refine lt_of_le_of_lt ?_ h
    show (if t < 16 then 100 else 101) ≤ 101
    split <;> decide
  match j, hv with
  | 0, rfl => trivial
  | 1, rfl =>
    exact plain_fput (k := Hex.encode (List.Vector.replicate 32 7).toList) (p := pointerOf 1 200)
      (by decide +kernel) (by decide +kernel) (by decide +kernel) (hlate 1 (by decide +kernel))
  | 2, rfl =>
    exact plain_fput (k := Hex.encode (List.Vector.replicate 32 7).toList) (p := pointerOf 2 200)
      (by decide +kernel) (by decide +kernel) (by decide +kernel) (hlate 2 (by decide +kernel))
  | 3, rfl =>
    exact plain_fput (k := Hex.encode (List.Vector.replicate 32 7).toList) (p := pointerOf 1 200)
      (by decide +kernel) (by decide +kernel) (by decide +kernel) (hlate 1 (by decide +kernel))

/-- Two pointers with one content hash are queued side by side. -/
theorem one_cid_twice :
    let env : Env Unit := .still (fun p _ => (p, .error "closed")) 100
    let handle : U8Array 32 := .replicate 32 7
    let vs : List Verb := [.freg (fregRequest handle "token-0123456789" 60),
      .fput (fputRequest handle (pointerOf 1 200)) "ip",
      .fput (fputRequest handle (pointerOf 1 300)) "ip"]
    ¬ DistinctCids (Queues.of (serve env .trailing {} (opened env .trailing {} ()) vs).queues
      (Hex.encode handle.toList)) := by
  decide +kernel

end SporePeer
