import SporePeer.Fabric.Runs
import SporePeer.Library.Ledger

/-!
# Delivery

What a relay delivers over a run, told by the ledger of a handle: every pointer that was inserted
is returned once, evicted from the front of the queue, composted after its deadline, or still
queued, and pointers are returned in the order in which they were inserted.

## Main definitions

* `Touches`: what a request does to the queue of a handle
* `insertsAt`, `returnsAt`: what a request inserts, and what it returns
* `Delivery`: the ledger of a handle

## Main results

* `touches_verb`: a request is a touch of the queue, or leaves it alone
* `delivery_run`: every run has its ledger
-/

namespace SporePeer

open Effects Text Bytes Ledger

/-! ## Queues of pointers -/

/-- The entries are under the deadlines of their pointers. -/
def Dated (q : List Queued) : Prop := ∀ x ∈ q, x.deadline = x.pointer.deadline

section

variable {cfg : FabricConfig} {new : Queued} {now : ℕ} {q : List Queued}

theorem isQueued_iff {p : Pointer} : IsQueued p q ↔ p ∈ q.map Queued.pointer := by
  rw [IsQueued, List.mem_map]

theorem dated_placed (hq : Dated q) (hnew : new.deadline = new.pointer.deadline) :
    Dated (placed new q) := by
  intro x hx
  rcases mem_placed hx with ⟨hp, -, hd⟩ | hx
  · rw [hd, hp, hnew]
  · exact hq x hx

theorem map_pointer_filter (hq : Dated q) (now : ℕ) :
    (q.filter fun x => now < x.deadline).map Queued.pointer =
      (q.map Queued.pointer).filter fun p => now < p.deadline := by
  rw [List.filter_map]
  congr 1
  refine List.filter_congr fun x hx => ?_
  rw [Function.comp_apply, hq x hx]

/-- A put, as a touch of the queue of pointers. -/
theorem map_pointer_putKept (hq : Dated q) (hnew : new.deadline = new.pointer.deadline) :
    (putKept cfg new now q).map Queued.pointer =
      (Touch.put new.pointer now).after Pointer.deadline cfg.maxPerHandle
        (q.map Queued.pointer) := by
  have hdrop : Dated ((placed new q).drop (overflow cfg new q)) := fun x hx =>
    dated_placed hq hnew x (List.mem_of_mem_drop hx)
  have hleaving : overflow cfg new q = (Touch.put new.pointer now).leaving Pointer.deadline
      cfg.maxPerHandle (q.map Queued.pointer) := by
    rw [overflow, Touch.leaving, List.length_map]
    simp only [isQueued_iff]
  have hentering : (placed new q).map Queued.pointer = q.map Queued.pointer ++
      (Touch.put new.pointer now).entering (q.map Queued.pointer) := by
    rw [map_pointer_placed, Touch.entering]
    simp only [isQueued_iff]
  rw [putKept_eq, map_pointer_filter hdrop, List.map_drop, hentering, hleaving]
  rfl

theorem drainCount_eq_takes (hq : Dated q) (now max : ℕ) :
    drainCount now max q = takes Pointer.deadline now max (q.map Queued.pointer) := by
  induction q generalizing max with
  | nil => rfl
  | cons x q ih =>
    have hx : x.deadline = x.pointer.deadline := hq x List.mem_cons_self
    have ih := ih fun y hy => hq y (List.mem_cons_of_mem x hy)
    rw [drainCount, List.map_cons, takes, hx, ih]

/-- A drain, as a touch of the queue of pointers. -/
theorem map_pointer_drop (hq : Dated q) (now max : ℕ) :
    (q.drop (drainCount now max q)).map Queued.pointer =
      (Touch.take now max).after Pointer.deadline cfg.maxPerHandle (q.map Queued.pointer) := by
  rw [List.map_drop, drainCount_eq_takes hq]
  rfl

theorem popOut_eq_served (hq : Dated q) (now max : ℕ) :
    popOut now max q =
      (Touch.take now max).served Pointer.deadline cfg.maxPerHandle (q.map Queued.pointer) := by
  have htake : Dated (q.take (drainCount now max q)) := fun x hx => hq x (List.mem_of_mem_take hx)
  rw [popOut, map_pointer_filter htake, List.map_take, drainCount_eq_takes hq]
  rfl

end

/-! ## Requests -/

section

variable {σ : Type} (env : Env σ) (build : Build) (cfg : FabricConfig) (h : String) (w : World σ)

/-- The pointer that a request inserts at `h`: it is accepted there, and was not queued. -/
def inserts : Verb → List Pointer
  | .fput req ip =>
    match readHandle build "400 fput needs handle" req, fputPointer req,
      (exec env.handle (runFput build cfg req ip) w).2 with
    | .ok k, .ok p, .ok (.ok _) => if k = h ∧ ¬ IsQueued p (Queues.of w.queues h) then [p] else []
    | _, _, _ => []
  | _ => []

/-- The texts of the pointers in a response. -/
def responsePointers (v : Value) : List String :=
  (((v.get "pointers").bind Value.asArray).getD []).filterMap Value.asStr

/-- The texts of the pointers that a request drains from `h`. -/
def returns : Verb → List String
  | .fpop req ip =>
    match readHandle build "400 fpop needs handle" req,
      (exec env.handle (runFpop build cfg req ip) w).2 with
    | .ok k, .ok (.ok v) => if k = h then responsePointers v else []
    | _, _ => []
  | _ => []

end

theorem responsePointers_pointersResponse (out : List Pointer) :
    responsePointers (pointersResponse out) = out.map fun p => Hex.encode p.toList := by
  have hget : ((pointersResponse out).get "pointers").bind Value.asArray =
      some (out.map fun p => .string (Hex.encode p.toList)) := rfl
  rw [responsePointers, hget, Option.getD_some, List.filterMap_map]
  have hstr : (Value.asStr ∘ fun p : Pointer => Value.string (Hex.encode p.toList)) =
      some ∘ fun p : Pointer => Hex.encode p.toList := rfl
  rw [hstr, List.filterMap_eq_map]

section

variable {σ : Type} {env : Env σ} {build : Build} {cfg : FabricConfig} {h : String}
  {w w' : World σ}

theorem length_returns_le (env : Env σ) (build : Build) (cfg : FabricConfig) (h : String)
    (w : World σ) (req : Value) (ip : String) :
    (returns env build cfg h w (.fpop req ip)).length ≤ readMax req := by
  rw [returns]
  rcases exec_runFpop env w build cfg req ip with ⟨k, now, hres, hd⟩ | ⟨hres, -⟩
  · rw [hd.handle, hres]
    dsimp only
    split
    · rw [responsePointers_pointersResponse, List.length_map]
      exact length_popOut_le _ _ _
    · exact Nat.zero_le _
  · split
    · exact absurd ‹_› (hres _)
    · exact Nat.zero_le _

/-- A request touches the queue of `h` at most once. -/
structure Touches (env : Env σ) (build : Build) (cfg : FabricConfig) (h : String) (v : Verb)
    (w w' : World σ) (o : Option (Touch Pointer)) : Prop where
  after : (Queues.of w'.queues h).map Queued.pointer =
    o.elim ((Queues.of w.queues h).map Queued.pointer) fun τ =>
      τ.after Pointer.deadline cfg.maxPerHandle ((Queues.of w.queues h).map Queued.pointer)
  inserts : inserts env build cfg h w v =
    o.elim [] fun τ => τ.entering ((Queues.of w.queues h).map Queued.pointer)
  returns : returns env build cfg h w v =
    (o.elim [] fun τ => τ.served Pointer.deadline cfg.maxPerHandle
      ((Queues.of w.queues h).map Queued.pointer)).map fun p => Hex.encode p.toList
  clock : ∀ τ, o = some τ → ∃ t, w.tick ≤ t ∧ t < w'.tick ∧ τ.now = env.clock t
  dated : Dated (Queues.of w'.queues h)

/-- A request that leaves the queue alone. -/
theorem Touches.idle {v : Verb} (hdated : Dated (Queues.of w.queues h))
    (hq : Queues.of w'.queues h = Queues.of w.queues h)
    (hins : SporePeer.inserts env build cfg h w v = [])
    (hret : SporePeer.returns env build cfg h w v = []) : Touches env build cfg h v w w' none where
  after := congrArg (List.map Queued.pointer) hq
  inserts := hins
  returns := hret
  clock := nofun
  dated := by rwa [hq]

/-- A put at `h` is a touch of its queue. -/
theorem touches_accepted {req : Value} {ip : String} {p : Put} {now : ℕ}
    (hdated : Dated (Queues.of w.queues h)) (hacc : Accepted env build cfg req ip p now w w')
    {v : Value} (hres : (exec env.handle (runFput build cfg req ip) w).2 = .ok (.ok v)) :
    ∃ o, Touches env build cfg h (.fput req ip) w w' o := by
  obtain ⟨u, sec, hmem, -, heff⟩ := hacc.effect
  have hins : SporePeer.inserts env build cfg h w (.fput req ip) =
      if p.key = h ∧ ¬ IsQueued p.pointer (Queues.of w.queues h) then [p.pointer] else [] := by
    rw [SporePeer.inserts, hacc.handle, hacc.pointer, hres]
  by_cases hkey : p.key = h
  · subst hkey
    have hq : Queues.of w'.queues p.key =
        putKept cfg (p.entry build) now (Queues.of w.queues p.key) := by
      rw [heff.queues, if_pos rfl]
    refine ⟨some (.put p.pointer now), ?_, ?_, rfl, ?_, ?_⟩
    · rw [hq]
      exact map_pointer_putKept hdated rfl
    · rw [hins, Option.elim_some, Touch.entering]
      -- a pointer that is queued already does not enter again
      by_cases hin : IsQueued p.pointer (Queues.of w.queues p.key)
      · rw [if_neg fun hc => hc.2 hin, if_pos (isQueued_iff.mp hin)]
      · rw [if_pos ⟨rfl, hin⟩, if_neg (isQueued_iff.not.mp hin)]
    · rintro τ hτ
      cases hτ
      obtain ⟨t₀, t₁, t, ht₀, ht₁, ht₂, ht, -, -, hnow, -⟩ := hacc.clock
      exact ⟨t, ht₀.trans (ht₁.trans ht₂).le, ht, hnow⟩
    · rw [hq]
      exact fun x hx => dated_placed hdated rfl x (putKept_sublist.subset hx)
  · refine ⟨none, .idle hdated ?_ ?_ rfl⟩
    · rw [heff.queues, if_neg (Ne.symm hkey), hmem.queues]
    · rw [hins, if_neg fun hc => hkey hc.1]

/-- A drain of `h` is a touch of its queue. -/
theorem touches_drained {req : Value} {ip k : String} {now : ℕ}
    (hdated : Dated (Queues.of w.queues h)) (hd : Drained env build req k now w w')
    (hres : (exec env.handle (runFpop build cfg req ip) w).2 =
      .ok (.ok (pointersResponse (popOut now (readMax req) (Queues.of w.queues k))))) :
    ∃ o, Touches env build cfg h (.fpop req ip) w w' o := by
  obtain ⟨u, hun, heff⟩ := hd.effect
  have hret : SporePeer.returns env build cfg h w (.fpop req ip) = if k = h then
      (popOut now (readMax req) (Queues.of w.queues k)).map fun p => Hex.encode p.toList
      else [] := by
    rw [SporePeer.returns, hd.handle, hres]
    dsimp only
    rw [responsePointers_pointersResponse]
  -- a pop of another handle does not touch this queue
  by_cases hkey : k = h
  · subst hkey
    have hq : Queues.of w'.queues k =
        (Queues.of w.queues k).drop (drainCount now (readMax req) (Queues.of w.queues k)) := by
      rw [heff.queues, if_pos rfl]
    refine ⟨some (.take now (readMax req)), ?_, rfl, ?_, ?_, ?_⟩
    · rw [hq]
      exact map_pointer_drop hdated now (readMax req)
    · rw [hret, if_pos rfl, popOut_eq_served hdated]
      rfl
    · rintro τ hτ
      cases hτ
      obtain ⟨t, ht, ht', hnow⟩ := hd.clock
      exact ⟨t, ht, ht', hnow⟩
    · rw [hq]
      exact fun x hx => hdated x (List.mem_of_mem_drop hx)
  · refine ⟨none, .idle hdated ?_ rfl ?_⟩
    · rw [heff.queues, if_neg (Ne.symm hkey), hun.queues]
    · rw [hret, if_neg hkey]

/-- **A request is a touch of a queue, or leaves it alone.** -/
theorem touches_verb (env : Env σ) (build : Build) (cfg : FabricConfig)
    (hreg : Registered w.reg) (hdated : Dated (Queues.of w.queues h)) (v : Verb) :
    ∃ o, Touches env build cfg h v w (exec env.handle (v.run build cfg) w).1 o := by
  cases v with
  | freg req =>
    obtain ⟨-, hq, -⟩ := exec_runFreg_frame env build cfg w req
    exact ⟨none, .idle hdated (congrArg (Queues.of · h) hq) rfl rfl⟩
  | fput req ip =>
    rcases exec_runFput env build cfg req ip hreg with ⟨p, now, hres, hacc⟩ | ⟨hres, hun⟩
    · exact touches_accepted hdated hacc hres
    · refine ⟨none, .idle hdated (congrArg (Queues.of · h) hun.queues) ?_ rfl⟩
      rw [SporePeer.inserts]
      split
      · exact absurd ‹_› (hres _)
      · rfl
  | fpop req ip =>
    rcases exec_runFpop env w build cfg req ip with ⟨k, now, hres, hd⟩ | ⟨hres, hun⟩
    · exact touches_drained hdated hd hres
    · refine ⟨none, .idle hdated (congrArg (Queues.of · h) hun.queues) rfl ?_⟩
      rw [SporePeer.returns]
      split
      · exact absurd ‹_› (hres _)
      · rfl

/-! ## Runs -/

/-- The touches of the queue of `h` in a run. -/
structure History (env : Env σ) (build : Build) (cfg : FabricConfig) (h : String) (w : World σ)
    (vs : List Verb) (hist : List (Option (Touch Pointer))) : Prop where
  length : hist.length = vs.length
  queue : ∀ j, j ≤ vs.length → Ledger.queue Pointer.deadline cfg.maxPerHandle (hist.take j) =
    (Queues.of (serve env build cfg w (vs.take j)).queues h).map Queued.pointer
  touches : ∀ j v, vs[j]? = some v → ∃ o, hist[j]? = some o ∧
    Touches env build cfg h v (serve env build cfg w (vs.take j))
      (serve env build cfg w (vs.take (j + 1))) o

theorem History.append_singleton {vs : List Verb} {hist : List (Option (Touch Pointer))}
    (hh : History env build cfg h w vs hist) {v : Verb} {o : Option (Touch Pointer)}
    (ho : Touches env build cfg h v (serve env build cfg w vs)
      (serve env build cfg w (vs ++ [v])) o) :
    History env build cfg h w (vs ++ [v]) (hist ++ [o]) := by
  have htake {j : ℕ} (hj : j ≤ vs.length) : (vs ++ [v]).take j = vs.take j :=
    List.take_append_of_le_length hj
  have htake' {j : ℕ} (hj : j ≤ vs.length) : (hist ++ [o]).take j = hist.take j :=
    List.take_append_of_le_length (hh.length ▸ hj)
  have hall : (vs ++ [v]).take (vs.length + 1) = vs ++ [v] := by
    rw [← List.length_singleton (a := v), ← List.length_append, List.take_length]
  refine ⟨by rw [List.length_append, List.length_append, hh.length]; rfl, fun j hj => ?_,
    fun j u hu => ?_⟩
  · rw [List.length_append, List.length_singleton] at hj
    rcases Nat.lt_succ_iff_lt_or_eq.mp (Nat.lt_succ_of_le hj) with hlt | rfl
    · have hle : j ≤ vs.length := Nat.lt_succ_iff.mp hlt
      rw [htake hle, htake' hle]
      exact hh.queue j hle
    · have hqueue := hh.queue vs.length le_rfl
      rw [List.take_length, ← hh.length, List.take_length] at hqueue
      rw [hall, ho.after, ← hqueue, ← hh.length, ← List.length_singleton (a := o),
        ← List.length_append, List.take_length]
      exact queue_append_singleton o
  · -- an earlier request, the one that is added, or none
    rcases Nat.lt_trichotomy j vs.length with hj | rfl | hj
    · rw [List.getElem?_append_left hj] at hu
      obtain ⟨o', ho', htouch⟩ := hh.touches j u hu
      refine ⟨o', ?_, ?_⟩
      · rw [List.getElem?_append_left (hh.length ▸ hj), ho']
      · rw [htake hj.le, htake hj]
        exact htouch
    · rw [List.getElem?_concat_length, Option.some.injEq] at hu
      subst u
      refine ⟨o, ?_, ?_⟩
      · rw [← hh.length, List.getElem?_concat_length]
      · rw [htake le_rfl, List.take_length, hall]
        exact ho
    · have hlen : (vs ++ [v]).length ≤ j := by
        rw [List.length_append]
        exact hj
      rw [List.getElem?_eq_none hlen] at hu
      cases hu

/-- Every run has its history. -/
theorem exists_history (env : Env σ) (build : Build) (cfg : FabricConfig)
    (hreg : Registered w.reg) (hempty : Queues.of w.queues h = [])
    (vs : List Verb) : ∃ hist, History env build cfg h w vs hist := by
  induction vs using List.reverseRecOn with
  | nil =>
    refine ⟨[], rfl, fun j _ => ?_, nofun⟩
    rw [List.take_nil, List.take_nil]
    exact (congrArg (List.map Queued.pointer) hempty).symm
  | append_singleton vs v ih =>
    obtain ⟨hist, hh⟩ := ih
    have hinv : Registered (serve env build cfg w vs).reg ∧
        Dated (Queues.of (serve env build cfg w vs).queues h) := by
      refine serve_invariant (I := fun w => Registered w.reg ∧ Dated (Queues.of w.queues h))
        (fun w v _ hw => ?_) ⟨hreg, by rw [hempty]; exact nofun⟩
      obtain ⟨o, ho⟩ := touches_verb env build cfg hw.1 hw.2 v
      exact ⟨registered_verb hw.1 v, ho.dated⟩
    obtain ⟨o, ho⟩ := touches_verb env build cfg hinv.1 hinv.2 v
    rw [← serve_append_singleton] at ho
    exact ⟨hist ++ [o], hh.append_singleton ho⟩

end

/-! ## The ledger of a handle -/

section

variable {σ : Type} (env : Env σ) (build : Build) (cfg : FabricConfig) (h : String) (w : World σ)
  (vs : List Verb)

/-- The pointers queued at `h` before request `j`. -/
def queuedAt (j : ℕ) : List Pointer :=
  (Queues.of (before env build cfg w vs j).queues h).map Queued.pointer

def insertsAt (j : ℕ) : List Pointer :=
  (vs[j]?).elim [] (inserts env build cfg h (before env build cfg w vs j))

def returnsAt (j : ℕ) : List String :=
  (vs[j]?).elim [] (returns env build cfg h (before env build cfg w vs j))

/-- The insertions at `h` in the order in which they are made, each with its one fate. -/
structure Delivery (l : List (Item Pointer)) : Prop where
  inserted : l.map (fun x => (x.value, x.since)) = (List.range vs.length).flatMap fun j =>
    (insertsAt env build cfg h w vs j).map fun p => (p, j)
  queued : waiting l = queuedAt env build cfg h w vs vs.length
  /-- Request `j` returns the insertions that it serves, and nothing else. -/
  returned : ∀ j, (values (· = .served j) l).map (fun p => Hex.encode p.toList) =
    returnsAt env build cfg h w vs j
  /-- What is returned, one request after the other, is in the order of insertion. -/
  inOrder : (values Fate.isServed l).map (fun p => Hex.encode p.toList) =
    (List.range vs.length).flatMap (returnsAt env build cfg h w vs)
  /-- A put that inserts evicts the front of the queue over the cap. -/
  evicted : ∀ j, values (· = .evicted j) l =
    if insertsAt env build cfg h w vs j = [] then []
    else (queuedAt env build cfg h w vs j).take
      ((queuedAt env build cfg h w vs j).length + 1 - cfg.maxPerHandle)
  expired : ∀ x ∈ l, ∀ j, x.fate = .expired j → ∃ t, (before env build cfg w vs j).tick ≤ t ∧
    t < (before env build cfg w vs (j + 1)).tick ∧ x.value.deadline ≤ env.clock t
  past : ∀ x ∈ l, x.Past vs.length
  /-- A request that inserts nothing moves nothing. -/
  unmoved : ∀ j, insertsAt env build cfg h w vs j = [] →
    (queuedAt env build cfg h w vs (j + 1)).Sublist (queuedAt env build cfg h w vs j)
  bounded : ∀ j req ip, vs[j]? = some (.fpop req ip) →
    (returnsAt env build cfg h w vs j).length ≤ readMax req

end

section

variable {σ : Type} {env : Env σ} {build : Build} {cfg : FabricConfig} {h : String} {w : World σ}
  {vs : List Verb} {hist : List (Option (Touch Pointer))}

/-- A request, and the touch that it is. -/
theorem History.cases (hh : History env build cfg h w vs hist) (j : ℕ) :
    (vs[j]? = none ∧ hist[j]? = none) ∨ ∃ v o, vs[j]? = some v ∧ hist[j]? = some o ∧
      Touches env build cfg h v (before env build cfg w vs j)
        (before env build cfg w vs (j + 1)) o ∧
      Ledger.queue Pointer.deadline cfg.maxPerHandle (hist.take j) =
        queuedAt env build cfg h w vs j := by
  rcases Nat.lt_or_ge j vs.length with hj | hj
  · have hv : vs[j]? = some vs[j] := List.getElem?_eq_getElem hj
    obtain ⟨o, ho, htouch⟩ := hh.touches j _ hv
    exact .inr ⟨vs[j], o, hv, ho, htouch, hh.queue j hj.le⟩
  · exact .inl ⟨List.getElem?_eq_none hj, List.getElem?_eq_none (hh.length ▸ hj)⟩

theorem History.insertsAt_eq (hh : History env build cfg h w vs hist) (j : ℕ) :
    insertsAt env build cfg h w vs j =
      atTime Pointer.deadline cfg.maxPerHandle Touch.entering hist j := by
  unfold insertsAt atTime
  rcases hh.cases j with ⟨hv, ho⟩ | ⟨v, o, hv, ho, htouch, hq⟩
  · rw [hv, ho]
    rfl
  · rw [hv, ho, hq, Option.elim_some, htouch.inserts]
    cases o <;> rfl

theorem History.returnsAt_eq (hh : History env build cfg h w vs hist) (j : ℕ) :
    returnsAt env build cfg h w vs j =
      (atTime Pointer.deadline cfg.maxPerHandle
        (Touch.served Pointer.deadline cfg.maxPerHandle) hist j).map
          fun p => Hex.encode p.toList := by
  unfold returnsAt atTime
  rcases hh.cases j with ⟨hv, ho⟩ | ⟨v, o, hv, ho, htouch, hq⟩
  · rw [hv, ho]
    rfl
  · rw [hv, ho, hq, Option.elim_some, htouch.returns]
    cases o <;> rfl

/-- The ledger of a history is the ledger of the run. -/
theorem History.delivery (hh : History env build cfg h w vs hist) (hcap : 1 ≤ cfg.maxPerHandle) :
    Delivery env build cfg h w vs (ledger Pointer.deadline cfg.maxPerHandle hist) := by
  have hacc := accounts_ledger Pointer.deadline hcap hist
  constructor
  case inserted =>
    rw [hacc.entered, hh.length]
    simp only [hh.insertsAt_eq]
  case queued =>
    have hqueue := hh.queue vs.length le_rfl
    rw [← hh.length, List.take_length] at hqueue
    rw [hacc.waiting, hqueue, hh.length]
    rfl
  case returned =>
    intro j
    rw [hacc.served, hh.returnsAt_eq]
  case inOrder =>
    rw [hacc.order, hh.length, List.map_flatMap]
    exact (List.flatMap_congr fun j _ => hh.returnsAt_eq j).symm
  -- a request that touches no queue evicts nothing
  case evicted =>
    intro j
    rw [hacc.evicted, hh.insertsAt_eq]
    unfold atTime
    rcases hh.cases j with ⟨-, ho⟩ | ⟨v, o, -, ho, -, hq⟩
    · rw [ho]
      rfl
    · rw [ho, hq]
      cases o with
      | none => rfl
      | some τ => exact τ.evicted_eq _ _ _
  case expired =>
    intro x hx j hfate
    obtain ⟨τ, hτ, hle⟩ := hacc.expired x hx j hfate
    rcases hh.cases j with ⟨-, ho⟩ | ⟨v, o, -, ho, htouch, -⟩
    · rw [hτ] at ho
      cases ho
    · rw [hτ, Option.some.injEq] at ho
      obtain ⟨t, ht, ht', hnow⟩ := htouch.clock τ ho.symm
      exact ⟨t, ht, ht', hnow ▸ hle⟩
  case past => exact fun x hx => hh.length ▸ hacc.past x hx
  -- after the last request there is nothing to come
  case unmoved =>
    intro j hnone
    rw [hh.insertsAt_eq] at hnone
    unfold atTime at hnone
    rcases hh.cases j with ⟨hv, -⟩ | ⟨v, o, -, ho, htouch, hq⟩
    · have hlen : vs.length ≤ j := List.getElem?_eq_none_iff.mp hv
      rw [queuedAt, queuedAt, before, before, List.take_of_length_le hlen,
        List.take_of_length_le (hlen.trans (Nat.le_succ j))]
    · rw [ho, hq] at hnone
      rw [queuedAt, htouch.after]
      cases o with
      | none => exact List.Sublist.refl _
      | some τ => exact Touch.after_sublist _ _ hnone
  case bounded =>
    intro j req ip hv
    rw [returnsAt, hv, Option.elim_some]
    exact length_returns_le _ _ _ _ _ _ _

end

/-! ## A relay on an empty directory -/

section

variable {σ : Type} (env : Env σ) (build : Build) (cfg : FabricConfig) (peer : σ)

/-- A start on an empty directory finds nothing. -/
theorem opened_eq : exec env.handle (fabricOpen build cfg) (World.fresh peer) =
    ((World.fresh peer).next, .ok (.ok ())) := by
  have hnil : (env.handle _ .readDir (World.fresh peer)).2.getD [] = [] := by
    simp only [Env.handle]
    split
    · rfl
    · exact List.perm_nil.mp (env.listing_perm _ _)
  have hopen : exec env.handle (fabricOpen build cfg) (World.fresh peer) = exec env.handle (do
      let queues ← openFiles build cfg ((env.handle _ .readDir (World.fresh peer)).2.getD []) ∅
      ask (.setQueues (queues.mapValues fun q => q.insertionSort Queued.before)))
      (World.fresh peer).next := rfl
  rw [hopen, hnil]
  rfl

/-- **Every insertion has one fate, and delivery is in order.** -/
theorem delivery_run (hcap : 1 ≤ cfg.maxPerHandle) (h : String) (vs : List Verb) :
    ∃ l, Delivery env build cfg h (opened env build cfg peer) vs l := by
  have hopened : opened env build cfg peer = (World.fresh peer).next := by
    rw [opened, opened_eq]
  have hreg : Registered (opened env build cfg peer).reg := by
    rw [hopened]
    exact registered_empty
  have hempty : Queues.of (opened env build cfg peer).queues h = [] := by
    rw [hopened]
    rfl
  obtain ⟨hist, hh⟩ := exists_history env build cfg hreg hempty vs
  exact ⟨_, hh.delivery hcap⟩

end

/-- Three pointers are queued under a cap of two, and what is left is drained. -/
theorem delivery_run_three :
    let env : Env Unit := .still (fun p _ => (p, .error "closed")) 100
    let handle : U8Array 32 := .replicate 32 7
    ∃ l, Delivery env .trailing { maxPerHandle := 2 } (Hex.encode handle.toList)
      (opened env .trailing { maxPerHandle := 2 } ())
      [.freg (fregRequest handle "token-0123456789" 60),
        .fput (fputRequest handle (pointerOf 1 200)) "ip",
        .fput (fputRequest handle (pointerOf 2 200)) "ip",
        .fput (fputRequest handle (pointerOf 3 200)) "ip",
        .fpop (fpopRequest handle "token-0123456789" 8) "ip"] l :=
  delivery_run _ _ { maxPerHandle := 2 } _ (by decide) _ _

end SporePeer
