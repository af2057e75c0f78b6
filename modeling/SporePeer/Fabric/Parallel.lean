import Mathlib.Data.List.Count
import SporePeer.Fabric.Concurrency

/-!
# Requests at the same time

A put writes its envelope before it enters the queue section, and drains and evictions remove
envelopes inside of it. Two puts of one pointer in one second share the name of their envelope, so
that a section can remove the file that another put has moved to its place and is about to queue.
Where no section does, every entry keeps its file, whatever the order of the steps. In any order a
pointer leaves by as many drains at most as it has entered by insertions.

## Main definitions

* `Spares`: a step that removes no envelope of a put that is about to queue it
* `insertsIn`, `returnsIn`: what a step inserts into a queue, and what it returns of it

## Main results

* `accounted_run`: what is returned was inserted, once for each time
* `stored_concurrently`: entries keep their files
-/

namespace SporePeer

open Effects Text Bytes

/-- The calls of the requests. -/
def RelayOp (β : Type) (e : Op β) : Prop := QueueOp β e ∨ RegOp β e

theorem only_verb (build : Build) (cfg : FabricConfig) (v : Verb) :
    Only RelayOp (v.run build cfg) := by
  cases v with
  | freg req => exact (only_runFreg build cfg req).mono fun _ _ => .inr
  | fput req ip => exact (only_runFput build cfg req ip).mono fun _ _ => .inl
  | fpop req ip => exact (tidy_runFpop build cfg req ip).only.mono fun _ _ => .inl

section

variable {σ : Type} (env : Env σ) (build : Build)

/-- The calls of the next step of the thread `i`. -/
def stepCalls (P : Connections σ) (i : ℕ) : List (Σ β, Op β) :=
  (P.threads[i]?).elim [] fun t => (Program.advance mutexes env.handle t.rest P.state).1

/-- The next step of the thread `i` removes no file that the unfinished request of another thread
has moved to its place. -/
def Spares (P : Connections σ) (i : ℕ) : Prop :=
  ∀ u ∈ P.threads.eraseIdx i, ¬ u.rest.Finished →
    ∀ name ∈ u.made.filterMap movedTo, name ∉ (stepCalls env P i).filterMap removed

instance (P : Connections σ) (i : ℕ) : Decidable (Spares env P i) :=
  inferInstanceAs (Decidable (∀ u ∈ P.threads.eraseIdx i, ¬ u.rest.Finished →
    ∀ name ∈ u.made.filterMap movedTo, name ∉ (stepCalls env P i).filterMap removed))

/-- The answer that the next step of the thread `i` comes to. -/
def answerIn (P : Connections σ) (i : ℕ) : Option Value :=
  match P.threads[i]? with
  | none => none
  | some t =>
    match t.rest, (Program.advance mutexes env.handle t.rest P.state).2.1 with
    | .call _ _, .ret (.ok v) => some v
    | _, _ => none

/-- The pointer that the next step of the thread `i` inserts into the queue of `h`. -/
def insertsIn (vs : List Verb) (h : String) (P : Connections σ) (i : ℕ) : List Pointer :=
  match vs[i]?, answerIn env P i with
  | some (.fput req _), some _ =>
    match readHandle build "400 fput needs handle" req, fputPointer req with
    | .ok k, .ok p => if k = h ∧ ¬ IsQueued p (Queues.of P.state.queues h) then [p] else []
    | _, _ => []
  | _, _ => []

/-- The texts of the pointers that the next step of the thread `i` returns from `h`. -/
def returnsIn (vs : List Verb) (h : String) (P : Connections σ) (i : ℕ) : List String :=
  match vs[i]?, answerIn env P i with
  | some (.fpop req _), some v =>
    match readHandle build "400 fpop needs handle" req with
    | .ok k => if k = h then responsePointers v else []
    | _ => []
  | _, _ => []

/-- What the steps of a schedule write to files. -/
def writesAlong (P : Connections σ) (schedule : List ℕ) : List Bytes :=
  (P.collect mutexes env.handle (stepCalls env) schedule).filterMap writtenBy

/-- The pointers that the steps of a schedule insert into the queue of `h`. -/
def insertsAlong (vs : List Verb) (h : String) (P : Connections σ) (schedule : List ℕ) :
    List Pointer :=
  P.collect mutexes env.handle (insertsIn env build vs h) schedule

/-- The texts of the pointers that the steps of a schedule return from `h`. -/
def returnsAlong (vs : List Verb) (h : String) (P : Connections σ) (schedule : List ℕ) :
    List String :=
  P.collect mutexes env.handle (returnsIn env build vs h) schedule

/-- The pointers queued at `h`. -/
def Connections.queued (P : Connections σ) (h : String) : List Pointer :=
  (Queues.of P.state.queues h).map Queued.pointer

/-- From `P` on, the steps of a schedule return what was queued or what they insert, each once. -/
structure ReturnsOnce (vs : List Verb) (P : Connections σ) (schedule : List ℕ) : Prop where
  distinct : ∀ h, (P.queued h).Nodup
  accounted : ∀ h p, (returnsAlong env build vs h P schedule).count (Hex.encode p.toList) +
      (Connections.queued (P.run mutexes env.handle schedule) h).count p ≤
    (P.queued h).count p + (insertsAlong env build vs h P schedule).count p

/-- The requests `vs` at once, to a relay that has started on an empty directory. -/
def connected (cfg : FabricConfig) (peer : σ) (vs : List Verb) : Connections σ :=
  requests build cfg vs (opened env build cfg peer)

/-- The requests `vs` after the steps of a schedule. -/
def scheduled (cfg : FabricConfig) (peer : σ) (vs : List Verb) (schedule : List ℕ) :
    Connections σ :=
  (connected env build cfg peer vs).run mutexes env.handle schedule

/-- What the steps of the requests preserve. -/
structure Kept (written : Bytes → Prop) (spared : Prop) (w : World σ) : Prop where
  reg : Registered w.reg
  entries : ∀ h, ∀ x ∈ Queues.of w.queues h, Recorded build written h x
  distinct : ∀ h, ((Queues.of w.queues h).map Queued.pointer).Nodup
  stored : spared → Stored w

/-- What holds of the thread of the request `i` of `vs`. -/
structure Requested (cfg : FabricConfig) (written : Bytes → Prop) (spared : Prop) (vs : List Verb)
    (i : ℕ) (t : Connection) (w : World σ) : Prop where
  calls : t.rest.Calls RelayOp
  at_ : ∃ v, vs[i]? = some v ∧ VerbAt env build cfg written spared v w t

end

section

variable {σ : Type} {env : Env σ} {build : Build} {cfg : FabricConfig} {written : Bytes → Prop}
  {spared : Prop} {vs : List Verb} {w : World σ} {P : Connections σ} {i : ℕ}

/-! ## Envelopes in their place -/

/-- An envelope stays in its place while no call removes it. -/
theorem present_handle {c : String} {β : Type} {e : Op β} (he : RelayOp β e)
    (hkept : removed ⟨β, e⟩ ≠ some (fenvFile c)) (hin : (w.dir.lookup (fenvFile c)).isSome) :
    ((env.handle _ e w).1.dir.lookup (fenvFile c)).isSome := by
  cases e with
  | write name content =>
    obtain ⟨c', rfl⟩ : ∃ c', name = tmpFile c' := he.resolve_right id
    obtain ⟨-, hsame⟩ := env.write_envelope w c' content
    change ((env.write w (tmpFile c') content).1.dir.lookup (fenvFile c)).isSome
    rw [hsame]
    exact hin
  | rename src dst =>
    obtain ⟨c', rfl, rfl⟩ : ∃ c', src = tmpFile c' ∧ dst = fenvFile c' := he.resolve_right id
    obtain ⟨-, hkeeps, -⟩ := env.rename_envelope w c'
    exact hkeeps c hin
  | removeFile name =>
    -- the only operation that removes a file, and it is of another one
    have hne : fenvFile c ≠ name := fun heq => hkept (congrArg some heq.symm)
    change ((env.removeFile w name).dir.lookup (fenvFile c)).isSome
    unfold Env.removeFile
    split
    · exact hin
    · dsimp only
      rw [Table.lookup_erase_eq, if_neg hne]
      exact hin
  | setWins l x => cases l <;> exact hin
  | metadata name => exact (he.elim id id).elim
  | modified name => exact (he.elim id id).elim
  | read name => exact (he.elim id id).elim
  | createDirAll => exact (he.elim id id).elim
  | readDir => exact (he.elim id id).elim
  | exchange frame => exact (he.elim id id).elim
  | writeFrame frame => exact (he.elim id id).elim
  | _ => exact hin

theorem present_advance {α : Type} {p : Program Op α} (hp : p.Calls RelayOp) {c : String}
    (hkept : fenvFile c ∉ (Program.advance mutexes env.handle p w).1.filterMap removed)
    (hin : (w.dir.lookup (fenvFile c)).isSome) :
    ((Program.advance mutexes env.handle p w).2.2.dir.lookup (fenvFile c)).isSome := by
  have hrec := hp.advance_record (b := mutexes) (h := env.handle) (s := w) []
    (I := fun cs v => fenvFile c ∈ cs.filterMap removed ∨ (v.dir.lookup (fenvFile c)).isSome)
    (fun γ e cs v he hv => ?_) (.inr hin)
  · exact hrec.resolve_left hkept
  · rw [List.filterMap_append, List.mem_append]
    by_cases hrem : removed ⟨γ, e⟩ = some (fenvFile c)
    · refine .inl (.inr ?_)
      rw [List.filterMap_cons_some hrem]
      exact List.mem_cons_self
    · exact hv.imp .inl (present_handle he hrem)

/-! ## Steps -/

/-- A step keeps what the threads rely on. -/
theorem kept_step (hnc : spared → NoCollision build written) {v : Verb} {t : Connection}
    {x : List (Σ β, Op β) × Program Op (Except String Value) × World σ}
    (h : Kept build written spared w) (hs : Stepped env build cfg written spared v w t x) :
    Kept build written spared x.2.2 := by
  cases hs.effect with
  | quiet hq hkeeps =>
    -- no queue changes, and no file of an entry goes
    refine ⟨hs.reg, ?_, ?_, fun hsp k y hy => ?_⟩
    · rw [hq]
      exact h.entries
    · rw [hq]
      exact h.distinct
    · rw [hq] at hy
      exact hkeeps _ (h.stored hsp k y hy)
  | @put req ip p now hv hrun hp hfiled hin hrw =>
    refine ⟨hs.reg, fun k y hy => ?_, fun k => ?_, fun hsp => ?_⟩
    · rw [hrw.queues] at hy
      split at hy
      · rename_i hk
        subst hk
        exact recorded_putKept hfiled (h.entries _) hy
      · exact h.entries k y hy
    · rw [hrw.queues]
      split
      · exact nodup_putKept (h.distinct _)
      · exact h.distinct k
    · exact stored_putQueue (hnc hsp) (h.distinct _) (h.stored hsp) h.entries hfiled (hin hsp) hrw
  | @pop req ip k now hv hh hrw =>
    refine ⟨hs.reg, fun j y hy => ?_, fun j => ?_, fun hsp => ?_⟩
    · rw [hrw.queues] at hy
      split at hy
      · rename_i hj
        subst hj
        exact h.entries _ y (List.mem_of_mem_drop hy)
      · exact h.entries j y hy
    · rw [hrw.queues]
      split
      · exact (h.distinct _).sublist ((List.drop_sublist _ _).map _)
      · exact h.distinct j
    · exact stored_drainQueue (hnc hsp) (h.distinct _) (h.stored hsp) h.entries hrw

/-- What another thread does leaves a thread where it is, if it leaves its envelope. -/
theorem VerbAt.of_present {v : Verb} {w' : World σ} {u : Connection}
    (h : VerbAt env build cfg written spared v w u)
    (hkeeps : spared → ¬ u.rest.Finished → ∀ c, fenvFile c ∈ u.made.filterMap movedTo →
      (w.dir.lookup (fenvFile c)).isSome → (w'.dir.lookup (fenvFile c)).isSome) :
    VerbAt env build cfg written spared v w' u := by
  cases v with
  | freg req => exact h
  | fpop req ip => exact h
  | fput req ip =>
    cases h with
    | checking hm hc hy => exact .checking hm hc hy
    | writing hp => exact .writing hp
    | moving hp hfiled => exact .moving hp hfiled
    | queueing hp hfiled hmoved hin =>
      exact .queueing hp hfiled hmoved fun hsp => hkeeps hsp id _ hmoved (hin hsp)
    | done hfin => exact .done hfin

/-- The invariant of the threads of the requests `vs`. -/
abbrev Connections.Sound (env : Env σ) (build : Build) (cfg : FabricConfig)
    (written : Bytes → Prop) (spared : Prop) (vs : List Verb) (P : Connections σ) : Prop :=
  P.Holds (Kept build written spared) (Requested env build cfg written spared vs)

theorem stepCalls_eq {t : Connection} (ht : P.threads[i]? = some t) :
    stepCalls env P i = (Program.advance mutexes env.handle t.rest P.state).1 := by
  rw [stepCalls, ht]
  rfl

/-- **A step of one request keeps the invariant of all.** -/
theorem sound_request (hnc : spared → NoCollision build written)
    (hw : ∀ b ∈ (stepCalls env P i).filterMap writtenBy, written b)
    (hsp : spared → Spares env P i) (h : Connections.Sound env build cfg written spared vs P) :
    Connections.Sound env build cfg written spared vs (P.step mutexes env.handle i) := by
  refine Pool.holds_step (fun t ht hkept hreq => ?_) (fun t j u ht hji hu hkept hreq hother => ?_) h
  · obtain ⟨hcalls, v, hv, hat⟩ := hreq
    have hs := stepped_verb hkept.reg hat (stepCalls_eq ht ▸ hw)
    exact ⟨kept_step hnc hkept hs, hcalls.advance, v, hv, hs.at_⟩
  · obtain ⟨hcalls, v, hv, hat⟩ := hother
    refine ⟨hcalls, v, hv, hat.of_present fun hspared hrun c hmoved hin => ?_⟩
    have hmem : u ∈ P.threads.eraseIdx i :=
      List.mem_eraseIdx_iff_getElem?.mpr ⟨j, hji, hu⟩
    have hnot := hsp hspared u hmem hrun _ hmoved
    rw [stepCalls_eq ht] at hnot
    exact present_advance hreq.calls hnot hin

/-- The invariant holds of requests to a relay that has just started. -/
theorem sound_connected (peer : σ) : Connections.Sound env build cfg written spared vs
    (connected env build cfg peer vs) := by
  have hopened : opened env build cfg peer = (World.fresh peer).next := by
    rw [opened, opened_eq]
  have hqueues (h : String) : Queues.of (opened env build cfg peer).queues h = [] := by
    rw [hopened]
    rfl
  refine ⟨⟨?_, fun h x hx => ?_, fun h => ?_, fun _ h x hx => ?_⟩, fun i t ht => ?_⟩
  · change Registered (opened env build cfg peer).reg
    rw [hopened]
    exact registered_empty
  · change x ∈ Queues.of (opened env build cfg peer).queues h at hx
    rw [hqueues] at hx
    cases hx
  · change ((Queues.of (opened env build cfg peer).queues h).map Queued.pointer).Nodup
    rw [hqueues]
    exact List.nodup_nil
  · change x ∈ Queues.of (opened env build cfg peer).queues h at hx
    rw [hqueues] at hx
    cases hx
  · change ((vs.map fun v => (v.run build cfg).run).map fun p => (⟨[], p⟩ : Connection))[i]? =
      some t at ht
    rw [List.map_map, List.getElem?_map, Option.map_eq_some_iff] at ht
    obtain ⟨v, hv, rfl⟩ := ht
    exact ⟨only_verb build cfg v, v, hv, verbAt_start v _⟩

/-! ## Insertions and returns -/

theorem answerIn_eq_some {t : Connection} (ht : P.threads[i]? = some t) {val : Value} :
    answerIn env P i = some val ↔ ¬ t.rest.Finished ∧
      (Program.advance mutexes env.handle t.rest P.state).2.1 = .ret (.ok val) := by
  rw [answerIn, ht]
  dsimp only
  split
  · rename_i e next v hcall hret
    rw [hcall]
    exact ⟨fun h => ⟨id, by rw [← hcall, hret, Option.some.inj h]⟩, fun h => by
      rw [← hcall, hret] at h
      cases h.2
      rfl⟩
  · rename_i hnot
    refine ⟨nofun, fun ⟨hrun, hret⟩ => ?_⟩
    rcases hrest : t.rest with r | q | ⟨e, next⟩
    · rw [hrest] at hrun
      exact absurd trivial hrun
    · rw [hrest] at hrun
      exact absurd trivial hrun
    · exact (hnot _ e next val hrest hret).elim

/-- The texts of pointers tell them apart. -/
theorem count_map_encode (p : Pointer) (l : List Pointer) :
    (l.map fun p => Hex.encode p.toList).count (Hex.encode p.toList) = l.count p :=
  List.count_map_of_injective l (fun p : Pointer => Hex.encode p.toList)
    (fun _ _ h => Subtype.ext (Hex.encode_injective h)) p

/-- What a drain returns and what it leaves was queued. -/
theorem count_popOut_add_le (p : Pointer) (now max : ℕ) (q : List Queued) :
    (popOut now max q).count p + ((q.drop (drainCount now max q)).map Queued.pointer).count p ≤
      (q.map Queued.pointer).count p := by
  have hsplit : (q.map Queued.pointer).count p =
      ((q.take (drainCount now max q)).map Queued.pointer).count p +
        ((q.drop (drainCount now max q)).map Queued.pointer).count p := by
    rw [← List.count_append, ← List.map_append, List.take_append_drop]
  have hout : (popOut now max q).count p ≤
      ((q.take (drainCount now max q)).map Queued.pointer).count p :=
    List.Sublist.count_le p (List.filter_sublist.map _)
  omega

/-- What a put leaves was queued or is inserted. -/
theorem count_putKept_le (p : Pointer) (new : Queued) (now : ℕ) (q : List Queued) :
    ((putKept cfg new now q).map Queued.pointer).count p ≤ (q.map Queued.pointer).count p +
      (if IsQueued new.pointer q then [] else [new.pointer]).count p := by
  rw [← List.count_append, ← map_pointer_placed]
  exact List.Sublist.count_le p (putKept_sublist.map _)

/-- A step returns no more than was queued or is inserted, and what it returns it takes away. -/
theorem accounted_step (h : Connections.Sound env build cfg written spared vs P)
    (hw : ∀ b ∈ (stepCalls env P i).filterMap writtenBy, written b) (k : String) (p : Pointer) :
    (returnsIn env build vs k P i).count (Hex.encode p.toList) +
        (Connections.queued (P.step mutexes env.handle i) k).count p ≤
      (Connections.queued P k).count p + (insertsIn env build vs k P i).count p := by
  rcases ht : P.threads[i]? with _ | t
  · have hnone : answerIn env P i = none := by rw [answerIn, ht]
    have hret : returnsIn env build vs k P i = [] := by
      rw [returnsIn, hnone]
      split <;> trivial
    rw [hret, Pool.step, ht, List.count_nil, Nat.zero_add]
    exact Nat.le_add_right _ _
  obtain ⟨-, v, hv, hat⟩ := h.threads i t ht
  have hs := stepped_verb h.state.reg hat (stepCalls_eq ht ▸ hw)
  rw [Connections.queued, Connections.queued, Pool.step_eq ht]
  dsimp only
  cases hs.effect with
  | quiet hq hkeeps hsilent =>
    -- nothing is queued or taken, and no pointer is returned
    have hret : returnsIn env build vs k P i = [] := by
      rw [returnsIn, hv]
      rcases hans : answerIn env P i with _ | val
      · split <;> trivial
      · obtain ⟨hrun, hval⟩ := (answerIn_eq_some ht).mp hans
        obtain ⟨req, rfl⟩ := hsilent hrun ⟨val, hval⟩
        rfl
    rw [hret, hq, List.count_nil, Nat.zero_add]
    exact Nat.le_add_right _ _
  | @put req ip a now hverb hrun hp hfiled hin hrw hres =>
    -- a put returns nothing, and inserts its pointer unless it is queued
    have hans : answerIn env P i = some (.object [("queued", .bool true)]) :=
      (answerIn_eq_some ht).mpr ⟨hrun, hres⟩
    subst hverb
    have hret : returnsIn env build vs k P i = [] := by rw [returnsIn, hv, hans]
    have hins : insertsIn env build vs k P i =
        if a.key = k ∧ ¬ IsQueued a.pointer (Queues.of P.state.queues k) then [a.pointer] else [] := by
      rw [insertsIn, hv, hans]
      dsimp only
      rw [hp.handle, hp.pointer]
    have hptr : (a.entry build).pointer = a.pointer := rfl
    rw [hret, hins, hrw.queues, List.count_nil, Nat.zero_add]
    by_cases hk : k = a.key
    · subst hk
      rw [if_pos rfl]
      refine (count_putKept_le p (a.entry build) now _).trans (Nat.add_le_add_left ?_ _)
      rw [hptr]
      by_cases hin : IsQueued a.pointer (Queues.of P.state.queues a.key)
      · rw [if_pos hin, if_neg fun h => h.2 hin]
      · rw [if_neg hin, if_pos ⟨rfl, hin⟩]
    · rw [if_neg hk]
      exact Nat.le_add_right _ _
  | @pop req ip j now hverb hh hrw hres =>
    -- a drain takes away what it returns
    subst hverb
    have hret : (returnsIn env build vs k P i).count (Hex.encode p.toList) ≤
        if j = k then (popOut now (readMax req) (Queues.of P.state.queues j)).count p else 0 := by
      rw [returnsIn, hv]
      rcases hans : answerIn env P i with _ | val
      · exact Nat.zero_le _
      · obtain ⟨-, hval⟩ := (answerIn_eq_some ht).mp hans
        rw [hres] at hval
        cases hval
        dsimp only
        rw [hh]
        dsimp only
        split
        · rw [responsePointers_pointersResponse, count_map_encode]
        · exact Nat.zero_le _
    rw [hrw.queues]
    by_cases hj : k = j
    · subst hj
      rw [if_pos rfl] at hret ⊢
      have hle := count_popOut_add_le p now (readMax req) (Queues.of P.state.queues k)
      omega
    · rw [if_neg (Ne.symm hj)] at hret
      rw [if_neg hj]
      omega

/-! ## Schedules -/

theorem sound_schedule (hnc : spared → NoCollision build written) {schedule : List ℕ}
    (hw : ∀ b ∈ writesAlong env P schedule, written b)
    (hsp : spared → P.Along mutexes env.handle (Spares env) schedule)
    (h : Connections.Sound env build cfg written spared vs P) :
    Connections.Sound env build cfg written spared vs (P.run mutexes env.handle schedule) := by
  induction schedule generalizing P with
  | nil => exact h
  | cons i schedule ih =>
    rw [writesAlong, Pool.collect, List.filterMap_append, List.forall_mem_append] at hw
    exact ih hw.2 (fun hspared => (hsp hspared).2) <|
      sound_request hnc hw.1 (fun hspared => (hsp hspared).1) h

/-- **What is returned was queued before or is inserted, and is not queued any more.** -/
theorem accounted_run (h : Connections.Sound env build cfg (fun _ => True) False vs P) (k : String)
    (p : Pointer) (schedule : List ℕ) :
    (returnsAlong env build vs k P schedule).count (Hex.encode p.toList) +
        (Connections.queued (P.run mutexes env.handle schedule) k).count p ≤
      (Connections.queued P k).count p + (insertsAlong env build vs k P schedule).count p := by
  induction schedule generalizing P with
  | nil =>
    rw [returnsAlong, insertsAlong, Pool.collect, Pool.collect, List.count_nil, List.count_nil]
    exact (Nat.zero_add _).le
  | cons i schedule ih =>
    have hone := accounted_step (i := i) h (fun _ _ => trivial) k p
    have hrest := ih (sound_request (i := i) False.elim (fun _ _ => trivial) False.elim h)
    have hrun : P.run mutexes env.handle (i :: schedule) =
        (P.step mutexes env.handle i).run mutexes env.handle schedule := rfl
    rw [returnsAlong, insertsAlong, Pool.collect, Pool.collect, List.count_append,
      List.count_append, hrun]
    rw [returnsAlong, insertsAlong] at hrest
    omega

/-- **Entries keep their files, and an insertion is returned once.** -/
theorem stored_concurrently (peer : σ) (vs : List Verb) (earlier schedule : List ℕ) :
    ReturnsOnce env build vs (scheduled env build cfg peer vs earlier) schedule ∧
      ((connected env build cfg peer vs).Along mutexes env.handle (Spares env) schedule →
        NoCollision build (· ∈ writesAlong env (connected env build cfg peer vs) schedule) →
        Stored (scheduled env build cfg peer vs schedule).state) := by
  let P := connected env build cfg peer vs
  have hstart (written : Bytes → Prop) (spared : Prop) :
      Connections.Sound env build cfg written spared vs P := sound_connected peer
  refine ⟨⟨fun h => ?_, fun h p => ?_⟩, fun hspares hnc => ?_⟩
  · exact (sound_schedule False.elim (fun _ _ => trivial) False.elim
      (hstart (fun _ => True) False)).state.distinct h
  · exact accounted_run (sound_schedule False.elim (fun _ _ => trivial) False.elim
      (hstart (fun _ => True) False)) h p schedule
  · exact (sound_schedule (fun _ => hnc) (fun _ => id) (fun _ => hspares)
      (hstart (· ∈ writesAlong env P schedule) True)).state.stored trivial

end

/-- Two pointers are put at the same time, and one of them is drained. -/
theorem stored_concurrently_two :
    let env : Env Unit := .still (fun p _ => (p, .error "closed")) 100
    let handle : U8Array 32 := .replicate 32 7
    let vs : List Verb := [.freg (fregRequest handle "token-0123456789" 60),
      .fput (fputRequest handle (pointerOf 1 200)) "ip",
      .fput (fputRequest handle (pointerOf 2 200)) "ip",
      .fpop (fpopRequest handle "token-0123456789" 1) "ip"]
    let schedule := [0, 0, 1, 2, 1, 2, 1, 2, 1, 2, 1, 2, 1, 2, 1, 2, 1, 3, 3, 3, 3, 3, 2]
    Stored (scheduled env .trailing {} () vs schedule).state :=
  (stored_concurrently () _ [] _).2 (by decide +kernel) (noCollision_of_mem (by decide +kernel))

theorem not_stored {w : World σ} {h : String}
    (hx : ∃ x ∈ Queues.of w.queues h, ¬ (w.dir.lookup (fenvFile x.envCidHex)).isSome) :
    ¬ Stored w := by
  obtain ⟨x, hx, hnone⟩ := hx
  exact fun hst => hnone (hst h x hx)

/-- A pointer is put twice in one second. The envelope of the second put is in its place when the
entry of the first is drained, and is removed with it. -/
theorem drained_envelope_queued :
    let env : Env Unit := .still (fun p _ => (p, .error "closed")) 100
    let handle : U8Array 32 := .replicate 32 7
    let vs : List Verb := [.freg (fregRequest handle "token-0123456789" 60),
      .fput (fputRequest handle (pointerOf 1 200)) "ip",
      .fput (fputRequest handle (pointerOf 1 200)) "ip",
      .fpop (fpopRequest handle "token-0123456789" 8) "ip"]
    let schedule := List.replicate 2 0 ++ List.replicate 8 1 ++ List.replicate 7 2 ++
      List.replicate 5 3 ++ [2]
    (∀ t ∈ (scheduled env .trailing {} () vs schedule).threads, t.rest.Finished) ∧
      ¬ Stored (scheduled env .trailing {} () vs schedule).state := by
  refine ⟨?_, not_stored (h := Hex.encode (List.Vector.replicate 32 7).toList) ?_⟩
  · decide +kernel
  · decide +kernel

end SporePeer
