import SporePeer.Fabric.Verbs

/-!
# The effects of the verbs

A loop over a queue keeps a part of it and removes the envelopes of the rest, so it is a list
function; a removal that fails is not noticed. With these functions an accepted put and a drain
are written down whole: what they make of the queue, and, where file operations succeed, of the
directory.

## Main definitions

* `World.dropAll`, `eraseAll`: the removal of envelopes
* `putResult`, `drainCount`: what a put and a drain make of a queue
* `lastReading`: when a program reads the clock for the last time
* `Put`, `Accepted`: an accepted put, and what it does
* `Drained`: what an accepted drain does

## Main results

* `exec_evictOldest`, `exec_retainLive`, `exec_drain`: the loops
* `exec_runFput`, `exec_runFpop`: a verb is accepted, or leaves queues and directory alone
-/

namespace SporePeer

open Effects Text Bytes

/-! ## Removal -/

/-- The directory without the envelopes `cids`. -/
def eraseAll (cids : List String) (dir : Table String FileData) : Table String FileData :=
  cids.foldl (fun dir c => dir.erase (fenvFile c)) dir

theorem eraseAll_cons (c : String) (cids : List String) (dir : Table String FileData) :
    eraseAll (c :: cids) dir = eraseAll cids (dir.erase (fenvFile c)) := rfl

theorem eraseAll_append (cs ds : List String) (dir : Table String FileData) :
    eraseAll (cs ++ ds) dir = eraseAll ds (eraseAll cs dir) := List.foldl_append

theorem lookup_eraseAll (cids : List String) (dir : Table String FileData) (name : String) :
    (eraseAll cids dir).lookup name =
      if ∃ c ∈ cids, name = fenvFile c then none else dir.lookup name := by
  induction cids generalizing dir with
  | nil => simp [eraseAll]
  | cons c cids ih =>
    rw [eraseAll_cons, ih, Table.lookup_erase_eq]
    simp only [List.mem_cons, exists_eq_or_imp]
    by_cases hc : name = fenvFile c <;> by_cases hcs : ∃ c ∈ cids, name = fenvFile c <;>
      simp [hc, hcs]

section

variable {σ : Type}

/-- The world after the envelopes `cids` have been removed one by one. -/
def World.dropAll (env : Env σ) (w : World σ) (cids : List String) : World σ :=
  cids.foldl (fun w c => env.removeFile w (fenvFile c)) w

variable {env : Env σ} {w : World σ}

theorem World.dropAll_cons (c : String) (cids : List String) :
    w.dropAll env (c :: cids) = (env.removeFile w (fenvFile c)).dropAll env cids := rfl

theorem Env.removeFile_sameMemory (name : String) : SameMemory w (env.removeFile w name) := by
  unfold Env.removeFile
  split <;> exact ⟨rfl, rfl, rfl, Nat.le_succ _⟩

theorem World.dropAll_sameMemory (env : Env σ) (w : World σ) (cids : List String) :
    SameMemory w (w.dropAll env cids) := by
  induction cids generalizing w with
  | nil => exact .refl w
  | cons c cids ih => exact (Env.removeFile_sameMemory _).trans (ih _)

/-- A removal that fails takes a call as well. -/
theorem World.dropAll_tick (env : Env σ) (w : World σ) (cids : List String) :
    (w.dropAll env cids).tick = w.tick + cids.length := by
  induction cids generalizing w with
  | nil => rfl
  | cons c cids ih =>
    have hone : (env.removeFile w (fenvFile c)).tick = w.tick + 1 := by
      unfold Env.removeFile
      split <;> rfl
    rw [World.dropAll_cons, ih, hone, List.length_cons]
    omega

/-- A removal takes nothing but the envelopes named, if it succeeds. -/
theorem World.dropAll_lookup (env : Env σ) (w : World σ) (cids : List String) (name : String) :
    (w.dropAll env cids).dir.lookup name = w.dir.lookup name ∨
      (w.dropAll env cids).dir.lookup name = none ∧ ∃ c ∈ cids, name = fenvFile c := by
  induction cids generalizing w with
  | nil => exact .inl rfl
  | cons c cids ih =>
    have hone : (env.removeFile w (fenvFile c)).dir.lookup name = w.dir.lookup name ∨
        (env.removeFile w (fenvFile c)).dir.lookup name = none ∧ name = fenvFile c := by
      unfold Env.removeFile
      split
      · exact .inl rfl
      · rw [Table.lookup_erase_eq]
        split
        · exact .inr ⟨rfl, ‹_›⟩
        · exact .inl rfl
    rw [World.dropAll_cons]
    rcases ih (env.removeFile w (fenvFile c)) with heq | ⟨hnone, d, hd, hname⟩
    · rw [heq]
      rcases hone with h | ⟨h, hname⟩
      · exact .inl h
      · exact .inr ⟨h, c, List.mem_cons_self, hname⟩
    · exact .inr ⟨hnone, d, List.mem_cons_of_mem _ hd, hname⟩

theorem World.dropAll_dir (hcalm : env.Calm) (cids : List String) :
    (w.dropAll env cids).dir = eraseAll cids w.dir := by
  induction cids generalizing w with
  | nil => rfl
  | cons c cids ih =>
    have hdir : (env.removeFile w (fenvFile c)).dir = w.dir.erase (fenvFile c) := by
      simp only [Env.removeFile, hcalm w.tick]
    rw [World.dropAll_cons, ih, hdir, eraseAll_cons]

end

/-! ## List functions -/

/-- How many entries a drain with the given room takes off a queue: it stops when the room is
filled by entries that live. -/
def drainCount (now : ℕ) : ℕ → List Queued → ℕ
  | _, [] => 0
  | room, x :: q =>
    if room = 0 then 0 else drainCount now (if now < x.deadline then room - 1 else room) q + 1

/-- The queue after `putPointer`, and the envelopes that were removed. -/
def putResult (cfg : FabricConfig) (new : Queued) (q : List Queued) : List Queued × List String :=
  match q.find? fun x => x.pointer = new.pointer with
  | some old =>
    (refresh new.pointer new.envCidHex new.deadline q,
      if old.envCidHex ≠ new.envCidHex then [old.envCidHex] else [])
  | none =>
    ((q ++ [new]).drop ((q ++ [new]).length - cfg.maxPerHandle),
      ((q ++ [new]).take ((q ++ [new]).length - cfg.maxPerHandle)).map Queued.envCidHex)

/-! ## Loops -/

section

variable {σ : Type} {env : Env σ} {w : World σ}

theorem exec_dropEnvelope (c : String) :
    exec env.handle (dropEnvelope c) w = (env.removeFile w (fenvFile c), .ok (.ok ())) := rfl

/-- The cap keeps the newest entries. -/
theorem exec_evictOldest (max : ℕ) (q : List Queued) :
    exec env.handle (evictOldest max q) w =
      (w.dropAll env ((q.take (q.length - max)).map Queued.envCidHex),
        .ok (.ok (q.drop (q.length - max)))) := by
  induction q generalizing w with
  | nil =>
    rw [List.length_nil, Nat.zero_sub]
    rfl
  | cons x q ih =>
    unfold evictOldest
    by_cases hmax : max < (x :: q).length
    · have hsub : (x :: q).length - max = (q.length - max) + 1 := by
        rw [List.length_cons] at hmax ⊢
        omega
      rw [if_pos hmax, exec_bind_ok (exec_dropEnvelope _), ih, hsub, List.take_succ_cons,
        List.drop_succ_cons, List.map_cons, World.dropAll_cons]
    · rw [if_neg hmax, Nat.sub_eq_zero_of_le (not_lt.mp hmax)]
      rfl

/-- What has expired leaves the queue. -/
theorem exec_retainLive (now : ℕ) (q : List Queued) :
    exec env.handle (retainLive now q) w =
      (w.dropAll env ((q.filter fun x => x.deadline ≤ now).map Queued.envCidHex),
        .ok (.ok (q.filter fun x => now < x.deadline))) := by
  induction q generalizing w with
  | nil => rfl
  | cons x q ih =>
    unfold retainLive
    by_cases hx : x.deadline ≤ now
    · rw [if_pos hx, exec_bind_ok (exec_dropEnvelope _), ih,
        List.filter_cons_of_pos (by simpa using hx), List.filter_cons_of_neg (by simpa using hx),
        List.map_cons, World.dropAll_cons]
    · rw [if_neg hx, exec_bind_ok ih, List.filter_cons_of_neg (by simpa using hx),
        List.filter_cons_of_pos (by simpa using hx)]
      rfl

/-- A drain takes a prefix of the queue, and delivers what lives in it. -/
theorem exec_drain (env : Env σ) (w : World σ) (now max : ℕ) (q : List Queued) (out : List Pointer) :
    exec env.handle (drain now max q out) w =
      (w.dropAll env ((q.take (drainCount now (max - out.length) q)).map Queued.envCidHex),
        .ok (.ok (q.drop (drainCount now (max - out.length) q),
          out ++ ((q.take (drainCount now (max - out.length) q)).filter
            fun x => now < x.deadline).map Queued.pointer))) := by
  induction q generalizing w out with
  | nil =>
    rw [drainCount, List.drop_nil, List.take_nil, List.filter_nil, List.map_nil, List.map_nil,
      List.append_nil]
    rfl
  | cons x q ih =>
    unfold drain
    by_cases hroom : out.length < max
    · rw [if_pos hroom, exec_bind_ok (exec_dropEnvelope _), ih]
      -- an entry that has run out is dropped too, but not returned
      by_cases hx : now < x.deadline
      · have hcount : drainCount now (max - out.length) (x :: q) =
            drainCount now (max - (out.length + 1)) q + 1 := by
          rw [drainCount, if_neg (by omega), if_pos hx]
          rfl
        rw [hcount, if_pos hx, List.length_append, List.length_singleton, List.take_succ_cons,
          List.drop_succ_cons, List.map_cons, World.dropAll_cons,
          List.filter_cons_of_pos (by simpa using hx), List.map_cons, List.append_assoc]
        rfl
      · have hcount : drainCount now (max - out.length) (x :: q) =
            drainCount now (max - out.length) q + 1 := by
          rw [drainCount, if_neg (by omega), if_neg hx]
        rw [hcount, if_neg hx, List.take_succ_cons, List.drop_succ_cons, List.map_cons,
          World.dropAll_cons, List.filter_cons_of_neg (by simpa using hx)]
    · have hcount : drainCount now (max - out.length) (x :: q) = 0 := by
        rw [drainCount, if_pos (by omega)]
      rw [if_neg hroom, hcount, List.take_zero, List.drop_zero, List.filter_nil, List.map_nil,
        List.map_nil, List.append_nil]
      rfl

theorem exec_putPointer (cfg : FabricConfig) (new : Queued) (q : List Queued) :
    exec env.handle (putPointer cfg new q) w =
      (w.dropAll env (putResult cfg new q).2, .ok (.ok (putResult cfg new q).1)) := by
  unfold putPointer putResult
  cases q.find? fun x => x.pointer = new.pointer with
  | none => exact exec_evictOldest _ _
  | some old =>
    dsimp only
    by_cases hc : old.envCidHex ≠ new.envCidHex
    · rw [if_pos hc, if_pos hc]
      rfl
    · rw [if_neg hc, if_neg hc]
      rfl

/-! ## Queue sections -/

/-- The entries that a put of `new` keeps, its clock reading `now`. -/
def putKept (cfg : FabricConfig) (new : Queued) (now : ℕ) (q : List Queued) : List Queued :=
  (putResult cfg new q).1.filter fun x => now < x.deadline

/-- The envelopes that a put of `new` removes, its clock reading `now`. -/
def putDropped (cfg : FabricConfig) (new : Queued) (now : ℕ) (q : List Queued) : List String :=
  (putResult cfg new q).2 ++
    ((putResult cfg new q).1.filter fun x => x.deadline ≤ now).map Queued.envCidHex

/-- The pointers that a drain delivers. -/
def popOut (now max : ℕ) (q : List Queued) : List Pointer :=
  ((q.take (drainCount now max q)).filter fun x => now < x.deadline).map Queued.pointer

/-- The envelopes that a drain removes. -/
def popDropped (now max : ℕ) (q : List Queued) : List String :=
  (q.take (drainCount now max q)).map Queued.envCidHex

/-- What a section on the queue of `h` does: the queue becomes `q`, and the envelopes `cids` are
removed. -/
structure Rewrites (env : Env σ) (h : String) (q : List Queued) (cids : List String)
    (w w' : World σ) : Prop where
  reg : w'.reg = w.reg
  lastSweepSec : w'.lastSweepSec = w.lastSweepSec
  queues : ∀ k, Queues.of w'.queues k = if k = h then q else Queues.of w.queues k
  /-- A removal may fail. -/
  shrinks : ∀ name, w'.dir.lookup name = w.dir.lookup name ∨
    w'.dir.lookup name = none ∧ ∃ c ∈ cids, name = fenvFile c
  removes : env.Calm → ∀ name, w'.dir.lookup name =
    if ∃ c ∈ cids, name = fenvFile c then none else w.dir.lookup name

/-- A section that removes envelopes, and then gives `h` the queue `q`. -/
theorem rewrites_of_dir {h : String} {q : List Queued} {cids : List String} {w v : World σ}
    (hmem : SameMemory w v)
    (hshrinks : ∀ name, v.dir.lookup name = w.dir.lookup name ∨
      v.dir.lookup name = none ∧ ∃ c ∈ cids, name = fenvFile c)
    (hdir : env.Calm → v.dir = eraseAll cids w.dir) :
    Rewrites env h q cids w { v with queues := w.queues.insert h q } where
  reg := hmem.reg
  lastSweepSec := hmem.lastSweepSec
  queues k := Queues.of_insert w.queues h k q
  shrinks := hshrinks
  removes hcalm name := by
    change v.dir.lookup name = _
    rw [hdir hcalm, lookup_eraseAll]

/-- The readings of the clock. -/
def isReading : (β : Type) → Op β → Bool
  | _, .nowSec => true
  | _, _ => false

/-- The moment at which `m` reads the clock for the last time, if it does. -/
def lastReading {α : Type} (env : Env σ) (m : Fallible Op α) (w : World σ) : Option ℕ :=
  (lastAsked env.handle isReading m w).map World.tick

theorem lastReading_ask_bind {α β : Type} (e : Op α) (f : α → Fallible Op β) :
    lastReading env (ask e >>= f) w =
      (lastReading env (f (env.handle _ e w).2) (env.handle _ e w).1).or
        (if isReading _ e then some w.tick else none) := by
  rw [lastReading, lastAsked_ask_bind, Option.map_or]
  cases isReading _ e <;> rfl

theorem lastReading_bind_ok {α β : Type} {m : Fallible Op α} {f : α → Fallible Op β}
    {w' : World σ} {a : α} (hm : exec env.handle m w = (w', .ok (.ok a))) :
    lastReading env (m >>= f) w = (lastReading env (f a) w').or (lastReading env m w) := by
  rw [lastReading, lastAsked_bind_ok hm, Option.map_or]
  rfl

/-- The lock of a mutex and its unlock read no clock. -/
theorem lastReading_locked {α : Type} (l : Mutex) (p : Fallible Op α) :
    lastReading env (locked l p) w = lastReading env p w := by
  have hl : (locked l p).run = Program.call (.lock l) fun _ => (p.run >>= fun r =>
      Program.perform (.unlock l) >>= fun _ => pure r) := rfl
  have hw : (env.handle _ (.lock l) w).1 = w := rfl
  rw [lastReading, lastReading, lastAsked, lastAsked, hl, Program.lastAt, hw, Program.lastAt_bind]
  rcases Program.run env.handle p.run w with ⟨s', q | r⟩
  · simp [isReading]
  · simp [isReading, Program.lastAt, Program.perform, bind, Program.bind, pure]

theorem isReading_of_removeOp {β : Type} {e : Op β} (h : RemoveOp β e) :
    isReading β e = false := by
  cases e with
  | removeFile name => rfl
  | _ => exact h.elim

/-- A put reads the clock for the last time behind the removals of the cap. -/
theorem lastReading_putQueue (env : Env σ) (w : World σ) (cfg : FabricConfig) (h : String)
    (new : Queued) : lastReading env (putQueue cfg h new) w =
      some (w.tick + (putResult cfg new (Queues.of w.queues h)).2.length) := by
  -- what is behind the reading reads no clock
  have hrest (q : List Queued) (queues : Queues) (v : World σ) : lastReading env (do
      let now ← ask .nowSec
      let q ← retainLive now q
      ask (.setQueues (queues.insert h q))) v = some v.tick := by
    have hnone (now : ℕ) : Only (fun _ e => isReading _ e = false) (do
        let q ← retainLive now q
        ask (.setQueues (queues.insert h q))) :=
      only_bind ((tidy_retainLive now q).only.mono fun _ _ => isReading_of_removeOp) fun _ =>
        only_ask rfl
    rw [lastReading_ask_bind, lastReading, (hnone _).lastAsked]
    rfl
  rw [putQueue, lastReading_locked, lastReading_ask_bind, lastReading_bind_ok (exec_putPointer _ _ _),
    hrest, ← w.dropAll_tick env]
  rfl

/-- The queue section of a put, with the moment at which it reads the clock: behind the removals of
the cap. -/
theorem exec_putQueue_at (env : Env σ) (w : World σ) (cfg : FabricConfig) (h : String)
    (new : Queued) :
    let t := w.tick + (putResult cfg new (Queues.of w.queues h)).2.length
    ∃ w', exec env.handle (putQueue cfg h new) w = (w', .ok (.ok ())) ∧ t < w'.tick ∧
      Rewrites env h (putKept cfg new (env.clock t) (Queues.of w.queues h))
        (putDropped cfg new (env.clock t) (Queues.of w.queues h)) w w' := by
  intro t
  let q := Queues.of w.queues h
  -- the files that the cap evicts go first, and then those that have run out
  let w₁ := w.dropAll env (putResult cfg new q).2
  let expired := ((putResult cfg new q).1.filter fun x =>
    x.deadline ≤ env.clock w₁.tick).map Queued.envCidHex
  let w₂ := w₁.next.dropAll env expired
  have hmem₁ : SameMemory w w₁ := w.dropAll_sameMemory env _
  have hmem₂ : SameMemory w₁.next w₂ := w₁.next.dropAll_sameMemory env _
  have hmem : SameMemory w w₂ :=
    hmem₁.trans (w₁.next_sameMemory.trans hmem₂)
  have ht : t = w₁.tick := (w.dropAll_tick env _).symm
  rw [ht]
  refine ⟨{ w₂ with queues := w.queues.insert h (putKept cfg new (env.clock w₁.tick) q) }, ?_,
    hmem₂.tick, rewrites_of_dir hmem (fun name => ?_) fun hcalm => ?_⟩
  · rw [putQueue, exec_locked, exec_ask_bind, exec_bind_ok (exec_putPointer _ _ _), exec_ask_bind,
      exec_bind_ok (exec_retainLive _ _)]
    rfl
  · rcases w₁.next.dropAll_lookup env expired name with
      heq | ⟨hnone, c, hc, hname⟩
    · rw [heq]
      rcases w.dropAll_lookup env (putResult cfg new q).2 name with
        h | ⟨h, c, hc, hname⟩
      · exact .inl h
      · exact .inr ⟨h, c, List.mem_append_left _ hc, hname⟩
    · exact .inr ⟨hnone, c, List.mem_append_right _ hc, hname⟩
  · rw [putDropped, eraseAll_append, ← World.dropAll_dir hcalm]
    exact World.dropAll_dir hcalm _

/-- A put rewrites its queue as of one reading of the clock, the last one that it makes. -/
theorem exec_putQueue (env : Env σ) (w : World σ) (cfg : FabricConfig) (h : String)
    (new : Queued) :
    ∃ w' t, exec env.handle (putQueue cfg h new) w = (w', .ok (.ok ())) ∧
      w.tick ≤ t ∧ t < w'.tick ∧ lastReading env (putQueue cfg h new) w = some t ∧
      Rewrites env h (putKept cfg new (env.clock t) (Queues.of w.queues h))
        (putDropped cfg new (env.clock t) (Queues.of w.queues h)) w w' := by
  obtain ⟨w', hput, ht, heff⟩ := exec_putQueue_at env w cfg h new
  exact ⟨w', _, hput, Nat.le_add_right _ _, ht, lastReading_putQueue env w cfg h new, heff⟩

/-- A drain of an unknown handle finds an empty queue. -/
theorem exec_drainQueue (env : Env σ) (w : World σ) (h : String) (now max : ℕ) :
    ∃ w', exec env.handle (drainQueue h now max) w =
        (w', .ok (.ok (popOut now max (Queues.of w.queues h)))) ∧ w.tick ≤ w'.tick ∧
      Rewrites env h ((Queues.of w.queues h).drop (drainCount now max (Queues.of w.queues h)))
        (popDropped now max (Queues.of w.queues h)) w w' := by
  rcases hq : w.queues.lookup h with _ | q
  · -- no queue: nothing is taken
    have hof : Queues.of w.queues h = [] := by rw [Queues.of, hq, Option.getD_none]
    refine ⟨w, ?_, le_rfl, rfl, rfl, fun k => ?_, fun _ => .inl rfl, fun _ name => ?_⟩
    · rw [drainQueue, exec_locked, exec_ask_bind]
      simp only [Env.handle, hq, hof]
      rfl
    · split
      · rename_i hk
        rw [hk, hof, List.drop_nil]
      · rfl
    · rw [hof, popDropped, List.take_nil, if_neg (by simp)]
  · have hof : Queues.of w.queues h = q := by rw [Queues.of, hq, Option.getD_some]
    rw [hof]
    refine ⟨{ w.dropAll env (popDropped now max q) with
        queues := w.queues.insert h (q.drop (drainCount now max q)) }, ?_,
      (w.dropAll_sameMemory env _).tick,
      rewrites_of_dir (w.dropAll_sameMemory env _) (w.dropAll_lookup env _)
        fun hcalm => World.dropAll_dir hcalm _⟩
    have hdrain := exec_drain env w now max q []
    rw [List.length_nil, Nat.sub_zero, List.nil_append] at hdrain
    rw [drainQueue, exec_locked, exec_ask_bind]
    simp only [Env.handle, hq]
    rw [exec_bind_ok hdrain]
    rfl

/-! ## Accepted puts -/

/-- The file of the envelope `c` becomes `d`, by way of its temporary file. -/
def Persists (c : String) (d : FileData) (w w' : World σ) : Prop :=
  ∀ name, w'.dir.lookup name =
    if name = fenvFile c then some d
    else if name = tmpFile c then none
    else w.dir.lookup name

/-- Nothing but temporary files differs, and nothing at all where file operations succeed. -/
structure Unstored (env : Env σ) (w w' : World σ) : Prop extends SameMemory w w' where
  keeps : ∀ name, (∀ c, name ≠ tmpFile c) → w'.dir.lookup name = w.dir.lookup name
  calm : env.Calm → w'.dir = w.dir

theorem Untouched.unstored {w w' : World σ} (h : Untouched w w') : Unstored env w w' :=
  ⟨h.toSameMemory, fun name _ => by rw [h.dir], fun _ => h.dir⟩

theorem Unstored.trans {w w' w'' : World σ} (h : Unstored env w w') (h' : Unstored env w' w'') :
    Unstored env w w'' :=
  ⟨h.toSameMemory.trans h'.toSameMemory,
    fun name hn => (h'.keeps name hn).trans (h.keeps name hn),
    fun hcalm => (h'.calm hcalm).trans (h.calm hcalm)⟩

/-- An envelope is stored whole, or not at all; and whole where file operations succeed. -/
theorem exec_persistEnvelope (env : Env σ) (w : World σ) (c : String) (raw : Bytes) :
    (∃ w' sec, exec env.handle (persistEnvelope c raw) w = (w', .ok (.ok ())) ∧
      SameMemory w w' ∧ Persists c ⟨raw, sec⟩ w w') ∨
    ∃ w' e, exec env.handle (persistEnvelope c raw) w = (w', .ok (.error e)) ∧
      Unstored env w w' ∧ ¬ env.Calm := by
  rw [persistEnvelope, exec_ask_bind]
  simp only [Env.handle, Env.write]
  rcases hf : env.fault w.tick with _ | ⟨text, left⟩
  · dsimp only [Except.mapError]
    rw [exec_orFail_ok_bind, exec_ask_bind]
    simp only [Env.handle, Env.rename]
    dsimp only [World.next]
    -- the write has succeeded; the rename may fail
    rcases hf' : env.fault (w.tick + 1) with _ | f
    · rw [AList.lookup_insert]
      refine .inl ⟨_, env.stamp w.tick, rfl, ⟨rfl, rfl, rfl, by dsimp only; omega⟩, fun name => ?_⟩
      dsimp only
      rw [Table.lookup_insert_eq, Table.lookup_erase_eq, Table.lookup_insert_eq]
      split
      · rfl
      · split <;> rfl
    · have hstorm : ¬ env.Calm := fun hcalm => by
        rw [hcalm] at hf'
        cases hf'
      refine .inr ⟨_, _, rfl, ⟨⟨rfl, rfl, rfl, by dsimp only; omega⟩, fun name hn => ?_,
        fun hcalm => absurd hcalm hstorm⟩, hstorm⟩
      exact AList.lookup_insert_ne (hn c)
  · have hstorm : ¬ env.Calm := fun hcalm => by
      rw [hcalm] at hf
      cases hf
    -- a write that fails leaves nothing, or a part under the temporary name
    rcases left with _ | n
    · exact .inr ⟨_, _, rfl, ⟨w.next_sameMemory, fun _ _ => rfl, fun _ => rfl⟩, hstorm⟩
    · refine .inr ⟨_, _, rfl, ⟨⟨rfl, rfl, rfl, Nat.le_succ _⟩, fun name hn => ?_,
        fun hcalm => absurd hcalm hstorm⟩, hstorm⟩
      exact AList.lookup_insert_ne (hn c)

/-- A put to be accepted: its handle, its pointer and the second it arrives. -/
structure Put where
  handle : U8Array 32
  pointer : Pointer
  receivedAt : ℕ

namespace Put

variable (build : Build) (p : Put)

/-- The key of the queue. -/
def key : String := Hex.encode p.handle.toList

def envelope : Envelope := ⟨p.handle, p.pointer, p.receivedAt⟩

end Put

/-- The name of an envelope: the hash of its bytes. -/
def Envelope.cidHex (build : Build) (e : Envelope) : String :=
  Hex.encode (build.sha256 (marshalEnvelope e)).toList

/-- The entry that is queued for a put. -/
def Put.entry (build : Build) (p : Put) : Queued :=
  ⟨p.pointer, p.envelope.cidHex build, p.pointer.deadline, p.receivedAt⟩

/-- What a call writes to a file. -/
def writtenBy : (Σ β, Op β) → Option Bytes
  | ⟨_, .write _ content⟩ => some content
  | _ => none

/-- The contents that a program writes to files. -/
def written {α : Type} (env : Env σ) (m : Fallible Op α) (w : World σ) : List Bytes :=
  (trace env.handle m w).filterMap writtenBy

/-- The put `p` is accepted, and composts at the time `now`. -/
structure Accepted (env : Env σ) (build : Build) (cfg : FabricConfig) (req : Value) (ip : String)
    (p : Put) (now : ℕ) (w w' : World σ) : Prop where
  handle : readHandle build "400 fput needs handle" req = .ok p.key
  registered : ∃ r, w.reg.lookup p.key = some r
  pointer : fputPointer req = .ok p.pointer
  clock : ∃ t₀ t₁ t₂, w.tick ≤ t₀ ∧ t₀ < t₁ ∧ t₁ < t₂ ∧ t₂ < w'.tick ∧
    env.clock t₀ < p.pointer.deadline ∧ p.receivedAt = env.clock t₁ ∧ now = env.clock t₂ ∧
    lastReading env (runFput build cfg req ip) w = some t₂ ∧
    ∃ horizon, addU64 build.overflowChecks (env.clock t₀) cfg.maxDeadlineHorizonSec = .ok horizon ∧
      p.pointer.deadline ≤ horizon
  written : marshalEnvelope p.envelope ∈ written env (runFput build cfg req ip) w
  effect : ∃ v sec, SameMemory w v ∧
    Persists (p.envelope.cidHex build) ⟨marshalEnvelope p.envelope, sec⟩ w v ∧
    Rewrites env p.key (putKept cfg (p.entry build) now (Queues.of w.queues p.key))
      (putDropped cfg (p.entry build) now (Queues.of w.queues p.key)) v w'

variable {build : Build} {cfg : FabricConfig} {req : Value} {ip : String}

/-- Within the horizon a put goes on to the disk and to the queue. -/
theorem fputStore_eq {handle : U8Array 32} {pointer : Pointer} {now horizon : ℕ}
    (hadd : addU64 build.overflowChecks now cfg.maxDeadlineHorizonSec = .ok horizon)
    (hle : pointer.deadline ≤ horizon) :
    fputStore build cfg (Hex.encode handle.toList) pointer now = (do
      let receivedAt ← ask .nowSec
      let p : Put := ⟨handle, pointer, receivedAt⟩
      persistEnvelope (p.envelope.cidHex build) (marshalEnvelope p.envelope)
      putQueue cfg p.key (p.entry build)) := by
  rw [fputStore, hadd, orPanic_ok_bind, refuseIf_bind_of_not (not_lt.mpr hle), handleBytes_encode,
    orPanic_ok_bind]
  rfl

/-- Beyond the horizon it is refused before it touches either. -/
theorem fputStore_beyond {h : String} {pointer : Pointer} {now horizon : ℕ}
    (hadd : addU64 build.overflowChecks now cfg.maxDeadlineHorizonSec = .ok horizon)
    (hlt : ¬ pointer.deadline ≤ horizon) :
    fputStore build cfg h pointer now = throw "400 deadline beyond horizon cap" := by
  rw [fputStore, hadd, orPanic_ok_bind, refuseIf_bind_of (not_le.mp hlt)]

theorem written_persistEnvelope (env : Env σ) (w : World σ) (c : String) (raw : Bytes) :
    raw ∈ written env (persistEnvelope c raw) w := by
  have hcall : writtenBy ⟨_, .write (tmpFile c) raw⟩ = some raw := rfl
  rw [written, persistEnvelope, trace_ask_bind, List.filterMap_cons_some hcall]
  exact List.mem_cons_self

/-- The rest of a put, from its horizon check on. -/
theorem exec_fputStore (env : Env σ) (w : World σ) (build : Build) (cfg : FabricConfig)
    (handle : U8Array 32) (pointer : Pointer) (now : ℕ) :
    (∃ w' t horizon, exec env.handle (fputStore build cfg (Hex.encode handle.toList) pointer now) w =
        (w', .ok (.ok ())) ∧
      addU64 build.overflowChecks now cfg.maxDeadlineHorizonSec = .ok horizon ∧
      pointer.deadline ≤ horizon ∧ w.tick < t ∧ t < w'.tick ∧
      lastReading env (fputStore build cfg (Hex.encode handle.toList) pointer now) w = some t ∧
      let p : Put := ⟨handle, pointer, env.clock w.tick⟩
      marshalEnvelope p.envelope ∈
        written env (fputStore build cfg (Hex.encode handle.toList) pointer now) w ∧
      ∃ v sec, SameMemory w v ∧
        Persists (p.envelope.cidHex build) ⟨marshalEnvelope p.envelope, sec⟩ w v ∧
        Rewrites env p.key (putKept cfg (p.entry build) (env.clock t) (Queues.of w.queues p.key))
          (putDropped cfg (p.entry build) (env.clock t) (Queues.of w.queues p.key)) v w') ∨
    ∃ w' r, exec env.handle (fputStore build cfg (Hex.encode handle.toList) pointer now) w = (w', r) ∧
      (∀ u, r ≠ .ok (.ok u)) ∧ Unstored env w w' := by
  have hrefl : Unstored env w w := ⟨.refl w, fun _ _ => rfl, fun _ => rfl⟩
  rcases hadd : addU64 build.overflowChecks now cfg.maxDeadlineHorizonSec with q | horizon
  · refine .inr ⟨w, .error q, ?_, (fun _ h => by cases h), hrefl⟩
    rw [fputStore, hadd]
    rfl
  -- beyond the horizon nothing is stored
  by_cases hle : pointer.deadline ≤ horizon
  · have hnext : Unstored env w w.next := ⟨w.next_sameMemory, fun _ _ => rfl, fun _ => rfl⟩
    let p : Put := ⟨handle, pointer, env.clock w.tick⟩
    rw [fputStore_eq hadd hle, exec_ask_bind]
    rcases exec_persistEnvelope env w.next (p.envelope.cidHex build)
      (marshalEnvelope p.envelope) with ⟨v, sec, hp, hmem, hdir⟩ | ⟨v, e, hp, hun, -⟩
    · obtain ⟨w', t, hput, htv, ht, hlast, heff⟩ := exec_putQueue env v cfg p.key (p.entry build)
      refine .inl ⟨w', t, horizon, ?_, rfl, hle, ?_, ht, ?_, ?_, v, sec, ?_, hdir, ?_⟩
      · exact (exec_bind_ok hp).trans hput
      · exact lt_of_lt_of_le (Nat.lt_succ_self _) (hmem.tick.trans htv)
      · have hstored : lastReading env (do
            persistEnvelope (p.envelope.cidHex build) (marshalEnvelope p.envelope)
            putQueue cfg p.key (p.entry build)) w.next = some t := by
          rw [lastReading_bind_ok hp, hlast]
          rfl
        rw [lastReading_ask_bind]
        exact congrArg (fun t : Option ℕ => t.or (some w.tick)) hstored
      · rw [written, trace_ask_bind]
        refine List.filterMap_subset _ (List.subset_cons_of_subset _ (trace_subset_bind _ _)) ?_
        exact written_persistEnvelope env w.next (p.envelope.cidHex build) _
      · exact w.next_sameMemory.trans hmem
      · have hq : v.queues = w.queues := hmem.queues
        rw [hq] at heff
        exact heff
    · -- the envelope could not be persisted, so it is not queued
      exact .inr ⟨v, _, exec_bind_error hp, (fun _ h => by cases h), hnext.trans hun⟩
  · refine .inr ⟨w, .ok (.error "400 deadline beyond horizon cap"), ?_, (fun _ h => by cases h),
      hrefl⟩
    rw [fputStore, hadd, orPanic_ok_bind, exec_refuseIf_bind, if_pos (not_le.mp hle)]

/-- A put is accepted, or the relay is left alone. -/
theorem exec_runFput (env : Env σ) (build : Build) (cfg : FabricConfig) (req : Value)
    (ip : String) (hreg : Registered w.reg) :
    (∃ p now, (exec env.handle (runFput build cfg req ip) w).2 =
        .ok (.ok (.object [("queued", .bool true)])) ∧
      Accepted env build cfg req ip p now w (exec env.handle (runFput build cfg req ip) w).1) ∨
    (∀ v, (exec env.handle (runFput build cfg req ip) w).2 ≠ .ok (.ok v)) ∧
      Unstored env w (exec env.handle (runFput build cfg req ip) w).1 := by
  have hun := untouched_of_gateOp env w (tidy_fputGate build cfg req ip).only
  unfold runFput
  rcases hgate : exec env.handle (fputGate build cfg req ip) w with ⟨w₁, q | e | ⟨h, pointer, now⟩⟩
  · rw [hgate] at hun
    rw [exec_bind_panic hgate]
    exact .inr ⟨(fun _ h => by cases h), hun.unstored⟩
  · rw [hgate] at hun
    rw [exec_bind_error hgate]
    exact .inr ⟨(fun _ h => by cases h), hun.unstored⟩
  rw [hgate] at hun
  obtain ⟨hh, ⟨r, hr⟩, hp, hlive, t₀, ht₀, ht₁, rfl⟩ := exec_fputGate_ok hgate
  -- the handle is registered, so it is a spelling of 32 bytes
  obtain ⟨⟨handle, rfl⟩, -⟩ := hreg h r hr
  rw [exec_bind_ok hgate]
  rcases exec_fputStore env w₁ build cfg handle pointer (env.clock t₀) with
    ⟨w', t, horizon, hstore, hadd, hle, ht, ht', hlast, hwritten, v, sec, hmem, hdir, heff⟩ |
    ⟨w', r, hstore, hr', hkept⟩
  · refine .inl ⟨⟨handle, pointer, env.clock w₁.tick⟩, env.clock t, ?_, ?_⟩
    · exact congrArg Prod.snd (exec_bind_ok hstore)
    · rw [exec_bind_ok hstore]
      refine ⟨hh, ⟨r, hr⟩, hp, ⟨t₀, w₁.tick, t, ht₀, ht₁, ht, ht', hlive, rfl, rfl, ?_, horizon, hadd,
        hle⟩, ?_, v, sec, hun.toSameMemory.trans hmem, fun name => ?_, ?_⟩
      · rw [runFput, lastReading_bind_ok hgate]
        dsimp only
        rw [lastReading_bind_ok hstore, hlast]
        rfl
      · rw [runFput, written, trace_bind_ok hgate, List.filterMap_append]
        refine List.mem_append_right _ ?_
        exact List.filterMap_subset _ (trace_subset_bind _ _) hwritten
      · rw [← hun.dir]
        exact hdir name
      · rw [← hun.queues]
        exact heff
  · right
    rw [exec_bind, hstore]
    rcases r with q | e | u
    · exact ⟨(fun _ h => by cases h), hun.unstored.trans hkept⟩
    · exact ⟨(fun _ h => by cases h), hun.unstored.trans hkept⟩
    · exact absurd rfl (hr' u)

/-! ## Accepted drains -/

/-- The drain of `h` is accepted, its clock reading `now`. -/
structure Drained (env : Env σ) (build : Build) (req : Value) (h : String) (now : ℕ)
    (w w' : World σ) : Prop where
  handle : readHandle build "400 fpop needs handle" req = .ok h
  authorised : ∃ r t, w.reg.lookup h = some r ∧ w.tick ≤ t ∧ t < w'.tick ∧ env.clock t < r.expires ∧
    ctEq r.token (presentedToken req) = true
  clock : ∃ t, w.tick ≤ t ∧ t < w'.tick ∧ now = env.clock t
  effect : ∃ v, Untouched w v ∧
    Rewrites env h ((Queues.of w.queues h).drop (drainCount now (readMax req) (Queues.of w.queues h)))
      (popDropped now (readMax req) (Queues.of w.queues h)) v w'

/-- A drain is accepted, or the relay is left alone. -/
theorem exec_runFpop (env : Env σ) (w : World σ) (build : Build) (cfg : FabricConfig)
    (req : Value) (ip : String) :
    (∃ h now, (exec env.handle (runFpop build cfg req ip) w).2 =
        .ok (.ok (pointersResponse (popOut now (readMax req) (Queues.of w.queues h)))) ∧
      Drained env build req h now w (exec env.handle (runFpop build cfg req ip) w).1) ∨
    (∀ v, (exec env.handle (runFpop build cfg req ip) w).2 ≠ .ok (.ok v)) ∧
      Untouched w (exec env.handle (runFpop build cfg req ip) w).1 := by
  have hun := untouched_of_gateOp env w (tidy_fpopGate build cfg req ip).only
  rw [runFpop_eq]
  rcases hgate : exec env.handle (fpopGate build cfg req ip) w with ⟨w₁, q | e | ⟨h, now⟩⟩
  · rw [hgate] at hun
    rw [exec_bind_panic hgate]
    exact .inr ⟨nofun, hun⟩
  · rw [hgate] at hun
    rw [exec_bind_error hgate]
    exact .inr ⟨nofun, hun⟩
  rw [hgate] at hun
  -- the gate is through, and the queue is as it was before it
  have hq : w₁.queues = w.queues := hun.queues
  obtain ⟨hh, ⟨r, t, hr, ht, ht', hlive, htoken⟩, t', hle, hlt, hnow⟩ := exec_fpopGate_ok hgate
  obtain ⟨w', hdrain, htick, heff⟩ := exec_drainQueue env w₁ h now (readMax req)
  rw [exec_bind_ok hgate]
  dsimp only
  rw [exec_bind_ok hdrain]
  rw [hq] at heff ⊢
  exact .inl ⟨h, now, rfl, hh, ⟨r, t, hr, ht, ht'.trans_le htick, hlive, htoken⟩,
    ⟨t', hle, hlt.trans_le htick, hnow⟩, w₁, hun, heff⟩
end

end SporePeer
