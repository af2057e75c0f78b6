import SporePeer.Fabric.Opening

/-!
# A request cut off

A crash inside a request leaves what its last call left. A request that stores nothing has at most
removed envelopes. A put has stored its envelope whole or not at all, as the envelope is written
under another name and then moved to its place.

## Main definitions

* `movedTo`, `removed`: the files that a call moves and removes
* `Cut`: what a put leaves that was cut off once its envelope was in its place

## Main results

* `noWrite_run`: only `fput` writes to files
* `cutOff_noWrite`: what is left by a request that writes nothing
* `crash_fput`: what a crash inside a put leaves
-/

namespace SporePeer

open Effects Text Bytes

/-- The file that a call moves something to. -/
def movedTo : (Σ β, Op β) → Option String
  | ⟨_, .rename _ dst⟩ => some dst
  | _ => none

/-- The file that a call removes. -/
def removed : (Σ β, Op β) → Option String
  | ⟨_, .removeFile name⟩ => some name
  | _ => none

/-- The calls that neither write nor move a file. -/
def NoWrite : (β : Type) → Op β → Prop
  | _, .write _ _ => False
  | _, .rename _ _ => False
  | _, _ => True

theorem noWrite_of_gateOp {β : Type} {e : Op β} (h : GateOp β e) : NoWrite β e := by
  cases e with
  | write name content => exact h.elim
  | rename src dst => exact h.elim
  | _ => trivial

theorem noWrite_of_dropOp {β : Type} {e : Op β} (h : DropOp β e) : NoWrite β e := by
  cases e with
  | write name content => exact h.elim
  | rename src dst => exact h.elim
  | _ => trivial

theorem noWrite_of_regOp {β : Type} {e : Op β} (h : RegOp β e) : NoWrite β e := by
  cases e with
  | write name content => exact h.elim
  | rename src dst => exact h.elim
  | _ => trivial

/-- Nothing is written to a file outside `fput`. -/
theorem noWrite_run (build : Build) (cfg : FabricConfig) (v : Verb) :
    Only NoWrite (v.run build cfg) ∨ ∃ req ip, v = .fput req ip := by
  cases v with
  | freg req => exact .inl ((only_runFreg build cfg req).mono fun _ _ => noWrite_of_regOp)
  | fput req ip => exact .inr ⟨req, ip, rfl⟩
  | fpop req ip =>
    refine .inl ?_
    rw [Verb.run, runFpop_eq]
    refine only_bind ((tidy_fpopGate build cfg req ip).only.mono fun _ _ => noWrite_of_gateOp)
      fun _ => only_bind ?_ fun _ => only_pure _
    exact (tidy_drainQueue _ _ _).only.mono fun _ _ => noWrite_of_dropOp

section

variable {σ : Type} {env : Env σ} {build : Build} {cfg : FabricConfig} {w w' : World σ}
  {n : ℕ}

/-! ## Crashes inside a request -/

/-- A program that writes nothing has removed files when it is cut off, and done nothing else to the
directory. -/
theorem cutOff_noWrite {α : Type} {m : Fallible Op α} (hm : Only NoWrite m) (w : World σ) (n : ℕ)
    (name : String) : (cutOff env.handle n m w).2.dir.lookup name = w.dir.lookup name ∨
      (cutOff env.handle n m w).2.dir.lookup name = none := by
  refine hm.cutOff (I := fun v : World σ => v.dir.lookup name = w.dir.lookup name ∨
    v.dir.lookup name = none) (fun γ e v he hv => ?_) (.inl rfl) n
  cases e with
  | write name content => exact he.elim
  | rename src dst => exact he.elim
  | setWins l x => cases l <;> exact hv
  | removeFile file =>
    change (env.removeFile v file).dir.lookup name = _ ∨
      (env.removeFile v file).dir.lookup name = none
    rcases env.removeFile_lookup v file name with heq | ⟨hnone, -⟩
    · rw [heq]
      exact hv
    · exact .inr hnone
  | _ => exact hv

/-- Where file operations succeed, what it has removed is gone. -/
theorem removed_cutOff_noWrite {α : Type} {m : Fallible Op α} (hcalm : env.Calm)
    (hm : Only NoWrite m) (w : World σ) (n : ℕ) :
    ∀ name ∈ (cutOff env.handle n m w).1.filterMap removed,
      (cutOff env.handle n m w).2.dir.lookup name = none := by
  refine hm.cutOff_record (I := fun cs (v : World σ) =>
    ∀ name ∈ cs.filterMap removed, v.dir.lookup name = none)
    (fun γ e cs v he hv => ?_) (List.forall_mem_nil _) n
  rw [List.filterMap_append, List.forall_mem_append]
  cases e with
  | write name content => exact he.elim
  | rename src dst => exact he.elim
  | setWins l x => cases l <;> exact ⟨hv, List.forall_mem_nil _⟩
  | removeFile file =>
    have hrest (name : String) : (env.removeFile v file).dir.lookup name =
        if name = file then none else v.dir.lookup name := by
      rw [Env.removeFile, hcalm]
      exact Table.lookup_erase_eq _ _ _
    refine ⟨fun name hin => ?_, fun name hin => ?_⟩
    · change (env.removeFile v file).dir.lookup name = none
      rw [hrest, hv name hin, ite_self]
    · obtain rfl : name = file := List.mem_singleton.mp hin
      change (env.removeFile v name).dir.lookup name = none
      rw [hrest, if_pos rfl]
  | _ => exact ⟨hv, List.forall_mem_nil _⟩

/-- The checks of a request leave the directory alone, cut off or not. -/
theorem cutOff_gateOp {α : Type} {m : Fallible Op α} (hm : Only GateOp m) (w : World σ) (n : ℕ) :
    (cutOff env.handle n m w).2.dir = w.dir := by
  refine hm.cutOff (I := fun v : World σ => v.dir = w.dir) (fun γ e v he hv => ?_) rfl n
  cases e with
  | setWins l x => cases l <;> exact hv
  | nowSec => exact hv
  | lock m => exact hv
  | unlock m => exact hv
  | getWins l => exact hv
  | getReg => exact hv
  | _ => exact he.elim

/-- A temporary file is no envelope file. -/
theorem Env.write_tmpFile (env : Env σ) (w : World σ) (c : String) (raw : Bytes) (c' : String) :
    (env.write w (tmpFile c) raw).1.dir.lookup (fenvFile c') = w.dir.lookup (fenvFile c') := by
  have hne : fenvFile c' ≠ tmpFile c := (tmpFile_ne_fenvFile c c').symm
  unfold Env.write
  split
  · exact AList.lookup_insert_ne hne
  · split
    · rfl
    · exact AList.lookup_insert_ne hne

/-- An envelope that has been stored was written and moved. -/
theorem trace_persistEnvelope {c : String} {raw : Bytes} {w' : World σ} {u : Unit}
    (hok : exec env.handle (persistEnvelope c raw) w = (w', .ok (.ok u))) :
    trace env.handle (persistEnvelope c raw) w =
      [⟨_, .write (tmpFile c) raw⟩, ⟨_, .rename (tmpFile c) (fenvFile c)⟩] := by
  rw [persistEnvelope, exec_ask_bind] at hok
  rw [persistEnvelope, trace_ask_bind]
  rcases hres : (env.handle _ (.write (tmpFile c) raw) w).2 with e | ⟨⟨⟩⟩
  · rw [hres] at hok
    dsimp only [Except.mapError] at hok
    rw [exec_orFail_error_bind] at hok
    cases hok
  · rfl

/-- An envelope that is being stored is in its place once it is moved there. -/
theorem cutOff_persistEnvelope (env : Env σ) (c : String) (raw : Bytes) (w : World σ) (n : ℕ) :
    let r := cutOff env.handle n (persistEnvelope c raw) w
    (∀ c', r.2.dir.lookup (fenvFile c') = w.dir.lookup (fenvFile c')) ∨
      (raw ∈ r.1.filterMap writtenBy ∧ fenvFile c ∈ r.1.filterMap movedTo) ∧
        ∃ sec, Persists c ⟨raw, sec⟩ w r.2 := by
  have hwrite (c' : String) : (env.handle _ (.write (tmpFile c) raw) w).1.dir.lookup
      (fenvFile c') = w.dir.lookup (fenvFile c') := env.write_tmpFile w c raw c'
  -- no operation, the write alone, or both
  match n with
  | 0 =>
    intro r
    have hr : r = ([], w) := cutOff_zero _
    rw [hr]
    exact .inl fun _ => rfl
  | 1 =>
    intro r
    have hr : r = cutOff env.handle 1 (persistEnvelope c raw) w := rfl
    rw [persistEnvelope, cutOff_ask_bind, cutOff_zero] at hr
    rw [hr]
    exact .inl hwrite
  | n + 2 =>
    intro r
    have hr : r = cutOff env.handle (n + 2) (persistEnvelope c raw) w := rfl
    rw [persistEnvelope, cutOff_ask_bind] at hr
    rcases hres : (env.handle _ (.write (tmpFile c) raw) w).2 with e | ⟨⟨⟩⟩
    · -- the write has failed, and nothing is moved
      rw [hres] at hr
      have hthrow : r.2 = (env.handle _ (.write (tmpFile c) raw) w).1 := by
        rw [hr]
        rfl
      rw [hthrow]
      exact .inl hwrite
    have hend : r = ([⟨_, .write (tmpFile c) raw⟩, ⟨_, .rename (tmpFile c) (fenvFile c)⟩],
        (exec env.handle (persistEnvelope c raw) w).1) := by
      rw [hr, hres, persistEnvelope, exec_ask_bind, hres]
      dsimp only [Except.mapError]
      rw [exec_orFail_ok_bind, exec_ask_bind, exec_orFail]
      have hstep := cutOff_ask_bind (h := env.handle)
        (s := (env.handle _ (.write (tmpFile c) raw) w).1) n
        (.rename (tmpFile c) (fenvFile c)) fun renamed =>
          orFail (renamed.mapError fun e => s!"500 envelope rename: {e}")
      rw [cutOff_orFail] at hstep
      exact congrArg (fun r : List (Σ β, Op β) × World σ =>
        (⟨_, .write (tmpFile c) raw⟩ :: r.1, r.2)) hstep
    rw [hend]
    rcases exec_persistEnvelope env w c raw with ⟨w', sec, hok, -, hp⟩ | ⟨w', e, hno, hun, -⟩
    · rw [hok]
      exact .inr ⟨⟨List.mem_singleton.mpr rfl, List.mem_singleton.mpr rfl⟩, sec, hp⟩
    · rw [hno]
      refine .inl fun c' => hun.keeps _ fun c'' he => ?_
      exact tmpFile_ne_fenvFile c'' c' he.symm

/-- The calls up to the queue section of a put remove nothing. -/
theorem removed_eq_nil {cs : List (Σ β, Op β)} (h : ∀ c ∈ cs, removed c = none) :
    cs.filterMap removed = [] := List.filterMap_eq_nil_iff.mpr h

theorem only_persistEnvelope_keeps (c : String) (raw : Bytes) :
    Only (fun β e => removed ⟨β, e⟩ = none) (persistEnvelope c raw) :=
  only_bind (only_ask rfl) fun _ => only_bind (only_orFail _) fun _ =>
    only_bind (only_ask rfl) fun _ => only_orFail _

theorem removed_of_gateOp {β : Type} {e : Op β} (h : GateOp β e) : removed ⟨β, e⟩ = none := by
  cases e with
  | removeFile name => exact h.elim
  | _ => rfl

/-- What is left by a put that was cut off once its envelope was in its place. -/
structure Cut (env : Env σ) (build : Build) (req : Value) (p : Put) (calls : List (Σ β, Op β))
    (w w' : World σ) : Prop where
  handle : readHandle build "400 fput needs handle" req = .ok p.key
  pointer : fputPointer req = .ok p.pointer
  arrived : p.receivedAt < 2 ^ 64
  written : marshalEnvelope p.envelope ∈ calls.filterMap writtenBy
  moved : fenvFile (p.envelope.cidHex build) ∈ calls.filterMap movedTo
  stored : ∃ v sec, Persists (p.envelope.cidHex build) ⟨marshalEnvelope p.envelope, sec⟩ w v ∧
    ∀ name, w'.dir.lookup name = v.dir.lookup name ∨ w'.dir.lookup name = none
  removed : env.Calm → ∀ name ∈ calls.filterMap removed, w'.dir.lookup name = none

/-- The rest of a put, cut off. -/
theorem cutOff_store (env : Env σ) (cfg : FabricConfig) (w : World σ) (p : Put) (n : ℕ) :
    let m := persistEnvelope (p.envelope.cidHex build) (marshalEnvelope p.envelope) >>= fun _ =>
      putQueue cfg p.key (p.entry build)
    let r := cutOff env.handle n m w
    (∀ c, r.2.dir.lookup (fenvFile c) = w.dir.lookup (fenvFile c)) ∨
      (marshalEnvelope p.envelope ∈ r.1.filterMap writtenBy ∧
          fenvFile (p.envelope.cidHex build) ∈ r.1.filterMap movedTo) ∧
        (∃ v sec, Persists (p.envelope.cidHex build) ⟨marshalEnvelope p.envelope, sec⟩ w v ∧
          ∀ name, r.2.dir.lookup name = v.dir.lookup name ∨ r.2.dir.lookup name = none) ∧
        (env.Calm → ∀ name ∈ r.1.filterMap SporePeer.removed, r.2.dir.lookup name = none) := by
  intro m r
  let c := p.envelope.cidHex build
  let raw := marshalEnvelope p.envelope
  rcases cutOff_bind (h := env.handle) (s := w) n (persistEnvelope c raw) fun _ =>
    putQueue cfg p.key (p.entry build) with ⟨k, hk⟩ | ⟨k, v, u, hv, hk⟩
  · have hr : r = cutOff env.handle k (persistEnvelope c raw) w := hk
    rw [hr]
    refine (cutOff_persistEnvelope env c raw w k).imp_right fun ⟨hcalls, sec, hp⟩ =>
      ⟨hcalls, ⟨_, sec, hp, fun _ => .inl rfl⟩, fun _ => ?_⟩
    rw [removed_eq_nil ((only_persistEnvelope_keeps c raw).forall_mem_cutOff k)]
    exact nofun
  · have hr : r = _ := hk
    rw [hr, trace_persistEnvelope hv]
    have hdrop : Only NoWrite (putQueue cfg p.key (p.entry build)) :=
      (tidy_putQueue cfg p.key (p.entry build)).only.mono fun _ _ => noWrite_of_dropOp
    refine .inr ⟨⟨List.mem_cons_self, List.mem_cons_self⟩, ?_,
      fun hcalm => removed_cutOff_noWrite hcalm hdrop v k⟩
    -- the envelope is in its place before the queue is touched
    rcases exec_persistEnvelope env w c raw with ⟨v', sec, hok, -, hp⟩ | ⟨w', e, hno, -⟩
    · rw [hv] at hok
      obtain ⟨rfl, -⟩ := Prod.mk.inj hok
      exact ⟨v, sec, hp, cutOff_noWrite hdrop v k⟩
    · rw [hv] at hno
      cases hno

/-- **A crash inside a put.** The envelope files are as they were, or the new one is in its place and
some of those that the put removes are gone. Its deadline was ahead, and within the horizon. -/
theorem crash_fput (env : Env σ) {req : Value} {ip : String} (hreg : Registered w.reg)
    (n : ℕ) :
    let r := cutOff env.handle n (runFput build cfg req ip) w
    (∀ c, r.2.dir.lookup (fenvFile c) = w.dir.lookup (fenvFile c)) ∨
      ∃ p, Cut env build req p r.1 w r.2 ∧ ∃ t, t < r.2.tick ∧
        env.clock t < p.pointer.deadline ∧ ∃ horizon,
          addU64 build.overflowChecks (env.clock t) cfg.maxDeadlineHorizonSec = .ok horizon ∧
          p.pointer.deadline ≤ horizon := by
  intro r
  have hgate := (tidy_fputGate build cfg req ip).only
  -- the run is cut in the gate, which writes nothing, or after it
  rcases cutOff_bind (h := env.handle) (s := w) n (fputGate build cfg req ip) fun x => do
      fputStore build cfg x.1 x.2.1 x.2.2
      return Value.object [("queued", .bool true)] with ⟨k, hk⟩ | ⟨k, w₁, ⟨h, pointer, now⟩, hok, hk⟩
  · have hr : r = cutOff env.handle k (fputGate build cfg req ip) w := hk
    rw [hr, cutOff_gateOp hgate]
    exact .inl fun _ => rfl
  have hr : r = _ := hk
  rw [hr]
  have hdir : w₁.dir = w.dir := by
    have hun := untouched_of_gateOp env w hgate
    rw [hok] at hun
    exact hun.dir
  obtain ⟨hh, ⟨reg, hlook⟩, hp, hlive, t, -, ht, hnow⟩ := exec_fputGate_ok hok
  obtain ⟨⟨handle, rfl⟩, -⟩ := hreg h reg hlook
  obtain ⟨j, hj⟩ := cutOff_bind_pure (h := env.handle) (s := w₁) k
    (fputStore build cfg (Hex.encode handle.toList) pointer now)
    fun _ => Value.object [("queued", .bool true)]
  dsimp only
  rw [hj]
  have hstay {v : World σ} (hv : v.dir = w₁.dir) (c : String) :
      v.dir.lookup (fenvFile c) = w.dir.lookup (fenvFile c) := by rw [hv, hdir]
  -- beyond the horizon nothing is stored
  rcases hadd : addU64 build.overflowChecks now cfg.maxDeadlineHorizonSec with q | horizon
  · rw [fputStore, hadd, cutOff_orPanic_error_bind]
    exact .inl (hstay rfl)
  by_cases hle : pointer.deadline ≤ horizon
  swap
  · rw [fputStore_beyond hadd hle, cutOff_throw]
    exact .inl (hstay rfl)
  rw [fputStore_eq hadd hle]
  -- the clock is read before the store; a cut there leaves the directory
  cases j with
  | zero =>
    rw [cutOff_zero]
    exact .inl (hstay rfl)
  | succ j =>
    rw [cutOff_ask_bind]
    let p : Put := ⟨handle, pointer, env.clock w₁.tick⟩
    rcases cutOff_store env cfg w₁.next p j with
      hsame | ⟨⟨hwritten, hmoved⟩, ⟨v, sec, hv, hsub⟩, hgone⟩
    · exact .inl fun c => (hsame c).trans (hstay rfl c)
    · refine .inr ⟨p, ⟨hh, hp, env.clock_lt _, ?_, ?_, ⟨v, sec, fun name => ?_, hsub⟩,
        fun hcalm => ?_⟩, t, ?_, hnow ▸ hlive, horizon, hnow ▸ hadd, hle⟩
      · rw [List.filterMap_append]
        exact List.mem_append_right _ hwritten
      · rw [List.filterMap_append]
        exact List.mem_append_right _ hmoved
      · rw [hv name, ← hdir]
        rfl
      · rw [List.filterMap_append, removed_eq_nil fun c hc =>
          removed_of_gateOp (hgate.forall_mem_trace c hc)]
        exact hgone hcalm
      · exact (ht.trans (Nat.lt_succ_self _)).trans_le (tick_le_cutOff env _ w₁.next j)

end

end SporePeer
