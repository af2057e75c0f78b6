import SporePeer.Node.Daemon

/-!
# The pidfile

A supervisor tells from the pidfile of a process that is gone whether it was killed. The pidfile is
complete whenever there is one, it is there before the process binds, and a process that comes to
its end removes it.

## Main definitions

* `Mark`, `markOf`: what the calls of a process mean for a pidfile
* `Before`, `During`, `After`, `Tells`: what the pidfile says at a call of the process
* `Life`, `lifeStep`, `lifeRun`: processes that are started one after another
* `LeavesLast`: the process that leaves its pidfile

## Main results

* `tells_mainServe`, `pidfile_while_serving`: the pidfile at every call of the process
* `pidfile_whole`: it is never incomplete
* `pidfile_left_iff`: which process leaves it
-/

namespace SporePeer

open Effects Text

/-! ## Pidfiles -/

/-- What a process does with a pidfile, and when it asks for a listener. -/
inductive Mark
  | published
  | bound
  | removed
  deriving DecidableEq

/-- What a call means for the pidfile at `path`. -/
def markOf (path : String) : (Σ β, DaemonOp β) → Option Mark
  | ⟨_, .right (.rename _ dst)⟩ => if dst = path then some .published else none
  | ⟨_, .right (.bind _)⟩ => some .bound
  | ⟨_, .right (.removeFile p)⟩ => if p = path then some .removed else none
  | _ => none

/-- The calls that have nothing to do with the pidfile at `path`. -/
def Aside (path : String) : (β : Type) → DaemonOp β → Prop
  | _, .right (.write p _) => p ≠ path
  | _, .right (.rename src dst) => src ≠ path ∧ dst ≠ path
  | _, .right (.removeFile p) => p ≠ path
  | _, .right (.bind _) => False
  | _, _ => True

/-- The call for a listener. -/
def Binds : (β : Type) → DaemonOp β → Prop
  | _, .right (.bind _) => True
  | _, _ => False

/-- The calls that leave the pidfile at `path` as it is. -/
def LeavesPidfile (path : String) (β : Type) (e : DaemonOp β) : Prop := Aside path β e ∨ Binds β e

section

variable {σ : Type} (env : HostEnv σ) (path : String) (old : Option Bytes) (pid : ℕ)

/-- The pidfile has not been published. -/
structure Before (x : List Mark × Host σ) : Prop where
  published : env.Steady → .published ∉ x.1
  bound : .bound ∉ x.1
  removed : .removed ∉ x.1
  files : x.2.files.lookup path = old

/-- The pidfile is there. -/
structure During (x : List Mark × Host σ) : Prop where
  published : .published ∈ x.1
  removed : .removed ∉ x.1
  files : x.2.files.lookup path = some (pidLine pid)

/-- The pidfile has been removed. -/
structure After (x : List Mark × Host σ) : Prop where
  published : .published ∈ x.1
  removed : .removed ∈ x.1
  files : x.2.files.lookup path = none ∨ ¬ env.Steady ∧ x.2.files.lookup path = some (pidLine pid)

/-- What the pidfile says of the process `pid`. -/
def Tells (x : List Mark × Host σ) : Prop :=
  Before env path old x ∨ During path pid x ∨ After env path pid x

/-- The calls of a process, and the pidfile when they are made. -/
def PidfileCall (x : List Mark × Host σ) (c : Σ β, DaemonOp β) : Prop :=
  Before env path old x ∧ (Aside path c.1 c.2 ∨ c = ⟨_, .right (.rename (tmpPath path) path)⟩ ∧
      x.2.files.lookup (tmpPath path) = some (pidLine pid)) ∨
    During path pid x ∧ (LeavesPidfile path c.1 c.2 ∨ c = ⟨_, .right (.removeFile path)⟩)

end

section

variable {σ : Type} {env : HostEnv σ} {path : String} {old : Option Bytes} {pid : ℕ}
  {x : List Mark × Host σ}

theorem tmpPath_ne (path : String) : tmpPath path ≠ path := by
  intro h
  have hlen := congrArg (fun s => s.toList.length) h
  simp [tmpPath] at hlen

/-- The file at `path` stays as it is. -/
theorem files_of_aside {β : Type} {e : DaemonOp β} (he : Aside path β e) (h : Host σ) :
    (env.daemon β e h).1.files.lookup path = h.files.lookup path := by
  have hanswer (h : Host σ) : (env.answer β e h).1.files.lookup path = h.files.lookup path := by
    rcases e with e | e
    · rfl
    cases e with
    | write p content =>
      simp only [HostEnv.answer, HostEnv.write]
      have hinsert (content : Bytes) :
          (h.files.insert p content).lookup path = h.files.lookup path := by
        rw [Table.lookup_insert_eq, if_neg (Ne.symm he)]
      split
      · exact hinsert content
      · rename_i f _
        cases f.left with
        | none => rfl
        | some n => exact hinsert _
    | rename src dst =>
      obtain ⟨hsrc, hdst⟩ := he
      simp only [HostEnv.answer, HostEnv.rename]
      split
      · rfl
      split
      · rfl
      · rw [Table.lookup_insert_eq, if_neg (Ne.symm hdst), Table.lookup_erase_eq,
          if_neg (Ne.symm hsrc)]
    | removeFile p =>
      simp only [HostEnv.answer, HostEnv.removeFile]
      split
      · rfl
      · rw [Table.lookup_erase_eq, if_neg (Ne.symm he)]
    | _ => rfl
  exact (hanswer _).trans (congrArg (·.lookup path) (env.files_others h))

theorem markOf_aside {β : Type} {e : DaemonOp β} (he : Aside path β e) :
    markOf path ⟨β, e⟩ = none := by
  rcases e with e | e
  · rfl
  cases e with
  | rename src dst => exact if_neg he.2
  | removeFile p => exact if_neg he
  | bind addr => exact he.elim
  | _ => rfl

/-- The system that keeps what its calls mean for the pidfile. -/
def marking (env : HostEnv σ) (path : String) : Handler DaemonOp (List Mark × Host σ) :=
  recording (markOf path) env.daemon

/-- A process starts before it has published its pidfile. -/
theorem before_start (env : HostEnv σ) (path : String) (h : Host σ) :
    Before env path (h.files.lookup path) ([], h) :=
  ⟨fun _ => List.not_mem_nil, List.not_mem_nil, List.not_mem_nil, rfl⟩

theorem Before.aside {β : Type} {e : DaemonOp β} (hx : Before env path old x)
    (he : Aside path β e) : Before env path old (marking env path β e x).1 := by
  have hmarks : (marking env path β e x).1.1 = x.1 := by
    rw [marking, recording, markOf_aside he]
    exact List.append_nil _
  refine ⟨?_, ?_, ?_, (files_of_aside he x.2).trans hx.files⟩
  all_goals rw [hmarks]
  · exact hx.published
  · exact hx.bound
  · exact hx.removed

theorem LeavesPidfile.files {β : Type} {e : DaemonOp β} (he : LeavesPidfile path β e)
    (h : Host σ) : (env.daemon β e h).1.files.lookup path = h.files.lookup path := by
  rcases he with haside | hbinds
  · exact files_of_aside haside h
  · rcases e with e | e
    · exact hbinds.elim
    · cases e with
      | bind addr => exact congrArg (·.lookup path) (env.files_others h)
      | _ => exact hbinds.elim

theorem LeavesPidfile.markOf {β : Type} {e : DaemonOp β} (he : LeavesPidfile path β e) {m : Mark}
    (hm : m ∈ (markOf path ⟨β, e⟩).toList) : m = .bound := by
  rcases he with haside | hbinds
  · rw [markOf_aside haside] at hm
    cases hm
  · rcases e with e | e
    · cases hm
    · cases e with
      | bind addr => exact List.mem_singleton.mp hm
      | _ => exact hbinds.elim

theorem During.leaves {β : Type} {e : DaemonOp β} (hx : During path pid x)
    (he : LeavesPidfile path β e) : During path pid (marking env path β e x).1 := by
  refine ⟨List.mem_append_left _ hx.published, ?_, (he.files x.2).trans hx.files⟩
  intro hmem
  refine (List.mem_append.mp hmem).elim hx.removed fun hmem => ?_
  cases he.markOf hmem

/-- The publication of a pidfile that is complete. -/
theorem Before.publish (hx : Before env path old x)
    (htmp : x.2.files.lookup (tmpPath path) = some (pidLine pid)) :
    let y := marking env path _ (.right (.rename (tmpPath path) path)) x
    (y.2 = .ok () ∧ During path pid y.1) ∨
      (∃ e, y.2 = .error e) ∧ ¬ env.Steady ∧ Before env path old y.1 := by
  intro y
  have hmarks : y.1.1 = x.1 ++ [.published] := by
    change x.1 ++ (if path = path then some Mark.published else none).toList = _
    rw [if_pos rfl]
    rfl
  have hkept {m : Mark} (hm : m ∉ x.1) (hne : m ≠ .published) : m ∉ y.1.1 := by
    rw [hmarks, List.mem_append, List.mem_singleton]
    exact fun h => h.elim hm hne
  obtain ⟨h', hfiles, hstate, hresult⟩ : ∃ h' : Host σ, h'.files = x.2.files ∧
      y.1.2.files = (env.rename h' (tmpPath path) path).1.files ∧
      y.2 = (env.rename h' (tmpPath path) path).2 :=
    ⟨env.others x.2, env.files_others x.2, rfl, rfl⟩
  rw [HostEnv.rename, hfiles, htmp] at hstate hresult
  rcases hfault : env.hostFault h'.tick with _ | f <;> rw [hfault] at hstate hresult
  · refine .inl ⟨hresult, hmarks ▸ List.mem_append_right _ List.mem_cons_self,
      hkept hx.removed nofun, ?_⟩
    rw [hstate]
    exact AList.lookup_insert _
  · have hsteady : ¬ env.Steady := by
      intro h
      cases (h h'.tick).symm.trans hfault
    refine .inr ⟨⟨_, hresult⟩, hsteady, fun h => absurd h hsteady, hkept hx.bound nofun,
      hkept hx.removed nofun, ?_⟩
    rw [hstate, hfiles]
    exact hx.files

/-- The removal of a pidfile. -/
theorem During.remove (hx : During path pid x) :
    After env path pid (marking env path _ (.right (.removeFile path)) x).1 := by
  refine ⟨List.mem_append_left _ hx.published, ?_, ?_⟩
  · change Mark.removed ∈ x.1 ++ (if path = path then some Mark.removed else none).toList
    rw [if_pos rfl]
    exact List.mem_append_right _ List.mem_cons_self
  · change (env.removeFile (env.others x.2) path).files.lookup path = none ∨
      ¬ env.Steady ∧ (env.removeFile (env.others x.2) path).files.lookup path = _
    rw [HostEnv.removeFile]
    rcases hfault : env.hostFault (env.others x.2).tick with _ | f
    · exact .inl (AList.lookup_erase _ _)
    · refine .inr ⟨fun h => ?_, (congrArg _ (env.files_others x.2)).trans hx.files⟩
      cases (h (env.others x.2).tick).symm.trans hfault

/-- **One call** of a process: the pidfile goes on to tell. -/
theorem PidfileCall.tells {c : Σ β, DaemonOp β} (hc : PidfileCall env path old pid x c) :
    Tells env path old pid (marking env path c.1 c.2 x).1 := by
  rcases hc with ⟨hx, haside | ⟨rfl, htmp⟩⟩ | ⟨hx, hleaves | rfl⟩
  · exact .inl (hx.aside haside)
  · rcases hx.publish htmp with ⟨-, hduring⟩ | ⟨-, -, hbefore⟩
    · exact .inr (.inl hduring)
    · exact .inl hbefore
  · exact .inr (.inl (hx.leaves hleaves))
  · exact .inr (.inr hx.remove)

/-! ## The calls of a process -/

theorem only_createParent (quoted : String → String) (p : String) :
    Only (Aside path) (createParent quoted p) := by
  unfold createParent
  split
  · exact only_pure _
  · exact only_bind (only_ask trivial) fun _ => only_orFail _

theorem only_openFabric_aside (build : Build) (o : ServeOptions) :
    Only (Aside path) (openFabric build o) := by
  have hany : Only (fun _ _ => True) (fabricOpen build o.fabric) := Program.calls_true _
  exact only_openFabric (fun _ _ _ => trivial) hany

/-- The end of a process that could not write its pidfile. -/
theorem only_reportError (e : String) :
    Only (Aside path) (onHost (.eprint s!"serve error: {e}") >>= fun _ => pure 1) :=
  only_bind (only_ask trivial) fun _ => only_pure _

/-- The process serves without touching its pidfile. -/
theorem only_serveStatus_leaves (build : Build) (o : ServeOptions) (arrivals : List Arrival) :
    Only (LeavesPidfile path) (serveStatus build o arrivals) := by
  refine (only_serveStatus build o arrivals).mono fun β e he => ?_
  rcases e with e | e
  · exact .inl trivial
  cases e with
  | bind addr => exact .inr trivial
  | write p content => exact he.elim
  | rename src dst => exact he.elim
  | removeFile p => exact he.elim
  | _ => exact .inl trivial

/-- Before the pidfile is published, calls that have nothing to do with it. -/
theorem Before.exec {α : Type} {m : Fallible DaemonOp α} (hx : Before env path old x)
    (hm : Only (Aside path) m) : Before env path old (exec (marking env path) m x).1 :=
  hm.invariant (I := Before env path old) (fun _ _ _ he hy => hy.aside he) hx

theorem Before.eachCall {α : Type} {m : Fallible DaemonOp α} (hx : Before env path old x)
    (hm : Only (Aside path) m) :
    EachCall (marking env path) (PidfileCall env path old pid) m x :=
  hm.eachCall_of_invariant (fun _ _ _ he hy => hy.aside he)
    (fun _ _ _ he hy => .inl ⟨hy, .inl he⟩) hx

/-- While it is there, calls that leave it. -/
theorem During.exec {α : Type} {m : Fallible DaemonOp α} (hx : During path pid x)
    (hm : Only (LeavesPidfile path) m) : During path pid (exec (marking env path) m x).1 :=
  hm.invariant (I := During path pid) (fun _ _ _ he hy => hy.leaves he) hx

theorem During.eachCall {α : Type} {m : Fallible DaemonOp α} (hx : During path pid x)
    (hm : Only (LeavesPidfile path) m) :
    EachCall (marking env path) (PidfileCall env path old pid) m x :=
  hm.eachCall_of_invariant (fun _ _ _ he hy => hy.leaves he)
    (fun _ _ _ he hy => .inr ⟨hy, .inl he⟩) hx

/-- The pidfile is written before it is published. -/
theorem Before.write (hx : Before env path old x) (pid : ℕ) :
    let y := marking env path _ (.right (.write (tmpPath path) (pidLine pid))) x
    Before env path old y.1 ∧
      (y.2 = .ok () → y.1.2.files.lookup (tmpPath path) = some (pidLine pid)) := by
  intro y
  refine ⟨hx.aside (tmpPath_ne path), fun hok => ?_⟩
  obtain ⟨h', hstate, hresult⟩ : ∃ h' : Host σ,
      y.1.2.files = (env.write h' (tmpPath path) (pidLine pid)).1.files ∧
      y.2 = (env.write h' (tmpPath path) (pidLine pid)).2 := ⟨env.others x.2, rfl, rfl⟩
  rw [HostEnv.write] at hstate hresult
  rcases hfault : env.hostFault h'.tick with _ | f <;> rw [hfault] at hstate hresult
  · rw [hstate]
    exact AList.lookup_insert _
  · rw [hresult] at hok
    cases hok

/-- The calls of `write_pidfile`. -/
theorem eachCall_writePidfile (quoted : String → String) (hx : Before env path old x) :
    EachCall (marking env path) (PidfileCall env path old pid)
      (writePidfile quoted path pid) x := by
  have hparent := hx.exec (only_createParent quoted path)
  refine eachCall_bind (hx.eachCall (only_createParent quoted path)) fun x₁ _ h₁ => ?_
  obtain rfl : _ = x₁ := congrArg Prod.fst h₁
  have hwrite := hparent.write pid
  refine eachCall_bind (eachCall_ask (.inl ⟨hparent, .inl (tmpPath_ne path)⟩))
    fun x₂ written h₂ => eachCall_bind (eachCall_orFail _) fun x₃ _ h₃ => ?_
  rw [onHost, exec_ask] at h₂
  obtain ⟨rfl, hwritten⟩ := Prod.mk.inj h₂
  rw [exec_orFail] at h₃
  obtain ⟨rfl, hok⟩ := Prod.mk.inj h₃
  rcases written with e | ⟨⟩
  · cases hok
  have htmp := hwrite.2 (Except.ok.inj (Except.ok.inj hwritten))
  exact eachCall_bind (eachCall_ask (.inl ⟨hwrite.1, .inr ⟨rfl, htmp⟩⟩))
    fun _ _ _ => eachCall_orFail _

/-- The pidfile is there if `write_pidfile` has succeeded, and as it was otherwise. -/
theorem exec_writePidfile (quoted : String → String) (hx : Before env path old x) (pid : ℕ) :
    let y := exec (marking env path) (writePidfile quoted path pid) x
    (y.2 = .ok (.ok ()) ∧ During path pid y.1) ∨
      (y.2 ≠ .ok (.ok ())) ∧ Before env path old y.1 := by
  have hparent := hx.exec (only_createParent quoted path)
  rw [writePidfile, exec_bind]
  generalize exec (marking env path) (createParent quoted path) x = r at hparent ⊢
  rcases r with ⟨x₁, p | e | ⟨⟩⟩
  · exact .inr ⟨nofun, hparent⟩
  · exact .inr ⟨nofun, hparent⟩
  have hwrite := hparent.write pid
  dsimp only
  rw [onHost, exec_ask_bind]
  generalize marking env path _ (.right (.write (tmpPath path) (pidLine pid))) x₁ = r at hwrite ⊢
  rcases r with ⟨x₂, e | ⟨⟩⟩
  · exact .inr ⟨nofun, hwrite.1⟩
  have hpublish := hwrite.1.publish (hwrite.2 rfl)
  dsimp only [Except.mapError]
  rw [exec_orFail_ok_bind, onHost, exec_ask_bind]
  generalize marking env path _ (.right (.rename (tmpPath path) path)) x₂ = r at hpublish ⊢
  rcases hpublish with ⟨hok, hduring⟩ | ⟨⟨e, herror⟩, -, hbefore⟩
  · rw [hok]
    exact .inl ⟨rfl, hduring⟩
  · rw [herror]
    exact .inr ⟨nofun, hbefore⟩

/-- **The calls of the process**, and its pidfile when they are made. -/
theorem eachCall_mainServe (build : Build) (quoted : String → String) {o : ServeOptions}
    (ho : o.pidfile = some path) (pid : ℕ) (arrivals : List Arrival)
    (hx : Before env path old x) :
    EachCall (marking env path) (PidfileCall env path old pid)
      (mainServe build quoted o pid arrivals) x := by
  have hopen := hx.exec (only_openFabric_aside build o)
  refine eachCall_bind (hx.eachCall (only_openFabric_aside build o)) fun x₁ _ h₁ => ?_
  obtain rfl : _ = x₁ := congrArg Prod.fst h₁
  rw [ho]
  refine eachCall_bind (eachCall_attempt (eachCall_writePidfile quoted hopen))
    fun x₂ published h₂ => ?_
  have hwrite := exec_writePidfile quoted hopen pid
  rw [exec_attempt_eq_ok.mp h₂] at hwrite
  cases published with
  | error e =>
    -- the process ends without a pidfile of its own
    obtain ⟨hok, -⟩ | ⟨-, hbefore⟩ := hwrite
    · cases hok
    · exact hbefore.eachCall (only_reportError e)
  | ok u =>
    obtain ⟨-, hduring⟩ | ⟨hno, -⟩ := hwrite
    swap
    · exact absurd rfl hno
    have honly : Only (LeavesPidfile path) (serveStatus build o arrivals) :=
      only_serveStatus_leaves build o arrivals
    refine eachCall_bind (hduring.eachCall honly) fun x₃ code h₃ => ?_
    obtain rfl : _ = x₃ := congrArg Prod.fst h₃
    exact eachCall_bind (eachCall_ask (.inr ⟨hduring.exec honly, .inr rfl⟩))
      fun _ _ _ => eachCall_pure _

/-- A process that comes to its end has removed its pidfile, or has not published one. -/
theorem exec_mainServe (build : Build) (quoted : String → String) {o : ServeOptions}
    (ho : o.pidfile = some path) (pid : ℕ) (arrivals : List Arrival)
    (hx : Before env path old x) :
    let y := (exec (marking env path) (mainServe build quoted o pid arrivals) x).1
    Before env path old y ∨ After env path pid y := by
  have hopen := hx.exec (only_openFabric_aside build o)
  rw [mainServe, exec_bind]
  generalize exec (marking env path) (openFabric build o) x = r at hopen ⊢
  -- a relay that cannot be opened ends the process before there is a pidfile
  rcases r with ⟨x₁, p | e | ⟨⟩⟩
  · exact .inl hopen
  · exact .inl hopen
  dsimp only
  rw [ho]
  dsimp only
  rw [exec_bind, exec_attempt]
  have hwrite := exec_writePidfile quoted hopen pid
  generalize exec (marking env path) (writePidfile quoted path pid) x₁ = r at hwrite ⊢
  rcases r with ⟨x₂, p | e | ⟨⟩⟩
  · exact .inl (hwrite.resolve_left fun h => nomatch h.1).2
  · have hbefore := (hwrite.resolve_left fun h => nomatch h.1).2
    exact .inl (hbefore.exec (only_reportError e))
  · have hduring := (hwrite.resolve_right fun h => h.1 rfl).2
    have hserve : During path pid (exec (marking env path) (serveStatus build o arrivals) x₂).1 :=
      hduring.exec (only_serveStatus_leaves build o arrivals)
    obtain ⟨code, hcode⟩ := exec_serveStatus (marking env path) build o arrivals x₂
    change Before env path old (exec (marking env path) (serveStatus build o arrivals >>= _) x₂).1 ∨
      After env path pid (exec (marking env path) (serveStatus build o arrivals >>= _) x₂).1
    rw [exec_bind_ok (Prod.ext rfl hcode)]
    exact .inr hserve.remove

/-- **What the pidfile tells** of a process that is cut off after any of its calls. -/
theorem tells_mainServe (build : Build) (quoted : String → String) {o : ServeOptions}
    (ho : o.pidfile = some path) (pid : ℕ) (arrivals : List Arrival) (h : Host σ)
    (n : ℕ) :
    let y := cutOff env.daemon n (mainServe build quoted o pid arrivals) h
    Tells env path (h.files.lookup path) pid (y.1.filterMap (markOf path), y.2) := by
  intro y
  have hstart := before_start env path h
  have hcut := (eachCall_mainServe build quoted ho pid arrivals hstart).invariant
    (I := Tells env path (h.files.lookup path) pid) (fun _ _ hc _ => hc.tells) (.inl hstart) n
  rw [marking, cutOff_recording] at hcut
  exact hcut

/-- **While the process serves**, which is from when it asks for a listener until it removes the
pidfile, the pidfile is there and has the id of the process. -/
theorem pidfile_while_serving (env : HostEnv σ) (build : Build) (quoted : String → String)
    {o : ServeOptions} (ho : o.pidfile = some path) (pid : ℕ)
    (arrivals : List Arrival) (h : Host σ) (n : ℕ) :
    let y := cutOff env.daemon n (mainServe build quoted o pid arrivals) h
    .bound ∈ y.1.filterMap (markOf path) → .removed ∉ y.1.filterMap (markOf path) →
      y.2.files.lookup path = some (pidLine pid) := by
  intro y hbound hremoved
  rcases tells_mainServe build quoted ho pid arrivals h n with hbefore | hduring | hafter
  · exact absurd hbound hbefore.bound
  · exact hduring.files
  · exact absurd hafter.removed hremoved

end

/-- A process that has been given a listener. -/
theorem pidfile_while_serving_bound :
    let env : HostEnv Unit := .still (fun p _ => (p, .error "closed")) 0 fun _ => []
    let o : ServeOptions := { pidfile := some "/run/peer.pid" }
    let y := cutOff env.daemon 5 (mainServe .leading id o 77 []) { world := .fresh () }
    y.2.files.lookup "/run/peer.pid" = some (pidLine 77) := by
  intro env o y
  exact pidfile_while_serving env .leading id rfl 77 [] { world := .fresh () } 5
    (by decide +kernel) (by decide +kernel)

/-! ## Lives -/

/-- A process: its command line, its id, what it accepts, and whether it is killed before its
end. -/
structure Life where
  options : ServeOptions
  pid : ℕ
  arrivals : List Arrival
  killed : Option CrashPoint := none

section

variable {σ : Type} (env : HostEnv σ) (build : Build) (quoted : String → String)

/-- The file outside of the store that a call writes. -/
def writtenFile : (Σ β, DaemonOp β) → Option String
  | ⟨_, .right (.write path _)⟩ => some path
  | _ => none

/-- A kill inside a write, which has then got as far as `k` bytes. -/
def Host.torn (h : Host σ) (k : ℕ) : (Σ β, DaemonOp β) → Host σ
  | ⟨_, .left e⟩ => { h with world := env.underway h.world k ⟨_, e⟩ }
  | ⟨_, .right (.write path content)⟩ => { h with files := h.files.insert path (content.take k) }
  | _ => h

variable (h : Host σ) (l : Life)

def Life.program : Fallible DaemonOp ℕ := mainServe build quoted l.options l.pid l.arrivals

/-- The host at the end of a process. The other threads go on until then. -/
def Life.final : Host σ :=
  match l.killed with
  | none => env.others (exec env.daemon (l.program build quoted) h).1
  | some p =>
    let cut := env.others (cutOff env.daemon p.calls (l.program build quoted) h).2
    match p.inside, (trace env.daemon (l.program build quoted) h)[p.calls]? with
    | some k, some c => cut.torn env k c
    | _, _ => cut

/-- What the process has done with the pidfile at `path`. -/
def Life.marks (path : String) : List Mark :=
  match l.killed with
  | none => emitted (markOf path) env.daemon (l.program build quoted) h
  | some p => (cutOff env.daemon p.calls (l.program build quoted) h).1.filterMap (markOf path)

/-- A process, after which its memory and its threads are lost. -/
def lifeStep : Host σ :=
  let h' := l.final env build quoted h
  { h' with
      world := h'.world.killed h'.world.dir
      handlers := [] }

/-- Processes one after another, on one store. -/
def lifeRun (lives : List Life) : Host σ := lives.foldl (lifeStep env build quoted) h

end

section

variable {σ : Type} {env : HostEnv σ} {build : Build} {quoted : String → String} {path : String}

/-- A kill inside a call leaves the file at `path`, unless the call writes it. -/
theorem files_torn {c : Σ β, DaemonOp β} (hc : writtenFile c ≠ some path) (h : Host σ) (k : ℕ) :
    (h.torn env k c).files.lookup path = h.files.lookup path := by
  obtain ⟨β, e | e⟩ := c
  · cases e <;> rfl
  cases e with
  | write p content =>
    change (h.files.insert p (content.take k)).lookup path = _
    rw [Table.lookup_insert_eq, if_neg fun heq => hc (congrArg some heq.symm)]
  | _ => rfl

theorem writtenFile_ne {c : Σ β, DaemonOp β} (hc : LeavesPidfile path c.1 c.2) :
    writtenFile c ≠ some path := by
  obtain ⟨β, e | e⟩ := c
  · exact nofun
  cases e with
  | write p content => exact fun heq => hc.elim (· (Option.some.inj heq)) id
  | _ => exact nofun

/-- No call of a process writes its pidfile in place. -/
theorem PidfileCall.writtenFile_ne {old : Option Bytes} {pid : ℕ} {x : List Mark × Host σ}
    {c : Σ β, DaemonOp β} (hc : PidfileCall env path old pid x c) : writtenFile c ≠ some path := by
  rcases hc with ⟨-, haside | ⟨rfl, -⟩⟩ | ⟨-, hleaves | rfl⟩
  · exact SporePeer.writtenFile_ne (.inl haside)
  · exact nofun
  · exact SporePeer.writtenFile_ne hleaves
  · exact nofun

section

variable {old : Option Bytes} {pid : ℕ} {l : List Mark} {h h' : Host σ}
  (hfiles : h'.files.lookup path = h.files.lookup path)

include hfiles

theorem Before.congr (hx : Before env path old (l, h)) : Before env path old (l, h') :=
  ⟨hx.published, hx.bound, hx.removed, hfiles.trans hx.files⟩

theorem After.congr (hx : After env path pid (l, h)) : After env path pid (l, h') :=
  ⟨hx.published, hx.removed, hfiles ▸ hx.files⟩

/-- What the pidfile tells, it tells of other files too. -/
theorem Tells.congr (hx : Tells env path old pid (l, h)) : Tells env path old pid (l, h') := by
  rcases hx with hbefore | ⟨hpublished, hremoved, hhere⟩ | hafter
  · exact .inl (hbefore.congr hfiles)
  · exact .inr (.inl ⟨hpublished, hremoved, hfiles.trans hhere⟩)
  · exact .inr (.inr (hafter.congr hfiles))

end

/-- A process that was not killed has removed its pidfile, or has not published one. -/
theorem ended_final (env : HostEnv σ) (build : Build) (quoted : String → String) (h : Host σ)
    {l : Life} (hl : l.options.pidfile = some path)
    (hkilled : l.killed = none) :
    let x := (l.marks env build quoted h path, l.final env build quoted h)
    Before env path (h.files.lookup path) x ∨ After env path l.pid x := by
  have hend := exec_mainServe build quoted hl l.pid l.arrivals (before_start env path h)
  rw [marking, exec_recording] at hend
  rw [Life.marks, Life.final, hkilled]
  -- the other threads do not touch it
  have hfiles := congrArg (·.lookup path) (env.files_others (exec env.daemon
    (l.program build quoted) h).1)
  exact hend.imp (Before.congr hfiles) (After.congr hfiles)

/-- The pidfile of a process at its end, or where it was killed. -/
theorem tells_final (env : HostEnv σ) (build : Build) (quoted : String → String) (h : Host σ)
    {l : Life} (hl : l.options.pidfile = some path) :
    Tells env path (h.files.lookup path) l.pid
      (l.marks env build quoted h path, l.final env build quoted h) := by
  rcases hkilled : l.killed with _ | p
  · exact (ended_final env build quoted h hl hkilled).imp id .inr
  have hcut : Tells env path (h.files.lookup path) l.pid
      ((cutOff env.daemon p.calls (l.program build quoted) h).1.filterMap (markOf path),
        (cutOff env.daemon p.calls (l.program build quoted) h).2) :=
    tells_mainServe build quoted hl l.pid l.arrivals h p.calls
  have hcut := hcut.congr (congrArg (·.lookup path) (env.files_others _))
  rw [Life.marks, Life.final, hkilled]
  dsimp only
  split
  · -- a write that is torn is not one of the pidfile
    rename_i k c hinside hcall
    refine hcut.congr (files_torn ?_ _ _)
    have heach := eachCall_mainServe build quoted hl l.pid l.arrivals (before_start env path h)
    rw [← trace_recording (markOf path) _ []] at hcall
    exact (heach.next hcall).writtenFile_ne
  · exact hcut

/-! ## Other processes -/

/-- A process with another pidfile. -/
theorem only_mainServe (build : Build) (quoted : String → String) {o : ServeOptions}
    (ho : ∀ q, o.pidfile = some q → q ≠ path ∧ tmpPath q ≠ path) (pid : ℕ)
    (arrivals : List Arrival) :
    Only (LeavesPidfile path) (mainServe build quoted o pid arrivals) := by
  have hserve : Only (LeavesPidfile path) (serveStatus build o arrivals) :=
    only_serveStatus_leaves build o arrivals
  refine only_bind ((only_openFabric_aside build o).mono fun _ _ he => .inl he) fun _ => ?_
  split
  · exact hserve
  rename_i q hq
  obtain ⟨hne, htmp⟩ := ho q hq
  have hwrite : Only (Aside path) (writePidfile quoted q pid) :=
    only_bind (only_createParent quoted q) fun _ => only_bind (only_ask htmp) fun _ =>
      only_bind (only_orFail _) fun _ => only_bind (only_ask ⟨htmp, hne⟩) fun _ => only_orFail _
  refine only_bind (only_attempt (hwrite.mono fun _ _ he => .inl he)) fun published => ?_
  cases published with
  | error e => exact (only_reportError e).mono fun _ _ he => .inl he
  | ok _ =>
    exact only_bind hserve fun _ => only_bind (only_ask (.inl hne)) fun _ => only_pure _

/-- A process with another pidfile leaves this one as it is. -/
theorem files_final_aside (h : Host σ) {l : Life} (hpath : l.options.pidfile ≠ some path)
    (htmp : ∀ q, l.options.pidfile = some q → tmpPath q ≠ path) :
    (l.final env build quoted h).files.lookup path = h.files.lookup path ∧
      .published ∉ l.marks env build quoted h path := by
  have hl : ∀ q, l.options.pidfile = some q → q ≠ path ∧ tmpPath q ≠ path := by
    intro q hq
    refine ⟨?_, htmp q hq⟩
    rintro rfl
    exact hpath hq
  have honly : Only (LeavesPidfile path) (l.program build quoted) :=
    only_mainServe build quoted hl l.pid l.arrivals
  have hmarks {cs : List (Σ β, DaemonOp β)} (hcs : ∀ c ∈ cs, LeavesPidfile path c.1 c.2) :
      .published ∉ cs.filterMap (markOf path) := by
    intro hmem
    obtain ⟨c, hc, hpub⟩ := List.mem_filterMap.mp hmem
    cases (hcs c hc).markOf (Option.mem_toList.mpr hpub)
  have hstep : ∀ β (e : DaemonOp β) (v : Host σ), LeavesPidfile path β e →
      v.files.lookup path = h.files.lookup path →
      (env.daemon β e v).1.files.lookup path = h.files.lookup path :=
    fun β e v he hv => (he.files v).trans hv
  rw [Life.marks, Life.final]
  rcases l.killed with _ | p
  · have hend : (exec env.daemon (l.program build quoted) h).1.files.lookup path =
        h.files.lookup path :=
      honly.invariant (I := fun v : Host σ => v.files.lookup path = h.files.lookup path) hstep rfl
    exact ⟨(congrArg (·.lookup path) (env.files_others _)).trans hend,
      hmarks honly.forall_mem_trace⟩
  refine ⟨?_, hmarks (honly.forall_mem_cutOff p.calls)⟩
  have hcut : (env.others (cutOff env.daemon p.calls (l.program build quoted) h).2).files.lookup
      path = h.files.lookup path :=
    (congrArg (·.lookup path) (env.files_others _)).trans
      (honly.cutOff (I := fun v : Host σ => v.files.lookup path = h.files.lookup path) hstep rfl _)
  dsimp only
  split
  · rename_i k c hinside hcall
    have hleaves := honly.forall_mem_trace c (List.mem_of_getElem? hcall)
    exact (files_torn (writtenFile_ne hleaves) _ _).trans hcut
  · exact hcut

/-! ## Runs -/

/-- One process: the pidfile is as before, or gone, or that of the process. -/
theorem pidfile_lifeStep (env : HostEnv σ) (build : Build) (quoted : String → String)
    (h : Host σ) {l : Life} (hl : ∀ q, l.options.pidfile = some q → tmpPath q ≠ path) :
    let content := (lifeStep env build quoted h l).files.lookup path
    content = h.files.lookup path ∨ content = none ∨
      l.options.pidfile = some path ∧ content = some (pidLine l.pid) := by
  intro content
  by_cases hpath : l.options.pidfile = some path
  · rcases tells_final env build quoted h hpath with
      hbefore | hduring | hafter
    · exact .inl hbefore.files
    · exact .inr (.inr ⟨hpath, hduring.files⟩)
    · exact .inr (hafter.files.imp id fun hline => ⟨hpath, hline.2⟩)
  · exact .inl (files_final_aside h hpath hl).1

/-- One process, where no file operation fails: it has not published the pidfile, or it was killed
while that was there, or it has removed it. -/
theorem steady_lifeStep (hsteady : env.Steady) (build : Build) (quoted : String → String)
    (h : Host σ) {l : Life} (hl : ∀ q, l.options.pidfile = some q → tmpPath q ≠ path) :
    let marks := l.marks env build quoted h path
    let content := (lifeStep env build quoted h l).files.lookup path
    (.published ∉ marks ∧ content = h.files.lookup path) ∨
      (.published ∈ marks ∧ .removed ∉ marks ∧ l.killed.isSome ∧
        content = some (pidLine l.pid)) ∨
      (.published ∈ marks ∧ .removed ∈ marks ∧ content = none) := by
  intro marks content
  by_cases hpath : l.options.pidfile = some path
  swap
  · exact .inl (files_final_aside h hpath hl).symm
  rcases tells_final env build quoted h hpath with hx | hx | hx
  · exact .inl ⟨hx.published hsteady, hx.files⟩
  · refine .inr (.inl ⟨hx.published, hx.removed, ?_, hx.files⟩)
    -- at the end of the process the pidfile would be gone
    rw [Option.isSome_iff_ne_none]
    intro hended
    rcases ended_final env build quoted h hpath hended with hy | hy
    · exact hy.published hsteady hx.published
    · exact hx.removed hy.removed
  · exact .inr (.inr ⟨hx.published, hx.removed, hx.files.resolve_right fun hf => hf.1 hsteady⟩)

/-- **A pidfile is never incomplete**: after processes one after another, each of them ended or
killed anywhere, whatever file operations fail, it is as at first, or gone, or that of one of the
processes. -/
theorem pidfile_whole (env : HostEnv σ) (build : Build) (quoted : String → String)
    {lives : List Life} (hlives : ∀ l ∈ lives, ∀ q, l.options.pidfile = some q → tmpPath q ≠ path)
    (h : Host σ) :
    let content := (lifeRun env build quoted h lives).files.lookup path
    content = h.files.lookup path ∨ content = none ∨
      ∃ l ∈ lives, l.options.pidfile = some path ∧ content = some (pidLine l.pid) := by
  induction lives generalizing h with
  | nil => exact .inl rfl
  | cons l lives ih =>
    obtain ⟨hl, hrest⟩ := List.forall_mem_cons.mp hlives
    rcases ih hrest (lifeStep env build quoted h l) with hsame | hnone | ⟨l', hl', hcontent⟩
    · -- the processes after the first leave what the first leaves
      rcases pidfile_lifeStep env build quoted h hl with
        hold | hnone | ⟨hpath, hline⟩
      · exact .inl (hsame.trans hold)
      · exact .inr (.inl (hsame.trans hnone))
      · exact .inr (.inr ⟨l, List.mem_cons_self, hpath, hsame.trans hline⟩)
    · exact .inr (.inl hnone)
    · exact .inr (.inr ⟨l', List.mem_cons_of_mem _ hl', hcontent⟩)

/-- A kill inside the write of a pidfile of two digits. -/
theorem pidfile_whole_torn :
    let env : HostEnv Unit := .still (fun p _ => (p, .error "closed")) 0 fun _ => []
    let o : ServeOptions := { pidfile := some "/run/peer.pid" }
    (lifeRun env .leading id { world := .fresh () }
      [⟨o, 77, [], some ⟨1, some 1⟩⟩]).files.lookup "/run/peer.pid" ≠ some (asBytes "7") := by
  intro env o
  have hlives : ∀ l ∈ [(⟨o, 77, [], some ⟨1, some 1⟩⟩ : Life)],
      ∀ q, l.options.pidfile = some q → tmpPath q ≠ "/run/peer.pid" := by
    intro l hl q hq
    obtain rfl := List.mem_singleton.mp hl
    obtain rfl : "/run/peer.pid" = q := Option.some.inj hq
    exact tmpPath_ne _
  intro hpart
  rcases pidfile_whole env .leading id hlives { world := .fresh () } with
    hold | hnone | ⟨l, hl, -, hline⟩
  · cases hpart.symm.trans hold
  · cases hpart.symm.trans hnone
  · obtain rfl := List.mem_singleton.mp hl
    exact absurd (Option.some.inj (hpart.symm.trans hline)) (by decide +kernel)

/-- What the process `i` of a run has done with the pidfile. -/
def marksAt (env : HostEnv σ) (build : Build) (quoted : String → String) (path : String)
    (h : Host σ) (lives : List Life) (i : ℕ) : List Mark :=
  lives[i]?.elim [] fun l =>
    l.marks env build quoted (lifeRun env build quoted h (lives.take i)) path

/-- A process that was killed while its pidfile was there, and after which no other process has
published one. -/
def LeavesLast (env : HostEnv σ) (build : Build) (quoted : String → String) (path : String)
    (h : Host σ) (lives : List Life) (l : Life) : Prop :=
  ∃ i, lives[i]? = some l ∧ l.killed.isSome ∧
    .published ∈ marksAt env build quoted path h lives i ∧
    .removed ∉ marksAt env build quoted path h lives i ∧
    ∀ j, i < j → .published ∉ marksAt env build quoted path h lives j

theorem lifeRun_concat (h : Host σ) (lives : List Life) (l : Life) :
    lifeRun env build quoted h (lives ++ [l]) =
      lifeStep env build quoted (lifeRun env build quoted h lives) l := by
  rw [lifeRun, lifeRun, List.foldl_append]
  rfl

theorem marksAt_concat_lt (h : Host σ) {lives : List Life} (l : Life) {i : ℕ}
    (hi : i < lives.length) :
    marksAt env build quoted path h (lives ++ [l]) i = marksAt env build quoted path h lives i := by
  rw [marksAt, marksAt, List.getElem?_append_left hi, List.take_append_of_le_length hi.le]

theorem marksAt_concat_length (h : Host σ) (lives : List Life) (l : Life) :
    marksAt env build quoted path h (lives ++ [l]) lives.length =
      l.marks env build quoted (lifeRun env build quoted h lives) path := by
  rw [marksAt, List.getElem?_concat_length, List.take_left]
  rfl

theorem marksAt_concat_gt (h : Host σ) {lives : List Life} (l : Life) {i : ℕ}
    (hi : lives.length < i) : marksAt env build quoted path h (lives ++ [l]) i = [] := by
  have hlen : (lives ++ [l]).length ≤ i := by
    rw [List.length_append]
    exact hi
  rw [marksAt, List.getElem?_eq_none hlen]
  rfl

/-- The last process has left its pidfile, or it has not published one and an earlier process has
left its. -/
theorem leavesLast_concat (h : Host σ) (lives : List Life) (l l' : Life) :
    let marks := l.marks env build quoted (lifeRun env build quoted h lives) path
    LeavesLast env build quoted path h (lives ++ [l]) l' ↔
      (l' = l ∧ l.killed.isSome ∧ .published ∈ marks ∧ .removed ∉ marks) ∨
        (.published ∉ marks ∧ LeavesLast env build quoted path h lives l') := by
  intro marks
  have hlast : marksAt env build quoted path h (lives ++ [l]) lives.length = marks :=
    marksAt_concat_length h lives l
  constructor
  · rintro ⟨i, hi, hkilled, hpub, hrem, hlater⟩
    rcases lt_trichotomy i lives.length with hlt | rfl | hgt
    · -- an earlier process, after which the last one has not published
      have hnot := hlater lives.length hlt
      rw [hlast] at hnot
      rw [List.getElem?_append_left hlt] at hi
      rw [marksAt_concat_lt h l hlt] at hpub hrem
      refine .inr ⟨hnot, i, hi, hkilled, hpub, hrem, fun j hj => ?_⟩
      by_cases hjlt : j < lives.length
      · rw [← marksAt_concat_lt h l hjlt]
        exact hlater j hj
      · rw [marksAt, List.getElem?_eq_none (not_lt.mp hjlt)]
        exact List.not_mem_nil
    · rw [List.getElem?_concat_length] at hi
      obtain rfl := Option.some.inj hi
      rw [hlast] at hpub hrem
      exact .inl ⟨rfl, hkilled, hpub, hrem⟩
    · rw [marksAt_concat_gt h l hgt] at hpub
      cases hpub
  · rintro (⟨rfl, hkilled, hpub, hrem⟩ | ⟨hnot, i, hi, hkilled, hpub, hrem, hlater⟩)
    · refine ⟨lives.length, List.getElem?_concat_length, hkilled, hlast ▸ hpub, hlast ▸ hrem,
        fun j hj => ?_⟩
      rw [marksAt_concat_gt h _ hj]
      exact List.not_mem_nil
    · have hlt := (List.getElem?_eq_some_iff.mp hi).1
      refine ⟨i, (List.getElem?_append_left hlt).trans hi, hkilled, ?_, ?_, fun j hj => ?_⟩
      · rw [marksAt_concat_lt h l hlt]
        exact hpub
      · rw [marksAt_concat_lt h l hlt]
        exact hrem
      · rcases lt_trichotomy j lives.length with hjlt | rfl | hjgt
        · rw [marksAt_concat_lt h l hjlt]
          exact hlater j hj
        · rw [hlast]
          exact hnot
        · rw [marksAt_concat_gt h l hjgt]
          exact List.not_mem_nil

/-- **Whose pidfile is left**: a supervisor finds one after a run of processes exactly when the last
process to publish it was killed before its end, and it has the id of that process. -/
theorem pidfile_left_iff (hsteady : env.Steady) (build : Build) (quoted : String → String)
    {lives : List Life} (hlives : ∀ l ∈ lives, ∀ q, l.options.pidfile = some q → tmpPath q ≠ path)
    {h : Host σ} (hnone : h.files.lookup path = none) (content : Bytes) :
    (lifeRun env build quoted h lives).files.lookup path = some content ↔
      ∃ l, LeavesLast env build quoted path h lives l ∧ content = pidLine l.pid := by
  induction lives using List.reverseRecOn with
  | nil =>
    refine iff_of_false (fun hsome => ?_) ?_
    · cases hnone.symm.trans hsome
    · rintro ⟨l, ⟨i, hi, -⟩, -⟩
      cases hi
  | append_singleton lives l ih =>
    obtain ⟨hbefore, hlast⟩ := List.forall_mem_append.mp hlives
    rw [lifeRun_concat]
    simp only [leavesLast_concat]
    rcases steady_lifeStep hsteady build quoted (lifeRun env build quoted h lives)
      (List.forall_mem_singleton.mp hlast) with
        ⟨hpub, hcontent⟩ | ⟨hpub, hrem, hkilled, hcontent⟩ | ⟨hpub, hrem, hcontent⟩
    · -- the last process has not published, and leaves what was there
      rw [hcontent, ih hbefore]
      simp only [hpub, false_and, and_false, false_or, not_false_eq_true, true_and]
    · -- it was killed while its pidfile was there
      rw [hcontent]
      constructor
      · intro hline
        exact ⟨l, .inl ⟨rfl, hkilled, hpub, hrem⟩, (Option.some.inj hline).symm⟩
      · rintro ⟨l', ⟨rfl, -⟩ | ⟨hnot, -⟩, rfl⟩
        · rfl
        · exact absurd hpub hnot
    · -- it has removed its pidfile
      rw [hcontent]
      simp only [hpub, hrem, not_true_eq_false, and_false, false_and, or_false, exists_false,
        reduceCtorEq]

end

/-- The process that is killed while it serves leaves its pidfile, the one before it does not. -/
theorem pidfile_left_iff_two :
    let env : HostEnv Unit := .still (fun p _ => (p, .error "closed")) 0 fun _ => []
    let o : ServeOptions := { pidfile := some "/run/peer.pid" }
    let lives : List Life := [⟨o, 7, [], none⟩, ⟨o, 8, [], some ⟨5, none⟩⟩]
    (lifeRun env .leading id { world := .fresh () } lives).files.lookup "/run/peer.pid" =
      some (pidLine 8) := by
  intro env o lives
  have hlives : ∀ l ∈ lives, ∀ q, l.options.pidfile = some q → tmpPath q ≠ "/run/peer.pid" := by
    intro l hl q hq
    have hq' : q = "/run/peer.pid" := by
      rcases List.mem_pair.mp hl with rfl | rfl
      · exact (Option.some.inj hq).symm
      · exact (Option.some.inj hq).symm
    rw [hq']
    exact tmpPath_ne _
  refine (pidfile_left_iff (fun _ => rfl) .leading id hlives rfl (pidLine 8)).mpr
    ⟨⟨o, 8, [], some ⟨5, none⟩⟩, ⟨1, rfl, rfl, by decide +kernel, by decide +kernel, ?_⟩, rfl⟩
  intro j hj
  have hend : lives[j]? = none := List.getElem?_eq_none hj
  rw [marksAt, hend]
  exact List.not_mem_nil

end SporePeer
