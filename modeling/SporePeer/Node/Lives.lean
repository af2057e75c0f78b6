import SporePeer.Node.Pidfile
import SporePeer.Node.Provenance

/-!
# The store of the serving process

A process works on its store by opening the relay and by the threads of its connections, which take
turns. What survives their calls, and the parts of their writes, survives the process, wherever it
is killed, and so any number of processes.

## Main definitions

* `Starts`: the calls of the main thread, which start threads whose calls are allowed
* `Going`: a process whose threads make allowed calls
* `PushedName`, `NamesFrom`: calls that give names of bodies to pushed bodies only
* `PushedTo`: the bodies that are pushed to one of the processes

## Main results

* `Going.turn`, `Going.daemon`: one turn of a thread, and one call of the main thread
* `store_lifeStep`: what survives a process
* `bodies_stay_lives`, `bodies_were_pushed_lives`: the bodies after processes one after another
-/

namespace SporePeer

open Effects Text

section

variable {σ : Type} {env : HostEnv σ} {I : Table String FileData → Prop}
  {ok : (β : Type) → Op β → Prop} {h : Host σ}

/-! ## Threads -/

/-- The program makes only calls that `ok` allows, among others that keep `I` of the files. -/
abbrev Allowed (env : HostEnv σ) (I : Table String FileData → Prop) (ok : (β : Type) → Op β → Prop)
    (m : Fallible Op Unit) : Prop :=
  Among env.toEnv.handle (fun w => I w.dir) ok (fun _ => True) m

/-- A call of the main thread: one on its store is allowed, and a thread that is started makes
allowed calls. -/
def Starts (env : HostEnv σ) (I : Table String FileData → Prop) (ok : (β : Type) → Op β → Prop) :
    (β : Type) → DaemonOp β → Prop
  | _, .left e => ok _ e
  | _, .right (.spawn build cfg dir ip frames) =>
    Allowed env I ok (handleClient build cfg dir ip frames)
  | _, .right _ => True

/-- The threads of a process make allowed calls, and `I` holds of the files. -/
def Going (env : HostEnv σ) (I : Table String FileData → Prop) (ok : (β : Type) → Op β → Prop)
    (h : Host σ) : Prop :=
  h.pool.Among env.toEnv.handle (fun w => I w.dir) ok fun r => ∀ a, r = .ok a → True

variable (hs : FilesSurvive env.toEnv (fun _ c => ok c.1 c.2) I)

include hs

/-- **One turn** of a thread. -/
theorem Going.turn (hh : Going env I ok h) (t : Turn) : Going env I ok (env.turn h t) := by
  cases t with
  | call i =>
    rw [HostEnv.turn]
    split
    · exact hh
    · exact Pool.Among.step (fun _ e w he hw => hs.call w ⟨_, e⟩ he hw) hh i
  | part i k =>
    rw [HostEnv.turn]
    split
    · rename_i c hc
      refine ⟨?_, hh.threads⟩
      have hallowed := hh.nextCall hc
      obtain ⟨β, e⟩ := c
      cases e with
      | write name content =>
        -- what is there of the file is what a kill would leave
        exact hs.tornWrite h.world name content k hallowed hh.state
      | _ => exact hh.state
    · exact hh

theorem Going.others (hh : Going env I ok h) : Going env I ok (env.others h) := by
  rw [HostEnv.others]
  induction env.turns h.tick generalizing h with
  | nil => exact hh
  | cons t turns ih => exact ih (hh.turn hs t)

/-- **One call** of the main thread. -/
theorem Going.daemon {β : Type} {e : DaemonOp β} (he : Starts env I ok β e)
    (hh : Going env I ok h) : Going env I ok (env.daemon β e h).1 := by
  have hthen := hh.others hs
  change Going env I ok (env.answer β e (env.others h)).1
  generalize env.others h = h' at hthen
  rcases e with e | e
  · exact ⟨hs.call h'.world ⟨_, e⟩ he hthen.state, hthen.threads⟩
  -- of the calls on the host, a start is the only one that concerns threads
  cases e with
  | spawn build cfg dir ip frames => exact Pool.Among.append hthen he
  | write path content =>
    simp only [HostEnv.answer, HostEnv.write]
    split <;> exact hthen
  | rename src dst =>
    simp only [HostEnv.answer, HostEnv.rename]
    split
    · exact hthen
    split <;> exact hthen
  | removeFile path =>
    simp only [HostEnv.answer, HostEnv.removeFile]
    split <;> exact hthen
  | _ => exact hthen

/-- A kill inside a call of the main thread. -/
theorem Going.torn {c : Σ β, DaemonOp β} (hc : Starts env I ok c.1 c.2) (hh : Going env I ok h)
    (k : ℕ) : I (h.torn env k c).world.dir := by
  obtain ⟨β, e | e⟩ := c
  · cases e with
    | write name content => exact hs.tornWrite h.world name content k hc hh.state
    | _ => exact hh.state
  · cases e <;> exact hh.state

end

/-! ## Processes -/

section

variable {σ : Type} {env : HostEnv σ} {I : Table String FileData → Prop}
  {ok : (β : Type) → Op β → Prop} (hok : Bodiless ok) {build : Build} {quoted : String → String}
  {l : Life}
  (hconns : ∀ ip frames, .connection ip frames ∈ l.arrivals →
    Allowed env I ok (handleClient build l.options.config l.options.dir ip frames))

include hok hconns

/-- **The calls of the main thread** are those of the relay on the store, and the starts of the
threads. -/
theorem only_program_starts : Only (Starts env I ok) (l.program build quoted) := by
  have hopen : Only (Starts env I ok) (openFabric build l.options) := by
    have hstart : Only ok (fabricOpen build l.options.fabric) :=
      (permits_only hok).fabricOpen build l.options.fabric
    exact only_openFabric (fun _ _ he => he) hstart
  have hserve : Only (Starts env I ok) (serveStatus build l.options l.arrivals) := by
    refine (only_serveStatus build l.options l.arrivals).mono fun β e he => ?_
    rcases e with e | e
    · cases e with
      | setWins l x => exact hok.keeps _ _ trivial
      | _ => exact he.elim
    cases e with
    | spawn b cfg dir ip frames =>
      obtain ⟨rfl, rfl, rfl, hmem⟩ := he
      exact hconns ip frames hmem
    | _ => trivial
  have hparent (path : String) : Only (Starts env I ok) (createParent quoted path) := by
    unfold createParent
    split
    · exact only_pure _
    · exact only_bind (only_ask trivial) fun _ => only_orFail _
  have hwrite (path : String) : Only (Starts env I ok) (writePidfile quoted path l.pid) :=
    only_bind (hparent path) fun _ => only_bind (only_ask trivial) fun _ =>
      only_bind (only_orFail _) fun _ => only_bind (only_ask trivial) fun _ => only_orFail _
  refine only_bind hopen fun _ => ?_
  split
  · exact hserve
  refine only_bind (only_attempt (hwrite _)) fun published => ?_
  cases published with
  | error e => exact only_bind (only_ask trivial) fun _ => only_pure _
  | ok _ => exact only_bind hserve fun _ => only_bind (only_ask trivial) fun _ => only_pure _

/-- **One process** leaves what its calls leave, wherever it is killed. -/
theorem store_lifeStep (hs : FilesSurvive env.toEnv (fun _ c => ok c.1 c.2) I) {h : Host σ}
    (hidle : h.handlers = []) (hI : I h.world.dir) :
    I (lifeStep env build quoted h l).world.dir := by
  have honly : Only (Starts env I ok) (l.program build quoted) := only_program_starts hok hconns
  have hstart : Going env I ok h := by
    refine ⟨hI, fun i t ht => ?_⟩
    change h.handlers[i]? = some t at ht
    rw [hidle] at ht
    cases ht
  have hstep : ∀ β (e : DaemonOp β) (v : Host σ), Starts env I ok β e → Going env I ok v →
      Going env I ok (env.daemon β e v).1 := fun _ _ _ he hv => hv.daemon hs he
  change I (l.final env build quoted h).world.dir
  rw [Life.final]
  rcases l.killed with _ | p
  · -- it comes to its end, and the threads with it
    exact ((honly.invariant hstep hstart).others hs).state
  -- it is killed after some calls, at a moment when the threads have taken some more turns
  have hcut : Going env I ok
      (env.others (cutOff env.daemon p.calls (l.program build quoted) h).2) :=
    (honly.cutOff hstep hstart p.calls).others hs
  dsimp only
  split
  · -- and in the middle of the call that comes next
    rename_i k c _ hcall
    exact hcut.torn hs (honly.forall_mem_trace c (List.mem_of_getElem? hcall)) k
  · exact hcut.state

end

/-! ## Runs -/

section

variable {σ : Type} {env : HostEnv σ}

theorem FilesSurvive.mono {env : Env σ} {P P' : World σ → (Σ β, Op β) → Prop}
    {I : Table String FileData → Prop} (hs : FilesSurvive env P I) (hP : ∀ w c, P' w c → P w c) :
    FilesSurvive env P' I where
  call w c hc := hs.call w c (hP w c hc)
  tornWrite w name content k hc := hs.tornWrite w name content k (hP w _ hc)

/-- **The bodies stay** in the store of processes one after another, whatever their connections
send, in whatever order their threads take turns, and wherever they are killed. -/
theorem bodies_stay_lives (hcalm : env.toEnv.Calm) (build : Build) (quoted : String → String)
    (lives : List Life) {h : Host σ} (hidle : h.handlers = []) {stem : String} {d : FileData}
    (hbody : h.world.dir.lookup (bodyFile stem) = some d) :
    (lifeRun env build quoted h lives).world.dir.lookup (bodyFile stem) = some d := by
  induction lives generalizing h with
  | nil => exact hbody
  | cons l lives ih =>
    refine ih rfl ?_
    -- the process spares the bodies that it starts with
    have hs : FilesSurvive env.toEnv (fun _ c => SparesBodies h.world.dir c.1 c.2)
        (Keeps h.world.dir) := (filesSurvive_spares _ _).mono fun _ _ hc _ => hc
    have hkeeps : Keeps h.world.dir (lifeStep env build quoted h l).world.dir :=
      store_lifeStep (bodiless_sparesBodies _) (fun ip frames _ =>
        spares_connection hcalm build l.options.config l.options.dir ip frames) hs hidle (.refl _)
    exact hkeeps stem d hbody

end

/-- A body, through a process that is killed while one of its threads writes another body and a
second one pushes the first again, and the process after it. -/
theorem bodies_stay_lives_killed :
    let build := Build.leading
    let push (body : Bytes) : Bytes :=
      Cbor.message "Peer.PutObject" 1 "" (putobjectRequest (build.sha256 body) body "")
    let turns (t : ℕ) : List Turn :=
      if t = 8 then [.call 0, .call 1, .call 0, .call 1, .call 0, .call 1, .part 0 1] else []
    let env : HostEnv Unit := .still (fun p _ => (p, .error "closed")) 60 turns
    let h : Host Unit := { world := { World.fresh () with
      dir := (∅ : Table String FileData).insert (bodyFile (cidOf build [7])) ⟨[7], 5⟩ } }
    let lives : List Life :=
      [⟨{}, 7, [.connection "a" [push [8, 9]], .connection "b" [push [7]]], some ⟨8, none⟩⟩,
        ⟨{}, 8, [], none⟩]
    (lifeRun env build id h lives).world.dir.lookup (bodyFile (cidOf build [7])) =
      some ⟨[7], 5⟩ := by
  intro build push turns env h lives
  exact bodies_stay_lives (Env.still_calm _ _) build id lives rfl (AList.lookup_insert _)

/-! ## Names -/

section

variable {σ : Type}

/-- A call that gives a name of a body to a file only if it is that of a body that may be stored. -/
def PushedName (build : Build) (may : Bytes → Prop) : (β : Type) → Op β → Prop
  | _, .write name _ => ¬ IsBodyFile name
  | _, .rename _ dst => IsBodyFile dst → ∃ body, may body ∧ dst = bodyFile (cidOf build body)
  | _, _ => True

/-- Every body of `dir` has a name that one has in `old`, or that of a body that may be stored. -/
def NamesFrom (build : Build) (may : Bytes → Prop) (old dir : Table String FileData) : Prop :=
  ∀ stem, (dir.lookup (bodyFile stem)).isSome → (old.lookup (bodyFile stem)).isSome ∨
    ∃ body, may body ∧ stem = cidOf build body

variable {build : Build} {may : Bytes → Prop} {old : Table String FileData}

theorem NamesFrom.refl (build : Build) (may : Bytes → Prop) (dir : Table String FileData) :
    NamesFrom build may dir dir := fun _ => .inl

theorem NamesFrom.trans {a b c : Table String FileData} (hab : NamesFrom build may a b)
    (hbc : NamesFrom build may b c) : NamesFrom build may a c :=
  fun stem h => (hbc stem h).elim (hab stem) .inr

theorem NamesFrom.mono {may' : Bytes → Prop} {dir : Table String FileData}
    (h : NamesFrom build may old dir) (hmay : ∀ body, may body → may' body) :
    NamesFrom build may' old dir :=
  fun stem hd => (h stem hd).imp_right fun ⟨body, hbody, hstem⟩ => ⟨body, hmay body hbody, hstem⟩

theorem NamesFrom.insert {dir : Table String FileData} (h : NamesFrom build may old dir)
    {name : String} (d : FileData)
    (hname : IsBodyFile name → ∃ body, may body ∧ name = bodyFile (cidOf build body)) :
    NamesFrom build may old (dir.insert name d) := by
  intro stem hd
  rw [Table.lookup_insert_eq] at hd
  split at hd
  · rename_i heq
    obtain ⟨body, hbody, hstem⟩ := hname ⟨stem, heq.symm⟩
    exact .inr ⟨body, hbody, bodyFile_inj.mp (heq.trans hstem)⟩
  · exact h stem hd

theorem NamesFrom.erase {dir : Table String FileData} (h : NamesFrom build may old dir)
    (name : String) : NamesFrom build may old (dir.erase name) := by
  intro stem hd
  rw [Table.lookup_erase_eq] at hd
  split at hd
  · cases hd
  · exact h stem hd

/-- **One call** gives no other name to a body, even where a write is torn. -/
theorem filesSurvive_pushedName (env : Env σ) (build : Build) (may : Bytes → Prop)
    (old : Table String FileData) :
    FilesSurvive env (fun _ c => PushedName build may c.1 c.2) (NamesFrom build may old) where
  tornWrite _ _ _ _ hc hI := hI.insert _ fun h => absurd h hc
  call w c hc hI := by
    obtain ⟨β, e⟩ := c
    cases e with
    | write name content =>
      simp only [Env.handle, Env.write_dir]
      split
      · exact hI
      · exact hI.insert _ fun h => absurd h hc
    | rename src dst =>
      simp only [Env.handle, Env.rename]
      split
      · exact hI
      split
      · exact hI
      · exact (hI.erase src).insert _ hc
    | removeFile name =>
      simp only [Env.handle, Env.removeFile]
      split
      · exact hI
      · exact hI.erase name
    | setWins l x => cases l <;> exact hI
    | _ => exact hI

theorem bodiless_pushedName (build : Build) (may : Bytes → Prop) :
    Bodiless (PushedName build may) := by
  refine bodiless_avoidsBodies.mono fun β e he => ?_
  cases e with
  | write name content => exact he
  | rename src dst => exact fun h => absurd h he.2
  | _ => trivial

/-- A connection of one of the processes pushes the body, and presents its write token. -/
def PushedTo (build : Build) (lives : List Life) (body : Bytes) : Prop :=
  ∃ l ∈ lives, ∃ ip frames, .connection ip frames ∈ l.arrivals ∧ ∃ frame ∈ frames, ∃ msg,
    decoded frame = some msg ∧ Pushed build l.options.config msg body

/-- **Where the names of bodies come from**, after processes one after another: they were there
before, or are those of bodies that were pushed to one of the processes. -/
theorem bodies_were_pushed_lives (env : HostEnv σ) (build : Build) (quoted : String → String)
    (lives : List Life) {h : Host σ} (hidle : h.handlers = []) :
    NamesFrom build (PushedTo build lives) h.world.dir
      (lifeRun env build quoted h lives).world.dir := by
  induction lives generalizing h with
  | nil => exact .refl _ _ _
  | cons l lives ih =>
    have hone : NamesFrom build (PushedTo build (l :: lives)) h.world.dir
        (lifeStep env build quoted h l).world.dir := by
      refine store_lifeStep (bodiless_pushedName build _) (fun ip frames hconn => ?_)
        (filesSurvive_pushedName env.toEnv build _ _) hidle (.refl _ _ _)
      refine among_handleClient (bodiless_pushedName build _)
        fun frame hframe msg hdec body hbody _ _ _ _ => ⟨body, ?_, rfl⟩
      exact ⟨l, List.mem_cons_self, ip, frames, hconn, frame, hframe, msg, hdec, hbody⟩
    -- what is pushed to a later process is pushed to one of them all
    refine hone.trans ((ih rfl).mono fun body hbody => ?_)
    obtain ⟨l', hl', hpushed⟩ := hbody
    exact ⟨l', List.mem_cons_of_mem _ hl', hpushed⟩

end

/-- Two threads push the same body. The one has begun to write it again when the other moves it into
place, and there the process is killed. -/
theorem bodies_were_pushed_lives_raced :
    let build := Build.leading
    let frame := Cbor.message "Peer.PutObject" 1 "" (putobjectRequest (build.sha256 [7]) [7] "")
    let turns (t : ℕ) : List Turn :=
      if t = 8 then
        List.replicate 4 (.call 0) ++ List.replicate 3 (.call 1) ++ [.part 1 0, .call 0]
      else []
    let env : HostEnv Unit := .still (fun p _ => (p, .error "closed")) 60 turns
    let lives : List Life :=
      [⟨{}, 7, [.connection "a" [frame], .connection "b" [frame]], some ⟨8, none⟩⟩]
    let dir := (lifeRun env build id { world := .fresh () } lives).world.dir
    (dir.lookup (bodyFile (cidOf build [7]))).map (·.content) = some [] ∧
      ∃ body, PushedTo build lives body ∧ cidOf build [7] = cidOf build body := by
  intro build frame turns env lives dir
  have hleft : (dir.lookup (bodyFile (cidOf build [7]))).map (·.content) = some [] := by
    decide +kernel
  have hthere : (dir.lookup (bodyFile (cidOf build [7]))).isSome := by
    rw [← Option.isSome_map, hleft]
    rfl
  -- the file is there, and there was none at first
  refine ⟨hleft, ?_⟩
  rcases bodies_were_pushed_lives env build id lives rfl _ hthere with hold | hpushed
  · cases hold
  · exact hpushed

end SporePeer
