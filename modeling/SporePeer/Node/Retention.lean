import SporePeer.Node.Calls
import SporePeer.Node.PushStream
import SporePeer.Node.StoreCrash

/-!
# Bodies stay

The server, the clients, the relay and the peers list of a node work in one directory. A body is
written only under a name that is free, and nothing else they write, move or remove has the name of
a body. So whatever a node does, and wherever it is killed, the bodies that it has are still there
afterwards.

## Main definitions

* `IsBodyFile`: the names of bodies
* `AvoidsBodies`, `SparesBodies`: the calls that concern no body, and none of a directory
* `Keeps`: the bodies of one directory are in another
* `Task`, `NodeEvent`, `nodeRun`: what a node does, and its runs

## Main results

* `bodiless_avoidsBodies`, `spares_connection`, `spares_of_passCall`: the calls of the tasks
* `bodies_stay`: what the name says, over every run
-/

namespace SporePeer

open Effects Text

/-! ## Names -/

/-- The names of bodies, whatever their stem. -/
def IsBodyFile (name : String) : Prop := ∃ stem, name = bodyFile stem

theorem IsBodyFile.getLast? {name : String} (h : IsBodyFile name) :
    name.toList.getLast? = some 'y' := by
  obtain ⟨stem, rfl⟩ := h
  simp [bodyFile]

theorem not_isBodyFile_incomingFile (c : String) : ¬ IsBodyFile (incomingFile c) := by
  rintro ⟨stem, h⟩
  exact bodyFile_ne_incomingFile stem c h.symm

theorem not_isBodyFile_tmpFile (c : String) : ¬ IsBodyFile (tmpFile c) := by
  intro h
  have hlast := h.getLast?
  simp [tmpFile] at hlast

theorem not_isBodyFile_fenvFile (c : String) : ¬ IsBodyFile (fenvFile c) := by
  intro h
  have hlast := h.getLast?
  simp [fenvFile] at hlast

theorem not_isBodyFile_peersFile : ¬ IsBodyFile peersFile := by
  intro h
  have hlast := h.getLast?
  revert hlast
  decide

/-! ## Calls -/

/-- A call that concerns no file with the name of a body. -/
def AvoidsBodies : (β : Type) → Op β → Prop
  | _, .write name _ => ¬ IsBodyFile name
  | _, .rename src dst => ¬ IsBodyFile src ∧ ¬ IsBodyFile dst
  | _, .removeFile name => ¬ IsBodyFile name
  | _, _ => True

/-- Nothing but a push and a pull concerns bodies. -/
theorem bodiless_avoidsBodies : Bodiless AvoidsBodies where
  keeps β e he := by
    cases e with
    | write name content => exact he.elim
    | rename src dst => exact he.elim
    | removeFile name => exact he.elim
    | _ => trivial
  queue β e he := by
    cases e with
    | write name content =>
      obtain ⟨c, rfl⟩ := he
      exact not_isBodyFile_tmpFile c
    | rename src dst =>
      obtain ⟨c, rfl, rfl⟩ := he
      exact ⟨not_isBodyFile_tmpFile c, not_isBodyFile_fenvFile c⟩
    | removeFile name =>
      obtain ⟨c, rfl⟩ := he
      exact not_isBodyFile_fenvFile c
    | _ => trivial
  list _ := not_isBodyFile_peersFile
  write c _ := not_isBodyFile_incomingFile c
  remove c := not_isBodyFile_incomingFile c

/-- A call that neither writes, nor moves, nor removes a body of `old`. -/
def SparesBodies (old : Table String FileData) : (β : Type) → Op β → Prop
  | _, .write name _ => IsBodyFile name → old.lookup name = none
  | _, .rename src dst =>
    (IsBodyFile src → old.lookup src = none) ∧ (IsBodyFile dst → old.lookup dst = none)
  | _, .removeFile name => IsBodyFile name → old.lookup name = none
  | _, _ => True

/-- The bodies of `old`, with their contents and their ages. -/
def Keeps (old dir : Table String FileData) : Prop :=
  ∀ stem d, old.lookup (bodyFile stem) = some d → dir.lookup (bodyFile stem) = some d

theorem Keeps.refl (dir : Table String FileData) : Keeps dir dir := fun _ _ => id

section

variable {σ : Type} {env : Env σ} {w : World σ} {old : Table String FileData}

/-- A name that is free is not that of a body in `old`. -/
theorem Keeps.free {dir : Table String FileData} (h : Keeps old dir) {name : String}
    (hname : IsBodyFile name) (hnone : dir.lookup name = none) : old.lookup name = none := by
  obtain ⟨stem, rfl⟩ := hname
  rcases hold : old.lookup (bodyFile stem) with _ | d
  · rfl
  · cases hnone.symm.trans (h stem d hold)

theorem Keeps.insert {dir : Table String FileData} (h : Keeps old dir) {name : String}
    (hname : IsBodyFile name → old.lookup name = none) (d : FileData) :
    Keeps old (dir.insert name d) := by
  intro stem d' hold
  rw [Table.lookup_insert_eq, if_neg]
  · exact h stem d' hold
  · rintro rfl
    cases (hname ⟨stem, rfl⟩).symm.trans hold

theorem Keeps.erase {dir : Table String FileData} (h : Keeps old dir) {name : String}
    (hname : IsBodyFile name → old.lookup name = none) : Keeps old (dir.erase name) := by
  intro stem d hold
  rw [Table.lookup_erase_eq, if_neg]
  · exact h stem d hold
  · rintro rfl
    cases (hname ⟨stem, rfl⟩).symm.trans hold

/-- **One call** that concerns none of the bodies keeps them. -/
theorem Keeps.spares {β : Type} {e : Op β} (he : SparesBodies old β e) (h : Keeps old w.dir) :
    Keeps old (env.handle _ e w).1.dir := by
  cases e with
  | write name content =>
    simp only [Env.handle, Env.write_dir]
    split
    · exact h
    · exact h.insert he _
  | rename src dst =>
    obtain ⟨hsrc, hdst⟩ := he
    simp only [Env.handle, Env.rename]
    split
    · exact h
    split
    · exact h
    · exact (h.erase hsrc).insert hdst _
  | removeFile name =>
    simp only [Env.handle, Env.removeFile]
    split
    · exact h
    · exact h.erase he
  | setWins l x => cases l <;> exact h
  | _ => exact h

theorem bodiless_sparesBodies (old : Table String FileData) : Bodiless (SparesBodies old) := by
  refine bodiless_avoidsBodies.mono fun β e he => ?_
  cases e with
  | write name content => exact fun h => absurd h he
  | rename src dst => exact ⟨fun h => absurd h he.1, fun h => absurd h he.2⟩
  | removeFile name => exact fun h => absurd h he
  | _ => trivial

/-! ## The server -/

/-- A connection moves bodies to free names only, whatever else is done in the meantime that keeps
the bodies of `old`. -/
theorem spares_connection (hcalm : env.Calm) (build : Build) (cfg : ServeConfig) (dir ip : String)
    (frames : List Bytes) :
    Among env.handle (fun w => Keeps old w.dir) (SparesBodies old) (fun _ => True)
      (handleClient build cfg dir ip frames) := by
  refine among_handleClient (bodiless_sparesBodies old) fun _ _ _ _ body _ w hkeeps hmeta => ?_
  have hnone : w.dir.lookup (bodyFile (cidOf build body)) = none := by
    simpa [Env.handle, hcalm.lookup] using hmeta
  exact ⟨fun h => absurd h (not_isBodyFile_incomingFile _), fun h => hkeeps.free h hnone⟩

/-! ## The clients -/

/-- A pull looks for the body before it writes one. -/
theorem spares_of_passCall {build : Build} {c : Σ β, Op β} (hc : PassCall build w c)
    (h : Keeps old w.dir) : SparesBodies old c.1 c.2 := by
  obtain ⟨β, e⟩ := c
  cases e with
  | write name content =>
    obtain ⟨stem, rfl, -, hnone⟩ := hc
    exact fun hbody => h.free hbody hnone
  | rename src dst => exact hc.elim
  | removeFile name => exact hc.elim
  | _ => trivial

theorem only_rpc2Call_keepsFiles (method : String) (seq : ℕ) (body : Bytes) :
    Only KeepsFiles (rpc2Call method seq body) := by
  refine only_bind (only_ask trivial) fun _ => only_bind (only_orFail _) fun _ =>
    only_bind (only_orPanic _) fun decoded => ?_
  cases decoded with
  | none => exact only_throw _
  | some m => exact only_pure _

/-- A push pass reads the store, and nothing else. -/
theorem only_pushStream_keepsFiles (build : Build) (dir token : String)
    (readError : String → String) :
    Only KeepsFiles (pushStream build dir token readError) := by
  have hobject (attempted topo : ℕ) (cid : U8Array 32) :
      Only KeepsFiles (pushObject build dir token readError attempted topo cid) := by
    refine only_bind (only_ask trivial) fun read => ?_
    split
    · exact only_throw _
    split
    · exact only_pure _
    refine only_bind (only_rpc2Call_keepsFiles _ _ _) fun resp => ?_
    split
    · split
      · exact only_throw _
      · exact only_pure _
    · dsimp only
      split
      · exact only_throw _
      · exact only_pure _
  have hentries (has : Finset String) (view : List (ℕ × U8Array 32)) (attempted pushed : ℕ) :
      Only KeepsFiles (pushEntries build dir token readError has view attempted pushed) := by
    induction view generalizing attempted pushed with
    | nil => exact only_pure _
    | cons e rest ih =>
      unfold pushEntries
      split
      · exact ih _ _
      split
      · exact only_pure _
      · exact only_bind (hobject _ _ _) fun _ => ih _ _
  exact only_bind (only_rpc2Call_keepsFiles _ _ _) fun _ => only_bind (only_refuseIf _ _) fun _ =>
    only_bind (only_rpc2Call_keepsFiles _ _ _) fun _ => only_bind (only_refuseIf _ _) fun _ =>
    only_bind (only_orFail _) fun _ => only_bind (only_chainView trivial fun _ => trivial) fun _ =>
    only_bind (hentries _ _ _ _) fun _ => only_pure _

end

/-! ## Runs -/

/-- What the processes of a node do: a relay starts, a server handles the frames of a connection, a
client pulls or pushes, and the peers list is changed. -/
inductive Task
  | start (cfg : FabricConfig)
  | connection (cfg : ServeConfig) (ip : String) (frames : List Bytes)
  | pull
  | push (token : String)
  | peers (call : PeersCall)

/-- A task comes to its end, or the process is killed on the way. -/
inductive NodeEvent
  | done (t : Task)
  | killed (t : Task) (p : CrashPoint)

section

variable {σ : Type} (env : Env σ) (build : Build) (dir : String) (readError : String → String)

def Task.program : Task → Fallible Op Unit
  | start cfg => fabricOpen build cfg
  | connection cfg ip frames => handleClient build cfg dir ip frames
  | pull => do
    let _ ← syncStream build dir
  | push token => do
    let _ ← pushStream build dir token readError
  | peers call => do
    let _ ← call.perform dir

/-- The memory of a process is lost when it is killed. -/
def World.killed (w : World σ) (files : Table String FileData) : World σ :=
  { w with
    dir := files
    putWins := ∅
    fputWins := ∅
    reg := ∅
    queues := ∅
    lastSweepSec := 0
    sent := [] }

def nodeStep (w : World σ) : NodeEvent → World σ
  | .done t => (exec env.handle (t.program build dir readError) w).1
  | .killed t p =>
    let m := t.program build dir readError
    (cutOff env.handle p.calls m w).2.killed (crashDir env m w p)

def nodeRun (events : List NodeEvent) (w : World σ) : World σ :=
  events.foldl (nodeStep env build dir readError) w

variable {env build dir readError} {w : World σ}

/-- The bodies stay, even where a write is torn. -/
theorem filesSurvive_spares (env : Env σ) (old : Table String FileData) :
    FilesSurvive env (fun w c => Keeps old w.dir → SparesBodies old c.1 c.2) (Keeps old) where
  call _ _ hc hI := hI.spares (hc hI)
  tornWrite _ _ _ _ hc hI := hI.insert (hc hI) _

theorem spares_task (hcalm : env.Calm) (t : Task) (hkeeps : Keeps old w.dir) :
    EachCall env.handle (fun v c => Keeps old v.dir → SparesBodies old c.1 c.2)
      (t.program build dir readError) w := by
  have hP : Permits fun _ m => Among env.handle (fun v => Keeps old v.dir) (SparesBodies old)
      (fun _ => True) m := permits_among (bodiless_sparesBodies old)
  have halone {m : Fallible Op Unit}
      (hm : Among env.handle (fun v => Keeps old v.dir) (SparesBodies old) (fun _ => True) m) :
      EachCall env.handle (fun v c => Keeps old v.dir → SparesBodies old c.1 c.2) m w :=
    (hm.eachCall (fun _ _ _ he hv => hv.spares he) hkeeps).mono fun _ _ hc _ => hc.2
  cases t with
  | start cfg => exact halone (hP.fabricOpen build cfg)
  | connection cfg ip frames => exact halone (spares_connection hcalm build cfg dir ip frames)
  | pull =>
    exact eachCall_bind ((eachCall_syncStream hcalm build dir w).mono fun _ _ hc hv =>
      spares_of_passCall hc hv) fun _ _ _ => eachCall_pure _
  | push token =>
    exact halone (hP.bind (hP.keeps (only_pushStream_keepsFiles build dir token readError))
      fun _ => hP.of_pure _)
  | peers call => exact halone (hP.bind (hP.peersCall dir call) fun _ => hP.of_pure _)

theorem Keeps.trans {a b c : Table String FileData} (hab : Keeps a b) (hbc : Keeps b c) :
    Keeps a c := fun stem d h => hbc stem d (hab stem d h)

/-- **One event** keeps the bodies. -/
theorem keeps_nodeStep (hcalm : env.Calm) (e : NodeEvent) (w : World σ) :
    Keeps w.dir (nodeStep env build dir readError w e).dir := by
  cases e with
  | done t => exact (filesSurvive_spares env w.dir).run (spares_task hcalm t (.refl _)) (.refl _)
  | killed t p =>
    exact (filesSurvive_spares env w.dir).crash (spares_task hcalm t (.refl _)) (.refl _) p

theorem keeps_nodeRun (hcalm : env.Calm) (build : Build) (dir : String)
    (readError : String → String) (events : List NodeEvent) (w : World σ) :
    Keeps w.dir (nodeRun env build dir readError events w).dir := by
  induction events generalizing w with
  | nil => exact .refl _
  | cons e events ih => exact (keeps_nodeStep hcalm e w).trans (ih _)

/-- **The bodies stay**, with their contents and their ages: whatever frames a node is sent,
whatever its peers answer, however often it is started, and wherever it is killed. -/
theorem bodies_stay (hcalm : env.Calm) (build : Build) (dir : String)
    (readError : String → String) (events : List NodeEvent) (w : World σ) {stem : String}
    {d : FileData} (hbody : w.dir.lookup (bodyFile stem) = some d) :
    (nodeRun env build dir readError events w).dir.lookup (bodyFile stem) = some d :=
  keeps_nodeRun hcalm build dir readError events w stem d hbody

end

/-- A body, through a pull that is killed inside a write, and the pull after it. -/
theorem bodies_stay_killed :
    let cid := cidOf .leading [7]
    let w : World Peer := { World.fresh (oneBody .leading [1, 2]) with
      dir := (∅ : Table String FileData).insert (bodyFile cid) ⟨[7], 5⟩ }
    let events := [.done (.peers (.add "a:1")), .killed .pull ⟨4, some 1⟩, .done .pull]
    (nodeRun (.still peerNet 0) .leading "" id events w).dir.lookup (bodyFile cid) =
      some ⟨[7], 5⟩ := by
  intro cid w events
  exact bodies_stay (Env.still_calm _ _) .leading "" id events w (AList.lookup_insert _)

end SporePeer
