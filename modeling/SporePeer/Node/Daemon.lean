import SporePeer.Library.Embedding
import SporePeer.Library.Interleaving
import SporePeer.Node.Accepting
import SporePeer.Node.CommandLine

/-!
# The serving process

`spore-peer serve` opens the relay, publishes its process id in a pidfile, binds, starts a thread
for every connection until it is told to stop, and removes the pidfile. The threads take their turns
between the calls of the main thread, in any order.

## Main definitions

* `HostOp`, `Host`: the calls of the process, and what they change
* `Turn`, `HostEnv`, `HostEnv.others`, `HostEnv.daemon`: what answers them, and what the threads do
  in between
* `parentPath`: the directory of a file
* `writePidfile`, `Daemon.serve`, `mainServe`: the main thread

## Main results

* `others_eq`: the threads change the node only
* `tidy_serve`, `exec_serveStatus`: to serve comes to an end with a status, whatever happens
-/

namespace SporePeer

open Effects Text

/-! ## Calls -/

/-- The calls of the process on its host. A thread is started with what it takes along. -/
inductive HostOp : Type → Type
  | createDirAll (path : String) : HostOp (Except String Unit)
  | write (path : String) (content : Bytes) : HostOp (Except String Unit)
  | rename (src dst : String) : HostOp (Except String Unit)
  | removeFile (path : String) : HostOp Unit
  | installShutdownHandler : HostOp (Except String Unit)
  | bind (addr : String) : HostOp (Except String Unit)
  | localAddr : HostOp (Except String String)
  | setNonblocking : HostOp (Except String Unit)
  | spawn (build : Build) (cfg : ServeConfig) (dir ip : String) (frames : List Bytes) : HostOp Unit
  | eprint (line : String) : HostOp Unit

/-- The calls of the main thread: those on the store, and those on the host. -/
abbrev DaemonOp : Type → Type := Joint Op HostOp

/-- What the process changes: the node, the threads of its connections, the files outside of the
store, and what it reports. -/
structure Host (σ : Type) where
  world : World σ
  handlers : List (Thread Op (Except String Unit)) := []
  files : Table String Bytes := ∅
  reported : List String := []
  tick : ℕ := 0

/-- What a thread does in its turn: it makes its next call, or the write that is its next call gets
as far as `k` bytes. -/
inductive Turn
  | call (i : ℕ)
  | part (i k : ℕ)

/-- What answers the calls of the main thread, and which threads take turns before each of them. -/
structure HostEnv (σ : Type) extends Env σ where
  hostFault : ℕ → Option Fault
  installed : ℕ → Except String Unit
  bound : ℕ → String → Except String Unit
  localAddr : ℕ → Except String String
  nonblocking : ℕ → Except String Unit
  turns : ℕ → List Turn

/-! ## Threads -/

/-- A thread that has made these calls is in a section under the mutex `m`. -/
def holdsMutex (m : Mutex) (made : List (Σ β, Op β)) : Bool :=
  let locks : (Σ β, Op β) → Bool
    | ⟨_, .lock m'⟩ => m' = m
    | _ => false
  let unlocks : (Σ β, Op β) → Bool
    | ⟨_, .unlock m'⟩ => m' = m
    | _ => false
  made.countP unlocks < made.countP locks

namespace Host

variable {σ : Type} (h : Host σ)

/-- The threads of the connections, and the node. -/
def pool : Pool Op (World σ) (Except String Unit) := ⟨h.handlers, h.world⟩

/-- The thread `i` asks for a mutex that a thread holds. -/
def waits (i : ℕ) : Bool :=
  match h.pool.nextCall i with
  | some ⟨_, .lock m⟩ => h.handlers.any fun t => holdsMutex m t.made
  | _ => false

end Host

/-- A write that has got as far as `k` bytes. -/
def Env.underway {σ : Type} (env : Env σ) (w : World σ) (k : ℕ) : (Σ β, Op β) → World σ
  | ⟨_, .write name content⟩ =>
    { w with dir := w.dir.insert name ⟨content.take k, env.stamp w.tick⟩ }
  | _ => w

namespace HostEnv

variable {σ : Type} (env : HostEnv σ)

/-- The file operations on the host succeed. -/
def Steady : Prop := ∀ t, env.hostFault t = none

def turn (h : Host σ) : Turn → Host σ
  | .call i =>
    if h.waits i then h
    else
      let P := h.pool.step noSections env.toEnv.handle i
      { h with world := P.state, handlers := P.threads }
  | .part i k =>
    match h.pool.nextCall i with
    | some c => { h with world := env.underway h.world k c }
    | none => h

/-- What the threads do before the next call of the main thread. -/
def others (h : Host σ) : Host σ := (env.turns h.tick).foldl env.turn h

/-! ## Answers -/

/-- `fs::write`. -/
def write (h : Host σ) (path : String) (content : Bytes) : Host σ × Except String Unit :=
  match env.hostFault h.tick with
  | none => ({ h with files := h.files.insert path content }, .ok ())
  | some f =>
    ({ h with files := f.left.elim h.files fun n => h.files.insert path (content.take n) },
      .error f.text)

/-- `fs::rename`. -/
def rename (h : Host σ) (src dst : String) : Host σ × Except String Unit :=
  match env.hostFault h.tick with
  | some f => (h, .error f.text)
  | none =>
    match h.files.lookup src with
    | none => (h, .error noSuchFile)
    | some content => ({ h with files := (h.files.erase src).insert dst content }, .ok ())

/-- `fs::remove_file`. -/
def removeFile (h : Host σ) (path : String) : Host σ :=
  match env.hostFault h.tick with
  | some _ => h
  | none => { h with files := h.files.erase path }

/-- The sequential meaning of the calls of the main thread. -/
def answer : Handler DaemonOp (Host σ)
  | _, .left e, h =>
    ({ h with world := (env.toEnv.handle _ e h.world).1 }, (env.toEnv.handle _ e h.world).2)
  | _, .right (.createDirAll _), h =>
    (h, (env.hostFault h.tick).elim (.ok ()) fun f => .error f.text)
  | _, .right (.write path content), h => env.write h path content
  | _, .right (.rename src dst), h => env.rename h src dst
  | _, .right (.removeFile path), h => (env.removeFile h path, ())
  | _, .right .installShutdownHandler, h => (h, env.installed h.tick)
  | _, .right (.bind addr), h => (h, env.bound h.tick addr)
  | _, .right .localAddr, h => (h, env.localAddr h.tick)
  | _, .right .setNonblocking, h => (h, env.nonblocking h.tick)
  | _, .right (.spawn build cfg dir ip frames), h =>
    ({ h with handlers := h.handlers ++ [⟨[], (handleClient build cfg dir ip frames).run⟩] }, ())
  | _, .right (.eprint line), h => ({ h with reported := h.reported ++ [line] }, ())

/-- A call of the main thread, after the turns of the other threads. -/
def daemon : Handler DaemonOp (Host σ) := fun _ e h =>
  let x := env.answer _ e (env.others h)
  ({ x.1 with tick := h.tick + 1 }, x.2)

/-- The threads change the node only. -/
theorem others_eq (h : Host σ) :
    ∃ w ts, env.others h = { h with world := w, handlers := ts } := by
  have hturn (turns : List Turn) (h : Host σ) :
      ∃ w ts, turns.foldl env.turn h = { h with world := w, handlers := ts } := by
    induction turns generalizing h with
    | nil => exact ⟨h.world, h.handlers, rfl⟩
    | cons t turns ih =>
      have hone : ∃ w ts, env.turn h t = { h with world := w, handlers := ts } := by
        cases t with
        | call i =>
          simp only [turn]
          split
          · exact ⟨h.world, h.handlers, rfl⟩
          · exact ⟨_, _, rfl⟩
        | part i k =>
          simp only [turn]
          split
          · exact ⟨_, h.handlers, rfl⟩
          · exact ⟨h.world, h.handlers, rfl⟩
      obtain ⟨w, ts, hone⟩ := hone
      obtain ⟨w', ts', hrest⟩ := ih (env.turn h t)
      exact ⟨w', ts', by rw [List.foldl_cons, hrest, hone]⟩
  exact hturn (env.turns h.tick) h

@[simp] theorem files_others (h : Host σ) : (env.others h).files = h.files := by
  obtain ⟨w, ts, heq⟩ := env.others_eq h
  rw [heq]

/-- A host without failures, on which the threads take the turns `turns`. -/
def still (net : σ → Bytes → σ × Except String Bytes) (sec : Fin (2 ^ 64))
    (turns : ℕ → List Turn) : HostEnv σ where
  toEnv := Env.still net sec
  hostFault _ := none
  installed _ := .ok ()
  bound _ _ := .ok ()
  localAddr _ := .ok "127.0.0.1:8099"
  nonblocking _ := .ok ()
  turns := turns

end HostEnv

/-- A program of the node in the process. -/
def onStore {α : Type} (m : Fallible Op α) : Fallible DaemonOp α := embed (fun _ => .left) m

/-- A call on the host. -/
def onHost {α : Type} (e : HostOp α) : Fallible DaemonOp α := ask (.right e)

/-! ## Paths -/

/-- The components of a path without those at its end that are empty or a dot. -/
def trimComponents (cs : List (List Char)) : List (List Char) :=
  (cs.reverse.dropWhile fun c => c = [] ∨ c = ['.']).reverse

/-- `Path::parent`, for the paths of Unix. -/
def parentPath (path : String) : Option String :=
  let text (cs : List (List Char)) : String := String.ofList (['/'].intercalate cs)
  match path.toList.splitOn '/' with
  | ['.'] :: rest =>
    match trimComponents rest with
    | [] => some ""
    | cs => some (text (['.'] :: trimComponents cs.dropLast))
  | [] :: rest =>
    match trimComponents rest with
    | [] => none
    | cs =>
      match trimComponents cs.dropLast with
      | [] => some "/"
      | up => some (text ([] :: up))
  | cs =>
    match trimComponents cs with
    | [] => none
    | cs => some (text (trimComponents cs.dropLast))

example : parentPath "/run/spore/peer.pid" = some "/run/spore" ∧ parentPath "peer.pid" = some "" ∧
    parentPath "./a/.//b/" = some "./a" ∧ parentPath "//a" = some "/" ∧ parentPath "/" = none := by
  decide +kernel

/-! ## The process -/

/-- The file that a pidfile is written to before it is published. -/
def tmpPath (path : String) : String := path ++ ".tmp"

/-- The contents of a pidfile. -/
def pidLine (pid : ℕ) : Bytes := asBytes s!"{pid}\n"

section

/- `quoted` is the text of a path in an error. -/
variable (build : Build) (quoted : String → String)

/-- The directory of the file at `path` is made. -/
def createParent (path : String) : Fallible DaemonOp Unit :=
  match (parentPath path).filter (· ≠ "") with
  | none => return ()
  | some parent => do
    let made ← onHost (.createDirAll parent)
    let shown := quoted parent
    orFail (made.mapError fun e => s!"pidfile dir {shown}: {e}")

/-- `write_pidfile`. -/
def writePidfile (path : String) (pid : ℕ) : Fallible DaemonOp Unit := do
  createParent quoted path
  let written ← onHost (.write (tmpPath path) (pidLine pid))
  orFail (written.mapError fun e => s!"pidfile {path}: {e}")
  let renamed ← onHost (.rename (tmpPath path) path)
  orFail (renamed.mapError fun e => s!"pidfile rename {path}: {e}")

/-- The settings of the relay, in the line below. -/
def fabricPosture (o : ServeOptions) : String :=
  let f := o.fabric
  let handle := f.maxPerHandle
  let lease := f.maxLeaseSec
  let horizon := f.maxDeadlineHorizonSec
  let rate := f.fputRate
  let regs := f.maxRegs
  if o.enabled then
    s!"on (per_handle={handle} lease_cap={lease}s horizon={horizon}s " ++
      s!"fput_rate={rate}/min max_regs={regs})"
  else "off"

/-- The line that says that the process is ready. -/
def readiness (o : ServeOptions) (bound : String) : String :=
  let dir := o.dir
  let bytes := o.maxStoreBytes
  let rate := o.putRate
  let token := if o.token.isSome then "set" else "off"
  let fabric := fabricPosture o
  s!"spore-peer serve: listening on {bound}, bodies in {dir} (max_store_bytes={bytes} " ++
    s!"put_rate={rate}/min write_token={token} fabric={fabric})"

/-- The line that names the address to be reached at. -/
def announce (o : ServeOptions) : Fallible DaemonOp Unit :=
  match o.announce with
  | none => return ()
  | some a => onHost (.eprint s!"spore-peer serve: announcing {a}")

/-- Without a handler of the signals the process serves all the same. -/
def installShutdown : Fallible DaemonOp Unit := do
  let installed ← onHost .installShutdownHandler
  match installed with
  | .ok _ => return ()
  | .error e => onHost (.eprint s!"serve warning: shutdown handler unavailable: {e}")

/-- What `accept` comes to: a connection, with the frames that are going to arrive on it, one that
cannot be made blocking, or none. -/
inductive Arrival
  | connection (ip : String) (frames : List Bytes)
  | unusable (e : String)
  | failed (e : String)

/-- The accept loop, until the process is told to stop. It counts the connections. -/
def acceptLoop (o : ServeOptions) : List Arrival → ℕ → Fallible DaemonOp ℕ
  | [], inFlight => return inFlight
  | .connection ip frames :: rest, inFlight => do
    onHost (.spawn build o.config o.dir ip frames)
    acceptLoop o rest (inFlight + 1)
  | .unusable e :: rest, inFlight => do
    onHost (.eprint s!"accept error: set_nonblocking(false): {e}")
    acceptLoop o rest inFlight
  | .failed e :: rest, inFlight => do
    onHost (.eprint s!"accept error: {e}")
    acceptLoop o rest inFlight

/-- `serve`, which is told to stop after some arrivals. -/
def Daemon.serve (o : ServeOptions) (arrivals : List Arrival) : Fallible DaemonOp Unit := do
  installShutdown
  let listener ← onHost (.bind o.listen)
  orFail listener
  let bound ← onHost .localAddr
  let addr ← orFail bound
  announce o
  onHost (.eprint (readiness o addr))
  onStore (ask (.setWins .put ∅))
  let nonblocking ← onHost .setNonblocking
  orFail nonblocking
  let inFlight ← acceptLoop build o arrivals 0
  let secs := shutdownDrainMillis / 1000
  onHost (.eprint (s!"spore-peer serve: shutdown signal received — stopping accept loop, " ++
    s!"draining {inFlight} connection(s) ({secs}s max)"))
  onHost (.eprint "spore-peer serve: graceful exit")

/-- The status with which `serve` ends the process. -/
def serveStatus (o : ServeOptions) (arrivals : List Arrival) :
    Fallible DaemonOp ℕ := do
  let served ← attempt (Daemon.serve build o arrivals)
  match served with
  | .ok _ => return 0
  | .error e => do
    onHost (.eprint s!"serve error: {e}")
    return 1

/-- The relay is opened, if there is one. -/
def openFabric (o : ServeOptions) : Fallible DaemonOp Unit :=
  if o.enabled then onStore (fabricOpen build o.fabric) else return ()

/-- The branch of `main` for `spore-peer serve`, in the process `pid`. -/
def mainServe (o : ServeOptions) (pid : ℕ) (arrivals : List Arrival) :
    Fallible DaemonOp ℕ := do
  openFabric build o
  match o.pidfile with
  | none => serveStatus build o arrivals
  | some path => do
    let published ← attempt (writePidfile quoted path pid)
    match published with
    | .error e => do
      onHost (.eprint s!"serve error: {e}")
      return 1
    | .ok _ => do
      let code ← serveStatus build o arrivals
      onHost (.removeFile path)
      return code

end

/-! ## The calls of the process -/

theorem only_onStore {ok : (β : Type) → Op β → Prop} {ok' : (β : Type) → DaemonOp β → Prop}
    (hok : ∀ β (e : Op β), ok β e → ok' β (.left e)) {α : Type} {m : Fallible Op α}
    (hm : Only ok m) : Only ok' (onStore m) := only_embed hok hm

theorem only_openFabric {ok : (β : Type) → Op β → Prop} {ok' : (β : Type) → DaemonOp β → Prop}
    (hok : ∀ β (e : Op β), ok β e → ok' β (.left e)) {build : Build} {o : ServeOptions}
    (hopen : Only ok (fabricOpen build o.fabric)) : Only ok' (openFabric build o) := by
  unfold openFabric
  split
  · exact only_onStore hok hopen
  · exact only_pure _

/-- The calls of `serve`. -/
def ServeCall (build : Build) (o : ServeOptions) (arrivals : List Arrival) :
    (β : Type) → DaemonOp β → Prop
  | _, .left (.setWins .put _) => True
  | _, .right .installShutdownHandler => True
  | _, .right (.bind _) => True
  | _, .right .localAddr => True
  | _, .right .setNonblocking => True
  | _, .right (.eprint _) => True
  | _, .right (.spawn b cfg dir ip frames) =>
    b = build ∧ cfg = o.config ∧ dir = o.dir ∧ .connection ip frames ∈ arrivals
  | _, _ => False

section

variable (build : Build) (o : ServeOptions) (arrivals : List Arrival)

theorem tidy_acceptLoop {rest : List Arrival} (hrest : rest ⊆ arrivals) (inFlight : ℕ) :
    Tidy (ServeCall build o arrivals) (acceptLoop build o rest inFlight) := by
  induction rest generalizing inFlight with
  | nil => exact tidy_pure _
  | cons a rest ih =>
    obtain ⟨ha, hthen⟩ := List.cons_subset.mp hrest
    cases a with
    | connection ip frames =>
      exact tidy_bind (tidy_ask ⟨rfl, rfl, rfl, ha⟩) fun _ => ih hthen _
    | unusable e => exact tidy_bind (tidy_ask trivial) fun _ => ih hthen _
    | failed e => exact tidy_bind (tidy_ask trivial) fun _ => ih hthen _

/-- To serve does not unwind, whatever becomes of the connections. -/
theorem tidy_serve : Tidy (ServeCall build o arrivals) (Daemon.serve build o arrivals) := by
  have hhost {α : Type} {e : HostOp α} (he : ServeCall build o arrivals α (.right e)) :
      Tidy (ServeCall build o arrivals) (onHost e) := tidy_ask he
  have hinstall : Tidy (ServeCall build o arrivals) installShutdown := by
    refine tidy_bind (hhost trivial) fun installed => ?_
    cases installed with
    | ok _ => exact tidy_pure _
    | error e => exact hhost trivial
  have hlimiter : Tidy (ServeCall build o arrivals) (onStore (ask (.setWins .put ∅))) :=
    tidy_ask (by exact trivial)
  have hannounce : Tidy (ServeCall build o arrivals) (announce o) := by
    unfold announce
    split
    · exact tidy_pure _
    · exact hhost trivial
  have hloop (inFlight : ℕ) := tidy_acceptLoop build o arrivals (List.Subset.refl _) inFlight
  exact tidy_bind hinstall fun _ =>
    tidy_bind (hhost trivial) fun _ => tidy_bind (tidy_orFail _) fun _ =>
    tidy_bind (hhost trivial) fun _ => tidy_bind (tidy_orFail _) fun _ =>
    tidy_bind hannounce fun _ => tidy_bind (hhost trivial) fun _ =>
    tidy_bind hlimiter fun _ => tidy_bind (hhost trivial) fun _ =>
    tidy_bind (tidy_orFail _) fun _ => tidy_bind (hloop 0) fun _ =>
    tidy_bind (hhost trivial) fun _ => hhost trivial

theorem only_serveStatus : Only (ServeCall build o arrivals) (serveStatus build o arrivals) := by
  refine only_bind (only_attempt (tidy_serve build o arrivals).only) fun served => ?_
  cases served with
  | ok _ => exact only_pure _
  | error e => exact only_bind (only_ask trivial) fun _ => only_pure _

end

/-- Whatever happens, there is a status. -/
theorem exec_serveStatus {S : Type*} (k : Handler DaemonOp S) (build : Build) (o : ServeOptions)
    (arrivals : List Arrival) (s : S) :
    ∃ code, (exec k (serveStatus build o arrivals) s).2 = .ok (.ok code) := by
  obtain ⟨r, hr⟩ := (tidy_serve build o arrivals).total.exec k s
  rw [serveStatus, exec_attempt_bind_ok (Prod.ext rfl hr)]
  cases r with
  | ok _ => exact ⟨0, rfl⟩
  | error e => exact ⟨1, rfl⟩

end SporePeer
