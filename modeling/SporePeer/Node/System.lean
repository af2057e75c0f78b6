import SporePeer.Fabric.Envelope
import SporePeer.Wire.Value

/-!
# The node and its system

The code calls the clock, the file system, its sockets and the state that its connections share.
Here are these calls, the world they change, and the environment that answers them: the readings
of the clock, the failures of file operations, the order in which a directory is listed and the
peer at the other end of a socket are all arbitrary functions of it.

One directory holds everything a node stores. Its files are named inside it, and it stays where it
is; a file name is matched letter by letter.

## Main definitions

* `Op`: the calls
* `World`, `Env`, `Env.handle`: the state they change and its sequential meaning
* `Build`: the crates the code links, and whether its arithmetic checks for overflow
* `locked`: a section under a mutex
-/

namespace SporePeer

open Effects

/-! ## Calls -/

/-- The windows of a rate limiter: for an address, the second of the window and its count. -/
abbrev Wins := Table String (ℕ × ℕ)

/-- The limiter of pushes, and the one that `fput` and `fpop` share. -/
inductive Limiter
  | put
  | fput
  deriving DecidableEq

inductive Mutex
  | wins (l : Limiter)
  | reg
  | queues
  deriving DecidableEq

/-- The calls of the code. -/
inductive Op : Type → Type
  | nowSec : Op ℕ
  | metadata (name : String) : Op (Option ℕ)
  | modified (name : String) : Op ℕ
  | read (name : String) : Op (Option Bytes)
  | write (name : String) (content : Bytes) : Op (Except String Unit)
  | rename (src dst : String) : Op (Except String Unit)
  | removeFile (name : String) : Op Unit
  | createDirAll : Op (Except String Unit)
  | readDir : Op (Option (List String))
  | exchange (frame : Bytes) : Op (Except String Bytes)
  | writeFrame (frame : Bytes) : Op Unit
  | lock (m : Mutex) : Op Unit
  | unlock (m : Mutex) : Op Unit
  | getWins (l : Limiter) : Op Wins
  | setWins (l : Limiter) (w : Wins) : Op Unit
  | getReg : Op (Table String Registration)
  | setReg (reg : Table String Registration) : Op Unit
  | getQueues : Op Queues
  | setQueues (q : Queues) : Op Unit
  | getLastSweep : Op ℕ
  | setLastSweep (sec : ℕ) : Op Unit

/-- A section under a mutex: the guard is released however the section ends. -/
def locked {α : Type} (m : Mutex) (p : Fallible Op α) : Fallible Op α :=
  ExceptT.mk do
    Program.perform (.lock m)
    let r ← p.run
    Program.perform (.unlock m)
    return r

/-! ## World -/

structure FileData where
  content : Bytes
  modified : ℕ

/-- A failed file operation: its text, and for a write how many bytes of the new content the file
is left with, if it was touched at all. -/
structure Fault where
  text : String
  left : Option ℕ

/-- The state of a node: its directory, the memory its connections share, the frames it has sent,
and the state of the peer it talks to. -/
structure World (σ : Type) where
  dir : Table String FileData
  tick : ℕ
  putWins : Wins
  fputWins : Wins
  reg : Table String Registration
  queues : Queues
  lastSweepSec : ℕ
  sent : List Bytes
  peer : σ

/-- What answers the calls. The functions of a natural number are asked at the number of calls
answered before. -/
structure Env (σ : Type) where
  clock : ℕ → ℕ
  clock_lt : ∀ t, clock t < 2 ^ 64
  fault : ℕ → Option Fault
  stamp : ℕ → ℕ
  listing : ℕ → List String → List String
  listing_perm : ∀ t names, (listing t names).Perm names
  net : σ → Bytes → σ × Except String Bytes

/-- File operations succeed. -/
def Env.Calm {σ : Type} (env : Env σ) : Prop := ∀ t, env.fault t = none

variable {σ : Type}

def World.next (w : World σ) : World σ := { w with tick := w.tick + 1 }

def World.wins (w : World σ) : Limiter → Wins
  | .put => w.putWins
  | .fput => w.fputWins

def World.setWins (w : World σ) : Limiter → Wins → World σ
  | .put, x => { w with putWins := x }
  | .fput, x => { w with fputWins := x }

/-- The text of a missing file. -/
def noSuchFile : String := "No such file or directory (os error 2)"

/-- The largest payload `read_frame` accepts. -/
def maxFrame : ℕ := 192 * 1024 * 1024

/-- The check of `read_frame` on the length a peer declares. -/
def readFrame (payload : Bytes) : Except String Bytes :=
  if payload.length = 0 ∨ maxFrame < payload.length then .error "bad frame length" else .ok payload

namespace Env

variable (env : Env σ)

def write (w : World σ) (name : String) (content : Bytes) : World σ × Except String Unit :=
  match env.fault w.tick with
  | none => ({ w.next with dir := w.dir.insert name ⟨content, env.stamp w.tick⟩ }, .ok ())
  | some f =>
    match f.left with
    | none => (w.next, .error f.text)
    | some n =>
      ({ w.next with dir := w.dir.insert name ⟨content.take n, env.stamp w.tick⟩ }, .error f.text)

def rename (w : World σ) (src dst : String) : World σ × Except String Unit :=
  match env.fault w.tick with
  | some f => (w.next, .error f.text)
  | none =>
    match w.dir.lookup src with
    | none => (w.next, .error noSuchFile)
    | some d => ({ w.next with dir := (w.dir.erase src).insert dst d }, .ok ())

def removeFile (w : World σ) (name : String) : World σ :=
  match env.fault w.tick with
  | some _ => w.next
  | none => { w.next with dir := w.dir.erase name }

/-- The contents of a file. A file too long for the address space is not read. -/
def read (w : World σ) (name : String) : Option Bytes :=
  match env.fault w.tick with
  | some _ => none
  | none => ((w.dir.lookup name).map FileData.content).filter fun b => b.length < 2 ^ 63

def lookup (w : World σ) (name : String) : Option FileData :=
  match env.fault w.tick with
  | some _ => none
  | none => w.dir.lookup name

/-- A request sent to the peer, and its answer as `read_frame` returns it. -/
def exchange (w : World σ) (frame : Bytes) : World σ × Except String Bytes :=
  ({ w.next with peer := (env.net w.peer frame).1 }, (env.net w.peer frame).2 >>= readFrame)

/-- The sequential meaning of the calls. No other thread holds a mutex. -/
def handle : Handler Op (World σ)
  | _, .nowSec, w => (w.next, env.clock w.tick)
  | _, .metadata name, w => (w.next, (env.lookup w name).map (·.content.length))
  | _, .modified name, w => (w.next, ((env.lookup w name).map (·.modified)).getD 0)
  | _, .read name, w => (w.next, env.read w name)
  | _, .write name content, w => env.write w name content
  | _, .rename src dst, w => env.rename w src dst
  | _, .removeFile name, w => (env.removeFile w name, ())
  | _, .createDirAll, w =>
    (w.next, match env.fault w.tick with
      | some f => .error f.text
      | none => .ok ())
  | _, .readDir, w =>
    (w.next, match env.fault w.tick with
      | some _ => none
      | none => some (env.listing w.tick w.dir.keys))
  | _, .exchange frame, w => env.exchange w frame
  | _, .writeFrame frame, w => ({ w with sent := w.sent ++ [frame] }, ())
  | _, .lock _, w => (w, ())
  | _, .unlock _, w => (w, ())
  | _, .getWins l, w => (w, w.wins l)
  | _, .setWins l x, w => (w.setWins l x, ())
  | _, .getReg, w => (w, w.reg)
  | _, .setReg reg, w => ({ w with reg := reg }, ())
  | _, .getQueues, w => (w, w.queues)
  | _, .setQueues q, w => ({ w with queues := q }, ())
  | _, .getLastSweep, w => (w, w.lastSweepSec)
  | _, .setLastSweep sec, w => ({ w with lastSweepSec := sec }, ())

theorem Calm.lookup {env : Env σ} (hcalm : env.Calm) (w : World σ) (name : String) :
    env.lookup w name = w.dir.lookup name := by
  rw [Env.lookup, hcalm w.tick]

/-- A call does not turn back the count of the calls. -/
theorem tick_le {β : Type} (e : Op β) (w : World σ) : w.tick ≤ (env.handle _ e w).1.tick := by
  cases e with
  | write name content =>
    simp only [handle, write]
    split
    · exact Nat.le_succ _
    · split <;> exact Nat.le_succ _
  | rename src dst =>
    simp only [handle, rename]
    split
    · exact Nat.le_succ _
    · split <;> exact Nat.le_succ _
  | removeFile name =>
    simp only [handle, removeFile]
    split <;> exact Nat.le_succ _
  | setWins l x => cases l <;> exact le_rfl
  | nowSec => exact Nat.le_succ _
  | metadata name => exact Nat.le_succ _
  | modified name => exact Nat.le_succ _
  | read name => exact Nat.le_succ _
  | createDirAll => exact Nat.le_succ _
  | readDir => exact Nat.le_succ _
  | exchange frame => exact Nat.le_succ _
  | _ => exact le_rfl

end Env

theorem tick_le_exec {α : Type} (env : Env σ) (m : Fallible Op α) (w : World σ) :
    w.tick ≤ (exec env.handle m w).1.tick :=
  exec_invariant (I := fun v : World σ => w.tick ≤ v.tick)
    (fun _ e v hv => hv.trans (env.tick_le e v)) m le_rfl

theorem tick_le_cutOff {α : Type} (env : Env σ) (m : Fallible Op α) (w : World σ) (n : ℕ) :
    w.tick ≤ (cutOff env.handle n m w).2.tick :=
  cutOff_invariant (I := fun v : World σ => w.tick ≤ v.tick)
    (fun _ e v hv => hv.trans (env.tick_le e v)) m le_rfl n

/-- A section under a mutex runs as it would without. -/
@[simp] theorem exec_locked {α : Type} (env : Env σ) (m : Mutex) (p : Fallible Op α)
    (w : World σ) : exec env.handle (locked m p) w = exec env.handle p w := by
  have hl : (locked m p).run = Program.perform (.lock m) >>= fun _ =>
      p.run >>= fun r => Program.perform (.unlock m) >>= fun _ => pure r := rfl
  have hw : (env.handle _ (.lock m) w).1 = w := rfl
  rw [exec, hl, Program.run_perform_bind, Program.run_bind, run_run, hw]
  rcases exec env.handle p w with ⟨s', ⟨q⟩ | ⟨r⟩⟩ <;> rfl

theorem only_locked {α : Type} {ok : (β : Type) → Op β → Prop} {m : Mutex} {p : Fallible Op α}
    (hl : ok _ (.lock m)) (hu : ok _ (.unlock m)) (hp : Only ok p) : Only ok (locked m p) := by
  have hlock : (Program.perform (.lock m)).Calls ok := ⟨hl, fun _ => trivial⟩
  have hunlock : (Program.perform (.unlock m)).Calls ok := ⟨hu, fun _ => trivial⟩
  exact hlock.bind fun _ => Program.Calls.bind hp fun _ => hunlock.bind fun _ => trivial

theorem tidy_locked {α : Type} {ok : (β : Type) → Op β → Prop} {m : Mutex} {p : Fallible Op α}
    (hl : ok _ (.lock m)) (hu : ok _ (.unlock m)) (hp : Tidy ok p) : Tidy ok (locked m p) := by
  have htotal {β : Type} (e : Op β) : (Program.perform e).Total := fun _ => trivial
  exact ⟨only_locked hl hu hp.only, (htotal _).bind fun _ => Program.Total.bind hp.total fun _ =>
    (htotal _).bind fun _ => trivial⟩

/-! ## Build -/

/-- What the code is built with: its profile, and the crates outside the repository. -/
structure Build where
  /-- Whether arithmetic unwinds on overflow, as in a debug build, or wraps around. -/
  overflowChecks : Bool
  sha256 : Bytes → U8Array 32
  /-- `str::to_lowercase` on texts that are not ASCII. -/
  unicodeLowercase : String → String
  /-- `serde_json::from_slice`. -/
  fromSlice : Bytes → Option Value
  /-- `serde_json::Value::to_string`. -/
  toJson : Value → String
  /-- The text of a `hex::FromHexError`. -/
  hexError : String → String

/-- A build whose hash is constant. -/
def Build.const (digest : U8Array 32) : Build where
  overflowChecks := false
  sha256 _ := digest
  unicodeLowercase := id
  fromSlice _ := none
  toJson _ := ""
  hexError _ := ""

theorem length_take_padded (b : Bytes) : ((b ++ List.replicate 32 0).take 32).length = 32 := by
  simp

/-! ## A still system -/

instance instNeZeroWord : NeZero (2 ^ 64) := ⟨by decide⟩

/-- A system without failures whose clock reads `sec`. -/
def Env.still (net : σ → Bytes → σ × Except String Bytes) (sec : Fin (2 ^ 64)) : Env σ where
  clock _ := sec
  clock_lt _ := sec.isLt
  fault _ := none
  stamp _ := 0
  listing _ names := names
  listing_perm _ _ := .refl _
  net := net

theorem Env.still_calm (net : σ → Bytes → σ × Except String Bytes) (sec : Fin (2 ^ 64)) :
    (Env.still net sec).Calm := fun _ => rfl

/-- A node that has just started on an empty directory. -/
def World.fresh (peer : σ) : World σ where
  dir := ∅
  tick := 0
  putWins := ∅
  fputWins := ∅
  reg := ∅
  queues := ∅
  lastSweepSec := 0
  sent := []
  peer := peer

end SporePeer
