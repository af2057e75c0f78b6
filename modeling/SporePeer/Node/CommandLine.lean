import SporePeer.Node.FabricClient

/-!
# The command line

A subcommand goes through its arguments one after another. An option takes the argument after it,
whatever that is, or stands alone; anything else is passed over, and so is a number that does not
parse. The settings that a server can be given are those whose numbers fit.

## Main definitions

* `Slot`, `scan`: what an option does, and the loop over the arguments
* `ServeOptions`, `serveSlot`: the settings of a server, and its options
* `FetchOptions`, `SyncOptions`, `PushOptions`, `PeersOptions`, `LoopOptions`: those of the clients
* `mainClient`: the subcommands of a client, and their exit status
* `ClientCommand.Exits`: what the exit status says

## Main results

* `serveOptions_iff`: the settings that a command line can give a server
* `exit_status`: a client that ends with 2 has done nothing, and one that ends with 0 is done
-/

namespace SporePeer

open Effects Text

/-! ## Options -/

/-- What an option does to the settings: it takes the argument after it, which may be missing, or it
stands alone. -/
inductive Slot (S : Type)
  | value (set : Option String → S → S)
  | flag (set : S → S)

namespace Slot

variable {S : Type}

/-- A text; where the argument is missing, the setting stays. -/
def kept (set : String → S → S) : Slot S := .value fun v s => v.elim s fun text => set text s

/-- A text; where the argument is missing, the setting is empty. -/
def orEmpty (set : String → S → S) : Slot S := .value fun v => set (v.getD "")

/-- A number below `bound`; where the argument is missing or does not parse, the setting stays. -/
def number (bound : ℕ) (set : ℕ → S → S) : Slot S :=
  .value fun v s => (v.bind (parseUnsigned bound)).elim s fun n => set n s

end Slot

/-- The loop of a subcommand over its arguments. -/
def scan {S : Type} (slot : String → Option (Slot S)) : List String → S → S
  | [], s => s
  | [arg], s =>
    match slot arg with
    | some (.value set) => set none s
    | some (.flag set) => set s
    | none => s
  | arg :: v :: rest, s =>
    match slot arg with
    | some (.value set) => scan slot rest (set (some v) s)
    | some (.flag set) => scan slot (v :: rest) (set s)
    | none => scan slot (v :: rest) s

section

variable {S : Type} {slot : String → Option (Slot S)}

/-- What every option keeps, a command line keeps. -/
theorem scan_invariant {I : S → Prop}
    (hvalue : ∀ arg set, slot arg = some (.value set) → ∀ v s, I s → I (set v s))
    (hflag : ∀ arg set, slot arg = some (.flag set) → ∀ s, I s → I (set s)) (args : List String)
    {s : S} (hs : I s) : I (scan slot args s) := by
  induction args, s using scan.induct slot with
  | case1 s => exact hs
  | case2 arg s set h =>
    simp only [scan, h]
    exact hvalue arg set h none s hs
  | case3 arg s set h =>
    simp only [scan, h]
    exact hflag arg set h s hs
  | case4 arg s h =>
    simp only [scan, h]
    exact hs
  | case5 arg v rest s set h ih =>
    simp only [scan, h]
    exact ih (hvalue arg set h (some v) s hs)
  | case6 arg v rest s set h ih =>
    simp only [scan, h]
    exact ih (hflag arg set h s hs)
  | case7 arg v rest s h ih =>
    simp only [scan, h]
    exact ih hs

theorem scan_value {arg : String} {set : Option String → S → S} (h : slot arg = some (.value set))
    (v : String) (rest : List String) (s : S) :
    scan slot (arg :: v :: rest) s = scan slot rest (set (some v) s) := by
  rw [scan, h]

theorem scan_kept {arg : String} {set : String → S → S} (h : slot arg = some (.kept set))
    (v : String) (rest : List String) (s : S) :
    scan slot (arg :: v :: rest) s = scan slot rest (set v s) := scan_value h v rest s

/-- A number that fits is read. -/
theorem scan_number {arg : String} {bound : ℕ} {set : ℕ → S → S}
    (h : slot arg = some (.number bound set)) {n : ℕ} (hn : n < bound) (rest : List String)
    (s : S) : scan slot (arg :: toString n :: rest) s = scan slot rest (set n s) := by
  rw [scan_value h, Option.bind_some, parseUnsigned_toString hn]
  rfl

end

/-! ## The server -/

/-- The settings of `spore-peer serve`. -/
structure ServeOptions where
  listen : String := "0.0.0.0:8099"
  dir : String := "."
  maxStoreBytes : ℕ := 0
  putRate : ℕ := 0
  token : Option String := none
  enabled : Bool := false
  fabric : FabricConfig := {}
  pidfile : Option String := none
  announce : Option String := none
  deriving DecidableEq

def serveSlot : String → Option (Slot ServeOptions)
  | "--listen" => some (.kept fun v o => { o with listen := v })
  | "--dir" => some (.kept fun v o => { o with dir := v })
  | "--max-store-bytes" => some (.number (2 ^ 64) fun n o => { o with maxStoreBytes := n })
  | "--put-rate" => some (.number (2 ^ 32) fun n o => { o with putRate := n })
  | "--token" => some (.value fun v o => { o with token := v })
  | "-fabric" => some (.flag fun o => { o with enabled := true })
  | "--fabric" => some (.flag fun o => { o with enabled := true })
  | "--fabric-per-handle" =>
    some (.number (2 ^ 64) fun n o => { o with fabric := { o.fabric with maxPerHandle := n } })
  | "--fabric-fput-rate" =>
    some (.number (2 ^ 32) fun n o => { o with fabric := { o.fabric with fputRate := n } })
  | "--fabric-max-regs" =>
    some (.number (2 ^ 64) fun n o => { o with fabric := { o.fabric with maxRegs := n } })
  | "--fabric-max-lease" =>
    some (.number (2 ^ 64) fun n o => { o with fabric := { o.fabric with maxLeaseSec := n } })
  | "--fabric-horizon" =>
    some (.number (2 ^ 64) fun n o =>
      { o with fabric := { o.fabric with maxDeadlineHorizonSec := n } })
  | "--pidfile" => some (.value fun v o => { o with pidfile := v })
  | "--announce-addr" => some (.value fun v o => { o with announce := v })
  | _ => none

/-- The configuration of the connections. -/
def ServeOptions.config (o : ServeOptions) : ServeConfig where
  maxStoreBytes := o.maxStoreBytes
  putRate := o.putRate
  token := o.token
  fabric := if o.enabled then some o.fabric else none

/-- The numbers of the settings are in the range of their types. -/
structure ServeOptions.Fits (o : ServeOptions) : Prop where
  maxStoreBytes : o.maxStoreBytes < 2 ^ 64
  putRate : o.putRate < 2 ^ 32
  maxPerHandle : o.fabric.maxPerHandle < 2 ^ 64
  fputRate : o.fabric.fputRate < 2 ^ 32
  maxRegs : o.fabric.maxRegs < 2 ^ 64
  maxLeaseSec : o.fabric.maxLeaseSec < 2 ^ 64
  maxDeadlineHorizonSec : o.fabric.maxDeadlineHorizonSec < 2 ^ 64

/-- A command line for the settings. -/
def ServeOptions.render (o : ServeOptions) : List String :=
  "--listen" :: o.listen :: "--dir" :: o.dir ::
  "--max-store-bytes" :: toString o.maxStoreBytes :: "--put-rate" :: toString o.putRate ::
  "--fabric-per-handle" :: toString o.fabric.maxPerHandle ::
  "--fabric-fput-rate" :: toString o.fabric.fputRate ::
  "--fabric-max-regs" :: toString o.fabric.maxRegs ::
  "--fabric-max-lease" :: toString o.fabric.maxLeaseSec ::
  "--fabric-horizon" :: toString o.fabric.maxDeadlineHorizonSec ::
  (o.token.elim [] (["--token", ·]) ++ (o.pidfile.elim [] (["--pidfile", ·]) ++
    (o.announce.elim [] (["--announce-addr", ·]) ++ if o.enabled then ["--fabric"] else [])))

/-- The settings are read back. -/
theorem scan_render {o : ServeOptions} (h : o.Fits) : scan serveSlot o.render {} = o := by
  obtain ⟨hstore, hput, hhandle, hfput, hregs, hlease, hhorizon⟩ := h
  rw [ServeOptions.render, scan_kept rfl, scan_kept rfl, scan_number rfl hstore,
    scan_number rfl hput, scan_number rfl hhandle, scan_number rfl hfput, scan_number rfl hregs,
    scan_number rfl hlease, scan_number rfl hhorizon]
  obtain ⟨listen, dir, store, put, token, enabled, fabric, pidfile, announce⟩ := o
  -- the options that may be left out
  cases token <;> cases pidfile <;> cases announce <;> cases enabled <;> rfl

/-- A number that is read is in the range of its type. -/
theorem ServeOptions.Fits.number {o : ServeOptions} (h : o.Fits) {bound : ℕ} (hbound : 0 < bound)
    {put : ℕ → ServeOptions → ServeOptions} {set : Option String → ServeOptions → ServeOptions}
    (hslot : some (Slot.number bound put) = some (Slot.value set)) (v : Option String)
    (hput : ∀ n < bound, (put n o).Fits) : (set v o).Fits := by
  cases hslot
  change ((v.bind (parseUnsigned bound)).elim o fun n => put n o).Fits
  rcases hn : v.bind (parseUnsigned bound) with _ | n
  · exact h
  · obtain ⟨text, -, hparse⟩ := Option.bind_eq_some_iff.mp hn
    exact hput n (parseUnsigned_lt hbound hparse)

/-- **One option** keeps the numbers in their ranges. -/
theorem fits_serveSlot {arg : String} {set : Option String → ServeOptions → ServeOptions}
    (hslot : serveSlot arg = some (.value set)) (v : Option String) {o : ServeOptions}
    (h : o.Fits) : (set v o).Fits := by
  have hword : 0 < 2 ^ 64 := by decide
  have hhalf : 0 < 2 ^ 32 := by decide
  unfold serveSlot at hslot
  split at hslot
  case h_1 =>
    cases hslot
    cases v <;> exact { h with }
  case h_2 =>
    cases hslot
    cases v <;> exact { h with }
  case h_3 =>
    exact h.number hword hslot v fun n hn => { h with maxStoreBytes := hn }
  case h_4 =>
    exact h.number hhalf hslot v fun n hn => { h with putRate := hn }
  case h_8 =>
    exact h.number hword hslot v fun n hn => { h with maxPerHandle := hn }
  case h_9 =>
    exact h.number hhalf hslot v fun n hn => { h with fputRate := hn }
  case h_10 =>
    exact h.number hword hslot v fun n hn => { h with maxRegs := hn }
  case h_11 =>
    exact h.number hword hslot v fun n hn => { h with maxLeaseSec := hn }
  case h_12 =>
    exact h.number hword hslot v fun n hn => { h with maxDeadlineHorizonSec := hn }
  -- the other settings are texts, whose values have no bound
  all_goals
    cases hslot
    try exact { h with }

/-- **The settings of a server**: a command line can give it those whose numbers are in the range of
their types, and no others. -/
theorem serveOptions_iff (o : ServeOptions) :
    (∃ args, scan serveSlot args {} = o) ↔ o.Fits := by
  constructor
  · rintro ⟨args, rfl⟩
    refine scan_invariant (I := ServeOptions.Fits) (fun _ _ hslot v _ => fits_serveSlot hslot v)
      (fun arg set hslot s hs => ?_) args ?_
    · unfold serveSlot at hslot
      split at hslot
      all_goals
        cases hslot
        try exact { hs with }
    · constructor <;> decide
  · exact fun h => ⟨o.render, scan_render h⟩

/-! ## The clients -/

/-- The settings of `spore-peer fetch`. -/
structure FetchOptions where
  addr : String := ""
  cid : String := ""
  out : Option String := none

def fetchSlot : String → Option (Slot FetchOptions)
  | "--addr" => some (.orEmpty fun v o => { o with addr := v })
  | "--cid" => some (.orEmpty fun v o => { o with cid := v })
  | "--out" => some (.value fun v o => { o with out := v })
  | _ => none

/-- An empty pointer counts as none. -/
def fabricSlot : String → Option (Slot FabricCli)
  | "--addr" => some (.orEmpty fun v o => { o with addr := v })
  | "--sub" => some (.orEmpty fun v o => { o with sub := v })
  | "--handle" => some (.orEmpty fun v o => { o with handle := v })
  | "--token" => some (.orEmpty fun v o => { o with token := v })
  | "--nonce" => some (.orEmpty fun v o => { o with nonce := v })
  | "--pointer" => some (.value fun v o => { o with pointer := v.filter (· ≠ "") })
  | "--lease" => some (.number (2 ^ 64) fun n o => { o with lease := .ofNat n })
  | "--max" => some (.number (2 ^ 64) fun n o => { o with max := .ofNat n })
  | _ => none

/-- The settings of `spore-peer sync`. -/
structure SyncOptions where
  addr : String := ""
  dir : String := "."

def syncSlot : String → Option (Slot SyncOptions)
  | "--addr" => some (.orEmpty fun v o => { o with addr := v })
  | "--dir" => some (.kept fun v o => { o with dir := v })
  | _ => none

/-- The settings of `spore-peer push`. -/
structure PushOptions where
  addr : String := ""
  dir : String := "."
  token : String := ""

def pushSlot : String → Option (Slot PushOptions)
  | "--addr" => some (.orEmpty fun v o => { o with addr := v })
  | "--dir" => some (.kept fun v o => { o with dir := v })
  | "--token" => some (.orEmpty fun v o => { o with token := v })
  | _ => none

/-- The settings of `spore-peer peers`. -/
structure PeersOptions where
  dir : String := "."
  op : String := ""
  addr : String := ""

def peersSlot : String → Option (Slot PeersOptions)
  | "--dir" => some (.kept fun v o => { o with dir := v })
  | "add" => some (.orEmpty fun v o => { o with op := "add", addr := v })
  | "remove" => some (.orEmpty fun v o => { o with op := "remove", addr := v })
  | "list" => some (.flag fun o => { o with op := "list" })
  | _ => none

/-- The settings of `spore-peer sync-loop`. -/
structure LoopOptions where
  dir : String := "."
  interval : ℕ := 30
  once : Bool := false

def loopSlot : String → Option (Slot LoopOptions)
  | "--dir" => some (.kept fun v o => { o with dir := v })
  | "--interval" => some (.number (2 ^ 64) fun n o => { o with interval := n })
  | "--once" => some (.flag fun o => { o with once := true })
  | _ => none

/-- What is wrong with a command line. -/
def usage (text : String) : Fallible ShellOp (Option ℕ) := do
  outside (.eprint text)
  return some 2

/-- The exit status of a subcommand: that of its success, or 1 with a report of its error. -/
def exitOf {α : Type} (m : Fallible ShellOp α) (report : String → String)
    (status : α → Fallible ShellOp (Option ℕ)) : Fallible ShellOp (Option ℕ) := do
  let r ← attempt m
  match r with
  | .ok a => status a
  | .error e => do
    outside (.eprint (report e))
    return some 1

section

/- `readError` is the text of the error of a failed read; `rounds` bounds the passes of a loop. -/
variable (build : Build) (readError : String → String) (rounds : ℕ)

def mainFetch (o : FetchOptions) : Fallible ShellOp (Option ℕ) :=
  if o.addr = "" ∨ o.cid = "" then usage "fetch needs --addr and --cid"
  else exitOf (fetch build o.addr o.cid o.out) (fun e => s!"fetch failed: {e}") fun _ =>
    return some 0

def mainFabric (o : FabricCli) : Fallible ShellOp (Option ℕ) :=
  if o.addr = "" ∨ o.sub = "" ∨ o.handle = "" then
    usage ("fabric needs --addr, --sub reg|put|pop and --handle\n  " ++
      "reg: --token t [--nonce n] [--lease s]\n  " ++
      "put: --pointer <74-byte hex>\n  " ++
      "pop: --token t [--max n] (pointers print to stdout, one per line)")
  else exitOf (fabricPub build o) (fun e => s!"fabric {o.sub} failed: {e}") fun _ =>
    return some 0

def mainSync (o : SyncOptions) : Fallible ShellOp (Option ℕ) :=
  if o.addr = "" then usage "sync needs --addr"
  else exitOf (sync build o.dir o.addr) (fun e => s!"sync failed: {e}") fun _ =>
    return some 0

def mainPush (o : PushOptions) : Fallible ShellOp (Option ℕ) :=
  if o.addr = "" then usage "push needs --addr"
  else exitOf (push build o.dir readError o.addr o.token) (fun e => s!"push failed: {e}") fun _ =>
    return some 0

def printEach : List String → Fallible ShellOp Unit
  | [] => return ()
  | line :: rest => do
    outside (.print line)
    printEach rest

def mainPeers (o : PeersOptions) : Fallible ShellOp (Option ℕ) :=
  if o.op = "add" ∧ o.addr ≠ "" then
    exitOf (onNode (peersAdd o.dir o.addr)) id fun added => do
      outside (.eprint
        (if added then s!"peer added: {o.addr}" else s!"peer already listed: {o.addr}"))
      return some 0
  else if o.op = "remove" ∧ o.addr ≠ "" then
    exitOf (onNode (peersRemove o.dir o.addr)) id fun removed => do
      outside (.eprint
        (if removed then s!"peer removed: {o.addr}" else s!"peer not listed: {o.addr}"))
      return some 0
  else if o.op = "list" then do
    let peers ← onNode peersList
    printEach peers
    outside (.eprint s!"{peers.length} peer(s) in {o.dir}/{peersFile}")
    return some 0
  else usage "peers needs: add <host:port> | remove <host:port> | list"

/-- A loop that goes on has no exit status. -/
def mainLoop (o : LoopOptions) : Fallible ShellOp (Option ℕ) :=
  exitOf (syncLoop build o.dir readError o.interval o.once rounds)
    (fun e => s!"sync-loop failed: {e}")
    fun summary => return summary.map fun t => if o.once ∧ t.failed > 0 then 1 else 0

end

/-- A command line of a client, as `main` reads it. -/
inductive ClientCommand
  | bare
  | unknown
  | fetch (o : FetchOptions)
  | fabric (o : FabricCli)
  | sync (o : SyncOptions)
  | push (o : PushOptions)
  | peers (o : PeersOptions)
  | syncLoop (o : LoopOptions)

/-- The command of the arguments after the name of the program. -/
def readCommand : List String → ClientCommand
  | [] => .bare
  | "fetch" :: args => .fetch (scan fetchSlot args {})
  | "fabric" :: args => .fabric (scan fabricSlot args ⟨"", "", "", "", "", none, 3600, 8⟩)
  | "sync" :: args => .sync (scan syncSlot args {})
  | "push" :: args => .push (scan pushSlot args {})
  | "peers" :: args => .peers (scan peersSlot args {})
  | "sync-loop" :: args => .syncLoop (scan loopSlot args {})
  | _ => .unknown

/-- `main`, for the subcommands of a client. What has not ended within `rounds` passes has no exit
status. -/
def mainClient (build : Build) (readError : String → String) (rounds : ℕ) :
    ClientCommand → Fallible ShellOp (Option ℕ)
  | .bare => usage "usage: spore-peer <serve|fetch|sync|push|peers|sync-loop|fabric> ..."
  | .unknown => usage "unknown subcommand"
  | .fetch o => mainFetch build o
  | .fabric o => mainFabric build o
  | .sync o => mainSync build o
  | .push o => mainPush build readError o
  | .peers o => mainPeers o
  | .syncLoop o => mainLoop build readError rounds o

/-! ## The exit status -/

/-- An argument that the command needs is missing, or there is no such command. -/
def ClientCommand.Misused : ClientCommand → Prop
  | bare => True
  | unknown => True
  | fetch o => o.addr = "" ∨ o.cid = ""
  | fabric o => o.addr = "" ∨ o.sub = "" ∨ o.handle = ""
  | sync o => o.addr = ""
  | push o => o.addr = ""
  | peers o => ¬ ((o.op = "add" ∨ o.op = "remove") ∧ o.addr ≠ "" ∨ o.op = "list")
  | syncLoop _ => False

/-- What a command has achieved: the file of a fetch holds a body of the hash, a peer is on the list
or off it or the list is printed, and the pass of a loop has synced every peer. -/
def ClientCommand.Achieved {σ : Type} (env : ShellEnv σ) (build : Build)
    (readError : String → String) (s s' : Shell σ) : ClientCommand → Prop
  | fetch o => ∀ path, o.out = some path → ∃ body, s'.outputs.lookup path = some body ∧
      readBlid o.cid = .ok (some (build.sha256 body))
  | peers o =>
    (o.op = "add" → startsWith o.addr "#" = false → o.addr ∈ peersIn s'.world.dir) ∧
      (o.op = "remove" → o.addr ∉ peersIn s'.world.dir) ∧
      (o.op = "list" → s'.printed = s.printed ++ peersIn s'.world.dir)
  | syncLoop o => o.once → ∃ s₀ s₁ t, s₀.world.dir = s.world.dir ∧
      exec env.shell (syncPass build o.dir readError) s₀ = (s₁, .ok (.ok t)) ∧
      t.failed = 0 ∧ t.ok = (peersIn s.world.dir).length
  | _ => True

/-- What the exit status says: 2, that the command was misused and did nothing, and 0, that its work
is done. -/
structure ClientCommand.Exits {σ : Type} (env : ShellEnv σ) (build : Build)
    (readError : String → String) (c : ClientCommand) (s s' : Shell σ) (code : ℕ) : Prop where
  le : code ≤ 2
  misused_iff : code = 2 ↔ c.Misused
  unchanged : code = 2 → s'.world = s.world ∧ s'.outputs = s.outputs ∧ s'.printed = s.printed
  achieved : code = 0 → c.Achieved env build readError s s'

section

variable {σ : Type} {env : ShellEnv σ} {build : Build} {readError : String → String} {rounds : ℕ}
  {s s' : Shell σ} {code : ℕ}

theorem exec_usage (text : String) :
    exec env.shell (usage text) s =
      ({ s with reported := s.reported ++ [text] }, .ok (.ok (some 2))) := rfl

/-- A subcommand that exits has failed, or its work is done. -/
theorem exitOf_cases {α : Type} {m : Fallible ShellOp α} {report : String → String}
    {status : α → Fallible ShellOp (Option ℕ)}
    (h : exec env.shell (exitOf m report status) s = (s', .ok (.ok (some code)))) :
    code = 1 ∨ ∃ s₁ a, exec env.shell m s = (s₁, .ok (.ok a)) ∧
      exec env.shell (status a) s₁ = (s', .ok (.ok (some code))) := by
  rw [exitOf] at h
  rcases hm : exec env.shell m s with ⟨s₁, q | e | a⟩
  · rw [exec_bind, exec_attempt, hm] at h
    cases h
  · rw [exec_bind_ok (exec_attempt_ok hm)] at h
    obtain ⟨-, hcode⟩ := Prod.mk.inj h
    exact .inl (Option.some.inj (Except.ok.inj (Except.ok.inj hcode))).symm
  · rw [exec_bind_ok (exec_attempt_ok hm)] at h
    exact .inr ⟨s₁, a, rfl, h⟩

/-- A fetch that succeeds has written a body of the hash. -/
theorem output_of_fetch (hcalm : env.Calm) {addr cid path : String}
    (h : exec env.shell (fetch build addr cid (some path)) s = (s', .ok (.ok ()))) :
    ∃ body, s'.outputs.lookup path = some body ∧ readBlid cid = .ok (some (build.sha256 body)) := by
  rw [fetch] at h
  obtain ⟨s₁, ⟨⟩, -, h⟩ := exec_bind_eq_ok.mp h
  obtain ⟨s₂, ⟨⟩, hstream, hreport⟩ := exec_bind_eq_ok.mp h
  obtain ⟨rfl, -⟩ := Prod.mk.inj hreport
  -- the request, the response, its body, and the file
  rw [fetchStream] at hstream
  obtain ⟨s₃, resp, -, hstream⟩ := exec_bind_eq_ok.mp hstream
  obtain ⟨s₄, resp, -, hstream⟩ := exec_bind_eq_ok.mp hstream
  obtain ⟨s₅, parsed, hparsed, hstream⟩ := exec_bind_eq_ok.mp hstream
  obtain ⟨s₆, body, hbody, hstream⟩ := exec_bind_eq_ok.mp hstream
  have hwrite : exec env.shell (outside (.writeOut path body)) s₆ =
      ({ s₆ with world := s₆.world.next, outputs := s₆.outputs.insert path body },
        .ok (.ok (.ok ()))) := by
    rw [outside, exec_ask, ShellEnv.shell_writeOut hcalm]
  rw [exec_bind_ok hwrite] at hstream
  obtain ⟨rfl, -⟩ := Prod.mk.inj hstream
  refine ⟨body, AList.lookup_insert _, ?_⟩
  rw [exec_orPanic] at hparsed
  rw [exec_orFail] at hbody
  obtain rfl : parsed = .ok body := Except.ok.inj (Prod.mk.inj hbody).2
  cases hparse : parseFetchResponse build resp cid with
  | error p =>
    rw [hparse] at hparsed
    cases (Prod.mk.inj hparsed).2
  | ok r =>
    rw [hparse] at hparsed
    obtain rfl := Except.ok.inj (Except.ok.inj (Prod.mk.inj hparsed).2)
    exact sha256_of_parseFetchResponse hparse

/-- A list that is written is read back, whatever else is in the directory. -/
theorem peersIn_of_peersWrite {w w' : World σ} (hcalm : env.toEnv.Calm) {dir : String}
    {list : List String} (hlist : ∀ p ∈ list, Listable p) (hnodup : list.Nodup) {u : Unit}
    (h : exec env.toEnv.handle (peersWrite dir list) w = (w', .ok (.ok u))) :
    peersIn w'.dir = list := by
  rw [exec_peersWrite hcalm] at h
  split at h
  · rename_i hsize
    obtain ⟨rfl, -⟩ := Prod.mk.inj h
    exact (peersIn_insert _ hsize _).trans (peersOf_peersBody hlist hnodup)
  · cases (Prod.mk.inj h).2

/-- An address that is not read as a comment is listed once it is added. -/
theorem mem_peersIn_of_peersAdd {w w' : World σ} (hcalm : env.toEnv.Calm) {dir addr : String}
    {added : Bool} (hcomment : startsWith addr "#" = false)
    (h : exec env.toEnv.handle (peersAdd dir addr) w = (w', .ok (.ok added))) :
    addr ∈ peersIn w'.dir := by
  obtain ⟨hnodup, hlist⟩ := peersIn_listable w.dir
  rw [peersAdd] at h
  obtain ⟨w₁, ⟨⟩, haccepted, h⟩ := exec_bind_eq_ok.mp h
  rw [exec_orFail] at haccepted
  obtain ⟨rfl, hvalid⟩ := Prod.mk.inj haccepted
  rw [exec_bind_ok (exec_peersList hcalm w)] at h
  by_cases hmem : addr ∈ peersIn w.dir
  · rw [if_pos hmem] at h
    obtain ⟨rfl, -⟩ := Prod.mk.inj h
    exact hmem
  rw [if_neg hmem] at h
  obtain ⟨w₂, ⟨⟩, hwrite, h⟩ := exec_bind_eq_ok.mp h
  obtain ⟨rfl, -⟩ := Prod.mk.inj h
  have hread : peersIn w₂.dir = peersIn w.dir ++ [addr] := by
    refine peersIn_of_peersWrite hcalm ?_ ?_ hwrite
    · rw [List.forall_mem_append]
      exact ⟨hlist, List.forall_mem_singleton.mpr
        (listable_of_valid (Except.ok.inj hvalid) hcomment)⟩
    · rw [List.nodup_append_comm]
      exact List.nodup_cons.mpr ⟨hmem, hnodup⟩
  rw [hread]
  exact List.mem_append_right _ List.mem_cons_self

/-- An address is not listed once it is removed. -/
theorem not_mem_peersIn_of_peersRemove {w w' : World σ} (hcalm : env.toEnv.Calm)
    {dir addr : String} {removed : Bool}
    (h : exec env.toEnv.handle (peersRemove dir addr) w = (w', .ok (.ok removed))) :
    addr ∉ peersIn w'.dir := by
  obtain ⟨hnodup, hlist⟩ := peersIn_listable w.dir
  rw [peersRemove, exec_bind_ok (exec_peersList hcalm w)] at h
  by_cases hsame : ((peersIn w.dir).filter fun p => p ≠ addr).length = (peersIn w.dir).length
  · rw [if_pos hsame] at h
    obtain ⟨rfl, -⟩ := Prod.mk.inj h
    intro hmem
    have hkept := List.length_filter_eq_length_iff.mp hsame addr hmem
    exact of_decide_eq_true hkept rfl
  rw [if_neg hsame] at h
  obtain ⟨w₁, ⟨⟩, hwrite, h⟩ := exec_bind_eq_ok.mp h
  obtain ⟨rfl, -⟩ := Prod.mk.inj h
  rw [peersIn_of_peersWrite hcalm (fun p hp => hlist p (List.mem_of_mem_filter hp))
    (hnodup.filter _) hwrite]
  intro hmem
  exact of_decide_eq_true (List.mem_filter.mp hmem).2 rfl

/-- A pass without a failure has synced every peer on the list. -/
theorem synced_of_syncPass (hcalm : env.Calm) {dir : String} {t : Summary}
    (h : exec env.shell (syncPass build dir readError) s = (s', .ok (.ok t))) :
    t.ok + t.failed = (peersIn s.world.dir).length := by
  have hlist : exec env.shell (onNode peersList) s =
      ({ s with world := s.world.next }, .ok (.ok (peersIn s.world.dir))) := by
    rw [exec_onNode, exec_peersList hcalm]
  rw [syncPass, exec_bind_ok hlist] at h
  rcases syncPeers_cases (peersIn s.world.dir) {} { s with world := s.world.next } with
    ⟨q, hq⟩ | ⟨s₁, outcomes, hrun, hlen, -⟩
  · rw [h] at hq
    cases hq
  · rw [hrun] at h
    obtain rfl := Except.ok.inj (Except.ok.inj (Prod.mk.inj h).2)
    rw [Summary.foldl_add, ← hlen, ← Summary.of_ok_add_failed outcomes]
    simp

/-- A loop of one pass ends with the summary of the pass. -/
theorem syncPass_of_syncLoop (hcalm : env.Calm) {dir : String} {interval : ℕ} {t : Summary}
    (h : exec env.shell (syncLoop build dir readError interval true rounds) s =
      (s', .ok (.ok (some t)))) :
    ∃ s₀ s₁, s₀.world.dir = s.world.dir ∧
      exec env.shell (syncPass build dir readError) s₀ = (s₁, .ok (.ok t)) := by
  have hmade : exec env.shell (makeDir dir) s =
      ({ s with world := s.world.next }, .ok (.ok ())) := by
    have hdir : env.toEnv.handle _ .createDirAll s.world = (s.world.next, .ok ()) := by
      simp only [Env.handle, hcalm s.world.tick]
    rw [makeDir, exec_bind, exec_onNode, exec_ask, hdir]
    rfl
  rw [syncLoop, exec_bind_ok hmade] at h
  cases rounds with
  | zero => cases (Prod.mk.inj h).2
  | succ rounds =>
    rw [syncRounds] at h
    obtain ⟨s₁, t', hpass, h⟩ := exec_bind_eq_ok.mp h
    obtain ⟨s₂, ⟨⟩, -, h⟩ := exec_bind_eq_ok.mp h
    rw [if_pos rfl] at h
    obtain rfl := Option.some.inj (Except.ok.inj (Except.ok.inj (Prod.mk.inj h).2))
    exact ⟨{ s with world := s.world.next }, s₁, rfl, hpass⟩

/-- A command that is misused is told so, and nothing else is done. -/
theorem exits_usage {c : ClientCommand} (hc : c.Misused) {text : String}
    (h : exec env.shell (usage text) s = (s', .ok (.ok (some code)))) :
    c.Exits env build readError s s' code := by
  rw [exec_usage] at h
  obtain ⟨rfl, hcode⟩ := Prod.mk.inj h
  obtain rfl := Option.some.inj (Except.ok.inj (Except.ok.inj hcode))
  exact ⟨le_rfl, iff_of_true rfl hc, fun _ => ⟨rfl, rfl, rfl⟩, nofun⟩

/-- A command that is not misused ends with the status of its success, or with 1. -/
theorem exits_exitOf {c : ClientCommand} (hc : ¬ c.Misused) {α : Type} {m : Fallible ShellOp α}
    {report : String → String} {status : α → Fallible ShellOp (Option ℕ)}
    (hstatus : ∀ s₁ a, exec env.shell m s = (s₁, .ok (.ok a)) →
      exec env.shell (status a) s₁ = (s', .ok (.ok (some code))) →
      code ≤ 1 ∧ (code = 0 → c.Achieved env build readError s s'))
    (h : exec env.shell (exitOf m report status) s = (s', .ok (.ok (some code)))) :
    c.Exits env build readError s s' code := by
  have hcode : code ≤ 1 ∧ (code = 0 → c.Achieved env build readError s s') := by
    rcases exitOf_cases h with rfl | ⟨s₁, a, hm, hs⟩
    · exact ⟨le_rfl, nofun⟩
    · exact hstatus s₁ a hm hs
  obtain ⟨hle, hachieved⟩ := hcode
  have hne : code ≠ 2 := by omega
  exact ⟨by omega, iff_of_false hne hc, fun h => absurd h hne, hachieved⟩

/-- The status 0. -/
theorem exec_zero (h : exec env.shell (pure (some 0) : Fallible ShellOp (Option ℕ)) s =
    (s', .ok (.ok (some code)))) : s' = s ∧ code = 0 := by
  obtain ⟨rfl, hcode⟩ := Prod.mk.inj h
  exact ⟨rfl, (Option.some.inj (Except.ok.inj (Except.ok.inj hcode))).symm⟩

/-- A report, and the status 0. -/
theorem exec_eprint_zero {text : String}
    (h : exec env.shell (do outside (.eprint text); return some 0) s =
      (s', .ok (.ok (some code)))) : s'.world = s.world ∧ code = 0 := by
  obtain ⟨s₁, ⟨⟩, hprint, h⟩ := exec_bind_eq_ok.mp h
  obtain ⟨rfl, -⟩ := Prod.mk.inj hprint
  obtain ⟨rfl, hcode⟩ := exec_zero h
  exact ⟨rfl, hcode⟩

theorem exits_fetch (hcalm : env.Calm) (o : FetchOptions)
    (h : exec env.shell (mainFetch build o) s = (s', .ok (.ok (some code)))) :
    (ClientCommand.fetch o).Exits env build readError s s' code := by
  rw [mainFetch] at h
  split at h
  · exact exits_usage ‹_› h
  refine exits_exitOf ‹_› (fun s₁ a hfetch hs => ?_) h
  obtain ⟨rfl, rfl⟩ := exec_zero hs
  refine ⟨Nat.zero_le 1, fun _ path hpath => ?_⟩
  rw [hpath] at hfetch
  exact output_of_fetch hcalm hfetch

/-- Adding and removing a peer end alike. -/
theorem exits_peersCall {o : PeersOptions} (hop : o.op = "add" ∨ o.op = "remove")
    (haddr : o.addr ≠ "") {m : Fallible Op Bool} {text : Bool → String}
    (hm : ∀ w w' changed, exec env.toEnv.handle m w = (w', .ok (.ok changed)) →
      (o.op = "add" → startsWith o.addr "#" = false → o.addr ∈ peersIn w'.dir) ∧
        (o.op = "remove" → o.addr ∉ peersIn w'.dir))
    (h : exec env.shell (exitOf (onNode m) id fun changed => do
      outside (.eprint (text changed))
      return some 0) s = (s', .ok (.ok (some code)))) :
    (ClientCommand.peers o).Exits env build readError s s' code := by
  refine exits_exitOf (not_not.mpr (.inl ⟨hop, haddr⟩)) (fun s₁ changed hrun hs => ?_) h
  obtain ⟨hworld, rfl⟩ := exec_eprint_zero hs
  rw [exec_onNode] at hrun
  obtain ⟨rfl, hresult⟩ := Prod.mk.inj hrun
  obtain ⟨hadd, hremove⟩ := hm s.world _ changed (Prod.ext rfl hresult)
  refine ⟨Nat.zero_le 1, fun _ => ?_⟩
  rw [ClientCommand.Achieved, hworld]
  refine ⟨hadd, hremove, fun hlist => ?_⟩
  rw [hlist] at hop
  exact absurd hop (by decide)

theorem exec_printEach (lines : List String) (s : Shell σ) :
    exec env.shell (printEach lines) s =
      ({ s with printed := s.printed ++ lines }, .ok (.ok ())) := by
  induction lines generalizing s with
  | nil =>
    rw [List.append_nil]
    rfl
  | cons line rest ih =>
    have hprint : exec env.shell (outside (.print line)) s =
        ({ s with printed := s.printed ++ [line] }, .ok (.ok ())) := rfl
    rw [printEach, exec_bind_ok hprint, ih, List.append_assoc, List.singleton_append]

theorem exits_peers (hcalm : env.Calm) (o : PeersOptions)
    (h : exec env.shell (mainPeers o) s = (s', .ok (.ok (some code)))) :
    (ClientCommand.peers o).Exits env build readError s s' code := by
  rw [mainPeers] at h
  split at h
  · -- add
    rename_i hop
    refine exits_peersCall (.inl hop.1) hop.2 (fun w w' added hadd => ⟨fun _ hcomment => ?_, ?_⟩) h
    · exact mem_peersIn_of_peersAdd hcalm hcomment hadd
    · intro hremove
      exact absurd (hop.1.symm.trans hremove) (by decide)
  split at h
  · -- remove
    rename_i hop
    refine exits_peersCall (.inr hop.1) hop.2 (fun w w' removed hremove => ⟨?_, fun _ => ?_⟩) h
    · intro hadd
      exact absurd (hop.1.symm.trans hadd) (by decide)
    · exact not_mem_peersIn_of_peersRemove hcalm hremove
  split at h
  · -- list
    rename_i hop
    have hlist : exec env.shell (onNode peersList) s =
        ({ s with world := s.world.next }, .ok (.ok (peersIn s.world.dir))) := by
      rw [exec_onNode, exec_peersList hcalm]
    rw [exec_bind_ok hlist, exec_bind_ok (exec_printEach _ _)] at h
    obtain ⟨s₁, ⟨⟩, hreport, h⟩ := exec_bind_eq_ok.mp h
    obtain ⟨rfl, -⟩ := Prod.mk.inj hreport
    obtain ⟨rfl, rfl⟩ := exec_zero h
    refine ⟨Nat.zero_le 2, iff_of_false nofun (not_not.mpr (.inr hop)), nofun, fun _ => ?_⟩
    rw [ClientCommand.Achieved, hop]
    exact ⟨fun hadd => absurd hadd (by decide), fun hremove => absurd hremove (by decide),
      fun _ => rfl⟩
  · -- another subcommand, or one that lacks its address
    refine exits_usage ?_ h
    rename_i hadd hremove hlist
    rintro (⟨hop | hop, haddr⟩ | hop)
    · exact hadd ⟨hop, haddr⟩
    · exact hremove ⟨hop, haddr⟩
    · exact hlist hop

theorem exits_syncLoop (hcalm : env.Calm) (o : LoopOptions)
    (h : exec env.shell (mainLoop build readError rounds o) s = (s', .ok (.ok (some code)))) :
    (ClientCommand.syncLoop o).Exits env build readError s s' code := by
  rw [mainLoop] at h
  refine exits_exitOf id (fun s₁ summary hloop hs => ?_) h
  obtain ⟨rfl, hcode⟩ := Prod.mk.inj hs
  have hcode : (summary.map fun t => if o.once ∧ t.failed > 0 then 1 else 0) = some code :=
    Except.ok.inj (Except.ok.inj hcode)
  obtain ⟨t, rfl, rfl⟩ := Option.map_eq_some_iff.mp hcode
  refine ⟨by split <;> omega, fun hzero honce => ?_⟩
  have hfailed : t.failed = 0 := by
    by_contra hpos
    rw [if_pos ⟨honce, by omega⟩] at hzero
    cases hzero
  rw [honce] at hloop
  obtain ⟨s₀, s₁, hdir, hpass⟩ := syncPass_of_syncLoop hcalm hloop
  refine ⟨s₀, s₁, t, hdir, hpass, hfailed, ?_⟩
  have hcount := synced_of_syncPass hcalm hpass
  rw [hfailed, hdir] at hcount
  exact hcount

/-- A command of which nothing more than its success is said. -/
theorem exits_plain {c : ClientCommand} {needs : Prop} [Decidable needs]
    (hmisused : c.Misused ↔ needs) (hachieved : ∀ s' : Shell σ, c.Achieved env build readError s s')
    {m : Fallible ShellOp Unit} {text : String} {report : String → String}
    (h : exec env.shell (if needs then usage text
      else exitOf m report fun _ => return some 0) s = (s', .ok (.ok (some code)))) :
    c.Exits env build readError s s' code := by
  split at h
  · exact exits_usage (hmisused.mpr ‹_›) h
  · refine exits_exitOf (fun hc => ‹¬ needs› (hmisused.mp hc)) (fun s₁ a _ hs => ?_) h
    obtain ⟨rfl, rfl⟩ := exec_zero hs
    exact ⟨Nat.zero_le 1, fun _ => hachieved _⟩

/-- **The exit status**: a client that ends with 2 was misused and has done nothing, and one that
ends with 0 has achieved what it is for; every other failure ends with 1. -/
theorem exit_status (hcalm : env.Calm) (c : ClientCommand)
    (h : exec env.shell (mainClient build readError rounds c) s = (s', .ok (.ok (some code)))) :
    c.Exits env build readError s s' code := by
  cases c with
  | bare => exact exits_usage trivial h
  | unknown => exact exits_usage trivial h
  | fetch o => exact exits_fetch hcalm o h
  | fabric o =>
    rw [mainClient, mainFabric] at h
    refine exits_plain ?_ (fun _ => trivial) h
    exact Iff.rfl
  | sync o =>
    rw [mainClient, mainSync] at h
    refine exits_plain ?_ (fun _ => trivial) h
    exact Iff.rfl
  | push o =>
    rw [mainClient, mainPush] at h
    refine exits_plain ?_ (fun _ => trivial) h
    exact Iff.rfl
  | peers o => exact exits_peers hcalm o h
  | syncLoop o => exact exits_syncLoop hcalm o h

end

/-- A peer is added. -/
theorem exit_status_add :
    let s : Shell Peer := { world := World.fresh (oneBody .leading [1, 2]) }
    let command := readCommand ["peers", "--dir", "/s", "add", "b:2"]
    ∃ s', exec onePeer.shell (mainClient .leading id 1 command) s = (s', .ok (.ok (some 0))) ∧
      "b:2" ∈ peersIn s'.world.dir := by
  intro s command
  have hcalm : onePeer.Calm := Env.still_calm peerNet 0
  have hcommand : command = .peers { dir := "/s", op := "add", addr := "b:2" } := by
    simp [command, readCommand, scan, peersSlot, Slot.kept, Slot.orEmpty]
  have hrun : (exec onePeer.shell (mainClient .leading id 1 command) s).2 = .ok (.ok (some 0)) := by
    rw [hcommand]
    decide +kernel
  have hexits := exit_status hcalm command (Prod.ext rfl hrun)
  have hachieved := hexits.achieved rfl
  rw [hcommand] at hachieved
  exact ⟨_, Prod.ext rfl hrun, hachieved.1 rfl (by decide)⟩

end SporePeer
