import SporePeer.Library.Embedding
import SporePeer.Node.Retention

/-!
# Commands

The client commands work on the store of a node, dial peers, and talk to the terminal. `fetch`,
`sync` and `push` dial one peer. A pass of the sync loop dials every peer on the list, one after
another, pulls what it has and pushes what it lacks; a peer that fails is skipped.

## Main definitions

* `ShellOp`, `Shell`, `ShellEnv`: the calls of commands, what they change, and what answers them
* `onNode`, `outside`: a program of the node in a command, and a call on the world around
* `fetch`, `sync`, `push`, `syncPass`, `syncLoop`: the commands

## Main results

* `syncPass_counts`: a pass dials every peer on the list and counts each of them once
* `verified_commandRun`: commands add verified bodies to the store, and change nothing else in it
-/

namespace SporePeer

open Effects Text

/-! ## Calls -/

/-- The calls of a command on the world around its node. -/
inductive OuterOp : Type → Type
  | connect (addr : String) : OuterOp (Except String Unit)
  | writeOut (path : String) (content : Bytes) : OuterOp (Except String Unit)
  | print (line : String) : OuterOp Unit
  | eprint (line : String) : OuterOp Unit
  | sleep (secs : ℕ) : OuterOp Unit

/-- The calls of a command: those on its store and its connection, and those on the world around. -/
abbrev ShellOp : Type → Type := Joint Op OuterOp

/-- What a command changes: the node, the files it is told to write outside of the store, and what
it prints. -/
structure Shell (σ : Type) where
  world : World σ
  outputs : Table String Bytes := ∅
  printed : List String := []
  reported : List String := []

/-- What answers the calls of a command. A connection is made from the state of all peers. -/
structure ShellEnv (σ : Type) extends Env σ where
  dial : σ → String → σ × Except String Unit

namespace ShellEnv

variable {σ : Type} (env : ShellEnv σ)

/-- `fs::write` outside of the store. -/
def writeOut (s : Shell σ) (path : String) (content : Bytes) : Shell σ × Except String Unit :=
  match env.fault s.world.tick with
  | none =>
    ({ s with world := s.world.next, outputs := s.outputs.insert path content }, .ok ())
  | some f =>
    ({ s with
        world := s.world.next
        outputs := f.left.elim s.outputs fun n => s.outputs.insert path (content.take n) },
      .error f.text)

/-- The sequential meaning of the calls. -/
def shell : Handler ShellOp (Shell σ)
  | _, .left e, s =>
    ({ s with world := (env.toEnv.handle _ e s.world).1 }, (env.toEnv.handle _ e s.world).2)
  | _, .right (.connect addr), s =>
    ({ s with world := { s.world.next with peer := (env.dial s.world.peer addr).1 } },
      (env.dial s.world.peer addr).2)
  | _, .right (.writeOut path content), s => env.writeOut s path content
  | _, .right (.print line), s => ({ s with printed := s.printed ++ [line] }, ())
  | _, .right (.eprint line), s => ({ s with reported := s.reported ++ [line] }, ())
  | _, .right (.sleep _), s => ({ s with world := s.world.next }, ())

variable {env}

theorem shell_writeOut (hcalm : env.Calm) (path : String) (content : Bytes) (s : Shell σ) :
    env.shell _ (.right (.writeOut path content)) s =
      ({ s with world := s.world.next, outputs := s.outputs.insert path content }, .ok ()) := by
  simp only [shell, writeOut, hcalm s.world.tick]

end ShellEnv

/-- A program of the node in a command. -/
def onNode {α : Type} (m : Fallible Op α) : Fallible ShellOp α := embed (fun _ => .left) m

/-- A call on the world around. -/
def outside {α : Type} (e : OuterOp α) : Fallible ShellOp α := ask (.right e)

/-- The node, as a part of what a command changes. -/
def nodePart (σ : Type) : Part (Shell σ) (World σ) where
  get s := s.world
  put s w := { s with world := w }
  put_get _ := rfl
  put_put _ _ _ := rfl
  get_put _ _ := rfl

theorem nodePart_acts {σ : Type} (env : ShellEnv σ) :
    (nodePart σ).Acts (fun _ => Joint.left) env.toEnv.handle env.shell := fun _ _ _ => rfl

section

variable {σ α : Type} (env : ShellEnv σ) (m : Fallible Op α) (s : Shell σ)

@[simp] theorem exec_onNode :
    exec env.shell (onNode m) s =
      ({ s with world := (exec env.toEnv.handle m s.world).1 },
        (exec env.toEnv.handle m s.world).2) :=
  exec_embed (nodePart_acts env) m s

end

/-! ## Commands -/

section

variable (build : Build)

/-- `fetch_stream`: asks for a body, and writes it to `out` once it is verified. -/
def fetchStream (cid : String) (out : Option String) : Fallible ShellOp Unit := do
  let req := Value.object [("cid", .string cid)]
  let resp ← onNode (ask (.exchange (asBytes (build.toJson req))))
  let resp ← orFail resp
  let body ← orPanic (parseFetchResponse build resp cid)
  let body ← orFail body
  match out with
  | none => return ()
  | some path => do
    let written ← outside (.writeOut path body)
    orFail (written.mapError fun e => s!"write {path}: {e}")

/-- A connection to `addr`. -/
def connect (addr : String) : Fallible ShellOp Unit := do
  let dialled ← outside (.connect addr)
  orFail (dialled.mapError fun e => s!"connect {addr}: {e}")

def fetch (addr cid : String) (out : Option String) : Fallible ShellOp Unit := do
  connect addr
  fetchStream build cid out
  outside (.eprint s!"fetched and integrity-verified cid {cid}")

variable (dir : String)

/-- `fs::create_dir_all` of the store. -/
def makeDir : Fallible ShellOp Unit := do
  let made ← onNode (ask .createDirAll)
  orFail (made.mapError fun e => s!"dir {dir}: {e}")

def sync (addr : String) : Fallible ShellOp Unit := do
  makeDir dir
  connect addr
  let (height, fetched, had) ← onNode (syncStream build dir)
  outside (.eprint
    s!"synced from {addr}: peer height {height}, fetched {fetched}, already had {had}")

/- `readError` is the text of the error of a failed read. -/
variable (readError : String → String)

def push (addr token : String) : Fallible ShellOp Unit := do
  makeDir dir
  connect addr
  let (height, pushed, had) ← onNode (pushStream build dir token readError)
  outside (.eprint
    s!"pushed to {addr}: peer height {height}, pushed {pushed}, peer already had {had}")

/-- One peer of a pass: the bodies transferred, if it was synced. -/
def syncPeer (addr : String) : Fallible ShellOp (Option ℕ) := do
  let dialled ← outside (.connect addr)
  match dialled with
  | .error e => do
    outside (.eprint s!"sync-loop: {addr}: unreachable ({e})")
    return none
  | .ok () => do
    let pull ← attempt (onNode (syncStream build dir))
    match pull with
    | .error e => do
      outside (.eprint s!"sync-loop: {addr}: {e}")
      return none
    | .ok (_, fetched, _) => do
      let push ← attempt (onNode (pushStream build dir "" readError))
      match push with
      | .error e => do
        outside (.eprint s!"sync-loop: {addr}: push: {e}")
        return none
      | .ok (_, pushed, _) => return some (fetched + pushed)

/-- What a pass reports: the peers synced, those that failed, and the bodies transferred. -/
structure Summary where
  ok : ℕ := 0
  failed : ℕ := 0
  transferred : ℕ := 0
  deriving DecidableEq, Repr

/-- One more peer. -/
def Summary.add (t : Summary) : Option ℕ → Summary
  | some n => { t with ok := t.ok + 1, transferred := t.transferred + n }
  | none => { t with failed := t.failed + 1 }

def syncPeers : List String → Summary → Fallible ShellOp Summary
  | [], t => return t
  | addr :: rest, t => do
    let outcome ← syncPeer build dir readError addr
    syncPeers rest (t.add outcome)

/-- `sync_pass`: the peers on the list, one after another. -/
def syncPass : Fallible ShellOp Summary := do
  let peers ← onNode peersList
  syncPeers build dir readError peers {}

/-- The loop of `sync_loop`, as far as `rounds` passes. -/
def syncRounds (interval : ℕ) (once : Bool) : ℕ → Fallible ShellOp (Option Summary)
  | 0 => return none
  | rounds + 1 => do
    let t ← syncPass build dir readError
    outside (.eprint (s!"sync-loop: pass done: {t.ok} peer(s) synced, {t.failed} failed, " ++
      s!"{t.transferred} body(ies) transferred"))
    if once then return some t
    else do
      outside (.sleep interval)
      syncRounds interval once rounds

/-- `sync_loop`, as far as `rounds` passes. -/
def syncLoop (interval : ℕ) (once : Bool) (rounds : ℕ) : Fallible ShellOp (Option Summary) := do
  makeDir dir
  syncRounds build dir readError interval once rounds

end

/-! ## A pass -/

/-- The summary of the outcomes of peers. -/
def Summary.of (outcomes : List (Option ℕ)) : Summary where
  ok := outcomes.countP Option.isSome
  failed := outcomes.countP Option.isNone
  transferred := (outcomes.map fun o => o.getD 0).sum

/-- The address that a call dials. -/
def dialled : (Σ β, ShellOp β) → Option String
  | ⟨_, .right (.connect addr)⟩ => some addr
  | _ => none

section

variable {σ : Type} {env : ShellEnv σ} {build : Build} {dir : String}
  {readError : String → String} {s : Shell σ}

theorem Summary.of_cons (o : Option ℕ) (outcomes : List (Option ℕ)) :
    Summary.of (o :: outcomes) = {
      ok := (Summary.of outcomes).ok + if o.isSome then 1 else 0
      failed := (Summary.of outcomes).failed + if o.isNone then 1 else 0
      transferred := o.getD 0 + (Summary.of outcomes).transferred } := by
  simp only [Summary.of, List.countP_cons, List.map_cons, List.sum_cons]

theorem Summary.foldl_add (outcomes : List (Option ℕ)) (t : Summary) :
    outcomes.foldl Summary.add t = {
      ok := t.ok + (Summary.of outcomes).ok
      failed := t.failed + (Summary.of outcomes).failed
      transferred := t.transferred + (Summary.of outcomes).transferred } := by
  induction outcomes generalizing t with
  | nil => rfl
  | cons o outcomes ih =>
    rw [List.foldl_cons, ih, Summary.of_cons]
    cases o with
    | none => simp [Summary.add, Nat.add_assoc, Nat.add_comm 1]
    | some n => simp [Summary.add, Nat.add_assoc, Nat.add_comm 1]

theorem Summary.of_ok_add_failed (outcomes : List (Option ℕ)) :
    (Summary.of outcomes).ok + (Summary.of outcomes).failed = outcomes.length := by
  induction outcomes with
  | nil => rfl
  | cons o outcomes ih =>
    simp only [Summary.of] at ih ⊢
    rw [List.countP_cons, List.countP_cons, List.length_cons, ← ih]
    cases o with
    | none => exact Nat.add_assoc _ _ 1
    | some n => exact Nat.add_right_comm _ 1 _

/-- A program of the node dials no peer. -/
theorem filterMap_dialled_onNode {α : Type} (m : Fallible Op α) (s : Shell σ) :
    (trace env.shell (onNode m) s).filterMap dialled = [] := by
  have htrace : trace env.shell (onNode m) s =
      (trace env.toEnv.handle m s.world).map fun c => ⟨c.1, .left c.2⟩ :=
    trace_embed (nodePart_acts env) m s
  rw [htrace, List.filterMap_map, List.filterMap_eq_nil_iff]
  exact fun _ _ => rfl

/-- **One peer** is dialled once, and unless the client unwinds, it is synced or has failed. -/
theorem syncPeer_cases (addr : String) (s : Shell σ) :
    Unwinds env.shell (syncPeer build dir readError addr) s ∨
      ∃ s' o, exec env.shell (syncPeer build dir readError addr) s = (s', .ok (.ok o)) ∧
        (trace env.shell (syncPeer build dir readError addr) s).filterMap dialled = [addr] := by
  have hdials : dialled ⟨_, .right (.connect addr)⟩ = some addr := rfl
  rw [syncPeer, outside, unwinds_ask_bind, exec_ask_bind, trace_ask_bind,
    List.filterMap_cons_some hdials]
  generalize env.shell _ (Joint.right (OuterOp.connect addr)) s = x
  obtain ⟨s₁, e | ⟨⟩⟩ := x
  · exact .inr ⟨_, _, rfl, rfl⟩
  dsimp only
  rcases hpull : exec env.shell (onNode (syncStream build dir)) s₁ with ⟨s₂, q | r⟩
  · exact .inl (unwinds_bind.mpr (.inl (unwinds_attempt.mpr ⟨q, by rw [hpull]⟩)))
  rw [unwinds_bind_ok (exec_attempt_ok hpull), exec_bind_ok (exec_attempt_ok hpull),
    trace_bind_ok (exec_attempt_ok hpull), trace_attempt, List.filterMap_append,
    filterMap_dialled_onNode]
  rcases r with e | ⟨height, fetched, had⟩
  · exact .inr ⟨_, _, rfl, rfl⟩
  dsimp only
  -- the peer is pushed to only once it has been pulled from
  rcases hpush : exec env.shell (onNode (pushStream build dir "" readError)) s₂ with ⟨s₃, q | r⟩
  · exact .inl (unwinds_bind.mpr (.inl (unwinds_attempt.mpr ⟨q, by rw [hpush]⟩)))
  rw [unwinds_bind_ok (exec_attempt_ok hpush), exec_bind_ok (exec_attempt_ok hpush),
    trace_bind_ok (exec_attempt_ok hpush), trace_attempt, List.filterMap_append,
    filterMap_dialled_onNode]
  rcases r with e | ⟨height', pushed, had'⟩
  · exact .inr ⟨_, _, rfl, rfl⟩
  · exact .inr ⟨_, _, rfl, rfl⟩

theorem syncPeers_cases (peers : List String) (t : Summary) (s : Shell σ) :
    Unwinds env.shell (syncPeers build dir readError peers t) s ∨
      ∃ (s' : Shell σ) (outcomes : List (Option ℕ)),
        exec env.shell (syncPeers build dir readError peers t) s =
          (s', .ok (.ok (outcomes.foldl Summary.add t))) ∧ outcomes.length = peers.length ∧
        (trace env.shell (syncPeers build dir readError peers t) s).filterMap dialled = peers := by
  induction peers generalizing t s with
  | nil => exact .inr ⟨s, [], rfl, rfl, rfl⟩
  | cons addr rest ih =>
    rw [syncPeers]
    rcases syncPeer_cases addr s with hu | ⟨s₁, o, hrun, hdial⟩
    · exact .inl (unwinds_bind.mpr (.inl hu))
    rw [unwinds_bind_ok hrun, exec_bind_ok hrun, trace_bind_ok hrun, List.filterMap_append, hdial]
    rcases ih (t.add o) s₁ with hu | ⟨s', outcomes, hrun', hlen, hdials⟩
    · exact .inl hu
    · refine .inr ⟨s', o :: outcomes, hrun', ?_, ?_⟩
      · rw [List.length_cons, List.length_cons, hlen]
      · rw [hdials, List.singleton_append]

/-- **A pass** dials every peer on the list once, in the order of the list, and counts each of them
as synced or as failed; it returns no error. -/
theorem syncPass_counts (hcalm : env.Calm) (build : Build) (dir : String)
    (readError : String → String) (s : Shell σ) :
    Unwinds env.shell (syncPass build dir readError) s ∨
      ∃ (s' : Shell σ) (t : Summary),
        exec env.shell (syncPass build dir readError) s = (s', .ok (.ok t)) ∧
        t.ok + t.failed = (peersIn s.world.dir).length ∧
        (trace env.shell (syncPass build dir readError) s).filterMap dialled =
          peersIn s.world.dir := by
  have hlist : exec env.shell (onNode peersList) s =
      ({ s with world := s.world.next }, .ok (.ok (peersIn s.world.dir))) := by
    rw [exec_onNode, exec_peersList hcalm]
  rw [syncPass, unwinds_bind_ok hlist, exec_bind_ok hlist, trace_bind_ok hlist,
    List.filterMap_append, filterMap_dialled_onNode, List.nil_append]
  rcases syncPeers_cases (peersIn s.world.dir) {} { s with world := s.world.next } with hu |
    ⟨s', outcomes, hrun, hlen, hdials⟩
  · exact .inl hu
  · refine .inr ⟨s', _, hrun, ?_, hdials⟩
    rw [Summary.foldl_add, ← hlen, ← Summary.of_ok_add_failed outcomes]
    simp

end

/-- Peers that hold one body each, of which one at `a:1` can be reached. -/
def onePeer : ShellEnv Peer where
  toEnv := .still peerNet 0
  dial p addr := (p, if addr = "a:1" then .ok () else .error "refused")

/-- A pass with two peers on the list. -/
theorem syncPass_counts_two :
    let s : Shell Peer := { world := { World.fresh (oneBody .leading [1, 2]) with
      dir := (∅ : Table String FileData).insert peersFile ⟨asBytes "a:1\nb:2\n", 0⟩ } }
    (exec onePeer.shell (syncPass .leading "" id) s).2 = .ok (.ok ⟨1, 1, 1⟩) ∧
      (trace onePeer.shell (syncPass .leading "" id) s).filterMap dialled = ["a:1", "b:2"] := by
  intro s
  have hlist : peersIn s.world.dir = ["a:1", "b:2"] := by
    change peersIn (AList.insert _ _ _) = _
    rw [peersIn_insert _ (by decide)]
    decide +kernel
  have hrun : (exec onePeer.shell (syncPass .leading "" id) s).2 = .ok (.ok ⟨1, 1, 1⟩) := by
    decide +kernel
  have hcalm : onePeer.Calm := Env.still_calm peerNet 0
  rcases syncPass_counts hcalm .leading "" id s with ⟨q, hq⟩ | ⟨s', t, -, -, hdials⟩
  · rw [hrun] at hq
    cases hq
  · exact ⟨hrun, hdials.trans hlist⟩

/-! ## Verified bodies -/

/-- The client commands, and how far a sync loop is followed. -/
inductive Command
  | fetch (addr cid : String) (out : Option String)
  | sync (addr : String)
  | push (addr token : String)
  | syncLoop (interval : ℕ) (once : Bool) (rounds : ℕ)

def Command.program (build : Build) (dir : String) (readError : String → String) :
    Command → Fallible ShellOp Unit
  | fetch addr cid out => SporePeer.fetch build addr cid out
  | sync addr => SporePeer.sync build dir addr
  | push addr token => SporePeer.push build dir readError addr token
  | syncLoop interval once rounds => do
    let _ ← SporePeer.syncLoop build dir readError interval once rounds

/-- The files of `old` as they were, and new ones that hash to their names. -/
def Grows (build : Build) (old dir : Table String FileData) : Prop :=
  (∀ name d, old.lookup name = some d → dir.lookup name = some d) ∧
  ∀ name d, dir.lookup name = some d → old.lookup name = none →
    ∃ stem, name = bodyFile stem ∧ readBlid stem = .ok (some (build.sha256 d.content))

theorem Grows.refl (build : Build) (dir : Table String FileData) : Grows build dir dir := by
  refine ⟨fun _ _ => id, fun name d hd hnone => ?_⟩
  rw [hd] at hnone
  cases hnone

theorem Grows.trans {build : Build} {a b c : Table String FileData} (hab : Grows build a b)
    (hbc : Grows build b c) : Grows build a c := by
  refine ⟨fun name d h => hbc.1 name d (hab.1 name d h), fun name d hd hnone => ?_⟩
  cases hb : b.lookup name with
  | none => exact hbc.2 name d hd hb
  | some d' =>
    obtain rfl : d' = d := Option.some.inj ((hbc.1 name d' hb).symm.trans hd)
    exact hab.2 name d' hb hnone

/-- The files that fetches write outside of the store. -/
def Outputs (build : Build) (fetches : Set (String × String)) (old out : Table String Bytes) :
    Prop :=
  ∀ path, out.lookup path = old.lookup path ∨ ∃ cid body, (cid, path) ∈ fetches ∧
    out.lookup path = some body ∧ readBlid cid = .ok (some (build.sha256 body))

/-- The names that a command fetches, and where to. -/
def Command.fetches : Command → Set (String × String)
  | fetch _ cid (some path) => {(cid, path)}
  | _ => ∅

/-- A call of a command that writes verified bodies only. -/
def VerifiedCall {σ : Type} (build : Build) (fetches : Set (String × String)) (s : Shell σ) :
    (Σ β, ShellOp β) → Prop
  | ⟨β, .left e⟩ => PassCall build s.world ⟨β, e⟩
  | ⟨_, .right (.writeOut path content)⟩ =>
    ∃ cid, (cid, path) ∈ fetches ∧ readBlid cid = .ok (some (build.sha256 content))
  | _ => True

section

variable {σ : Type} {env : ShellEnv σ} {build : Build} {dir : String}
  {readError : String → String} {fetches : Set (String × String)} {s : Shell σ}

theorem grows_passCall {w : World σ} {old : Table String FileData} (hcalm : env.Calm)
    {c : Σ β, Op β} (hc : PassCall build w c) (h : Grows build old w.dir) :
    Grows build old (env.toEnv.handle _ c.2 w).1.dir := by
  obtain ⟨β, e⟩ := c
  cases e with
  | write name content =>
    obtain ⟨stem, rfl, hread, habsent⟩ := hc
    have hdir : (env.toEnv.handle _ (.write (bodyFile stem) content) w).1.dir =
        w.dir.insert (bodyFile stem) ⟨content, env.stamp w.tick⟩ := by
      simp only [Env.handle, Env.write_dir, Env.leaves, hcalm w.tick]
    rw [hdir]
    constructor
    · intro name d hold
      rw [Table.lookup_insert_eq, if_neg]
      · exact h.1 name d hold
      · -- an old file would have been found
        rintro rfl
        rw [h.1 _ d hold] at habsent
        cases habsent
    · intro name d hd hnone
      rw [Table.lookup_insert_eq] at hd
      split at hd
      · rename_i heq
        obtain rfl := Option.some.inj hd
        exact ⟨stem, heq, hread⟩
      · exact h.2 name d hd hnone
  | rename src dst => exact hc.elim
  | removeFile name => exact hc.elim
  | setWins l x => cases l <;> exact h
  | _ => exact h

/-- **One call** of a command. -/
theorem VerifiedCall.step {old : Shell σ} (hcalm : env.Calm) {c : Σ β, ShellOp β}
    (hc : VerifiedCall build fetches s c)
    (h : Grows build old.world.dir s.world.dir ∧ Outputs build fetches old.outputs s.outputs) :
    Grows build old.world.dir (env.shell _ c.2 s).1.world.dir ∧
      Outputs build fetches old.outputs (env.shell _ c.2 s).1.outputs := by
  obtain ⟨β, e | e⟩ := c
  · exact ⟨grows_passCall hcalm hc h.1, h.2⟩
  cases e with
  | writeOut path content =>
    obtain ⟨cid, hfetch, hread⟩ := hc
    rw [ShellEnv.shell_writeOut hcalm]
    refine ⟨h.1, fun path' => ?_⟩
    rw [Table.lookup_insert_eq]
    split
    · rename_i heq
      rw [heq]
      exact .inr ⟨cid, content, hfetch, rfl, hread⟩
    · exact h.2 path'
  | _ => exact h

theorem eachCall_onNode {α : Type} {m : Fallible Op α}
    (hm : EachCall env.toEnv.handle (PassCall build) m s.world) :
    EachCall env.shell (VerifiedCall build fetches) (onNode m) s :=
  eachCall_embed (nodePart_acts env) (fun _ _ hc => hc) hm

/-- A program of the node that leaves the files as they are. -/
theorem eachCall_onNode_keepsFiles {α : Type} {m : Fallible Op α} (hm : Only KeepsFiles m) :
    EachCall env.shell (VerifiedCall build fetches) (onNode m) s := by
  refine eachCall_onNode (hm.eachCall fun β e w he => ?_)
  cases e with
  | write name content => exact he.elim
  | rename src dst => exact he.elim
  | removeFile name => exact he.elim
  | _ => trivial

theorem sha256_of_parseFetchResponse {resp body : Bytes} {cid : String}
    (h : parseFetchResponse build resp cid = .ok (.ok body)) :
    readBlid cid = .ok (some (build.sha256 body)) := by
  rw [parseFetchResponse] at h
  rw [readBlid]
  rcases hdec : (hexDecode (asBytes cid)).run with p | _ | expected
  · rw [hdec] at h
    cases h
  · rw [hdec] at h
    cases h
  rw [hdec] at h
  change (if expected.length ≠ 32 then _ else _) = _ at h
  split at h
  · cases h
  rename_i hlen
  have hexpected (b : Bytes) (hb : (build.sha256 b).toList = expected) :
      (Except.ok (some expected)).map (fun r => r.bind fun e =>
        if h : e.length = 32 then some (⟨e, h⟩ : U8Array 32) else none) =
      (.ok (some (build.sha256 b)) : Result _) := by
    subst hb
    change Except.ok (dite _ _ _) = _
    rw [dif_pos (build.sha256 b).toList_length]
    rfl
  split at h
  · -- the response is the body itself
    rename_i hresp
    obtain rfl : resp = body := Except.ok.inj (Except.ok.inj h)
    exact hexpected _ hresp
  split at h
  · split at h
    · cases h
    · -- the body comes after the status
      rename_i hbody
      obtain rfl := Except.ok.inj (Except.ok.inj h)
      exact hexpected _ (not_not.mp hbody)
  · cases h
  · cases h

theorem eachCall_makeDir : EachCall env.shell (VerifiedCall build fetches) (makeDir dir) s :=
  eachCall_bind (eachCall_onNode_keepsFiles (only_ask trivial)) fun _ _ _ => eachCall_orFail _

theorem eachCall_connect (addr : String) :
    EachCall env.shell (VerifiedCall build fetches) (connect addr) s :=
  eachCall_bind (eachCall_ask trivial) fun _ _ _ => eachCall_orFail _

/-- A fetch writes a body only once it hashes to the name. -/
theorem eachCall_fetch (addr cid : String) (out : Option String) :
    EachCall env.shell (VerifiedCall build (Command.fetch addr cid out).fetches)
      (fetch build addr cid out) s := by
  refine eachCall_bind (eachCall_connect addr) fun s₁ _ _ =>
    eachCall_bind ?_ fun _ _ _ => eachCall_ask trivial
  refine eachCall_bind (eachCall_onNode_keepsFiles (only_ask trivial)) fun s₂ _ _ =>
    eachCall_bind (eachCall_orFail _) fun s₃ resp _ =>
    eachCall_bind (eachCall_orPanic _) fun s₄ parsed hparsed =>
    eachCall_bind (eachCall_orFail _) fun s₅ body hbody => ?_
  rw [exec_orPanic] at hparsed
  rw [exec_orFail] at hbody
  obtain rfl : parsed = .ok body := Except.ok.inj (Prod.mk.inj hbody).2
  obtain ⟨-, hparsed⟩ := Prod.mk.inj hparsed
  cases out with
  | none => exact eachCall_pure _
  | some path =>
    refine eachCall_bind (eachCall_ask ⟨cid, rfl, ?_⟩) fun _ _ _ => eachCall_orFail _
    cases hparse : parseFetchResponse build resp cid with
    | error p => rw [hparse] at hparsed; cases hparsed
    | ok r =>
      rw [hparse] at hparsed
      obtain rfl := Except.ok.inj (Except.ok.inj hparsed)
      exact sha256_of_parseFetchResponse hparse

theorem eachCall_onNode_syncStream (hcalm : env.Calm) :
    EachCall env.shell (VerifiedCall build fetches) (onNode (syncStream build dir)) s :=
  eachCall_onNode (eachCall_syncStream hcalm build dir s.world)

theorem eachCall_onNode_pushStream (token : String) :
    EachCall env.shell (VerifiedCall build fetches)
      (onNode (pushStream build dir token readError)) s :=
  eachCall_onNode_keepsFiles (only_pushStream_keepsFiles build dir token readError)

theorem eachCall_syncPeer (hcalm : env.Calm) (addr : String) :
    EachCall env.shell (VerifiedCall build fetches) (syncPeer build dir readError addr) s := by
  refine eachCall_bind (eachCall_ask trivial) fun s₁ dialled _ => ?_
  rcases dialled with e | ⟨⟩
  · exact eachCall_bind (eachCall_ask trivial) fun _ _ _ => eachCall_pure _
  refine eachCall_bind (eachCall_attempt (eachCall_onNode_syncStream hcalm)) fun s₂ pull _ => ?_
  rcases pull with e | ⟨height, fetched, had⟩
  · exact eachCall_bind (eachCall_ask trivial) fun _ _ _ => eachCall_pure _
  refine eachCall_bind (eachCall_attempt (eachCall_onNode_pushStream "")) fun s₃ push _ => ?_
  rcases push with e | ⟨height', pushed, had'⟩
  · exact eachCall_bind (eachCall_ask trivial) fun _ _ _ => eachCall_pure _
  · exact eachCall_pure _

theorem eachCall_syncPass (hcalm : env.Calm) :
    EachCall env.shell (VerifiedCall build fetches) (syncPass build dir readError) s := by
  have hpeers (peers : List String) (t : Summary) (s : Shell σ) :
      EachCall env.shell (VerifiedCall build fetches)
        (syncPeers build dir readError peers t) s := by
    induction peers generalizing t s with
    | nil => exact eachCall_pure _
    | cons addr rest ih => exact eachCall_bind (eachCall_syncPeer hcalm addr) fun _ _ _ => ih _ _
  have hlist : Only KeepsFiles peersList := only_bind (only_ask trivial) fun _ => only_pure _
  exact eachCall_bind (eachCall_onNode_keepsFiles hlist) fun _ _ _ => hpeers _ _ _

theorem eachCall_syncRounds (hcalm : env.Calm) (interval : ℕ) (once : Bool) (rounds : ℕ) :
    EachCall env.shell (VerifiedCall build fetches)
      (syncRounds build dir readError interval once rounds) s := by
  induction rounds generalizing s with
  | zero => exact eachCall_pure _
  | succ rounds ih =>
    refine eachCall_bind (eachCall_syncPass hcalm) fun _ _ _ =>
      eachCall_bind (eachCall_ask trivial) fun _ _ _ => ?_
    split
    · exact eachCall_pure _
    · exact eachCall_bind (eachCall_ask trivial) fun _ _ _ => ih

/-- **One command**. -/
theorem eachCall_program (hcalm : env.Calm) (c : Command) :
    EachCall env.shell (VerifiedCall build c.fetches) (c.program build dir readError) s := by
  cases c with
  | fetch addr cid out => exact eachCall_fetch addr cid out
  | sync addr =>
    exact eachCall_bind eachCall_makeDir fun _ _ _ => eachCall_bind (eachCall_connect addr)
      fun _ _ _ => eachCall_bind (eachCall_onNode_syncStream hcalm) fun _ _ _ =>
      eachCall_ask trivial
  | push addr token =>
    exact eachCall_bind eachCall_makeDir fun _ _ _ => eachCall_bind (eachCall_connect addr)
      fun _ _ _ => eachCall_bind (eachCall_onNode_pushStream token) fun _ _ _ =>
      eachCall_ask trivial
  | syncLoop interval once rounds =>
    exact eachCall_bind (eachCall_bind eachCall_makeDir fun _ _ _ =>
      eachCall_syncRounds hcalm interval once rounds) fun _ _ _ => eachCall_pure _

end

/-- Commands one after another, each of them cut off after a number of calls. -/
def commandRun {σ : Type} (env : ShellEnv σ) (build : Build) (dir : String)
    (readError : String → String) (commands : List (Command × ℕ)) (s : Shell σ) : Shell σ :=
  commands.foldl (fun s c => (cutOff env.shell c.2 (c.1.program build dir readError) s).2) s

/-- **What commands write is verified**: whatever the peers answer, and wherever the commands are
cut off, the files of the store are as they were, a new one is a body that hashes to its name, and
an output is either as it was or a body that hashes to the name it was fetched by. -/
theorem verified_commandRun {σ : Type} {env : ShellEnv σ} (hcalm : env.Calm) (build : Build)
    (dir : String) (readError : String → String) (commands : List (Command × ℕ)) (s : Shell σ) :
    Grows build s.world.dir (commandRun env build dir readError commands s).world.dir ∧
      Outputs build {f | ∃ c ∈ commands, f ∈ c.1.fetches} s.outputs
        (commandRun env build dir readError commands s).outputs := by
  induction commands generalizing s with
  | nil => exact ⟨.refl _ _, fun _ => .inl rfl⟩
  | cons c commands ih =>
    have heach : EachCall env.shell (VerifiedCall build c.1.fetches)
      (c.1.program build dir readError) s := eachCall_program hcalm c.1
    have hstep := heach.invariant (I := fun v : Shell σ => Grows build s.world.dir v.world.dir ∧
        Outputs build c.1.fetches s.outputs v.outputs) (fun _ _ hc h => hc.step hcalm h)
      ⟨.refl _ _, fun _ => .inl rfl⟩ c.2
    obtain ⟨hdir, hout⟩ := ih (cutOff env.shell c.2 (c.1.program build dir readError) s).2
    refine ⟨hstep.1.trans hdir, fun path => ?_⟩
    rcases hout path with hsame | ⟨cid, body, ⟨c', hc', hfetch⟩, hbody, hread⟩
    · rcases hstep.2 path with hsame' | ⟨cid, body, hfetch, hbody, hread⟩
      · exact .inl (hsame.trans hsame')
      · exact .inr ⟨cid, body, ⟨c, List.mem_cons_self, hfetch⟩, hsame.trans hbody, hread⟩
    · exact .inr ⟨cid, body, ⟨c', List.mem_cons_of_mem _ hc', hfetch⟩, hbody, hread⟩

/-- A body is synced, and the sync of it is cut off the second time. -/
theorem verified_commandRun_two :
    let s : Shell Peer := { world := World.fresh (oneBody .leading [1, 2]) }
    let s' := commandRun onePeer .leading "" id [(.sync "a:1", 100), (.sync "a:1", 3)] s
    (s'.world.dir.lookup (bodyFile (cidOf .leading [1, 2]))).map (·.content) = some [1, 2] ∧
      Grows .leading s.world.dir s'.world.dir := by
  intro s s'
  have hcalm : onePeer.Calm := Env.still_calm peerNet 0
  refine ⟨by decide +kernel, ?_⟩
  exact (verified_commandRun hcalm .leading "" id _ s).1

end SporePeer
