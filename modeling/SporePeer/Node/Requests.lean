import SporePeer.Node.Commands
import SporePeer.Node.Exchange

/-!
# JSON requests

Two clients speak JSON: the one that fetches a body, and the one for the verbs of a relay. Each
sends one object in a frame, and reads one frame. The object begins with a brace, and no message
does, so that the server reads it as JSON.

## Main definitions

* `Spoken`: what the JSON library writes for an object, and reads back
* `handleRequest`: what a server does with a request in JSON
* `answering`: a handler that runs a program, and answers with a frame for its result
* `World.answered`, `reading`: the server after the answer, and what the client reads
* `Connects`: a client all of whose connections lead to one server

## Main results

* `exec_handleFrame_spoken`: the server reads the request
* `exec_ask_spoken`: what the client reads, and what the server is left with
-/

namespace SporePeer

open Effects Text Bytes

/-! ## Frames -/

/-- The JSON library writes `v` as an object, and reads it back. The text fits into a frame, also
behind a status. -/
structure Spoken (build : Build) (v : Value) : Prop where
  reads : build.fromSlice (asBytes (build.toJson v)) = some v
  opens : (asBytes (build.toJson v)).head? = some 0x7b
  short : (asBytes (build.toJson v)).length < maxFrame

/-- **A JSON object is no message**: a brace is the head of a text. -/
theorem decoded_eq_none {b : Bytes} (hopens : b.head? = some 0x7b) : decoded b = none := by
  cases hdec : decoded b with
  | none => rfl
  | some msg =>
    obtain ⟨ib, rest, rfl, hmap⟩ := map_of_decoded hdec
    obtain rfl : ib = 0x7b := Option.some.inj hopens
    exact absurd hmap (by decide)

section

variable (build : Build) (cfg : ServeConfig) (ip : String)

/-- What a server does with a request in JSON. -/
def handleRequest (req : Value) : Fallible Op Unit :=
  if ((req.get "verb").bind Value.asStr).isSome then handleVerb build cfg ip req
  else do
    let r ← attempt (serveBody build (((req.get "cid").bind Value.asStr).getD ""))
    match r with
    | .ok data => respond (frameOk data)
    | .error e => respond (frameErr e)

/-- A handler that runs `m`, and answers with a frame for its result. -/
def answering {α : Type} (m : Fallible Op α) (f : Except String α → Bytes) : Fallible Op Unit := do
  let r ← attempt m
  respond (f r)

end

/-- The server after the end of `m`, and after the answer if there is one. -/
def World.answered {τ α : Type} (f : Except String α → Bytes) :
    World τ × Result (Except String α) → World τ
  | (s, .ok r) => { s with sent := s.sent ++ [f r] }
  | (s, .error _) => s

/-- What the client reads: the answer, or the end of the connection. -/
def reading {α : Type} (f : Except String α → Bytes) :
    Result (Except String α) → Except String Bytes
  | .ok r => readFrame (f r)
  | .error _ => .error "connection closed"

section

variable {τ α : Type} {senv : Env τ} {build : Build} {cfg : ServeConfig} {sdir ip : String}

/-- **The server reads a request in JSON.** -/
theorem exec_handleFrame_spoken {v : Value} (hv : Spoken build v) (s : World τ) :
    exec senv.handle (handleFrame build cfg sdir ip (asBytes (build.toJson v))) s =
      exec senv.handle (handleRequest build cfg ip v) s := by
  rw [handleFrame, run_decodeMessage, decoded_eq_none hv.opens, exec_orPanic_ok_bind]
  dsimp only
  rw [handleJson, hv.reads]
  rfl

theorem exec_answering (m : Fallible Op α) (f : Except String α → Bytes) (s : World τ) :
    exec senv.handle (answering m f) s =
      (World.answered f (exec senv.handle m s), (exec senv.handle m s).2.map fun _ => .ok ()) := by
  rcases hm : exec senv.handle m s with ⟨s', q | r⟩
  · rw [answering, exec_bind, exec_attempt, hm]
    rfl
  · rw [answering, exec_bind_ok (exec_attempt_ok hm)]
    rfl

/-- **A request and its answer**: the server runs the program of the request, and the client reads
the frame for its result. -/
theorem exec_exchange_spoken {env : Env (World τ)} (hnet : env.net = serverNet senv build cfg sdir ip)
    {v : Value} (hv : Spoken build v) {m : Fallible Op α} {f : Except String α → Bytes}
    (hm : ∀ s, exec senv.handle (handleRequest build cfg ip v) s =
      exec senv.handle (answering m f) s)
    (hsends : Only SendsNothing m) (w : World (World τ)) :
    env.exchange w (asBytes (build.toJson v)) =
      ({ w.next with peer := World.answered f (exec senv.handle m w.peer) },
        reading f (exec senv.handle m w.peer).2) := by
  have hread : readFrame (asBytes (build.toJson v)) = .ok (asBytes (build.toJson v)) := by
    have hpos : (asBytes (build.toJson v)).length ≠ 0 := by
      intro hnil
      have hopens := hv.opens
      rw [List.length_eq_zero_iff.mp hnil] at hopens
      cases hopens
    exact if_neg (not_or_intro hpos (not_lt.mpr hv.short.le))
  have hsent : (exec senv.handle m w.peer).1.sent = w.peer.sent := sent_exec hsends
  simp only [Env.exchange, hnet, serverNet, hread, answer]
  rw [exec_handleFrame_spoken hv, hm, exec_answering]
  rcases hrun : exec senv.handle m w.peer with ⟨s', q | r⟩
  · rfl
  · have hdrop : (s'.sent ++ [f r]).drop w.peer.sent.length = [f r] := by
      rw [hrun] at hsent
      rw [← hsent, List.drop_left]
    simp only [World.answered, Except.map, hdrop]
    rfl

/-! ## The client -/

/-- The connections of a client all lead to one server. -/
structure Connects (env : ShellEnv (World τ)) (senv : Env τ) (build : Build) (cfg : ServeConfig)
    (sdir ip : String) : Prop where
  net : env.net = serverNet senv build cfg sdir ip
  dial : ∀ s addr, env.dial s addr = (s, .ok ())

variable {env : ShellEnv (World τ)}

theorem exec_connect (h : Connects env senv build cfg sdir ip) (addr : String)
    (s : Shell (World τ)) :
    exec env.shell (connect addr) s = ({ s with world := s.world.next }, .ok (.ok ())) := by
  rw [connect, outside, exec_ask_bind]
  simp only [ShellEnv.shell, h.dial]
  rfl

/-- **A request of a client**, and what it reads. -/
theorem exec_ask_spoken (h : Connects env senv build cfg sdir ip) {v : Value}
    (hv : Spoken build v) {m : Fallible Op α} {f : Except String α → Bytes}
    (hm : ∀ s, exec senv.handle (handleRequest build cfg ip v) s =
      exec senv.handle (answering m f) s)
    (hsends : Only SendsNothing m) (s : Shell (World τ)) :
    exec env.shell (onNode (ask (.exchange (asBytes (build.toJson v))))) s =
      ({ s with world :=
          { s.world.next with peer := World.answered f (exec senv.handle m s.world.peer) } },
        .ok (.ok (reading f (exec senv.handle m s.world.peer).2))) := by
  rw [exec_onNode, exec_ask]
  simp only [Env.handle]
  rw [exec_exchange_spoken h.net hv hm hsends]

end

/-! ## A small JSON library -/

mutual

/-- Compact JSON, of values whose texts need no escapes. -/
def compact : Value → String
  | .null => "null"
  | .bool b => if b then "true" else "false"
  | .number n => toString ((Value.asU64 (.number n)).elim 0 UInt64.toNat)
  | .string s => "\"" ++ s ++ "\""
  | .array items => "[" ++ ",".intercalate (compactItems items) ++ "]"
  | .object fields => "\x7b" ++ ",".intercalate (compactFields fields) ++ "\x7d"

def compactItems : List Value → List String
  | [] => []
  | v :: rest => compact v :: compactItems rest

def compactFields : List (String × Value) → List String
  | [] => []
  | (k, v) :: rest => ("\"" ++ k ++ "\":" ++ compact v) :: compactFields rest

end

/-- A build whose JSON library knows the values `known`. -/
def Build.knowing (known : List Value) (build : Build) : Build :=
  { build with
    toJson := compact
    fromSlice := fun b => known.find? fun v => asBytes (compact v) = b }

theorem spoken_knowing {known : List Value} {build : Build}
    (hknown : (known.map compact).Nodup ∧ ∀ text ∈ known.map compact,
      (asBytes text).head? = some 0x7b ∧ (asBytes text).length < maxFrame)
    {v : Value} (hv : v ∈ known) : Spoken (build.knowing known) v where
  reads := by
    change (known.find? fun u => asBytes (compact u) = asBytes (compact v)) = some v
    cases hfind : known.find? fun u => decide (asBytes (compact u) = asBytes (compact v)) with
    | none =>
      have hne := List.find?_eq_none.mp hfind v hv
      rw [decide_eq_true_eq] at hne
      exact absurd rfl hne
    | some u =>
      have hsame := List.find?_some hfind
      rw [decide_eq_true_eq, asBytes_inj] at hsame
      rw [List.inj_on_of_nodup_map hknown.1 (List.mem_of_find?_eq_some hfind) hv hsame]
  opens := (hknown.2 _ (List.mem_map_of_mem hv)).1
  short := (hknown.2 _ (List.mem_map_of_mem hv)).2

end SporePeer
