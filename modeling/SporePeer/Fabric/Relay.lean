import SporePeer.Node.Store

/-!
# The relay

The three verbs of the relay, and its start. `freg` registers a handle under a token for a lease,
`fput` queues a pointer at a registered handle, `fpop` drains a queue for the holder of the token.
Registrations live in memory only; a queue is kept twice, as entries in memory and as envelope
files, and a start rebuilds the entries from the files.

## Main definitions

* `runFreg`, `runFput`, `runFpop`: the verbs
* `fabricOpen`: the start of a relay on a directory
* `jsonToCbor`: the payload of a response in the other encoding
-/

namespace SporePeer

open Effects Text Bytes

/-- The file of an envelope. -/
def fenvFile (cidHex : String) : String := cidHex ++ ".fenv"

/-- The name under which an envelope is written before it is complete. -/
def tmpFile (cidHex : String) : String := cidHex ++ ".tmp"

/-- `persist_envelope`: temp, then rename. -/
def persistEnvelope (cidHex : String) (raw : Bytes) : Fallible Op Unit := do
  let written ← ask (.write (tmpFile cidHex) raw)
  orFail (written.mapError fun e => s!"500 envelope write: {e}")
  let renamed ← ask (.rename (tmpFile cidHex) (fenvFile cidHex))
  orFail (renamed.mapError fun e => s!"500 envelope rename: {e}")

def dropEnvelope (cidHex : String) : Fallible Op Unit := ask (.removeFile (fenvFile cidHex))

/-! ## Start -/

/-- Reads the envelope files `names` into the queues. A file that is no envelope, has expired or
lies beyond the horizon is removed. -/
def openFiles (build : Build) (cfg : FabricConfig) : List String → Queues → Fallible Op Queues
  | [], queues => return queues
  | name :: rest, queues =>
    if extension name ≠ some "fenv" then openFiles build cfg rest queues
    else do
      let raw ← ask (.read name)
      match raw with
      | none => openFiles build cfg rest queues
      | some raw =>
        match parseEnvelope raw with
        | .error _ => do
          ask (.removeFile name)
          openFiles build cfg rest queues
        | .ok env => do
          let deadline := env.pointer.deadline
          let now ← ask .nowSec
          if deadline ≤ now then do
            ask (.removeFile name)
            openFiles build cfg rest queues
          else do
            let now ← ask .nowSec
            let horizon ← orPanic (addU64 build.overflowChecks now cfg.maxDeadlineHorizonSec)
            if horizon < deadline then do
              ask (.removeFile name)
              openFiles build cfg rest queues
            else
              let handle := Hex.encode env.handle.toList
              let entry : Queued := {
                pointer := env.pointer
                envCidHex := trimEndMatches name ".fenv"
                deadline := deadline
                receivedAt := env.receivedAt }
              openFiles build cfg rest (queues.insert handle (Queues.of queues handle ++ [entry]))

/-- The order of a rebuilt queue: arrival, then name. -/
def Queued.before (x y : Queued) : Prop :=
  x.receivedAt < y.receivedAt ∨ x.receivedAt = y.receivedAt ∧ x.envCidHex ≤ y.envCidHex

instance : DecidableRel Queued.before := fun x y =>
  inferInstanceAs (Decidable (x.receivedAt < y.receivedAt ∨
    x.receivedAt = y.receivedAt ∧ x.envCidHex ≤ y.envCidHex))

/-- `FabricState::open`: the relay's memory, with the queues rebuilt from the directory. -/
def fabricOpen (build : Build) (cfg : FabricConfig) : Fallible Op Unit := do
  ask (.setWins .fput ∅)
  ask (.setReg ∅)
  ask (.setQueues ∅)
  ask (.setLastSweep 0)
  let rd ← ask .readDir
  let queues ← openFiles build cfg (rd.getD []) ∅
  ask (.setQueues (queues.mapValues fun q => q.insertionSort Queued.before))

/-! ## Registration -/

/-- The sweep of expired registrations, at most once a second. -/
def sweepExpired (now : ℕ) : Fallible Op Unit := do
  let last ← ask .getLastSweep
  if last < now then do
    let reg ← ask .getReg
    ask (.setReg (reg.retain fun _ r => now < r.expires))
    ask (.setLastSweep now)
  else return ()

/-- Who may register `h`: the holder of the present token while the registration lives, anyone
else while there is room. -/
def fregGate (cfg : FabricConfig) (reg : Table String Registration) (h prev : String) (now : ℕ) :
    Except String Unit :=
  match (reg.lookup h).filter fun cur => now < cur.expires with
  | some cur =>
    if ctEq cur.token prev then .ok () else .error "403 live registration: prev_token required"
  | none => if cfg.maxRegs ≤ reg.size then .error "503 fabric registry full" else .ok ()

/-- What a `freg` asks for. -/
structure FregRequest where
  handle : String
  token : String
  prevToken : String
  lease : ℕ

/-- The fields of a `freg`, checked. -/
def readFreg (build : Build) (req : Value) : Except String FregRequest :=
  match (req.get "handle").bind Value.asStr with
  | none => .error "400 freg needs handle"
  | some h =>
    if ((Hex.decode h).any fun b => b.length = 32) = false then
      .error "400 handle must be 32-byte hex"
    else match (req.get "token").bind Value.asStr with
      | none => .error "400 freg needs token"
      | some token =>
        if ¬ (16 ≤ token.utf8ByteSize ∧ token.utf8ByteSize ≤ 128) then
          .error "400 token must be 16..=128 bytes"
        else .ok {
          handle := toLowercase build.unicodeLowercase h
          token := token
          prevToken := ((req.get "prev_token").bind Value.asStr).getD ""
          lease := ((req.get "lease").bind Value.asU64).elim 3600 UInt64.toNat }

/-- `run_freg`: registers a handle, or renews a live registration for the holder of its token. -/
def runFreg (build : Build) (cfg : FabricConfig) (req : Value) : Fallible Op Value := do
  let r ← orFail (readFreg build req)
  let now ← ask .nowSec
  let expires ← orPanic (addU64 build.overflowChecks now (min r.lease cfg.maxLeaseSec))
  locked .reg do
    sweepExpired now
    let reg ← ask .getReg
    orFail (fregGate cfg reg r.handle r.prevToken now)
    ask (.setReg (reg.insert r.handle ⟨r.token, expires⟩))
  return .object [("expires", .uint expires), ("token", .string r.token)]

/-! ## Queueing -/

/-- The registration that `fput` needs. -/
def fputRegistered (h : String) : Fallible Op Unit :=
  locked .reg do
    let reg ← ask .getReg
    let some r := reg.lookup h | throw "404 unknown handle"
    let now ← ask .nowSec
    refuseIf (r.expires ≤ now) "404 handle lease expired"

/-- The pointer of a put. -/
def fputPointer (req : Value) : Except String Pointer :=
  match (req.get "pointer_hex").bind Value.asStr with
  | none => .error "400 fput needs pointer_hex"
  | some ptrHex =>
    if ptrHex.utf8ByteSize ≠ 2 * pointerLen then .error "400 pointer must be 74-byte hex"
    else match Hex.decode ptrHex with
      | none => .error "400 pointer must be 74-byte hex"
      | some p =>
        if h : p.length = pointerLen then
          let pointer : Pointer := ⟨p, h⟩
          if ¬ pointer.HasHeader then .error "400 bad pointer payload header" else .ok pointer
        else .error "400 pointer must be 74-byte hex"

/-- The bytes of a registered handle. -/
def handleBytes (h : String) : Result (U8Array 32) :=
  match Hex.decode h with
  | some b => copyFromSlice 32 b
  | none => .error .unwrap

/-- The queue with the entry of `pointer` moved to a new deadline and a new envelope. -/
def refresh (pointer : Pointer) (cidHex : String) (deadline : ℕ) : List Queued → List Queued
  | [] => []
  | x :: q =>
    if x.pointer = pointer then { x with deadline := deadline, envCidHex := cidHex } :: q
    else x :: refresh pointer cidHex deadline q

/-- Removes the oldest entries of a queue over its cap, and their envelopes. -/
def evictOldest (max : ℕ) : List Queued → Fallible Op (List Queued)
  | [] => return []
  | x :: q =>
    if max < (x :: q).length then do
      dropEnvelope x.envCidHex
      evictOldest max q
    else return x :: q

/-- Queues `new`, whose envelope is on disk. A pointer already queued keeps its place: its entry is
moved to the new envelope, and the superseded one is removed. -/
def putPointer (cfg : FabricConfig) (new : Queued) (q : List Queued) :
    Fallible Op (List Queued) :=
  match q.find? fun x => x.pointer = new.pointer with
  | some old =>
    if old.envCidHex ≠ new.envCidHex then do
      dropEnvelope old.envCidHex
      return refresh new.pointer new.envCidHex new.deadline q
    else return refresh new.pointer new.envCidHex new.deadline q
  | none => evictOldest cfg.maxPerHandle (q ++ [new])

/-- Removes the expired entries of a queue, and their envelopes. -/
def retainLive (now : ℕ) : List Queued → Fallible Op (List Queued)
  | [] => return []
  | x :: q =>
    if x.deadline ≤ now then do
      dropEnvelope x.envCidHex
      retainLive now q
    else do
      let q' ← retainLive now q
      return x :: q'

/-- The handle that `fput` and `fpop` name, in lower case. -/
def readHandle (build : Build) (missing : String) (req : Value) : Except String String :=
  match (req.get "handle").bind Value.asStr with
  | none => .error missing
  | some h =>
    if h.utf8ByteSize ≠ 64 then .error "400 handle must be 32-byte hex"
    else .ok (toLowercase build.unicodeLowercase h)

/-- The checks of `fput` up to the deadline: the handle, the pointer and the time. -/
def fputGate (build : Build) (cfg : FabricConfig) (req : Value) (ip : String) :
    Fallible Op (String × Pointer × ℕ) := do
  let h ← orFail (readHandle build "400 fput needs handle" req)
  fputRegistered h
  let now ← ask .nowSec
  let ok ← allow .fput cfg.fputRate ip now
  refuseIf (ok = false) "429 fput rate"
  let pointer ← orFail (fputPointer req)
  refuseIf (pointer.deadline = 0) "400 zero pointer deadline"
  let now ← ask .nowSec
  refuseIf (pointer.deadline ≤ now) "410 gone"
  return (h, pointer, now)

/-- The queue section of `fput`: `new` is queued at `h`, and what has expired there is removed. -/
def putQueue (cfg : FabricConfig) (h : String) (new : Queued) : Fallible Op Unit :=
  locked .queues do
    let queues ← ask .getQueues
    let q ← putPointer cfg new (Queues.of queues h)
    let now ← ask .nowSec
    let q ← retainLive now q
    ask (.setQueues (queues.insert h q))

/-- `fput` after its checks: the horizon, the envelope on disk, and the queue. -/
def fputStore (build : Build) (cfg : FabricConfig) (h : String) (pointer : Pointer) (now : ℕ) :
    Fallible Op Unit := do
  let horizon ← orPanic (addU64 build.overflowChecks now cfg.maxDeadlineHorizonSec)
  refuseIf (horizon < pointer.deadline) "400 deadline beyond horizon cap"
  let handle ← orPanic (handleBytes h)
  let receivedAt ← ask .nowSec
  let raw := marshalEnvelope ⟨handle, pointer, receivedAt⟩
  let cidHex := Hex.encode (build.sha256 raw).toList
  persistEnvelope cidHex raw
  putQueue cfg h ⟨pointer, cidHex, pointer.deadline, receivedAt⟩

/-- `run_fput`: queues a pointer at a registered handle. -/
def runFput (build : Build) (cfg : FabricConfig) (req : Value) (ip : String) :
    Fallible Op Value := do
  let (h, pointer, now) ← fputGate build cfg req ip
  fputStore build cfg h pointer now
  return .object [("queued", .bool true)]

/-! ## Draining -/

/-- Takes entries off the front of a queue until `max` are delivered. An entry leaves its queue with
its envelope, delivered or, if it has expired, not. -/
def drain (now max : ℕ) : List Queued → List Pointer → Fallible Op (List Queued × List Pointer)
  | [], out => return ([], out)
  | item :: q, out =>
    if out.length < max then do
      dropEnvelope item.envCidHex
      drain now max q (if now < item.deadline then out ++ [item.pointer] else out)
    else return (item :: q, out)

/-- The check of `fpop`: a live registration under the token presented. -/
def fpopAuthorised (h token : String) : Fallible Op Unit :=
  locked .reg do
    let reg ← ask .getReg
    let some r := reg.lookup h | throw "404 unknown handle"
    let now ← ask .nowSec
    refuseIf (r.expires ≤ now ∨ ctEq r.token token = false) "403 wrong token"

/-- The queue section of `fpop`. -/
def drainQueue (h : String) (now max : ℕ) : Fallible Op (List Pointer) :=
  locked .queues do
    let queues ← ask .getQueues
    match queues.lookup h with
    | none => return []
    | some q => do
      let (q, out) ← drain now max q []
      ask (.setQueues (queues.insert h q))
      return out

/-- The pointers that `fpop` returns. -/
def pointersResponse (out : List Pointer) : Value :=
  .object [("pointers", .array (out.map fun p => .string (Hex.encode p.toList)))]

/-- How many pointers an `fpop` asks for. -/
def readMax (req : Value) : ℕ := min (((req.get "max").bind Value.asU64).elim 8 UInt64.toNat) 64

/-- `run_fpop`: drains a queue for the holder of the token. -/
def runFpop (build : Build) (cfg : FabricConfig) (req : Value) (ip : String) :
    Fallible Op Value := do
  let h ← orFail (readHandle build "400 fpop needs handle" req)
  let token := ((req.get "token").bind Value.asStr).getD ""
  let now ← ask .nowSec
  let ok ← allow .fput cfg.fputRate ip now
  refuseIf (ok = false) "429 fpop rate"
  fpopAuthorised h token
  let now ← ask .nowSec
  let out ← drainQueue h now (readMax req)
  return pointersResponse out

/-! ## Responses in CBOR -/

mutual

/-- `json_to_cbor`. -/
def jsonToCbor : Value → Bytes
  | .object fields => Cbor.map fields.length ++ fieldsToCbor fields
  | .array items => Cbor.array items.length ++ itemsToCbor items
  | .string s => Cbor.text s
  | .number n => Cbor.uint ((Value.asU64 (.number n)).elim 0 UInt64.toNat)
  | .bool b => if b then Cbor.head 7 20 else Cbor.head 7 19
  | .null => Cbor.head 7 22

def fieldsToCbor : List (String × Value) → Bytes
  | [] => []
  | (k, v) :: rest => Cbor.kv k (jsonToCbor v) ++ fieldsToCbor rest

def itemsToCbor : List Value → Bytes
  | [] => []
  | v :: rest => jsonToCbor v ++ itemsToCbor rest

end

end SporePeer
