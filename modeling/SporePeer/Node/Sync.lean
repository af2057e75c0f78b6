import SporePeer.Node.Store
import SporePeer.Wire.RoundTrip

/-!
# The sync client

A pass asks a peer for its chain and fetches the bodies the local store lacks. Everything the peer
sends is checked here: the frames are decoded, the names in the chain are read, and every body must
hash to the name it was asked for.

## Main definitions

* `rpc2Call`: a request and its response
* `syncEntry`, `syncEntries`: one chain entry, and the loop over them
* `syncStream`: a pass
* `Peer`, `peerNet`: the answers of a peer

## Main results

* `exec_syncEntry`, `exec_syncEntries_cons`, `exec_syncStream`: what a pass can do
* `syncEntries_invariant`: what every entry preserves, the loop preserves
-/

namespace SporePeer

open Effects Text

/-- The cap of a pass. -/
def syncCap : ℕ := 2000

/-- `rpc2_call`: a request, and its response decoded. -/
def rpc2Call (method : String) (seq : ℕ) (body : Bytes) : Fallible Op Rpc2Message := do
  let resp ← ask (.exchange (Cbor.message method seq "" body))
  let resp ← orFail resp
  let decoded ← orPanic (decodeMessage resp).run
  let some m := decoded | throw "undecodable rpc2 response"
  return m

/-- The body of an object response, if it is the one asked for. -/
def verifiedBody (build : Build) (payload : Value) (top : ℕ) (expected : Bytes) :
    Except String Bytes := do
  let some bodyHex := payload.asStr | throw "object payload not bytes"
  let some body := Hex.decode bodyHex | throw (build.hexError bodyHex)
  if (build.sha256 body).toList ≠ expected then
    throw s!"topo {top}: body sha256 != blid (tampered)"
  else return body

/-- How the loop goes on after a chain entry. -/
inductive Progress
  | skipped
  | had
  | capped
  | fetched
  deriving DecidableEq

/-- The height and the name of a chain entry. -/
def chainPair (entry : Value) : Except String (ℕ × String) :=
  match entry.asArray with
  | none => .error "chain entry not an array"
  | some [top, blid] => .ok (top.asU64.elim 0 UInt64.toNat, blid.asStr.getD "")
  | some _ => .error "chain entry must be [topoheight, blid]"

/-- Fetches the body named `blidHex`, which reads as `expected`. -/
def fetchObject (build : Build) (dir : String) (i top : ℕ) (blidHex : String) (expected : Bytes) :
    Fallible Op Progress := do
  let blid ← orPanic (Bytes.copyFromSlice 32 expected)
  let obj ← rpc2Call "Peer.GetObject" (100 + i) (getobjectRequest blid)
  if obj.error ≠ "" then return .skipped
  else do
    let body ← orFail (verifiedBody build obj.payload top expected)
    let written ← ask (.write (bodyFile blidHex) body)
    orFail (written.mapError fun e => s!"write {dir}/{bodyFile blidHex}: {e}")
    return .fetched

/-- The chain entry with index `i`. One whose name does not read as 32 bytes is skipped. -/
def syncEntry (build : Build) (dir : String) (i : ℕ) (entry : Value) : Fallible Op Progress := do
  let (top, blidHex) ← orFail (chainPair entry)
  let expected ← orPanic (hexDecode (asBytes blidHex)).run
  match expected.filter fun e => e.length = 32 with
  | none => return .skipped
  | some expected => do
    let present ← ask (.metadata (bodyFile blidHex))
    if present.isSome then return .had
    else if syncCap ≤ i then return .capped
    else fetchObject build dir i top blidHex expected

/-- The chain entries from index `i` on; counts the bodies fetched and those already held. -/
def syncEntries (build : Build) (dir : String) : ℕ → List Value → ℕ → ℕ → Fallible Op (ℕ × ℕ)
  | _, [], fetched, had => return (fetched, had)
  | i, entry :: rest, fetched, had => do
    let progress ← syncEntry build dir i entry
    match progress with
    | .skipped => syncEntries build dir (i + 1) rest fetched had
    | .had => syncEntries build dir (i + 1) rest fetched (had + 1)
    | .capped => return (fetched, had)
    | .fetched => syncEntries build dir (i + 1) rest (fetched + 1) had

/-- `sync_stream`: the peer's height, the bodies fetched and the bodies already held. -/
def syncStream (build : Build) (dir : String) : Fallible Op (ℕ × ℕ × ℕ) := do
  let hs ← rpc2Call "Peer.Handshake" 1 (handshakeRequest 1)
  refuseIf (hs.error ≠ "") s!"handshake: {hs.error}"
  let height := ((hs.payload.get "H").bind Value.asU64).elim 0 UInt64.toNat
  let chain ← rpc2Call "Peer.Chain" 2 (chainRequest 0 5000)
  refuseIf (chain.error ≠ "") s!"chain: {chain.error}"
  let (fetched, had) ← syncEntries build dir 0 (chain.payload.asArray.getD []) 0 0
  return (height, fetched, had)

/-! ## Runs -/

/-- What a call returns for the peer's answer. -/
def callResult (resp : Except String Bytes) : Except String Rpc2Message :=
  match resp with
  | .error e => .error e
  | .ok b =>
    match decoded b with
    | none => .error "undecodable rpc2 response"
    | some m => .ok m

section

variable {σ : Type} (env : Env σ) (build : Build) (dir : String) (w : World σ)

@[simp] theorem exec_rpc2Call (method : String) (seq : ℕ) (body : Bytes) :
    exec env.handle (rpc2Call method seq body) w =
      ((env.exchange w (Cbor.message method seq "" body)).1,
        .ok (callResult (env.exchange w (Cbor.message method seq "" body)).2)) := by
  simp only [rpc2Call, exec_ask_bind, Env.handle]
  rcases env.exchange w (Cbor.message method seq "" body) with ⟨w', ⟨e⟩ | ⟨resp⟩⟩
  · rfl
  · simp only [exec_orFail_ok_bind, run_decodeMessage, exec_orPanic_ok_bind, callResult]
    cases decoded resp <;> rfl

/-- The answer to the request for an object. -/
def objectAnswer (i : ℕ) (blid : U8Array 32) : World σ × Except String Rpc2Message :=
  let x := env.exchange w (Cbor.message "Peer.GetObject" (100 + i) "" (getobjectRequest blid))
  (x.1, callResult x.2)

theorem exec_fetchObject (i top : ℕ) (text : String) (blid : U8Array 32) :
    exec env.handle (fetchObject build dir i top text blid.toList) w =
      match objectAnswer env w i blid with
      | (w', .error e) => (w', .ok (.error e))
      | (w', .ok obj) =>
        if obj.error ≠ "" then (w', .ok (.ok .skipped))
        else match verifiedBody build obj.payload top blid.toList with
          | .error e => (w', .ok (.error e))
          | .ok body =>
            ((env.write w' (bodyFile text) body).1,
              .ok (((env.write w' (bodyFile text) body).2.mapError
                fun e => s!"write {dir}/{bodyFile text}: {e}").map fun _ => .fetched)) := by
  unfold fetchObject
  rw [Bytes.copyFromSlice_toList, exec_orPanic_ok_bind]
  simp only [exec_bind, exec_rpc2Call, objectAnswer]
  generalize env.exchange w _ = x
  rcases callResult x.2 with e | obj
  · rfl
  · simp only
    split
    · rfl
    · rcases verifiedBody build obj.payload top blid.toList with e | body
      · rfl
      · simp only [exec_orFail_ok_bind, exec_ask_bind, Env.handle]
        rcases env.write x.1 (bodyFile text) body with ⟨w', e | ⟨⟩⟩ <;> rfl

/-- One chain entry: it stops the pass, is skipped, is held already, meets the cap, or is fetched. -/
theorem exec_syncEntry (i : ℕ) (entry : Value) :
    exec env.handle (syncEntry build dir i entry) w =
      match chainPair entry with
      | .error e => (w, .ok (.error e))
      | .ok (top, text) =>
        match readBlid text with
        | .error p => (w, .error p)
        | .ok none => (w, .ok (.ok .skipped))
        | .ok (some blid) =>
          if (env.lookup w (bodyFile text)).isSome then (w.next, .ok (.ok .had))
          else if syncCap ≤ i then (w.next, .ok (.ok .capped))
          else exec env.handle (fetchObject build dir i top text blid.toList) w.next := by
  unfold syncEntry readBlid
  rcases chainPair entry with e | ⟨top, text⟩
  · rfl
  simp only [exec_orFail_ok_bind]
  rcases (hexDecode (asBytes text)).run with p | r
  · rfl
  simp only [exec_orPanic_ok_bind, Except.map]
  rcases r with _ | e
  · rfl
  -- only a name of 32 bytes is looked up
  by_cases he : e.length = 32
  · simp only [Option.filter_some, he, decide_true, if_true, Option.bind_some, dif_pos,
      exec_ask_bind, Env.handle, Option.isSome_map]
    split
    · rfl
    · split <;> rfl
  · simp [Option.filter_some, he]

/-- The loop goes on after an entry as the entry says. -/
theorem exec_syncEntries_cons (i : ℕ) (entry : Value) (rest : List Value) (fetched had : ℕ) :
    exec env.handle (syncEntries build dir i (entry :: rest) fetched had) w =
      match exec env.handle (syncEntry build dir i entry) w with
      | (w', .ok (.ok .skipped)) =>
        exec env.handle (syncEntries build dir (i + 1) rest fetched had) w'
      | (w', .ok (.ok .had)) =>
        exec env.handle (syncEntries build dir (i + 1) rest fetched (had + 1)) w'
      | (w', .ok (.ok .capped)) => (w', .ok (.ok (fetched, had)))
      | (w', .ok (.ok .fetched)) =>
        exec env.handle (syncEntries build dir (i + 1) rest (fetched + 1) had) w'
      | (w', .ok (.error e)) => (w', .ok (.error e))
      | (w', .error p) => (w', .error p) := by
  rw [syncEntries, exec_bind]
  rcases exec env.handle (syncEntry build dir i entry) w with ⟨w', p | e | progress⟩
  · rfl
  · rfl
  · cases progress <;> rfl

/-- The handshake, the chain, and the loop over its entries. -/
theorem exec_syncStream :
    exec env.handle (syncStream build dir) w =
      let x := env.exchange w (Cbor.message "Peer.Handshake" 1 "" (handshakeRequest 1))
      match callResult x.2 with
      | .error e => (x.1, .ok (.error e))
      | .ok hs =>
        if hs.error ≠ "" then (x.1, .ok (.error s!"handshake: {hs.error}"))
        else
          let y := env.exchange x.1 (Cbor.message "Peer.Chain" 2 "" (chainRequest 0 5000))
          match callResult y.2 with
          | .error e => (y.1, .ok (.error e))
          | .ok chain =>
            if chain.error ≠ "" then (y.1, .ok (.error s!"chain: {chain.error}"))
            else
              let height := ((hs.payload.get "H").bind Value.asU64).elim 0 UInt64.toNat
              let z := exec env.handle
                (syncEntries build dir 0 (chain.payload.asArray.getD []) 0 0) y.1
              (z.1, z.2.map fun r => r.map fun (fetched, had) => (height, fetched, had)) := by
  unfold syncStream
  -- the handshake
  rw [exec_bind, exec_rpc2Call]
  generalize env.exchange w _ = x
  dsimp only
  rcases callResult x.2 with e | hs
  · rfl
  dsimp only
  rw [exec_refuseIf_bind]
  split
  · rfl
  -- the chain request
  rw [exec_bind, exec_rpc2Call]
  generalize env.exchange x.1 _ = y
  rcases callResult y.2 with e | chain
  · rfl
  dsimp only
  rw [exec_refuseIf_bind]
  split
  · rfl
  rw [exec_bind]
  rcases exec env.handle (syncEntries build dir 0 (chain.payload.asArray.getD []) 0 0) y.1 with
    ⟨z, p | e | ⟨fetched, had⟩⟩ <;> rfl

variable {env build dir w}

/-- What every entry preserves, the loop preserves. -/
theorem syncEntries_invariant {I : World σ → Prop} {i : ℕ} {entries : List Value}
    (hI : ∀ k entry w, entries[k]? = some entry → I w →
      I (exec env.handle (syncEntry build dir (i + k) entry) w).1)
    (fetched had : ℕ) (hw : I w) :
    I (exec env.handle (syncEntries build dir i entries fetched had) w).1 := by
  induction entries generalizing i fetched had w with
  | nil => exact hw
  | cons entry rest ih =>
    have h0 : I (exec env.handle (syncEntry build dir i entry) w).1 := hI 0 entry w rfl hw
    have hrest : ∀ k entry w, rest[k]? = some entry → I w →
        I (exec env.handle (syncEntry build dir (i + 1 + k) entry) w).1 := by
      intro k e w he
      rw [Nat.add_right_comm, Nat.add_assoc]
      exact hI (k + 1) e w he
    rw [exec_syncEntries_cons]
    generalize exec env.handle (syncEntry build dir i entry) w = x at h0 ⊢
    rcases x with ⟨w', p | e | progress⟩
    · exact h0
    · exact h0
    · cases progress with
      | capped => exact h0
      | _ => exact ih hrest _ _ h0

end

/-! ## Peers -/

/-- The answers of a peer to the requests of one pass. The requests of a pass all differ, by their
sequence numbers, so that these are all the ways a peer can answer. -/
abbrev Peer := Bytes → Except String Bytes

def peerNet (p : Peer) (frame : Bytes) : Peer × Except String Bytes := (p, p frame)

/-- What a call to the peer returns. -/
def Peer.call (p : Peer) (method : String) (seq : ℕ) (body : Bytes) : Except String Rpc2Message :=
  callResult (p (Cbor.message method seq "" body) >>= readFrame)

section

variable {env : Env Peer} {w : World Peer}

theorem exchange_peer (hnet : env.net = peerNet) (frame : Bytes) :
    env.exchange w frame = (w.next, w.peer frame >>= readFrame) := by
  simp only [Env.exchange, hnet, peerNet, World.next]

/-- The answers of the peer stay the same during a pass. -/
theorem exec_peer {α : Type} (hnet : env.net = peerNet) (m : Fallible Op α) :
    (exec env.handle m w).1.peer = w.peer := by
  refine exec_invariant (I := fun v : World Peer => v.peer = w.peer) (fun γ e v hv => ?_) m rfl
  rw [← hv]
  cases e with
  | exchange frame => simp only [Env.handle, exchange_peer hnet, World.next]
  | write name content =>
    simp only [Env.handle, Env.write]
    split
    · rfl
    · split <;> rfl
  | rename src dst =>
    simp only [Env.handle, Env.rename]
    split
    · rfl
    · split <;> rfl
  | removeFile name =>
    simp only [Env.handle, Env.removeFile]
    split <;> rfl
  | setWins l x => cases l <;> rfl
  | _ => rfl

/-- A pass whose handshake and chain request succeed is the loop over the entries of the chain. -/
theorem exec_syncStream_of_chain (hnet : env.net = peerNet) (build : Build) (dir : String)
    {hs chain : Rpc2Message} (hhs : w.peer.call "Peer.Handshake" 1 (handshakeRequest 1) = .ok hs)
    (hserr : hs.error = "") (hchain : w.peer.call "Peer.Chain" 2 (chainRequest 0 5000) = .ok chain)
    (hcerr : chain.error = "") :
    exec env.handle (syncStream build dir) w =
      let z := exec env.handle (syncEntries build dir 0 (chain.payload.asArray.getD []) 0 0)
        w.next.next
      (z.1, z.2.map fun r => r.map fun (fetched, had) =>
        (((hs.payload.get "H").bind Value.asU64).elim 0 UInt64.toNat, fetched, had)) := by
  have hchain' : callResult (w.next.peer (Cbor.message "Peer.Chain" 2 "" (chainRequest 0 5000)) >>=
      readFrame) = .ok chain := hchain
  have hhs' : callResult (w.peer (Cbor.message "Peer.Handshake" 1 "" (handshakeRequest 1)) >>=
      readFrame) = .ok hs := hhs
  rw [exec_syncStream]
  simp only [exchange_peer hnet, hhs', hserr, hchain', hcerr, ne_eq, not_true_eq_false, if_false]

end

end SporePeer
