import SporePeer.Fabric.Relay

/-!
# The server

One connection carries many requests. A frame that decodes as a message with a method is a request
of the sync subset or of the relay; any other frame is read as JSON, and is a relay verb or a
cid-fetch. The connection of a handler that unwinds is lost with it.

## Main definitions

* `handleRpc2`: the sync subset
* `handleVerb`, `handleRpc2Fabric`: the two encodings of the relay's verbs
* `handleFrame`, `handleClient`: the dispatch of a frame, and of a connection's frames
-/

namespace SporePeer

open Effects Text

/-- `write_frame` to the client. Its failure is ignored, the next read then fails. -/
def respond (frame : Bytes) : Fallible Op Unit := ask (.writeFrame frame)

/-! ## Sync subset -/

/-- The entries at most as high as `top` of a list that starts at the tip, until there are `n`. -/
def selectChain (top n : ℕ) : List (ℕ × U8Array 32) → List (ℕ × U8Array 32) →
    List (ℕ × U8Array 32)
  | [], selected => selected
  | e :: rest, selected =>
    if top ≠ 0 ∧ top < e.1 then selectChain top n rest selected
    else if (selected ++ [e]).length = n then selected ++ [e]
    else selectChain top n rest (selected ++ [e])

section

variable (build : Build) (cfg : ServeConfig) (dir ip : String) (msg : Rpc2Message)

/-- A text field of the payload, empty where it is missing. -/
def payloadText (key : String) : String := ((msg.payload.get key).bind Value.asStr).getD ""

/-- A success response to `msg`. -/
def okFrame (body : Bytes) : Bytes := Cbor.message "" msg.seq.toNat "" body

/-- A refusal of `msg`. -/
def errFrame (e : String) : Bytes := errorResponse msg.seq.toNat e

def handleHandshake : Fallible Op Unit := do
  let chain ← chainView
  respond (okFrame msg (handshakeResponse chain.length 1))

def handleChain : Fallible Op Unit := do
  let top := ((msg.payload.get "TOP").bind Value.asU64).elim 0 UInt64.toNat
  let n := min (((msg.payload.get "N").bind Value.asU64).elim 128 UInt64.toNat) 5000
  let chain ← chainView
  respond (okFrame msg (chainResponse (selectChain top n chain.reverse [])))

def handleGetObject : Fallible Op Unit := do
  let r ← attempt (serveBody build (payloadText msg "BLID"))
  match r with
  | .ok body => respond (okFrame msg (getobjectResponse body))
  | .error e => respond (errFrame msg e)

/-- The response to a stored body: the hash it was stored under. -/
def putResponse (cidHex : String) : Fallible Op Unit := do
  let raw ← orPanic (hexDecode (asBytes cidHex)).run
  let blid ← orPanic (match raw with
    | some b => Bytes.copyFromSlice 32 b
    | none => .ok (List.Vector.replicate 32 0))
  respond (okFrame msg (putobjectResponse blid))

def handlePutObject : Fallible Op Unit :=
  match Hex.decode (payloadText msg "BODY") with
  | none => respond (errFrame msg "400 body not valid hex")
  | some body => do
    let policy ← attempt (enforceWritePolicy cfg ip body.length msg.payload)
    match policy with
    | .error e => respond (errFrame msg e)
    | .ok () => do
      let digest := (build.sha256 body).toList
      let blid ← orPanic (hexDecode (asBytes (payloadText msg "BLID"))).run
      if (blid.any fun b => b.length = 32 ∧ b = digest) = false then
        respond (errFrame msg "400 body sha256 != BLID")
      else do
        let stored ← attempt (storeBody build dir body)
        match stored with
        | .ok cidHex => putResponse msg cidHex
        | .error e => respond (errFrame msg e)

/-- `handle_rpc2`: one request of the sync subset. -/
def handleRpc2 : Fallible Op Unit :=
  match msg.method with
  | "Peer.Handshake" => handleHandshake msg
  | "Peer.Chain" => handleChain msg
  | "Peer.GetObject" => handleGetObject build msg
  | "Peer.PutObject" => handlePutObject build cfg dir ip msg
  | _ => respond (errFrame msg "501 unknown method")

end

/-! ## Relay -/

section

variable (build : Build) (cfg : ServeConfig) (ip : String)

/-- `reply`: one outcome, one frame. -/
def reply (r : Except String Value) : Fallible Op Unit :=
  match r with
  | .ok body => respond (frameOk (asBytes (build.toJson body)))
  | .error e => respond (frameErr e)

/-- `handle_verb`: a relay verb in JSON. -/
def handleVerb (req : Value) : Fallible Op Unit :=
  match cfg.fabric with
  | none => respond (frameErr "501 fabric disabled")
  | some st =>
    match (req.get "verb").bind Value.asStr with
    | some "freg" => do
      let r ← attempt (runFreg build st req)
      reply build r
    | some "fput" => do
      let r ← attempt (runFput build st req ip)
      reply build r
    | some "fpop" => do
      let r ← attempt (runFpop build st req ip)
      reply build r
    | _ => respond (frameErr "400 bad fabric verb")

/-- The response to a relay verb in CBOR. -/
def replyRpc2 (msg : Rpc2Message) (r : Except String Value) : Fallible Op Unit :=
  match r with
  | .ok body => respond (okFrame msg (jsonToCbor body))
  | .error e => respond (errFrame msg e)

/-- `handle_rpc2_fabric`: a relay verb in CBOR. -/
def handleRpc2Fabric (msg : Rpc2Message) : Fallible Op Unit :=
  match cfg.fabric with
  | none => respond (errFrame msg "501 fabric disabled")
  | some st =>
    match msg.method with
    | "Peer.FabricReg" => do
      let r ← attempt (runFreg build st msg.payload)
      replyRpc2 msg r
    | "Peer.FabricPut" => do
      let r ← attempt (runFput build st msg.payload ip)
      replyRpc2 msg r
    | "Peer.FabricPop" => do
      let r ← attempt (runFpop build st msg.payload ip)
      replyRpc2 msg r
    | other => respond (errFrame msg s!"400 bad fabric rpc2 method {other}")

end

/-! ## Dispatch -/

section

variable (build : Build) (cfg : ServeConfig) (dir ip : String)

/-- A frame that is no message: a JSON request. -/
def handleJson (frame : Bytes) : Fallible Op Unit :=
  match build.fromSlice frame with
  | none => respond (frameErr "400 bad request")
  | some req =>
    if ((req.get "verb").bind Value.asStr).isSome then handleVerb build cfg ip req
    else do
      let r ← attempt (serveBody build (((req.get "cid").bind Value.asStr).getD ""))
      match r with
      | .ok data => respond (frameOk data)
      | .error e => respond (frameErr e)

/-- One round of `handle_client`. -/
def handleFrame (frame : Bytes) : Fallible Op Unit := do
  let decoded ← orPanic (decodeMessage frame).run
  match decoded with
  | some msg =>
    if msg.method = "" then handleJson build cfg ip frame
    else if startsWith msg.method "Peer.Fabric" then handleRpc2Fabric build cfg ip msg
    else handleRpc2 build cfg dir ip msg
  | none => handleJson build cfg ip frame

/-- `handle_client` on the frames that `read_frame` accepts, one after another. -/
def handleClient : List Bytes → Fallible Op Unit
  | [] => return ()
  | frame :: rest => do
    handleFrame build cfg dir ip frame
    handleClient rest

end

/-! ## Calls -/

/-- The calls of the sync subset: those of the store, and the response. -/
def ServeOp (build : Build) : (β : Type) → Op β → Prop
  | _, .writeFrame _ => True
  | _, e => StoreOp build _ e

section

variable {build : Build}

theorem serveOp_of_storeOp {β : Type} {e : Op β} (h : StoreOp build β e) : ServeOp build β e := by
  cases e with
  | writeFrame frame => trivial
  | _ => exact h

theorem only_respond (frame : Bytes) : Only (ServeOp build) (respond frame) := only_ask trivial

theorem only_handlePutObject (cfg : ServeConfig) (dir ip : String) (msg : Rpc2Message) :
    Only (ServeOp build) (handlePutObject build cfg dir ip msg) := by
  unfold handlePutObject
  split
  · exact only_respond _
  refine only_bind (only_attempt ((tidy_enforceWritePolicy build _ _ _ _).only.mono
    fun _ _ => serveOp_of_storeOp)) fun policy => ?_
  split
  · exact only_respond _
  refine only_bind (only_orPanic _) fun blid => ?_
  split
  · exact only_respond _
  refine only_bind (only_attempt ((tidy_storeBody _ _).only.mono
    fun _ _ => serveOp_of_storeOp)) fun stored => ?_
  split
  · exact only_bind (only_orPanic _) fun _ => only_bind (only_orPanic _) fun _ => only_respond _
  · exact only_respond _

theorem only_handleRpc2 (cfg : ServeConfig) (dir ip : String) (msg : Rpc2Message) :
    Only (ServeOp build) (handleRpc2 build cfg dir ip msg) := by
  have hchain : Only (ServeOp build) chainView := only_chainView trivial fun _ => trivial
  unfold handleRpc2
  split
  · exact only_bind hchain fun _ => only_respond _
  · exact only_bind hchain fun _ => only_respond _
  · refine only_bind (only_attempt (only_serveBody (fun _ => trivial) _ _)) fun r => ?_
    cases r <;> exact only_respond _
  · exact only_handlePutObject _ _ _ _
  · exact only_respond _

end

end SporePeer
