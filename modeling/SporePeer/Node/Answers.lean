import SporePeer.Fabric.Faces
import SporePeer.Node.Serving
import SporePeer.Node.Unwinding

/-!
# One response per request

Every handler that does not unwind sends exactly one frame. To a message with a method it is a
message without one and with the same sequence number; to any other frame it starts with a status
byte.

## Main definitions

* `AnswersFrame`: what a response owes its request
* `Answered`: a handler that sends such a response unless it unwinds
* `Untripped`: a connection none of whose frames trips where it is met

## Main results

* `answered_handleFrame`: the handler of a frame
* `answered_handleClient_iff`: the handler of a connection
* `decoded_eq_none_of_fromSlice`: no JSON request is a message
-/

namespace SporePeer

open Effects Text

/-! ## Responses -/

/-- The response reads back as a message without a method, under the sequence number of `msg`. A
vector holds less than 2^63 bytes. -/
def ReadsBack (msg : Rpc2Message) (resp : Bytes) : Prop :=
  resp.length < 2 ^ 63 → ∃ r, decoded resp = some r ∧ r.method = "" ∧ r.seq = msg.seq

/-- The response starts with a status byte. -/
def HasStatus (resp : Bytes) : Prop := ∃ body, resp = 0x00 :: body ∨ resp = 0x01 :: body

/-- What a response owes its request. -/
def AnswersFrame (frame resp : Bytes) : Prop :=
  match decoded frame with
  | some msg => if msg.method = "" then HasStatus resp else ReadsBack msg resp
  | none => HasStatus resp

section

variable {msg : Rpc2Message}

theorem length_le_message (method : String) (seq : ℕ) (err : String) (body : Bytes) :
    err.utf8ByteSize + body.length ≤ (Cbor.message method seq err body).length := by
  simp only [Cbor.message, Cbor.header, Cbor.kv, Cbor.text, List.length_append, length_asBytes]
  omega

theorem readsBack_okFrame {body : Bytes}
    (h : body.length < 2 ^ 63 → ∃ v, EncodesPayload body v) : ReadsBack msg (okFrame msg body) := by
  intro hlen
  have hle := length_le_message "" msg.seq.toNat "" body
  obtain ⟨v, hv⟩ := h (by rw [okFrame] at hlen; omega)
  exact ⟨_, decoded_message (by decide) hv, rfl, rfl⟩

theorem readsBack_errFrame (e : String) : ReadsBack msg (errFrame msg e) := by
  intro hlen
  have hle := length_le_message "" msg.seq.toNat e []
  have hempty : ("" : String).utf8ByteSize = 0 := rfl
  rw [errFrame, errorResponse] at hlen
  exact ⟨_, decoded_message (by omega) (.inl ⟨rfl, rfl⟩), rfl, rfl⟩

theorem hasStatus_frameOk (body : Bytes) : HasStatus (frameOk body) := ⟨body, .inl rfl⟩

theorem hasStatus_frameErr (e : String) : HasStatus (frameErr e) := ⟨_, .inr rfl⟩

end

/-! ## Payloads -/

/-- The answer to a verb has a payload that reads back. -/
theorem encodesPayload_verb {σ : Type} {env : Env σ} {build : Build} {cfg : FabricConfig}
    {w : World σ} (verb : Verb) {body : Value}
    (h : (exec env.handle (verb.run build cfg) w).2 = .ok (.ok body)) :
    ∃ v, EncodesPayload (jsonToCbor body) v := by
  obtain ⟨hplain, hheight, hlen, -⟩ := plain_verb h
  exact ⟨body.misread, .inr (encodes_jsonToCbor hplain hheight (by omega))⟩

/-! ## Handlers -/

section

variable {σ : Type} {env : Env σ} {build : Build} {cfg : ServeConfig} {dir ip : String}
  {w : World σ} {Q : Bytes → Prop}

/-- Unless it unwinds, the handler sends exactly one frame, for which `Q` holds. -/
def Answered (env : Env σ) (m : Fallible Op Unit) (w : World σ) (Q : Bytes → Prop) : Prop :=
  ¬ Unwinds env.handle m w → ∃ resp, Responds env m w resp ∧ Q resp

theorem answered_respond {resp : Bytes} (hQ : Q resp) : Answered env (respond resp) w Q :=
  fun _ => ⟨resp, responds_respond resp, hQ⟩

/-- After a part that sends nothing and returns, what follows decides. -/
theorem answered_bind {α : Type} {m : Fallible Op α} {f : α → Fallible Op Unit}
    (hm : Only SendsNothing m)
    (hret : ¬ Unwinds env.handle m w → ∃ a, (exec env.handle m w).2 = .ok (.ok a))
    (hf : ∀ w' a, exec env.handle m w = (w', .ok (.ok a)) → Answered env (f a) w' Q) :
    Answered env (m >>= f) w Q := by
  intro hu
  rw [unwinds_bind, not_or] at hu
  obtain ⟨a, ha⟩ := hret hu.1
  have hrun : exec env.handle m w = ((exec env.handle m w).1, .ok (.ok a)) := Prod.ext rfl ha
  obtain ⟨resp, hresp, hQ⟩ := hf _ a hrun fun hfu => hu.2 ⟨_, a, hrun, hfu⟩
  exact ⟨resp, .bind hm ha hresp, hQ⟩

theorem answered_attempt {α : Type} {m : Fallible Op α} {f : Except String α → Fallible Op Unit}
    (hm : Only SendsNothing m)
    (hf : ∀ w' r, exec env.handle m w = (w', .ok r) → Answered env (f r) w' Q) :
    Answered env (attempt m >>= f) w Q := by
  refine answered_bind (only_attempt hm) (fun hu => ?_) fun w' r hr => ?_
  · rw [unwinds_attempt] at hu
    rw [exec_attempt]
    rcases hx : exec env.handle m w with ⟨w', p | r⟩
    · exact absurd ⟨p, by rw [hx]⟩ hu
    · exact ⟨r, rfl⟩
  · rw [exec_attempt] at hr
    rcases hx : exec env.handle m w with ⟨s, p | r'⟩
    · rw [hx] at hr
      cases hr
    · rw [hx] at hr
      cases hr
      exact hf _ _ hx

theorem answered_orPanic {α : Type} {r : Result α} {f : α → Fallible Op Unit}
    (hf : ∀ a, r = .ok a → Answered env (f a) w Q) : Answered env (orPanic r >>= f) w Q := by
  rcases r with p | a
  · exact fun hu => absurd ⟨p, rfl⟩ hu
  · exact hf a rfl

/-! ## The sync subset -/

/-- Listing the store never fails. -/
theorem exec_chainView_ok (hu : ¬ Unwinds env.handle chainView w) :
    ∃ chain, (exec env.handle chainView w).2 = .ok (.ok chain) := by
  have hentries (names : List String) (entries : List (ℕ × U8Array 32)) (v : World σ)
      (hu : ¬ Unwinds env.handle (chainEntries names entries) v) :
      ∃ l, (exec env.handle (chainEntries names entries) v).2 = .ok (.ok l) := by
    induction names generalizing entries v with
    | nil => exact ⟨entries, rfl⟩
    | cons name rest ih =>
      by_cases hname : ∃ stem, name = bodyFile stem ∧ stem.utf8ByteSize = 64
      · obtain ⟨stem, rfl, hsize⟩ := hname
        rw [Unwinds, exec_chainEntries_body hsize] at hu
        rw [exec_chainEntries_body hsize]
        rcases hr : readBlid stem with p | _ | cid <;> rw [hr] at hu
        · exact absurd ⟨p, rfl⟩ hu
        · exact ih _ _ hu
        · exact ih _ _ hu
      · rw [chainEntries_of_not_body hname] at hu ⊢
        exact ih _ _ hu
  rw [chainView, unwinds_ask_bind, unwinds_bind_total fun _ => total_pure _] at hu
  obtain ⟨l, hl⟩ := hentries _ _ _ hu
  rw [chainView, exec_ask_bind, exec_bind_ok (Prod.ext rfl hl)]
  exact ⟨_, rfl⟩

theorem answered_handleHandshake (msg : Rpc2Message) :
    Answered env (handleHandshake msg) w (ReadsBack msg) :=
  answered_bind only_chainView_sends exec_chainView_ok fun _ _ _ =>
    answered_respond (readsBack_okFrame fun _ => ⟨_, encodesPayload_handshakeResponse _ _⟩)

theorem answered_handleChain (msg : Rpc2Message) :
    Answered env (handleChain msg) w (ReadsBack msg) :=
  answered_bind only_chainView_sends exec_chainView_ok fun _ _ _ =>
    answered_respond (readsBack_okFrame fun h => ⟨_, encodesPayload_chainResponse (by omega)⟩)

theorem answered_handleGetObject (msg : Rpc2Message) :
    Answered env (handleGetObject build msg) w (ReadsBack msg) := by
  refine answered_attempt (only_serveBody_sends _ _) fun w' r _ => ?_
  cases r with
  | error e => exact answered_respond (readsBack_errFrame e)
  | ok body =>
    refine answered_respond (readsBack_okFrame fun h => ⟨_, encodesPayload_getobjectResponse ?_⟩)
    simp only [getobjectResponse, Cbor.bytes, List.length_append] at h
    omega

theorem answered_handlePutObject (msg : Rpc2Message) :
    Answered env (handlePutObject build cfg dir ip msg) w (ReadsBack msg) := by
  unfold handlePutObject
  split
  · exact answered_respond (readsBack_errFrame _)
  rename_i body _
  refine answered_attempt ((tidy_enforceWritePolicy build _ _ _ _).only.mono
    fun _ _ => sendsNothing_of_storeOp) fun w₁ policy _ => ?_
  split
  · exact answered_respond (readsBack_errFrame _)
  refine answered_orPanic fun blid _ => ?_
  split
  · exact answered_respond (readsBack_errFrame _)
  refine answered_attempt ((tidy_storeBody dir body).only.mono fun _ _ => sendsNothing_of_storeOp)
    fun w₂ stored _ => ?_
  split
  · exact answered_orPanic fun raw _ => answered_orPanic fun blid _ =>
      answered_respond (readsBack_okFrame fun _ => ⟨_, encodesPayload_putobjectResponse blid⟩)
  · exact answered_respond (readsBack_errFrame _)

theorem answered_handleRpc2 (msg : Rpc2Message) :
    Answered env (handleRpc2 build cfg dir ip msg) w (ReadsBack msg) := by
  unfold handleRpc2
  split
  · exact answered_handleHandshake msg
  · exact answered_handleChain msg
  · exact answered_handleGetObject msg
  · exact answered_handlePutObject msg
  · exact answered_respond (readsBack_errFrame _)

/-! ## The relay -/

/-- The calls of the relay send nothing. -/
theorem sendsNothing_of_queueOp {β : Type} {e : Op β} (h : QueueOp β e) : SendsNothing β e := by
  cases e with
  | writeFrame frame => exact h
  | _ => trivial

theorem sendsNothing_of_regOp {β : Type} {e : Op β} (h : RegOp β e) : SendsNothing β e := by
  cases e with
  | writeFrame frame => exact h
  | _ => trivial

theorem answered_handleRpc2Fabric (msg : Rpc2Message) :
    Answered env (handleRpc2Fabric build cfg ip msg) w (ReadsBack msg) := by
  unfold handleRpc2Fabric
  split
  · exact answered_respond (readsBack_errFrame _)
  rename_i st _
  split
  · refine answered_attempt ((only_runFreg _ _ _).mono fun _ _ => sendsNothing_of_regOp)
      fun w' r hr => ?_
    rcases r with e | v
    · exact answered_respond (readsBack_errFrame e)
    · apply answered_respond
      exact readsBack_okFrame fun _ => encodesPayload_verb (.freg msg.payload) (congrArg Prod.snd hr)
  · refine answered_attempt ((only_runFput _ _ _ _).mono fun _ _ => sendsNothing_of_queueOp)
      fun w' r hr => ?_
    rcases r with e | v
    · exact answered_respond (readsBack_errFrame e)
    · apply answered_respond
      exact readsBack_okFrame fun _ =>
        encodesPayload_verb (.fput msg.payload ip) (congrArg Prod.snd hr)
  · refine answered_attempt ((tidy_runFpop _ _ _ _).only.mono fun _ _ => sendsNothing_of_queueOp)
      fun w' r hr => ?_
    rcases r with e | v
    · exact answered_respond (readsBack_errFrame e)
    · apply answered_respond
      exact readsBack_okFrame fun _ =>
        encodesPayload_verb (.fpop msg.payload ip) (congrArg Prod.snd hr)
  · exact answered_respond (readsBack_errFrame _)

theorem answered_reply {r : Except String Value} : Answered env (reply build r) w HasStatus := by
  cases r with
  | error e => exact answered_respond (hasStatus_frameErr e)
  | ok v => exact answered_respond (hasStatus_frameOk _)

theorem answered_handleVerb (req : Value) :
    Answered env (handleVerb build cfg ip req) w HasStatus := by
  unfold handleVerb
  split
  · exact answered_respond (hasStatus_frameErr _)
  split
  · exact answered_attempt ((only_runFreg _ _ _).mono fun _ _ => sendsNothing_of_regOp)
      fun _ _ _ => answered_reply
  · exact answered_attempt ((only_runFput _ _ _ _).mono fun _ _ => sendsNothing_of_queueOp)
      fun _ _ _ => answered_reply
  · exact answered_attempt ((tidy_runFpop _ _ _ _).only.mono fun _ _ => sendsNothing_of_queueOp)
      fun _ _ _ => answered_reply
  · exact answered_respond (hasStatus_frameErr _)

theorem answered_handleJson (frame : Bytes) :
    Answered env (handleJson build cfg ip frame) w HasStatus := by
  unfold handleJson
  split
  · exact answered_respond (hasStatus_frameErr _)
  split
  · exact answered_handleVerb _
  · refine answered_attempt (only_serveBody_sends _ _) fun w' r _ => ?_
    cases r with
    | error e => exact answered_respond (hasStatus_frameErr e)
    | ok data => exact answered_respond (hasStatus_frameOk data)

/-! ## Frames -/

/-- A frame is answered unless its handler unwinds. -/
theorem answered_handleFrame (frame : Bytes) :
    Answered env (handleFrame build cfg dir ip frame) w (AnswersFrame frame) := by
  unfold handleFrame AnswersFrame
  rw [run_decodeMessage]
  refine answered_orPanic fun msg hmsg => ?_
  obtain rfl : decoded frame = msg := Except.ok.inj hmsg
  rcases decoded frame with _ | msg
  · exact answered_handleJson frame
  dsimp only
  split
  · exact answered_handleJson frame
  split
  · exact answered_handleRpc2Fabric msg
  · exact answered_handleRpc2 msg

/-! ## Connections -/

/-- A request of the sync subset leaves the registry alone. -/
theorem reg_of_serveOp (build : Build) {α : Type} {m : Fallible Op α} (hm : Only (ServeOp build) m) :
    (exec env.handle m w).1.reg = w.reg := by
  refine hm.invariant (I := fun v : World σ => v.reg = w.reg) (fun γ e v he hv => ?_) rfl
  cases e with
  | write name content =>
    simp only [Env.handle, Env.write]
    split
    · exact hv
    · split <;> exact hv
  | rename src dst =>
    simp only [Env.handle, Env.rename]
    split
    · exact hv
    · split <;> exact hv
  | removeFile name =>
    simp only [Env.handle, Env.removeFile]
    split <;> exact hv
  | setWins l x => cases l <;> exact hv
  | setReg reg => exact he.elim
  | _ => exact hv

theorem registered_runFput (h : Registered w.reg) (st : FabricConfig) (req : Value) :
    Registered (exec env.handle (runFput build st req ip) w).1.reg := by
  rw [(reg_of_queueOp (only_runFput _ _ _ _)).1]
  exact h

theorem registered_runFpop (h : Registered w.reg) (st : FabricConfig) (req : Value) :
    Registered (exec env.handle (runFpop build st req ip) w).1.reg := by
  rw [(reg_of_queueOp (tidy_runFpop _ _ _ _).only).1]
  exact h

/-- Whatever a handler does before its response, it keeps the registry well formed if that does. -/
theorem registered_attempt {m : Fallible Op Value} {f : Except String Value → Fallible Op Unit}
    (hm : Registered (exec env.handle m w).1.reg)
    (hf : ∀ r (w' : World σ), (exec env.handle (f r) w').1.reg = w'.reg) :
    Registered (exec env.handle (attempt m >>= f) w).1.reg := by
  refine exec_bind_invariant (I := fun v : World σ => Registered v.reg) ?_ fun r w' hw' => ?_
  · rw [exec_attempt]
    exact hm
  · rw [hf]
    exact hw'

theorem reg_reply (r : Except String Value) (w' : World σ) :
    (exec env.handle (reply build r) w').1.reg = w'.reg := by
  cases r <;> rfl

theorem reg_replyRpc2 (msg : Rpc2Message) (r : Except String Value) (w' : World σ) :
    (exec env.handle (replyRpc2 msg r) w').1.reg = w'.reg := by
  cases r <;> rfl

theorem registered_handleRpc2Fabric (h : Registered w.reg) (msg : Rpc2Message) :
    Registered (exec env.handle (handleRpc2Fabric build cfg ip msg) w).1.reg := by
  unfold handleRpc2Fabric
  split
  · exact h
  split
  · exact registered_attempt (registered_runFreg h) (reg_replyRpc2 msg)
  · exact registered_attempt (registered_runFput h _ _) (reg_replyRpc2 msg)
  · exact registered_attempt (registered_runFpop h _ _) (reg_replyRpc2 msg)
  · exact h

theorem registered_handleJson (h : Registered w.reg) (frame : Bytes) :
    Registered (exec env.handle (handleJson build cfg ip frame) w).1.reg := by
  unfold handleJson
  split
  · exact h
  split
  · unfold handleVerb
    split
    · exact h
    split
    · exact registered_attempt (registered_runFreg h) reg_reply
    · exact registered_attempt (registered_runFput h _ _) reg_reply
    · exact registered_attempt (registered_runFpop h _ _) reg_reply
    · exact h
  · rw [reg_of_serveOp build]
    · exact h
    refine only_bind (only_attempt (only_serveBody (fun _ => trivial) _ _)) fun r => ?_
    cases r <;> exact only_respond _

theorem registered_handleFrame (h : Registered w.reg) (frame : Bytes) :
    Registered (exec env.handle (handleFrame build cfg dir ip frame) w).1.reg := by
  rw [handleFrame, run_decodeMessage, exec_orPanic_ok_bind]
  split
  · split
    · exact registered_handleJson h frame
    split
    · exact registered_handleRpc2Fabric h _
    · rw [reg_of_serveOp build (only_handleRpc2 _ _ _ _)]
      exact h
  · exact registered_handleJson h frame

/-- No frame trips in the state in which it is met. -/
def Untripped (env : Env σ) (build : Build) (cfg : ServeConfig) (dir ip : String) :
    World σ → List Bytes → Prop
  | _, [] => True
  | w, frame :: rest => ¬ Trips env build cfg ip w frame ∧
      Untripped env build cfg dir ip (exec env.handle (handleFrame build cfg dir ip frame) w).1 rest

/-- A connection whose frames do not trip is answered frame by frame. -/
theorem Untripped.answered (hreg : Registered w.reg) {frames : List Bytes}
    (h : Untripped env build cfg dir ip w frames) :
    ∃ resps, (exec env.handle (handleClient build cfg dir ip frames) w).2 = .ok (.ok ()) ∧
      (exec env.handle (handleClient build cfg dir ip frames) w).1.sent = w.sent ++ resps ∧
      List.Forall₂ AnswersFrame frames resps := by
  induction frames generalizing w with
  | nil => exact ⟨[], rfl, (List.append_nil _).symm, .nil⟩
  | cons frame rest ih =>
    obtain ⟨htrip, hrest⟩ := h
    obtain ⟨resp, ⟨hends, hsent⟩, hQ⟩ := answered_handleFrame frame fun hu =>
      htrip ((unwinds_handleFrame_iff hreg frame).mp hu)
    obtain ⟨resps, hends', hsent', hall⟩ := ih (registered_handleFrame hreg frame) hrest
    have hrun : exec env.handle (handleClient build cfg dir ip (frame :: rest)) w =
        exec env.handle (handleClient build cfg dir ip rest)
          (exec env.handle (handleFrame build cfg dir ip frame) w).1 := by
      rw [handleClient]
      exact exec_bind_ok (Prod.ext rfl hends)
    refine ⟨resp :: resps, ?_, ?_, .cons hQ hall⟩
    · rw [hrun]
      exact hends'
    · rw [hrun, hsent', hsent, List.append_assoc]
      rfl

/-- A connection that ends has met no frame that trips. -/
theorem untripped_of_ends (hreg : Registered w.reg) {frames : List Bytes}
    (h : ¬ Unwinds env.handle (handleClient build cfg dir ip frames) w) :
    Untripped env build cfg dir ip w frames := by
  induction frames generalizing w with
  | nil => trivial
  | cons frame rest ih =>
    rw [handleClient, unwinds_bind, not_or] at h
    refine ⟨fun htrip => h.1 ((unwinds_handleFrame_iff hreg frame).mpr htrip), ?_⟩
    obtain ⟨resp, ⟨hends, -⟩, -⟩ := answered_handleFrame frame h.1
    exact ih (registered_handleFrame hreg frame) fun hu =>
      h.2 ⟨_, (), Prod.ext rfl hends, hu⟩

/-- **No JSON request is a message**: a document of JSON starts with an ASCII byte. -/
theorem decoded_eq_none_of_fromSlice
    (hascii : ∀ b v, build.fromSlice b = some v → ∃ c cs, b = c :: cs ∧ c < 128)
    {frame : Bytes} {v : Value} (h : build.fromSlice frame = some v) : decoded frame = none := by
  obtain ⟨c, cs, rfl, hc⟩ := hascii frame v h
  rcases hd : decoded (c :: cs) with _ | msg
  · rfl
  · obtain ⟨ib, rest, heq, hmajor⟩ := map_of_decoded hd
    obtain ⟨rfl, rfl⟩ := List.cons.inj heq
    have hlt : c.toNat < 128 := hc
    omega

/-- **One response per request**: the frames of a connection are answered one by one, each as it
should be, exactly when none of them trips in the state in which it is met; and no frame is both
JSON and a message. -/
theorem answered_handleClient_iff
    (hascii : ∀ b v, build.fromSlice b = some v → ∃ c cs, b = c :: cs ∧ c < 128)
    (hreg : Registered w.reg) (cfg : ServeConfig) (dir ip : String) (frames : List Bytes) :
    ((∃ resps, (exec env.handle (handleClient build cfg dir ip frames) w).2 = .ok (.ok ()) ∧
        (exec env.handle (handleClient build cfg dir ip frames) w).1.sent = w.sent ++ resps ∧
        List.Forall₂ AnswersFrame frames resps) ↔ Untripped env build cfg dir ip w frames) ∧
      ∀ frame v, build.fromSlice frame = some v → decoded frame = none := by
  refine ⟨⟨?_, Untripped.answered hreg⟩, fun frame v => decoded_eq_none_of_fromSlice hascii⟩
  rintro ⟨resps, hends, -⟩
  refine untripped_of_ends hreg ?_
  rintro ⟨p, hp⟩
  rw [hends] at hp
  cases hp

end

/-- A handshake, and a frame that is neither a message nor JSON. -/
theorem answered_handleClient_handshake :
    let env : Env Unit := .still (fun p _ => (p, .error "closed")) 0
    let build := Build.const (.replicate 32 0)
    let frames := [Cbor.message "Peer.Handshake" 1 "" (handshakeRequest 1), [0]]
    let w := World.fresh ()
    ((∃ resps, (exec env.handle (handleClient build {} "" "" frames) w).2 = .ok (.ok ()) ∧
        (exec env.handle (handleClient build {} "" "" frames) w).1.sent = w.sent ++ resps ∧
        List.Forall₂ AnswersFrame frames resps) ↔ Untripped env build {} "" "" w frames) ∧
      ∀ frame v, build.fromSlice frame = some v → decoded frame = none :=
  answered_handleClient_iff (fun _ _ h => (Option.some_ne_none _ h.symm).elim) registered_empty
    {} "" "" _

/-- A request for a body under a name that cannot be sliced is accepted from the socket and never
answered. -/
theorem accented_blid_unanswered :
    let env : Env Unit := .still (fun p _ => (p, .error "closed")) 0
    let frame := Cbor.message "Peer.GetObject" 7 "" (Cbor.map 1 ++ Cbor.kv "BLID" (Cbor.text "aéa"))
    let x := exec env.handle (handleClient (.const (.replicate 32 0)) {} "" "" [frame]) (.fresh ())
    (readFrame frame).toOption = some frame ∧ (decoded frame).map (·.method) = some "Peer.GetObject" ∧
      x.2.toOption.isNone ∧ x.1.sent = [] := by
  decide +kernel

end SporePeer
