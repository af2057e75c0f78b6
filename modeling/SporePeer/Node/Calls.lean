import SporePeer.Fabric.Opening
import SporePeer.Library.Among
import SporePeer.Node.BodySizes
import SporePeer.Node.Peers

/-!
# The calls of a node

Of the calls of a server, only those of a push concern other files than envelopes, and a change of
the peers list writes one file. So what can be said of programs that leave the files alone, of those
of the queues, and of pushes, can be said of the whole server.

## Main definitions

* `Permits`: a property of programs that those have which leave the files alone, those of the
  queues, the write of the peers list, and what is composed of them
* `Bodiless`: the calls that concern no body are allowed
* `Pushed`: a frame that pushes a body, with what the server asks for

## Main results

* `permits_only`, `permits_eachCall`, `permits_among`: programs that run alone, or among others
* `Permits.handleFrame`, `Permits.handleClient`: the programs for frames of any bytes
* `Permits.fabricOpen`, `Permits.peersCall`: a start, and a change of the peers list
* `among_handlePutObject`, `among_handleClient`: the calls of a push among others
-/

namespace SporePeer

open Effects Text

/-- Programs that leave the files alone have the property `K`, and so have those of the queues, the
write of the peers list, and what is composed of programs that have it. -/
structure Permits (K : (α : Type) → Fallible Op α → Prop) : Prop where
  keeps : ∀ {α} {m : Fallible Op α}, Only KeepsFiles m → K α m
  queue : ∀ {α} {m : Fallible Op α}, Only QueueOp m → K α m
  list : ∀ content, K _ (ask (.write peersFile content))
  bind : ∀ {α β} {m : Fallible Op α} {f : α → Fallible Op β},
    K α m → (∀ a, K β (f a)) → K β (m >>= f)
  attempt : ∀ {α} {m : Fallible Op α}, K α m → K _ (attempt m)

/-- The calls of a node that concern no body are allowed. -/
structure Bodiless (ok : (β : Type) → Op β → Prop) : Prop where
  keeps : ∀ β (e : Op β), KeepsFiles β e → ok β e
  queue : ∀ β (e : Op β), QueueOp β e → ok β e
  list : ∀ content, ok _ (.write peersFile content)
  write : ∀ c content, ok _ (.write (incomingFile c) content)
  remove : ∀ c, ok _ (.removeFile (incomingFile c))

theorem Bodiless.mono {ok ok' : (β : Type) → Op β → Prop} (hok : Bodiless ok)
    (h : ∀ β (e : Op β), ok β e → ok' β e) : Bodiless ok' where
  keeps β e he := h β e (hok.keeps β e he)
  queue β e he := h β e (hok.queue β e he)
  list content := h _ _ (hok.list content)
  write c content := h _ _ (hok.write c content)
  remove c := h _ _ (hok.remove c)

section

variable {σ : Type} {env : Env σ} {I : World σ → Prop} {ok : (β : Type) → Op β → Prop}

/-- Programs that make such calls. -/
theorem permits_only (hok : Bodiless ok) : Permits fun _ m => Only ok m where
  keeps hm := hm.mono hok.keeps
  queue hm := hm.mono hok.queue
  list content := only_ask (hok.list content)
  bind hm hf := only_bind hm hf
  attempt hm := only_attempt hm

/-- Programs that run alone, and whose calls have the property `P`. -/
theorem permits_eachCall {P : World σ → (Σ β, Op β) → Prop}
    (hP : Bodiless fun β e => ∀ w, P w ⟨β, e⟩) :
    Permits fun _ m => ∀ w, EachCall env.handle P m w where
  keeps hm _ := hm.eachCall fun β e v he => hP.keeps β e he v
  queue hm _ := hm.eachCall fun β e v he => hP.queue β e he v
  list content w := eachCall_ask (hP.list content w)
  bind hm hf w := eachCall_bind (hm w) fun v a _ => hf a v
  attempt hm w := eachCall_attempt (hm w)

/-- Programs that run among others, and make such calls. -/
theorem permits_among (hok : Bodiless ok) :
    Permits fun _ m => Among env.handle I ok (fun _ => True) m where
  keeps hm := (hm.mono hok.keeps).among
  queue hm := (hm.mono hok.queue).among
  list content := among_ask (hok.list content) fun _ _ => trivial
  bind hm hf := among_bind hm fun a _ => hf a
  attempt hm := (among_attempt hm).mono fun _ _ => trivial

end

theorem keepsFiles_of_regOp {β : Type} {e : Op β} (he : RegOp β e) : KeepsFiles β e := by
  cases e with
  | write name content => exact he.elim
  | rename src dst => exact he.elim
  | removeFile name => exact he.elim
  | _ => trivial

theorem only_reply_keepsFiles (build : Build) (r : Except String Value) :
    Only KeepsFiles (reply build r) := by
  cases r <;> exact only_respond_keepsFiles _

theorem only_replyRpc2_keepsFiles (msg : Rpc2Message) (r : Except String Value) :
    Only KeepsFiles (replyRpc2 msg r) := by
  cases r <;> exact only_respond_keepsFiles _

section

variable {K : (α : Type) → Fallible Op α → Prop}

namespace Permits

variable (hP : Permits K)

include hP

theorem of_pure {α : Type} (a : α) : K α (pure a) := hP.keeps (only_pure a)

theorem of_ask {α : Type} {e : Op α} (he : KeepsFiles α e) : K α (ask e) := hP.keeps (only_ask he)

theorem of_orFail {α : Type} (r : Except String α) : K α (orFail r) := hP.keeps (only_orFail r)

/-- A pure computation that may unwind, and what is done with its value. -/
theorem orPanic_bind {α β : Type} {r : Result α} {f : α → Fallible Op β}
    (hf : ∀ a, r = .ok a → K β (f a)) : K β (orPanic r >>= f) := by
  cases r with
  | error p =>
    have hunwinds : Only KeepsFiles (orPanic (.error p) >>= f) := trivial
    exact hP.keeps hunwinds
  | ok a => exact hf a rfl

/-! ## Verbs -/

/-- A relay verb, and the response to it. -/
theorem answered {m : Fallible Op Value} {f : Except String Value → Fallible Op Unit}
    (hm : K _ m) (hf : ∀ r, Only KeepsFiles (f r)) : K _ (Effects.attempt m >>= f) :=
  hP.bind (hP.attempt hm) fun r => hP.keeps (hf r)

theorem runFreg (build : Build) (st : FabricConfig) (req : Value) :
    K _ (SporePeer.runFreg build st req) :=
  hP.keeps ((only_runFreg build st req).mono fun _ _ => keepsFiles_of_regOp)

theorem runFput (build : Build) (st : FabricConfig) (req : Value) (ip : String) :
    K _ (SporePeer.runFput build st req ip) := hP.queue (only_runFput build st req ip)

theorem runFpop (build : Build) (st : FabricConfig) (req : Value) (ip : String) :
    K _ (SporePeer.runFpop build st req ip) := hP.queue (tidy_runFpop build st req ip).only

theorem handleVerb (build : Build) (cfg : ServeConfig) (ip : String) (req : Value) :
    K _ (SporePeer.handleVerb build cfg ip req) := by
  unfold SporePeer.handleVerb
  split
  · exact hP.keeps (only_respond_keepsFiles _)
  split
  · exact hP.answered (hP.runFreg _ _ _) (only_reply_keepsFiles build)
  · exact hP.answered (hP.runFput _ _ _ _) (only_reply_keepsFiles build)
  · exact hP.answered (hP.runFpop _ _ _ _) (only_reply_keepsFiles build)
  · exact hP.keeps (only_respond_keepsFiles _)

theorem handleRpc2Fabric (build : Build) (cfg : ServeConfig) (ip : String) (msg : Rpc2Message) :
    K _ (SporePeer.handleRpc2Fabric build cfg ip msg) := by
  unfold SporePeer.handleRpc2Fabric
  split
  · exact hP.keeps (only_respond_keepsFiles _)
  split
  · exact hP.answered (hP.runFreg _ _ _) (only_replyRpc2_keepsFiles msg)
  · exact hP.answered (hP.runFput _ _ _ _) (only_replyRpc2_keepsFiles msg)
  · exact hP.answered (hP.runFpop _ _ _ _) (only_replyRpc2_keepsFiles msg)
  · exact hP.keeps (only_respond_keepsFiles _)

/-! ## Frames -/

theorem handleJson (build : Build) (cfg : ServeConfig) (ip : String) (frame : Bytes) :
    K _ (SporePeer.handleJson build cfg ip frame) := by
  unfold SporePeer.handleJson
  split
  · exact hP.keeps (only_respond_keepsFiles _)
  split
  · exact hP.handleVerb build cfg ip _
  · refine hP.keeps (only_bind (only_attempt (only_serveBody (fun _ => trivial) _ _)) fun r => ?_)
    cases r <;> exact only_respond_keepsFiles _

theorem handleRpc2 {build : Build} {cfg : ServeConfig} {dir ip : String} {msg : Rpc2Message}
    (hput : msg.method = "Peer.PutObject" → K _ (handlePutObject build cfg dir ip msg)) :
    K _ (SporePeer.handleRpc2 build cfg dir ip msg) := by
  have hchain : Only KeepsFiles chainView := only_chainView trivial fun _ => trivial
  unfold SporePeer.handleRpc2
  split
  · exact hP.keeps (only_bind hchain fun _ => only_respond_keepsFiles _)
  · exact hP.keeps (only_bind hchain fun _ => only_respond_keepsFiles _)
  · refine hP.keeps (only_bind (only_attempt (only_serveBody (fun _ => trivial) _ _)) fun r => ?_)
    cases r <;> exact only_respond_keepsFiles _
  · exact hput ‹_›
  · exact hP.keeps (only_respond_keepsFiles _)

/-- **A frame** of any bytes: a push is the only request whose calls are left to be looked at. -/
theorem handleFrame {build : Build} {cfg : ServeConfig} {dir ip : String} {frame : Bytes}
    (hput : ∀ msg, decoded frame = some msg → msg.method = "Peer.PutObject" →
      K _ (handlePutObject build cfg dir ip msg)) :
    K _ (SporePeer.handleFrame build cfg dir ip frame) := by
  rw [SporePeer.handleFrame, run_decodeMessage]
  refine hP.orPanic_bind fun msg hmsg => ?_
  obtain rfl : decoded frame = msg := Except.ok.inj hmsg
  cases hdec : decoded frame with
  | none => exact hP.handleJson build cfg ip frame
  | some msg =>
    dsimp only
    split
    · exact hP.handleJson build cfg ip frame
    split
    · exact hP.handleRpc2Fabric build cfg ip msg
    · exact hP.handleRpc2 fun hmethod => hput msg hdec hmethod

theorem handleClient {build : Build} {cfg : ServeConfig} {dir ip : String} {frames : List Bytes}
    (hput : ∀ frame ∈ frames, ∀ msg, decoded frame = some msg → msg.method = "Peer.PutObject" →
      K _ (handlePutObject build cfg dir ip msg)) :
    K _ (SporePeer.handleClient build cfg dir ip frames) := by
  induction frames with
  | nil => exact hP.of_pure _
  | cons frame rest ih =>
    obtain ⟨hframe, hrest⟩ := List.forall_mem_cons.mp hput
    exact hP.bind (hP.handleFrame hframe) fun _ => ih hrest

/-! ## Starts -/

/-- A start removes envelope files only. -/
theorem openFiles (build : Build) (cfg : FabricConfig) (names : List String) (queues : Queues) :
    K _ (SporePeer.openFiles build cfg names queues) := by
  induction names generalizing queues with
  | nil => exact hP.of_pure _
  | cons name names ih =>
    unfold SporePeer.openFiles
    split
    · exact ih _
    rename_i hext
    obtain ⟨c, rfl⟩ := fenvFile_of_extension (not_not.mp hext)
    have hremove : K _ (ask (.removeFile (fenvFile c)) >>= fun _ =>
        SporePeer.openFiles build cfg names queues) :=
      hP.bind (hP.queue (only_ask ⟨c, rfl⟩)) fun _ => ih _
    refine hP.bind (hP.of_ask trivial) fun raw => ?_
    split
    · exact ih _
    split
    · exact hremove
    refine hP.bind (hP.of_ask trivial) fun now => ?_
    split
    · exact hremove
    refine hP.bind (hP.of_ask trivial) fun now' => hP.orPanic_bind fun horizon _ => ?_
    split
    · exact hremove
    · exact ih _

theorem fabricOpen (build : Build) (cfg : FabricConfig) :
    K _ (SporePeer.fabricOpen build cfg) := by
  exact hP.bind (hP.of_ask trivial) fun _ => hP.bind (hP.of_ask trivial) fun _ =>
    hP.bind (hP.of_ask trivial) fun _ => hP.bind (hP.of_ask trivial) fun _ =>
    hP.bind (hP.of_ask trivial) fun _ => hP.bind (hP.openFiles build cfg _ _) fun _ => hP.of_ask trivial

/-! ## Peers -/

theorem peersWrite (dir : String) (list : List String) :
    K _ (SporePeer.peersWrite dir list) :=
  hP.bind (hP.of_ask trivial) fun _ => hP.bind (hP.of_orFail _) fun _ => hP.orPanic_bind fun _ _ =>
    hP.bind (hP.list _) fun _ => hP.of_orFail _

theorem peersCall (dir : String) (call : PeersCall) : K _ (call.perform dir) := by
  have hlist : K _ peersList := hP.keeps (only_bind (only_ask trivial) fun _ => only_pure _)
  cases call with
  | add addr =>
    refine hP.bind (hP.of_orFail _) fun _ => hP.bind hlist fun list => ?_
    split
    · exact hP.of_pure _
    · exact hP.bind (hP.peersWrite dir _) fun _ => hP.of_pure _
  | remove addr =>
    refine hP.bind hlist fun list => ?_
    dsimp only
    split
    · exact hP.of_pure _
    · exact hP.bind (hP.peersWrite dir _) fun _ => hP.of_pure _

end Permits

end

/-! ## Pushes -/

/-- The frame is a push of `body` under its hash. It presents the write token, if there is one. -/
structure Pushed (build : Build) (cfg : ServeConfig) (msg : Rpc2Message) (body : Bytes) : Prop where
  isPut : msg.method = "Peer.PutObject"
  carries : Hex.decode (payloadText msg "BODY") = some body
  names : (hexDecode (asBytes (payloadText msg "BLID"))).run =
    .ok (some (build.sha256 body).toList)
  presents : ∀ tok, cfg.token = some tok → payloadText msg "TOKEN" = tok

section

variable {σ : Type} {env : Env σ} {I : World σ → Prop} {ok : (β : Type) → Op β → Prop}
  (hok : Bodiless ok) {build : Build} {cfg : ServeConfig} {dir ip : String}

include hok

/-- The gate of a push lets the write token pass only. -/
theorem among_enforceWritePolicy (cfg : ServeConfig) (ip : String) (len : ℕ) (payload : Value) :
    Among env.handle I ok (fun _ => ∀ tok, cfg.token = some tok →
      ((payload.get "TOKEN").bind Value.asStr).getD "" = tok)
      (enforceWritePolicy cfg ip len payload) := by
  have honly {α : Type} {m : Fallible Op α} (hm : Only KeepsFiles m) :
      Among env.handle I ok (fun _ => True) m := (hm.mono hok.keeps).among
  have hgate : Among env.handle I ok (fun _ => ∀ tok, cfg.token = some tok →
      ((payload.get "TOKEN").bind Value.asStr).getD "" = tok)
      (refuseIf (cfg.token.any fun tok =>
        !ctEq (((payload.get "TOKEN").bind Value.asStr).getD "") tok) "401 bad write token") := by
    refine among_refuseIf fun hgiven tok htok => ?_
    rw [htok, Option.any_some, Bool.not_eq_true, Bool.not_eq_false', ctEq_iff] at hgiven
    exact hgiven
  refine among_bind (honly (only_ask trivial)) fun now _ =>
    among_bind (honly (tidy_allow (fun _ => trivial) (fun _ => trivial) trivial
      (fun _ => trivial) _ _ _).only) fun allowed _ =>
    among_bind (honly (only_refuseIf _ _)) fun _ _ => among_bind hgate fun _ htoken => ?_
  split
  · have hrest : Only KeepsFiles (storeBytes >>= fun used =>
        refuseIf (cfg.maxStoreBytes < min (used + len) (2 ^ 64 - 1)) "507 store full") :=
      only_bind (tidy_storeBytes trivial fun _ => trivial).only fun _ => only_refuseIf _ _
    exact (honly hrest).mono fun _ _ => htoken
  · exact among_pure htoken

/-- A body is moved into place once it has been found missing. -/
theorem among_storeBody {body : Bytes}
    (hmove : ∀ w, I w → (env.handle _ (.metadata (bodyFile (cidOf build body))) w).2 = none →
      ok _ (.rename (incomingFile (cidOf build body)) (bodyFile (cidOf build body)))) :
    Among env.handle I ok (fun _ => True) (storeBody build dir body) := by
  have hP : Permits fun _ m => Among env.handle I ok (fun _ => True) m := permits_among hok
  have hmeta : Among env.handle I ok
      (fun present => present = none →
        ok _ (.rename (incomingFile (cidOf build body)) (bodyFile (cidOf build body))))
      (ask (.metadata (bodyFile (cidOf build body)))) :=
    among_ask (hok.keeps _ _ trivial) hmove
  refine hP.bind (hP.keeps (only_refuseIf _ _)) fun _ =>
    hP.bind (hP.keeps (only_refuseIf _ _)) fun _ => among_bind hmeta fun present hpresent => ?_
  split
  · exact hP.of_pure _
  rename_i habsent
  have hrename := hpresent (Option.not_isSome_iff_eq_none.mp habsent)
  refine hP.bind (hP.of_ask trivial) fun made => hP.bind (hP.of_orFail _) fun _ =>
    hP.bind (among_ask (hok.write _ _) fun _ _ => trivial) fun written =>
    hP.bind (hP.of_orFail _) fun _ =>
    hP.bind (among_ask hrename fun _ _ => trivial) fun renamed => ?_
  cases renamed with
  | error e =>
    exact hP.bind (among_ask (hok.remove _) fun _ _ => trivial) fun _ => among_throw _
  | ok _ => exact hP.of_pure _

/-- **A push** moves its body into place, if it presents what the server asks for. -/
theorem among_handlePutObject {msg : Rpc2Message} (hmethod : msg.method = "Peer.PutObject")
    (hmove : ∀ body, Pushed build cfg msg body → ∀ w, I w →
      (env.handle _ (.metadata (bodyFile (cidOf build body))) w).2 = none →
      ok _ (.rename (incomingFile (cidOf build body)) (bodyFile (cidOf build body)))) :
    Among env.handle I ok (fun _ => True) (handlePutObject build cfg dir ip msg) := by
  have hP : Permits fun _ m => Among env.handle I ok (fun _ => True) m := permits_among hok
  unfold handlePutObject
  split
  · exact hP.keeps (only_respond_keepsFiles _)
  rename_i body hbody
  refine among_bind (among_attempt (among_enforceWritePolicy hok cfg ip body.length msg.payload))
    fun policy hpolicy => ?_
  cases policy with
  | error e => exact hP.keeps (only_respond_keepsFiles _)
  | ok _ =>
    refine hP.orPanic_bind fun blid hblid => ?_
    split
    · exact hP.keeps (only_respond_keepsFiles _)
    rename_i hsame
    have hpushed : Pushed build cfg msg body := by
      refine ⟨hmethod, hbody, ?_, hpolicy _ rfl⟩
      -- the hash that is named is the one computed here
      rw [Bool.not_eq_false, Option.any_eq_true] at hsame
      obtain ⟨b, rfl, hb⟩ := hsame
      rw [hblid, (of_decide_eq_true hb).2]
    refine hP.bind (hP.attempt (among_storeBody hok (hmove body hpushed))) fun stored => ?_
    cases stored with
    | error e => exact hP.keeps (only_respond_keepsFiles _)
    | ok cid =>
      exact hP.keeps (only_bind (only_orPanic _) fun _ => only_bind (only_orPanic _) fun _ =>
        only_respond_keepsFiles _)

/-- **A connection** moves into place what it pushes. -/
theorem among_handleClient {frames : List Bytes}
    (hmove : ∀ frame ∈ frames, ∀ msg, decoded frame = some msg →
      ∀ body, Pushed build cfg msg body → ∀ w, I w →
      (env.handle _ (.metadata (bodyFile (cidOf build body))) w).2 = none →
      ok _ (.rename (incomingFile (cidOf build body)) (bodyFile (cidOf build body)))) :
    Among env.handle I ok (fun _ => True) (handleClient build cfg dir ip frames) :=
  (permits_among hok).handleClient fun frame hframe msg hdec hput =>
    among_handlePutObject hok hput (hmove frame hframe msg hdec)

end

end SporePeer
