import SporePeer.Node.Admission
import SporePeer.Node.BodySizes
import SporePeer.Node.Listing
import SporePeer.Node.PushStream
import SporePeer.Node.SyncProgress

/-!
# A client at a server

The calls of a client whose peer is a server with the default limits, and what they come to for one
body: what is there already is passed over, what is missing is fetched, or sent and stored.

## Main definitions

* `serverNet`: a connection to a server

## Main results

* `handshake_served`, `chain_served`, `getObject_served`, `putObject_served`: the calls
* `exec_syncEntry_served`, `exec_pushObject_served`: a body that is fetched, and one that is sent
-/

namespace SporePeer

open Effects Text

/-- A connection to a server: it handles every request in the state that the ones before it have
left. The client stops at the first error, so what follows a closed connection is of no account. -/
def serverNet {τ : Type} (senv : Env τ) (build : Build) (cfg : ServeConfig) (sdir ip : String)
    (s : World τ) (frame : Bytes) : World τ × Except String Bytes :=
  match readFrame frame with
  | .error _ => (s, .error "connection closed")
  | .ok frame =>
    ((exec senv.handle (handleFrame build cfg sdir ip frame) s).1,
      answer senv build cfg sdir ip s frame)

section

variable {τ : Type} {senv : Env τ} {env : Env (World τ)} {build : Build} {sdir ip : String}
  {w : World (World τ)}

/-- A call whose request the server responds to. -/
theorem exec_rpc2Call_served (hnet : env.net = serverNet senv build {} sdir ip) {method : String}
    {seq : ℕ} {body body' : Bytes} {v v' : Value} (hm : method.utf8ByteSize ≤ 100)
    (hs : seq < 2 ^ 64) (hb : EncodesPayload body v) (hne : method ≠ "")
    (hf : startsWith method "Peer.Fabric" = false) (hlen : body.length + 200 ≤ maxFrame)
    (h : Responds senv (handleRpc2 build {} sdir ip (requestMessage method seq v)) w.peer
      (okFrame (requestMessage method seq v) body'))
    (hb' : EncodesPayload body' v') (hlen' : body'.length + 100 ≤ maxFrame) :
    exec env.handle (rpc2Call method seq body) w =
      ({ w.next with peer := (exec senv.handle (handleRpc2 build {} sdir ip
          (requestMessage method seq v)) w.peer).1 },
        .ok (.ok { method := "", seq := UInt64.ofNat seq, error := "", payload := v' })) := by
  have hframe : readFrame (Cbor.message method seq "" body) =
      .ok (Cbor.message method seq "" body) := by
    have h : "".utf8ByteSize = 0 := rfl
    obtain ⟨hpos, hle⟩ := length_message method seq "" body
    exact if_neg (by omega)
  rw [exec_rpc2Call]
  simp only [Env.exchange, hnet, serverNet, hframe]
  rw [exec_handleFrame_request senv build {} sdir ip w.peer hm hs hb hne hf,
    answer_of_responds hm hs hb hne hf h, callResult_okFrame hb' hlen']
  rfl

/-- The handlers of the requests of a sync pass leave the files alone. -/
theorem only_handleRpc2_keepsFiles {method : String} (hmethod : method ≠ "Peer.PutObject")
    (cfg : ServeConfig) (seq : ℕ) (v : Value) :
    Only KeepsFiles (handleRpc2 build cfg sdir ip (requestMessage method seq v)) := by
  have hview : Only KeepsFiles chainView := only_chainView trivial fun _ => trivial
  unfold handleRpc2
  split
  · exact only_bind hview fun _ => only_respond_keepsFiles _
  · exact only_bind hview fun _ => only_respond_keepsFiles _
  · refine only_bind (only_attempt (only_serveBody (fun _ => trivial) _ _)) fun r => ?_
    cases r <;> exact only_respond_keepsFiles _
  · exact absurd ‹_› hmethod
  · exact only_respond_keepsFiles _

variable (hnet : env.net = serverNet senv build {} sdir ip)

/-! ## The calls -/

section

variable {view : List (ℕ × U8Array 32)}
  (hview : (exec senv.handle chainView w.peer).2 = .ok (.ok view))

include hnet hview

/-- The handshake tells the number of entries. -/
theorem handshake_served :
    ∃ s' hs, exec env.handle (rpc2Call "Peer.Handshake" 1 (handshakeRequest 1)) w =
        ({ w.next with peer := s' }, .ok (.ok hs)) ∧ s'.dir = w.peer.dir ∧ hs.error = "" ∧
      ((hs.payload.get "H").bind Value.asU64).elim 0 UInt64.toNat = view.length % 2 ^ 64 := by
  have hlen := length_handshakeResponse_le view.length 1
  refine ⟨_, _, exec_rpc2Call_served hnet (by decide) (by omega) (encodesPayload_handshakeRequest 1)
    (by decide) (by decide) (by decide) (.bind only_chainView_sends hview (responds_respond _))
    (encodesPayload_handshakeResponse _ _) ?_, ?_, rfl, ?_⟩
  · rw [maxFrame]
    omega
  · exact dir_of_keepsFiles (only_handleRpc2_keepsFiles (by decide) _ _ _) _
  · simp [get_fieldsObject, insertFields]

/-- A chain that is not too long is sent as it is. -/
theorem chain_served (hcount : view.length ≤ 5000) :
    ∃ s' m, exec env.handle (rpc2Call "Peer.Chain" 2 (chainRequest 0 5000)) w =
        ({ w.next with peer := s' }, .ok (.ok m)) ∧ s'.dir = w.peer.dir ∧ m.error = "" ∧
      m.payload.asArray.getD [] = view.reverse.map chainValue := by
  rw [← List.length_reverse] at hcount
  have hlen := length_chainResponse_le view.reverse
  have hsel : selectChain 0 5000 view.reverse [] = view.reverse := by
    rw [selectChain_zero _ _ _ (by simp), List.nil_append, List.take_of_length_le hcount]
  have hresp : Responds senv (handleRpc2 build {} sdir ip (requestMessage "Peer.Chain" 2
      (fieldsObject [("TOP", Cbor.uint 0, .uint 0), ("N", Cbor.uint 5000, .uint 5000)]))) w.peer
      (okFrame (requestMessage "Peer.Chain" 2
        (fieldsObject [("TOP", Cbor.uint 0, .uint 0), ("N", Cbor.uint 5000, .uint 5000)]))
        (chainResponse (selectChain 0 5000 view.reverse []))) :=
    .bind only_chainView_sends hview (responds_respond _)
  rw [hsel] at hresp
  refine ⟨_, _, exec_rpc2Call_served hnet (by decide) (by omega)
    (encodesPayload_chainRequest 0 5000) (by decide) (by decide) (by decide) hresp
    (encodesPayload_chainResponse (by omega)) ?_, ?_, rfl, rfl⟩
  · rw [maxFrame]
    omega
  · exact dir_of_keepsFiles (only_handleRpc2_keepsFiles (by decide) _ _ _) _

end

variable (hscalm : senv.Calm) {b : Bytes} (hfits : Fits b)

include hnet hscalm hfits

/-- A body that the server holds is served. -/
theorem getObject_served (hb : bodiesOf w.peer.dir (cidOf build b) = some b) {n : ℕ}
    (hn : n < 2 ^ 64) :
    ∃ s' m, exec env.handle (rpc2Call "Peer.GetObject" n (getobjectRequest (build.sha256 b))) w =
        ({ w.next with peer := s' }, .ok (.ok m)) ∧ s'.dir = w.peer.dir ∧ m.error = "" ∧
      m.payload = .string (Hex.encode b) := by
  obtain ⟨d, hd, rfl⟩ := Option.map_eq_some_iff.mp hb
  have hsize : d.content.length ≤ 32 * 1024 * 1024 := hfits.2
  have hread : senv.read w.peer (bodyFile (cidOf build d.content)) = some d.content := by
    simp only [Env.read, hscalm _, hd, Option.map_some, Option.filter_some]
    rw [if_pos (by simp; omega)]
  -- what is served hashes to what was asked for
  have hserve : (exec senv.handle (serveBody build (cidOf build d.content)) w.peer).2 =
      .ok (.ok d.content) := by
    rw [cidOf, exec_serveBody, ← cidOf, hread]
    exact congrArg Except.ok (if_neg (not_not.mpr rfl))
  have hbytes : (getobjectResponse d.content).length ≤ d.content.length + 9 := by
    have := length_head_le 2 d.content.length
    simp only [getobjectResponse, Cbor.bytes, List.length_append]
    omega
  set msg := requestMessage "Peer.GetObject" n (fieldsObject [("BLID",
    Cbor.hash32 (build.sha256 d.content), .string (cidOf build d.content))]) with hmsg
  have hresp : Responds senv (handleRpc2 build {} sdir ip msg) w.peer
      (okFrame msg (getobjectResponse d.content)) := by
    refine .bind (a := .ok d.content) (only_attempt (only_serveBody_sends _ _)) ?_
      (responds_respond _)
    rw [exec_attempt]
    exact congrArg (Except.map Except.ok) hserve
  refine ⟨_, _, exec_rpc2Call_served hnet (by decide) hn (encodesPayload_getobjectRequest _)
    (by decide) (by decide) ?_ hresp (encodesPayload_getobjectResponse (by omega)) ?_, ?_, rfl, rfl⟩
  · have hlen := length_getobjectRequest_le (build.sha256 d.content)
    rw [maxFrame]
    omega
  · rw [maxFrame]
    omega
  · exact dir_of_keepsFiles (only_handleRpc2_keepsFiles (by decide) _ _ _) _

/-- A body of a new hash is stored by the server. -/
theorem putObject_served (hnew : bodiesOf w.peer.dir (cidOf build b) = none) {token : String}
    (htoken : b.length + token.utf8ByteSize + 500 ≤ maxFrame) {n : ℕ} (hn : n < 2 ^ 64) :
    ∃ s' m t, exec env.handle (rpc2Call "Peer.PutObject" n
          (putobjectRequest (build.sha256 b) b token)) w =
        ({ w.next with peer := s' }, .ok (.ok m)) ∧
      s'.dir = ((w.peer.dir.insert (incomingFile (cidOf build b)) ⟨b, t⟩).erase
        (incomingFile (cidOf build b))).insert (bodyFile (cidOf build b)) ⟨b, t⟩ ∧
      m.error = "" ∧ payloadText m "BLID" = cidOf build b := by
  obtain ⟨hblid, hbody, -⟩ := get_putFields (build.sha256 b) b token
  set v := fieldsObject (putFields (build.sha256 b) b token) with hv
  set msg := requestMessage "Peer.PutObject" n v with hmsg
  have htext : payloadText msg "BODY" = Hex.encode b := by
    show ((v.get "BODY").bind Value.asStr).getD "" = _
    rw [hbody]
    rfl
  have hname : payloadText msg "BLID" = cidOf build b := by
    show ((v.get "BLID").bind Value.asStr).getD "" = _
    rw [hblid]
    rfl
  have htokens : ∀ tok, (none : Option String) = some tok → payloadText msg "TOKEN" = tok := by
    intro tok h
    cases h
  -- a peer with the default limits admits every body of the right size
  have hadmitted : Admitted senv build {} ip msg w.peer b :=
    { hex := by rw [htext, Hex.decode_encode]
      rate := .inl rfl
      token := htokens
      room := fun hpos => absurd hpos (lt_irrefl 0)
      blid := by rw [hname, cidOf, hexDecode_encode]
      size := hfits }
  obtain ⟨s', hrun, hsent, hdir⟩ := putObject_of_admitted hscalm sdir hadmitted
  have hresp : Responds senv (handleRpc2 build {} sdir ip msg) w.peer
      (okFrame msg (putobjectResponse (build.sha256 b))) :=
    ⟨congrArg Prod.snd hrun, (congrArg (fun x => x.1.sent) hrun).trans hsent⟩
  have hsize : (putobjectRequest (build.sha256 b) b token).length + 200 ≤ maxFrame := by
    have hlen := length_putobjectRequest_le (build.sha256 b) b token
    omega
  have hmax : maxFrame < 2 ^ 64 - 9 := by decide
  have hcall := exec_rpc2Call_served (w := w) hnet (by decide) hn
    (encodesPayload_putobjectRequest (by omega)) (by decide) (by decide) hsize hresp
    (encodesPayload_putobjectResponse _) (by
      have hlen := length_getobjectRequest_le (build.sha256 b)
      show (getobjectRequest (build.sha256 b)).length + 100 ≤ maxFrame
      rw [maxFrame]
      omega)
  rw [show (exec senv.handle (handleRpc2 build {} sdir ip msg) w.peer).1 = s' from
    congrArg Prod.fst hrun] at hcall
  -- no body of its hash is there, so the body has been written
  rcases hdir with ⟨hpresent, -⟩ | ⟨-, t, hdir⟩
  · rw [Option.map_eq_none_iff.mp hnew] at hpresent
    cases hpresent
  · exact ⟨s', _, t, hcall, hdir, rfl, rfl⟩

/-! ## One body -/

/-- A body of the server is held already, or is fetched. -/
theorem exec_syncEntry_served (hcalm : env.Calm) (dir : String)
    (hb : bodiesOf w.peer.dir (cidOf build b) = some b) {e : ℕ × U8Array 32}
    (he : e.2 = build.sha256 b) {i : ℕ}
    (hcap : bodiesOf w.dir (cidOf build b) = none → i < syncCap) :
    (bodiesOf w.dir (cidOf build b)).isSome ∧
        exec env.handle (syncEntry build dir i (chainValue e)) w = (w.next, .ok (.ok .had)) ∨
      bodiesOf w.dir (cidOf build b) = none ∧ ∃ w' t,
        exec env.handle (syncEntry build dir i (chainValue e)) w = (w', .ok (.ok .fetched)) ∧
        w'.dir = w.dir.insert (bodyFile (cidOf build b)) ⟨b, t⟩ ∧ w'.peer.dir = w.peer.dir := by
  obtain ⟨top, hpair⟩ := chainPair_chainValue e
  rw [exec_syncEntry, hpair]
  dsimp only
  rw [readBlid_encode, he]
  dsimp only
  rw [hcalm.lookup, ← cidOf]
  -- the cap is looked at only after the file, so a held body needs no room
  rcases hheld : w.dir.lookup (bodyFile (cidOf build b)) with _ | d
  swap
  · have hsome : bodiesOf w.dir (cidOf build b) = some d.content := congrArg _ hheld
    exact .inl ⟨by rw [hsome]; rfl, rfl⟩
  have hnone : bodiesOf w.dir (cidOf build b) = none := congrArg _ hheld
  refine .inr ⟨hnone, ?_⟩
  have hi := hcap hnone
  have hcap' : syncCap = 2000 := rfl
  obtain ⟨s', obj, hcall, hdir, herr, hpay⟩ := getObject_served (w := w.next) hnet hscalm hfits hb
    (n := 100 + i) (by omega)
  -- the content that the peer sends hashes to the name that it was asked for
  have hobj : objectAnswer env w.next i (build.sha256 b) =
      ({ w.next.next with peer := s' }, .ok obj) := by
    rw [exec_rpc2Call] at hcall
    obtain ⟨hw, hr⟩ := Prod.ext_iff.mp hcall
    exact Prod.ext hw (Except.ok.inj hr)
  set w₁ : World (World τ) := { w.next.next with peer := s' } with hw₁
  have hwrite : env.write w₁ (bodyFile (cidOf build b)) b =
      ({ w₁.next with
        dir := w.dir.insert (bodyFile (cidOf build b)) ⟨b, env.stamp w₁.tick⟩ }, .ok ()) := by
    simp only [Env.write, hcalm _]
    rfl
  rw [Option.isSome_none, if_neg Bool.false_ne_true, if_neg (not_le.mpr hi), exec_fetchObject, hobj]
  dsimp only
  rw [if_neg (not_not.mpr herr), hpay, verifiedBody_encode rfl]
  dsimp only
  rw [hwrite]
  exact ⟨_, env.stamp w₁.tick, rfl, rfl, hdir⟩

/-- A local body that the server lacks is sent and stored. -/
theorem exec_pushObject_served (hcalm : env.Calm) (dir : String) {token : String}
    (htoken : maxBodyBytes + token.utf8ByteSize + 500 ≤ maxFrame) (readError : String → String)
    (hb : bodiesOf w.dir (cidOf build b) = some b)
    (hnew : bodiesOf w.peer.dir (cidOf build b) = none) {attempted : ℕ}
    (hn : 200 + attempted < 2 ^ 64) (topo : ℕ) :
    ∃ w' t, exec env.handle (pushObject build dir token readError attempted topo
          (build.sha256 b)) w = (w', .ok (.ok true)) ∧ w'.dir = w.dir ∧
      w'.peer.dir = ((w.peer.dir.insert (incomingFile (cidOf build b)) ⟨b, t⟩).erase
        (incomingFile (cidOf build b))).insert (bodyFile (cidOf build b)) ⟨b, t⟩ := by
  obtain ⟨d, hd, rfl⟩ := Option.map_eq_some_iff.mp hb
  have hsize : d.content.length ≤ maxBodyBytes := hfits.2
  have hread : env.read w (bodyFile (cidOf build d.content)) = some d.content := by
    have hmax : maxBodyBytes < 2 ^ 63 := by decide
    simp only [Env.read, hcalm _, hd, Option.map_some, Option.filter_some]
    rw [if_pos (by simp; omega)]
  have hframe : d.content.length + token.utf8ByteSize + 500 ≤ maxFrame := by omega
  obtain ⟨s', m, t, hcall, hstored, herr, hblid⟩ := putObject_served (w := w.next) hnet hscalm
    hfits hnew hframe hn
  -- the file is read, hashes to its name, is sent, and the answer names it
  refine ⟨{ w.next.next with peer := s' }, t, ?_, rfl, hstored⟩
  have hask : env.handle _ (.read (bodyFile (Hex.encode (build.sha256 d.content).toList))) w =
      (w.next, some d.content) := congrArg _ hread
  rw [pushObject, exec_ask_bind, hask]
  dsimp only
  rw [if_neg (not_not.mpr rfl), exec_bind_ok hcall, if_neg (not_not.mpr herr), hblid,
    ← cidOf, if_neg (not_not.mpr rfl)]
  rfl

end

end SporePeer
