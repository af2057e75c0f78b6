import SporePeer.Node.Fetch
import SporePeer.Node.Server
import SporePeer.Node.Sync

/-!
# What a server answers to a sync client

A server whose store can be listed answers the handshake with its height, the chain request with
the newest entries of its ledger, and the request for a body it can serve with that body.

## Main definitions

* `Responds`: what a handler sends
* `answer`: what a client reads after a request
* `ServesChain`: a store that can be listed, and serves every body on the list
* `listed`: the chain response of that store

## Main results

* `call_handshake`, `call_chain`, `call_getObject`: the three requests of a pass
* `servesChain_serverOf`: a server of given bodies lists and serves them
-/

namespace SporePeer

open Effects Text

/-! ## Responses -/

/-- The calls that send nothing. -/
def SendsNothing : (β : Type) → Op β → Prop
  | _, .writeFrame _ => False
  | _, _ => True

/-- The run of a handler ends, and sends exactly the frame `resp`. -/
structure Responds {τ : Type} (senv : Env τ) (m : Fallible Op Unit) (s : World τ)
    (resp : Bytes) : Prop where
  ends : (exec senv.handle m s).2 = .ok (.ok ())
  sent : (exec senv.handle m s).1.sent = s.sent ++ [resp]

section

variable {τ : Type} {senv : Env τ} {s : World τ}

theorem sent_handle {β : Type} {e : Op β} (he : SendsNothing β e) :
    (senv.handle β e s).1.sent = s.sent := by
  cases e with
  | writeFrame frame => exact he.elim
  | write name content =>
    simp only [Env.handle, Env.write]
    split
    · rfl
    · split <;> rfl
  | rename src dst =>
    simp only [Env.handle, Env.rename]
    split
    · rfl
    · split <;> rfl
  | removeFile name =>
    simp only [Env.handle, Env.removeFile]
    split <;> rfl
  | setWins l x => cases l <;> rfl
  | _ => rfl

theorem sent_exec {α : Type} {m : Fallible Op α} (hm : Only SendsNothing m) :
    (exec senv.handle m s).1.sent = s.sent :=
  hm.invariant (I := fun s' : World τ => s'.sent = s.sent)
    (fun _ _ _ he hs => (sent_handle he).trans hs) rfl

theorem responds_respond (resp : Bytes) : Responds senv (respond resp) s resp := ⟨rfl, rfl⟩

/-- A handler responds after a part that sends nothing as it does alone. -/
theorem Responds.bind {α : Type} {m : Fallible Op α} {f : α → Fallible Op Unit} {a : α}
    {resp : Bytes} (hm : Only SendsNothing m) (ha : (exec senv.handle m s).2 = .ok (.ok a))
    (hf : Responds senv (f a) (exec senv.handle m s).1 resp) : Responds senv (m >>= f) s resp := by
  have hrun : exec senv.handle (m >>= f) s = exec senv.handle (f a) (exec senv.handle m s).1 :=
    exec_bind_ok (Prod.ext rfl ha)
  refine ⟨?_, ?_⟩
  · rw [hrun]
    exact hf.ends
  · rw [hrun, hf.sent, sent_exec hm]

/-- The calls of the store send nothing. -/
theorem sendsNothing_of_storeOp {build : Build} {β : Type} {e : Op β} (h : StoreOp build β e) :
    SendsNothing β e := by
  cases e with
  | writeFrame frame => exact h
  | _ => trivial

theorem only_chainView_sends : Only SendsNothing chainView :=
  only_chainView trivial fun _ => trivial

theorem only_serveBody_sends (build : Build) (cidHex : String) :
    Only SendsNothing (serveBody build cidHex) :=
  only_serveBody (fun _ => trivial) build cidHex

end

/-- What a client reads after sending a frame to the server: its response, unless the handler
unwinds and the connection closes. -/
def answer {τ : Type} (senv : Env τ) (build : Build) (cfg : ServeConfig) (dir ip : String)
    (s : World τ) : Peer := fun frame =>
  match exec senv.handle (handleFrame build cfg dir ip frame) s with
  | (s', .ok _) =>
    match s'.sent.drop s.sent.length with
    | resp :: _ => .ok resp
    | [] => .error "connection closed"
  | (_, .error _) => .error "connection closed"

/-! ## Frames of the sync subset -/

theorem length_message (method : String) (seq : ℕ) (err : String) (body : Bytes) :
    0 < (Cbor.message method seq err body).length ∧
      (Cbor.message method seq err body).length ≤
        method.utf8ByteSize + err.utf8ByteSize + body.length + 100 := by
  have h3 := length_head_le 5 3
  have h3p := length_head_pos 5 3
  have hs := length_uint_le seq
  have hM : (Cbor.text "M").length ≤ 10 := length_text_le "M"
  have hS : (Cbor.text "S").length ≤ 10 := length_text_le "S"
  have hE : (Cbor.text "E").length ≤ 10 := length_text_le "E"
  have hmethod := length_text_le method
  have herr := length_text_le err
  simp only [Cbor.message, Cbor.header, Cbor.kv, Cbor.map, List.length_append]
  omega

theorem length_okFrame (msg : Rpc2Message) (body : Bytes) :
    0 < (okFrame msg body).length ∧ (okFrame msg body).length ≤ body.length + 100 := by
  have h : "".utf8ByteSize = 0 := rfl
  have hlen := length_message "" msg.seq.toNat "" body
  rw [h, Nat.zero_add] at hlen
  exact hlen

theorem length_getobjectRequest_le (blid : U8Array 32) :
    (getobjectRequest blid).length ≤ 63 := by
  have hmap := length_head_le 5 1
  have hkey : (Cbor.text "BLID").length ≤ 13 := length_text_le "BLID"
  have hhash := length_hash32_le blid
  simp only [getobjectRequest, Cbor.map, Cbor.kv, List.length_append]
  omega

theorem length_putobjectRequest_le (blid : U8Array 32) (body : Bytes) (token : String) :
    (putobjectRequest blid body token).length ≤ body.length + token.utf8ByteSize + 150 := by
  have h2 := length_head_le 5 2
  have h3 := length_head_le 5 3
  have hBLID : (Cbor.text "BLID").length ≤ 13 := length_text_le "BLID"
  have hBODY : (Cbor.text "BODY").length ≤ 13 := length_text_le "BODY"
  have hTOKEN : (Cbor.text "TOKEN").length ≤ 14 := length_text_le "TOKEN"
  have hhash := length_hash32_le blid
  have hbody := length_head_le 2 body.length
  have htoken := length_text_le token
  simp only [putobjectRequest, Cbor.map, Cbor.kv, Cbor.bytes, List.length_append]
  split <;> simp only [List.length_nil, List.length_append] <;> omega

/-- A success response reads back as the payload of its body. -/
theorem callResult_okFrame {msg : Rpc2Message} {body : Bytes} {v : Value}
    (hb : EncodesPayload body v) (hlen : body.length + 100 ≤ maxFrame) :
    callResult (Except.ok (okFrame msg body) >>= readFrame) =
      .ok { method := "", seq := msg.seq, error := "", payload := v } := by
  obtain ⟨hpos, hle⟩ := length_okFrame msg body
  have hread : readFrame (okFrame msg body) = .ok (okFrame msg body) := if_neg (by omega)
  have hd : decoded (okFrame msg body) =
      some { method := "", seq := msg.seq, error := "", payload := v } :=
    decoded_message (by decide) hb
  simp only [bind, Except.bind, hread, callResult, hd]

/-- What a request frame reads back as. -/
def requestMessage (method : String) (seq : ℕ) (payload : Value) : Rpc2Message where
  method := method
  seq := UInt64.ofNat seq
  error := ""
  payload := payload

theorem decoded_request {method : String} (seq : ℕ) {body : Bytes} {v : Value}
    (hm : method.utf8ByteSize ≤ 100) (hs : seq < 2 ^ 64) (hb : EncodesPayload body v) :
    decoded (Cbor.message method seq "" body) = some (requestMessage method seq v) := by
  have hseq : (UInt64.ofNat seq).toNat = seq := by
    rw [UInt64.toNat_ofNat', Nat.mod_eq_of_lt hs]
  have herr : ("" : String).utf8ByteSize = 0 := rfl
  have h : decoded (Cbor.message method (UInt64.ofNat seq).toNat "" body) =
      some (requestMessage method seq v) := decoded_message (by omega) hb
  rwa [hseq] at h

/-- The entry is at most as high as `top`; any is as high as the tip, which 0 stands for. -/
def Below (top : ℕ) (e : ℕ × U8Array 32) : Bool := top = 0 ∨ e.1 ≤ top

section

variable {top n : ℕ} {l selected : List (ℕ × U8Array 32)}

theorem below_iff {e : ℕ × U8Array 32} : Below top e = true ↔ ¬ (top ≠ 0 ∧ top < e.1) := by
  rw [Below, decide_eq_true_iff]
  omega

theorem selectChain_cons_below {e : ℕ × U8Array 32} (he : Below top e = true)
    (rest : List (ℕ × U8Array 32)) :
    selectChain top n (e :: rest) selected =
      if (selected ++ [e]).length = n then selected ++ [e]
      else selectChain top n rest (selected ++ [e]) := by
  rw [selectChain, if_neg (below_iff.mp he)]

theorem selectChain_cons_above {e : ℕ × U8Array 32} (he : ¬ Below top e = true)
    (rest : List (ℕ × U8Array 32)) :
    selectChain top n (e :: rest) selected = selectChain top n rest selected := by
  rw [selectChain, if_pos (not_not.mp (mt below_iff.mpr he))]

/-- With fewer than `n` entries selected, the loop stops at `n`. -/
theorem selectChain_of_lt (h : selected.length < n) :
    selectChain top n l selected = (selected ++ l.filter (Below top)).take n := by
  induction l generalizing selected with
  | nil => rw [selectChain, List.filter_nil, List.append_nil, List.take_of_length_le h.le]
  | cons e rest ih =>
    by_cases he : Below top e = true
    · rw [selectChain_cons_below he, List.filter_cons_of_pos he,
        List.append_cons selected e (rest.filter _)]
      have hlen : (selected ++ [e]).length = selected.length + 1 := List.length_append
      by_cases hn : (selected ++ [e]).length = n
      · rw [if_pos hn, List.take_append_of_le_length hn.ge, List.take_of_length_le hn.le]
      · rw [if_neg hn]
        exact ih (by omega)
    · rw [selectChain_cons_above he, List.filter_cons_of_neg he]
      exact ih h

end

/-- Without an upper end, the newest `n` entries are selected. -/
theorem selectChain_zero (n : ℕ) (l selected : List (ℕ × U8Array 32)) (h : selected.length < n) :
    selectChain 0 n l selected = (selected ++ l).take n := by
  have hall : l.filter (Below 0) = l := List.filter_eq_self.mpr fun _ _ => rfl
  rw [selectChain_of_lt h, hall]

section

variable {τ : Type} {senv : Env τ} {build : Build} {cfg : ServeConfig} {dir ip : String}
  {s : World τ} {chain : List (ℕ × U8Array 32)}

/-- The store can be listed as `chain`, and serves every body on the list in a frame that a client
accepts. -/
structure ServesChain (senv : Env τ) (build : Build) (s : World τ)
    (chain : List (ℕ × U8Array 32)) : Prop where
  view : (exec senv.handle chainView s).2 = .ok (.ok chain)
  serve : ∀ e ∈ chain, ∃ body,
    (exec senv.handle (serveBody build (Hex.encode e.2.toList)) s).2 = .ok (.ok body) ∧
      body.length + 200 ≤ maxFrame

/-- The entries of the chain response, newest first. -/
def listed (chain : List (ℕ × U8Array 32)) : List (ℕ × U8Array 32) := chain.reverse.take 5000

/-- A request of the sync subset goes to its handler. -/
theorem exec_handleFrame_request (senv : Env τ) (build : Build) (cfg : ServeConfig)
    (dir ip : String) (s : World τ) {method : String} {seq : ℕ} {body : Bytes} {v : Value}
    (hm : method.utf8ByteSize ≤ 100) (hs : seq < 2 ^ 64) (hb : EncodesPayload body v)
    (hne : method ≠ "") (hf : startsWith method "Peer.Fabric" = false) :
    exec senv.handle (handleFrame build cfg dir ip (Cbor.message method seq "" body)) s =
      exec senv.handle (handleRpc2 build cfg dir ip (requestMessage method seq v)) s := by
  rw [handleFrame, run_decodeMessage, exec_orPanic_ok_bind, decoded_request seq hm hs hb]
  dsimp only [requestMessage]
  rw [if_neg hne, hf]
  rfl

theorem answer_of_responds {method : String} {seq : ℕ} {body resp : Bytes} {v : Value}
    (hm : method.utf8ByteSize ≤ 100) (hs : seq < 2 ^ 64) (hb : EncodesPayload body v)
    (hne : method ≠ "") (hf : startsWith method "Peer.Fabric" = false)
    (h : Responds senv (handleRpc2 build cfg dir ip (requestMessage method seq v)) s resp) :
    answer senv build cfg dir ip s (Cbor.message method seq "" body) = .ok resp := by
  obtain ⟨hends, hsent⟩ := h
  rw [answer, exec_handleFrame_request senv build cfg dir ip s hm hs hb hne hf]
  generalize exec senv.handle _ s = x at hends hsent ⊢
  rcases x with ⟨s', r⟩
  dsimp only at hends hsent
  subst hends
  dsimp only
  rw [hsent, List.drop_left]

theorem responds_handshake (h : ServesChain senv build s chain) (msg : Rpc2Message) :
    Responds senv (handleHandshake msg) s
      (okFrame msg (handshakeResponse chain.length 1)) :=
  .bind only_chainView_sends h.view (responds_respond _)

/-- A chain request without an upper end is answered by the newest entries. -/
theorem responds_chain (h : ServesChain senv build s chain) (seq : ℕ) :
    Responds senv (handleChain (requestMessage "Peer.Chain" seq
      (fieldsObject [("TOP", Cbor.uint 0, .uint 0), ("N", Cbor.uint 5000, .uint 5000)]))) s
      (okFrame (requestMessage "Peer.Chain" seq
        (fieldsObject [("TOP", Cbor.uint 0, .uint 0), ("N", Cbor.uint 5000, .uint 5000)]))
        (chainResponse (listed chain))) := by
  refine .bind only_chainView_sends h.view ?_
  have hsel : selectChain 0 5000 chain.reverse [] = listed chain := selectChain_zero _ _ _ (by simp)
  rw [← hsel]
  exact responds_respond _

/-- A body on the list is served. -/
theorem responds_getObject (h : ServesChain senv build s chain) {e : ℕ × U8Array 32}
    (he : e ∈ chain) (seq : ℕ) : ∃ body, build.sha256 body = e.2 ∧
      body.length + 200 ≤ maxFrame ∧
      Responds senv (handleGetObject build (requestMessage "Peer.GetObject" seq
        (fieldsObject [("BLID", Cbor.hash32 e.2, .string (Hex.encode e.2.toList))]))) s
        (okFrame (requestMessage "Peer.GetObject" seq
          (fieldsObject [("BLID", Cbor.hash32 e.2, .string (Hex.encode e.2.toList))]))
          (getobjectResponse body)) := by
  obtain ⟨body, hbody, hlen⟩ := h.serve e he
  refine ⟨body, sha256_of_serveBody hbody, hlen, ?_⟩
  refine .bind (a := .ok body) (only_attempt (only_serveBody_sends _ _)) ?_ (responds_respond _)
  rw [exec_attempt]
  have hname : payloadText (requestMessage "Peer.GetObject" seq
      (fieldsObject [("BLID", Cbor.hash32 e.2, .string (Hex.encode e.2.toList))])) "BLID" =
        Hex.encode e.2.toList := rfl
  rw [hname, hbody]
  rfl

/-! ## Calls of a client -/

theorem call_of_responds {method : String} {seq : ℕ} {body body' : Bytes} {v v' : Value}
    (hm : method.utf8ByteSize ≤ 100) (hs : seq < 2 ^ 64) (hb : EncodesPayload body v)
    (hne : method ≠ "") (hf : startsWith method "Peer.Fabric" = false)
    (h : Responds senv (handleRpc2 build cfg dir ip (requestMessage method seq v)) s
      (okFrame (requestMessage method seq v) body'))
    (hb' : EncodesPayload body' v') (hlen : body'.length + 100 ≤ maxFrame) :
    (answer senv build cfg dir ip s).call method seq body =
      .ok { method := "", seq := UInt64.ofNat seq, error := "", payload := v' } := by
  rw [Peer.call, answer_of_responds hm hs hb hne hf h]
  exact callResult_okFrame hb' hlen

theorem length_handshakeResponse_le (height version : ℕ) :
    (handshakeResponse height version).length ≤ 50 := by
  have hH : (Cbor.text "H").length ≤ 10 := length_text_le "H"
  have hN : (Cbor.text "N").length ≤ 10 := length_text_le "N"
  have hm := length_head_le 5 2
  have hh := length_uint_le height
  have hv := length_uint_le version
  simp only [handshakeResponse, Cbor.map, Cbor.kv, List.length_append]
  omega

variable (cfg dir ip) in
theorem call_handshake (h : ServesChain senv build s chain) :
    ∃ hs, (answer senv build cfg dir ip s).call "Peer.Handshake" 1 (handshakeRequest 1) = .ok hs ∧
      hs.error = "" := by
  have hlen := length_handshakeResponse_le chain.length 1
  refine ⟨_, call_of_responds (by decide) (by omega) (encodesPayload_handshakeRequest 1)
    (by decide) (by decide) (responds_handshake h _) (encodesPayload_handshakeResponse _ _)
    ?_, rfl⟩
  rw [maxFrame]
  omega

variable (cfg dir ip) in
theorem call_chain (h : ServesChain senv build s chain) :
    ∃ m, (answer senv build cfg dir ip s).call "Peer.Chain" 2 (chainRequest 0 5000) = .ok m ∧
      m.error = "" ∧ m.payload = .array ((listed chain).map chainValue) := by
  have hn : (listed chain).length ≤ 5000 := by simp [listed]
  have hlen := length_chainResponse_le (listed chain)
  refine ⟨_, call_of_responds (by decide) (by omega) (encodesPayload_chainRequest 0 5000)
    (by decide) (by decide) (responds_chain h 2) (encodesPayload_chainResponse (by omega)) ?_,
    rfl, rfl⟩
  rw [maxFrame]
  omega

variable (cfg dir ip) in
theorem call_getObject (h : ServesChain senv build s chain) {e : ℕ × U8Array 32}
    (he : e ∈ chain) {n : ℕ} (hn : n < 2 ^ 64) :
    ∃ m body, (answer senv build cfg dir ip s).call "Peer.GetObject" n (getobjectRequest e.2) =
      .ok m ∧ m.error = "" ∧ m.payload = .string (Hex.encode body) ∧ build.sha256 body = e.2 := by
  obtain ⟨body, hsha, hlen, hresp⟩ := responds_getObject h he n
  have hmax : body.length + 200 ≤ 192 * 1024 * 1024 := hlen
  have hbytes : (getobjectResponse body).length ≤ body.length + 9 := by
    have := length_head_le 2 body.length
    simp only [getobjectResponse, Cbor.bytes, List.length_append]
    omega
  refine ⟨_, body, call_of_responds (by decide) hn (encodesPayload_getobjectRequest e.2)
    (by decide) (by decide) hresp (encodesPayload_getobjectResponse (by omega)) ?_, rfl, rfl, hsha⟩
  rw [maxFrame]
  omega

end

/-! ## Servers of given bodies -/

/-- The directory with the given bodies, all of one age. -/
def storeOf (build : Build) : List Bytes → Table String FileData
  | [] => ∅
  | body :: rest => (storeOf build rest).insert (bodyFile (cidOf build body)) ⟨body, 0⟩

/-- A server of the given bodies. -/
def serverOf (build : Build) (bodies : List Bytes) : World Unit :=
  { World.fresh () with dir := storeOf build bodies }

/-- The ledger of that server. -/
def ledgerOf (build : Build) (bodies : List Bytes) : List (ℕ × U8Array 32) :=
  (bodies.map build.sha256).zipIdx.map fun (c, i) => (i, c)

section

variable {build : Build} {bodies : List Bytes}

theorem bodyFile_cidOf_inj {b b' : Bytes} :
    bodyFile (cidOf build b) = bodyFile (cidOf build b') ↔ build.sha256 b = build.sha256 b' := by
  rw [bodyFile_inj]
  constructor
  · exact fun h => List.Vector.toList_injective (Hex.encode_injective h)
  · exact fun h => congrArg (fun c : U8Array 32 => Hex.encode c.toList) h

theorem keys_storeOf (h : (bodies.map build.sha256).Nodup) :
    (storeOf build bodies).keys = bodies.map fun b => bodyFile (cidOf build b) := by
  induction bodies with
  | nil => rfl
  | cons body rest ih =>
    rw [List.map_cons, List.nodup_cons] at h
    rw [storeOf, AList.keys_insert, ih h.2, List.map_cons, List.erase_of_not_mem]
    intro hmem
    obtain ⟨b, hb, heq⟩ := List.mem_map.mp hmem
    exact h.1 (List.mem_map.mpr ⟨b, hb, bodyFile_cidOf_inj.mp heq⟩)

theorem modified_storeOf {name : String} {d : FileData}
    (h : (storeOf build bodies).lookup name = some d) : d.modified = 0 := by
  induction bodies with
  | nil => cases h
  | cons body rest ih =>
    rw [storeOf, Table.lookup_insert_eq] at h
    split at h
    · cases h
      rfl
    · exact ih h

theorem lookup_storeOf (h : (bodies.map build.sha256).Nodup) {b : Bytes} (hb : b ∈ bodies) :
    (storeOf build bodies).lookup (bodyFile (cidOf build b)) = some ⟨b, 0⟩ := by
  induction bodies with
  | nil => cases hb
  | cons body rest ih =>
    rw [List.map_cons, List.nodup_cons] at h
    rw [storeOf, Table.lookup_insert_eq]
    rcases List.mem_cons.mp hb with rfl | hb
    · rw [if_pos rfl]
    · rw [if_neg, ih h.2 hb]
      intro heq
      exact h.1 (List.mem_map.mpr ⟨b, hb, bodyFile_cidOf_inj.mp heq⟩)

variable {τ : Type} {senv : Env τ}

/-- The modification time and the hash of a body, for the chain. -/
def chainEntry (build : Build) (dir : Table String FileData) (b : Bytes) : ℕ × U8Array 32 :=
  (((dir.lookup (bodyFile (cidOf build b))).map (·.modified)).getD 0, build.sha256 b)

/-- The names of bodies are read, in the order in which they are listed. -/
theorem exec_chainEntries (build : Build) (hcalm : senv.Calm) (bodies : List Bytes)
    (entries : List (ℕ × U8Array 32)) (s : World τ) :
    (exec senv.handle (chainEntries (bodies.map fun b => bodyFile (cidOf build b)) entries) s).2 =
      .ok (.ok (entries ++ bodies.map (chainEntry build s.dir))) := by
  induction bodies generalizing entries s with
  | nil => simp [chainEntries]
  | cons b rest ih =>
    have hsize : (cidOf build b).utf8ByteSize = 64 := by
      rw [cidOf, Hex.utf8ByteSize_encode, List.Vector.toList_length]
    have hread : readBlid (cidOf build b) = .ok (some (build.sha256 b)) := readBlid_encode _
    rw [List.map_cons, exec_chainEntries_body hsize, hread, hcalm.lookup]
    exact (ih _ s.next).trans (by rw [List.append_assoc]; rfl)

/-- A server of distinct bodies that fit in a frame lists and serves them. -/
theorem servesChain_serverOf {net : Unit → Bytes → Unit × Except String Bytes}
    {sec : Fin (2 ^ 64)} (h : (bodies.map build.sha256).Nodup)
    (hlen : ∀ b ∈ bodies, b.length + 200 ≤ maxFrame) :
    ServesChain (.still net sec) build (serverOf build bodies) (ledgerOf build bodies) := by
  have hcalm := Env.still_calm net sec
  constructor
  · have hentries := exec_chainEntries build hcalm bodies [] (serverOf build bodies).next
    have hage : bodies.map (chainEntry build (serverOf build bodies).next.dir) =
        bodies.map fun b => (0, build.sha256 b) := by
      refine List.map_congr_left fun b _ => ?_
      rw [chainEntry]
      rcases hl : (serverOf build bodies).next.dir.lookup (bodyFile (cidOf build b)) with _ | d
      · rfl
      · exact Prod.ext (modified_storeOf hl) rfl
    rw [hage] at hentries
    -- every file has one age, so sorting leaves them in order
    have hsorted : ((bodies.map fun b => (0, build.sha256 b)).insertionSort
        fun a b : ℕ × U8Array 32 => a.1 ≤ b.1) = bodies.map fun b => (0, build.sha256 b) := by
      apply List.Pairwise.insertionSort_eq
      rw [List.pairwise_map]
      exact List.pairwise_of_forall fun _ _ => le_rfl
    have hdir : (Env.still net sec).handle _ .readDir (serverOf build bodies) =
        ((serverOf build bodies).next,
          some (bodies.map fun b => bodyFile (cidOf build b))) :=
      Prod.ext rfl (congrArg some (keys_storeOf h))
    rw [chainView, exec_ask_bind, hdir]
    dsimp only [Option.getD_some]
    rw [exec_bind_ok (Prod.ext rfl hentries)]
    simp only [List.nil_append, hsorted, exec_pure]
    rw [ledgerOf, List.zipIdx_map, List.zipIdx_map, List.map_map, List.map_map]
    rfl
  · intro e he
    obtain ⟨b, hb, hsha⟩ : ∃ b ∈ bodies, build.sha256 b = e.2 := by
      obtain ⟨⟨c, i⟩, hci, rfl⟩ := List.mem_map.mp he
      exact List.mem_map.mp (List.fst_mem_of_mem_zipIdx hci)
    refine ⟨b, ?_, hlen b hb⟩
    -- every listed body is a file, short enough to be read
    have hread : (Env.still net sec).read (serverOf build bodies)
        (bodyFile (Hex.encode (build.sha256 b).toList)) = some b := by
      have hb' := hlen b hb
      rw [maxFrame] at hb'
      have hl : (serverOf build bodies).dir.lookup
          (bodyFile (Hex.encode (build.sha256 b).toList)) = some ⟨b, 0⟩ := lookup_storeOf h hb
      simp only [Env.read, hcalm _, hl, Option.map_some, Option.filter_some]
      rw [if_pos (by simp; omega)]
    rw [← hsha, exec_serveBody, hread]
    exact congrArg Except.ok (if_neg (not_not.mpr rfl))

end

end SporePeer
