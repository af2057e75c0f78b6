import SporePeer.Fabric.Verbs
import SporePeer.Node.Server
import SporePeer.Wire.RoundTrip

/-!
# The frames that unwind a handler

Three places in the code can unwind a handler: the reader of names slices a text at byte offsets,
and two additions of 64-bit words can overflow in a build that checks. Here the frames that reach
these places are described by their fields and the state of the node.

## Main definitions

* `CutsStem`: a file name that the reader cannot slice
* `FregTrips`, `FputTrips`: relay requests that overflow
* `Trips`: frames that unwind the handler

## Main results

* `unwinds_chainView_iff`, `unwinds_serveBody_iff`: listing and reading bodies
* `unwinds_handleFrame_iff`: a handler unwinds exactly on these frames
-/

namespace SporePeer

open Effects Text

variable {σ : Type} {env : Env σ} {build : Build} {cfg : ServeConfig} {dir ip : String}
  {w : World σ}

/-! ## The store -/

/-- A name of the right length whose stem the reader of names cannot slice. -/
def CutsStem (name : String) : Prop :=
  ∃ stem, name = bodyFile stem ∧ stem.utf8ByteSize = 64 ∧ CutsCharacter (asBytes stem)

/-- Listing bodies unwinds exactly on a name that the reader cannot slice. -/
theorem unwinds_chainEntries_iff (names : List String) (entries : List (ℕ × U8Array 32)) :
    Unwinds env.handle (chainEntries names entries) w ↔ ∃ name ∈ names, CutsStem name := by
  induction names generalizing entries w with
  | nil => simp [chainEntries, Unwinds]
  | cons name rest ih =>
    rw [List.exists_mem_cons_iff]
    by_cases hname : ∃ stem, name = bodyFile stem ∧ stem.utf8ByteSize = 64
    · obtain ⟨stem, rfl, hsize⟩ := hname
      have hcuts : CutsStem (bodyFile stem) ↔ ∃ p, readBlid stem = .error p := by
        rw [readBlid_unwinds_iff]
        constructor
        · rintro ⟨stem', heq, -, hcut⟩
          rwa [bodyFile_inj.mp heq]
        · exact fun hcut => ⟨stem, rfl, hsize, hcut⟩
      rw [hcuts, Unwinds, exec_chainEntries_body hsize]
      rcases readBlid stem with p | _ | cid
      · simp
      · rw [or_iff_right (by simp)]
        exact ih _
      · rw [or_iff_right (by simp)]
        exact ih _
    · have hstem : ¬ CutsStem name := by
        rintro ⟨stem, heq, hsize, -⟩
        exact hname ⟨stem, heq, hsize⟩
      rw [chainEntries_of_not_body hname, ih, or_iff_right hstem]

/-- Listing the store unwinds exactly when it is read and has such a name. -/
theorem unwinds_chainView_iff :
    Unwinds env.handle chainView w ↔
      env.fault w.tick = none ∧ ∃ name ∈ w.dir.keys, CutsStem name := by
  rw [chainView, unwinds_ask_bind, unwinds_bind_total fun _ => total_pure _,
    unwinds_chainEntries_iff]
  simp only [Env.handle]
  rcases env.fault w.tick with _ | f
  · simp only [Option.getD_some, true_and, (env.listing_perm w.tick w.dir.keys).mem_iff]
  · simp

/-- Reading a body unwinds exactly on a name that cannot be sliced. -/
theorem unwinds_serveBody_iff {cidHex : String} :
    Unwinds env.handle (serveBody build cidHex) w ↔ CutsCharacter (asBytes cidHex) := by
  rw [serveBody, unwinds_bind, unwinds_orPanic, hexDecode_unwinds_iff]
  refine or_iff_left ?_
  rintro ⟨w', raw, -, hrest⟩
  -- once the name is read, nothing is left that unwinds
  suffices htidy : Tidy (StoreOp build) _ from htidy.total.not_unwinds hrest
  split
  · refine tidy_bind (tidy_ask trivial) fun data => ?_
    split
    · exact tidy_bind (tidy_refuseIf _ _) fun _ => tidy_pure _
    · exact tidy_throw _
  · exact tidy_throw _

/-! ## The sync subset -/

theorem total_respond (frame : Bytes) : Total (respond frame) := fun _ => trivial

theorem exec_storeBody_ok {body : Bytes} {cidHex : String} {w' : World σ}
    (h : exec env.handle (storeBody build dir body) w = (w', .ok (.ok cidHex))) :
    cidHex = cidOf build body := by
  simp only [storeBody, exec_bind_eq_ok, exec_refuseIf_eq_ok, exec_ask, Prod.mk.injEq,
    Except.ok.injEq] at h
  obtain ⟨s₁, ⟨⟩, ⟨rfl, -⟩, s₂, ⟨⟩, ⟨rfl, -⟩, s₃, present, ⟨rfl, -⟩, hrest⟩ := h
  split at hrest
  · cases hrest
    rfl
  simp only [exec_bind_eq_ok, exec_ask, exec_orFail, Prod.mk.injEq, Except.ok.injEq] at hrest
  obtain ⟨s₄, made, ⟨rfl, -⟩, s₅, ⟨⟩, ⟨rfl, -⟩, s₆, written, ⟨rfl, -⟩, s₇, ⟨⟩, ⟨rfl, -⟩, s₈, renamed,
    ⟨rfl, -⟩, hlast⟩ := hrest
  split at hlast
  · simp [exec_bind] at hlast
  · cases hlast
    rfl

/-- The response to a stored body is built without unwinding. -/
theorem not_unwinds_putResponse (msg : Rpc2Message) (blid : U8Array 32) :
    ¬ Unwinds env.handle (putResponse msg (Hex.encode blid.toList)) w := by
  rw [putResponse, hexDecode_encode, unwinds_bind]
  rintro (⟨p, hp⟩ | ⟨w', raw, hraw, hu⟩)
  · cases hp
  · obtain rfl : some blid.toList = raw := by
      cases hraw
      rfl
    dsimp only at hu
    rw [Bytes.copyFromSlice_toList, unwinds_bind_total fun _ => total_respond _] at hu
    obtain ⟨p, hp⟩ := hu
    cases hp

section

variable (env : Env σ) (build : Build) (cfg : ServeConfig) (ip : String) (w : World σ)

/-- A push whose name cannot be sliced, and which passes the gate before it is read. -/
def PutTrips (msg : Rpc2Message) : Prop :=
  ∃ body, Hex.decode (payloadText msg "BODY") = some body ∧
    (exec env.handle (enforceWritePolicy cfg ip body.length msg.payload) w).2 = .ok (.ok ()) ∧
    CutsCharacter (asBytes (payloadText msg "BLID"))

/-- The requests of the sync subset that unwind. -/
def SyncTrips (msg : Rpc2Message) : Prop :=
  (msg.method = "Peer.Handshake" ∨ msg.method = "Peer.Chain") ∧
      env.fault w.tick = none ∧ (∃ name ∈ w.dir.keys, CutsStem name) ∨
    msg.method = "Peer.GetObject" ∧ CutsCharacter (asBytes (payloadText msg "BLID")) ∨
    msg.method = "Peer.PutObject" ∧ PutTrips env cfg ip w msg

end

/-- Behind the gate, a push unwinds exactly on a name that cannot be sliced. -/
theorem unwinds_storePushed_iff (env : Env σ) (build : Build) (dir : String) (w : World σ)
    (msg : Rpc2Message) (body digest : Bytes) (name : String) :
    Unwinds env.handle (do
      let blid ← orPanic (hexDecode (asBytes name)).run
      if (blid.any fun b => b.length = 32 ∧ b = digest) = false then
        respond (errFrame msg "400 body sha256 != BLID")
      else do
        let stored ← attempt (storeBody build dir body)
        match stored with
        | .ok cidHex => putResponse msg cidHex
        | .error e => respond (errFrame msg e)) w ↔ CutsCharacter (asBytes name) := by
  rw [unwinds_bind, unwinds_orPanic, hexDecode_unwinds_iff]
  -- behind the reader of the name nothing unwinds
  refine or_iff_left ?_
  rintro ⟨w', blid, -, hrest⟩
  split at hrest
  · exact (total_respond _).not_unwinds hrest
  rw [unwinds_bind_of_total (tidy_attempt (tidy_storeBody dir body)).total] at hrest
  obtain ⟨w'', stored, hstored, hlast⟩ := hrest
  rw [exec_attempt] at hstored
  rcases hx : exec env.handle (storeBody build dir body) w' with ⟨s, p | e | cidHex⟩
  · rw [hx] at hstored
    cases hstored
  · rw [hx] at hstored
    cases hstored
    exact (total_respond _).not_unwinds hlast
  · rw [hx] at hstored
    cases hstored
    rw [exec_storeBody_ok hx] at hlast
    exact not_unwinds_putResponse msg _ hlast

theorem unwinds_handlePutObject_iff (msg : Rpc2Message) :
    Unwinds env.handle (handlePutObject build cfg dir ip msg) w ↔ PutTrips env cfg ip w msg := by
  unfold handlePutObject PutTrips
  rcases Hex.decode (payloadText msg "BODY") with _ | body
  · simp [(total_respond _).not_unwinds]
  have hpolicy := tidy_attempt
    (tidy_enforceWritePolicy build cfg ip body.length msg.payload)
  simp only [Option.some.injEq, exists_eq_left', unwinds_bind_of_total hpolicy.total, exec_attempt]
  rcases exec env.handle (enforceWritePolicy cfg ip body.length msg.payload) w with
    ⟨w', p | e | ⟨⟨⟩⟩⟩
  · simp [Except.map]
  · simp [Except.map, (total_respond _).not_unwinds]
  · simp only [Except.map, Prod.mk.injEq, Except.ok.injEq, true_and]
    rw [← unwinds_storePushed_iff env build dir w' msg body
      (build.sha256 body).toList]
    constructor
    · rintro ⟨_, _, ⟨rfl, rfl⟩, hu⟩
      exact hu
    · exact fun hu => ⟨_, _, ⟨rfl, rfl⟩, hu⟩

theorem unwinds_handleGetObject_iff (msg : Rpc2Message) :
    Unwinds env.handle (handleGetObject build msg) w ↔
      CutsCharacter (asBytes (payloadText msg "BLID")) := by
  rw [handleGetObject, unwinds_bind_total, unwinds_attempt, unwinds_serveBody_iff]
  intro r
  cases r <;> exact total_respond _

/-- A request of the sync subset unwinds exactly when it trips. -/
theorem unwinds_handleRpc2_iff (msg : Rpc2Message) :
    Unwinds env.handle (handleRpc2 build cfg dir ip msg) w ↔ SyncTrips env cfg ip w msg := by
  unfold handleRpc2 SyncTrips
  split
  · rename_i hm
    rw [handleHandshake, unwinds_bind_total fun _ => total_respond _, unwinds_chainView_iff]
    simp [hm]
  · rename_i hm
    rw [handleChain, unwinds_bind_total fun _ => total_respond _, unwinds_chainView_iff]
    simp [hm]
  · rename_i hm
    rw [unwinds_handleGetObject_iff]
    simp [hm]
  · rename_i hm
    rw [unwinds_handlePutObject_iff]
    simp [hm]
  · rename_i hhs hchain hget hput
    refine iff_of_false (total_respond _).not_unwinds ?_
    rintro (⟨hm | hm, -⟩ | ⟨hm, -⟩ | ⟨hm, -⟩)
    · exact hhs hm
    · exact hchain hm
    · exact hget hm
    · exact hput hm

/-! ## The relay -/

section

variable (env : Env σ) (build : Build) (cfg : ServeConfig) (ip : String) (w : World σ)

/-- A registration whose fields are right, and whose lease ends past the top of the clock. -/
def FregTrips (st : FabricConfig) (req : Value) : Prop :=
  ∃ r, readFreg build req = .ok r ∧ build.overflowChecks = true ∧
    2 ^ 64 ≤ env.clock w.tick + min r.lease st.maxLeaseSec

/-- A put that passes its checks, on a relay whose horizon lies past the top of the clock. -/
def FputTrips (st : FabricConfig) (req : Value) : Prop :=
  ∃ w' h pointer now,
    exec env.handle (fputGate build st req ip) w = (w', .ok (.ok (h, pointer, now))) ∧
    build.overflowChecks = true ∧ 2 ^ 64 ≤ now + st.maxDeadlineHorizonSec

/-- The relay requests that unwind. -/
def FabricTrips (msg : Rpc2Message) : Prop :=
  ∃ st, cfg.fabric = some st ∧
    (msg.method = "Peer.FabricReg" ∧ FregTrips env build w st msg.payload ∨
      msg.method = "Peer.FabricPut" ∧ FputTrips env build ip w st msg.payload)

/-- The JSON requests that unwind: a relay verb, or the name of a body. -/
def JsonTrips (frame : Bytes) : Prop :=
  ∃ req, build.fromSlice frame = some req ∧
    match (req.get "verb").bind Value.asStr with
    | some verb => ∃ st, cfg.fabric = some st ∧
        (verb = "freg" ∧ FregTrips env build w st req ∨
          verb = "fput" ∧ FputTrips env build ip w st req)
    | none => CutsCharacter (asBytes (((req.get "cid").bind Value.asStr).getD ""))

/-- The frames that unwind the handler. -/
def Trips (frame : Bytes) : Prop :=
  match decoded frame with
  | some msg =>
    if msg.method = "" then JsonTrips env build cfg ip w frame
    else if startsWith msg.method "Peer.Fabric" then FabricTrips env build cfg ip w msg
    else SyncTrips env cfg ip w msg
  | none => JsonTrips env build cfg ip w frame

end

theorem total_reply (r : Except String Value) : Total (reply build r) := by
  cases r <;> exact total_respond _

theorem total_replyRpc2 (msg : Rpc2Message) (r : Except String Value) : Total (replyRpc2 msg r) := by
  cases r <;> exact total_respond _

theorem unwinds_handleRpc2Fabric_iff (hreg : Registered w.reg) (msg : Rpc2Message) :
    Unwinds env.handle (handleRpc2Fabric build cfg ip msg) w ↔
      FabricTrips env build cfg ip w msg := by
  unfold handleRpc2Fabric FabricTrips
  rcases cfg.fabric with _ | st
  · simp [(total_respond _).not_unwinds]
  simp only [Option.some.injEq, exists_eq_left']
  split
  · rename_i hm
    rw [unwinds_bind_total fun _ => total_replyRpc2 _ _, unwinds_attempt, unwinds_runFreg_iff]
    simp [hm, FregTrips]
  · rename_i hm
    rw [unwinds_bind_total fun _ => total_replyRpc2 _ _, unwinds_attempt, unwinds_runFput_iff hreg]
    simp [hm, FputTrips]
  · rename_i hm
    rw [unwinds_bind_total fun _ => total_replyRpc2 _ _, unwinds_attempt]
    simp [hm, (tidy_runFpop build st msg.payload ip).total.not_unwinds]
  · rename_i hfreg hfput hfpop
    refine iff_of_false (total_respond _).not_unwinds ?_
    rintro (⟨hm, -⟩ | ⟨hm, -⟩)
    · exact hfreg hm
    · exact hfput hm

theorem unwinds_handleVerb_iff (hreg : Registered w.reg) {req : Value} {verb : String}
    (hverb : (req.get "verb").bind Value.asStr = some verb) :
    Unwinds env.handle (handleVerb build cfg ip req) w ↔
      ∃ st, cfg.fabric = some st ∧
        (verb = "freg" ∧ FregTrips env build w st req ∨
          verb = "fput" ∧ FputTrips env build ip w st req) := by
  unfold handleVerb
  rcases cfg.fabric with _ | st
  · simp [(total_respond _).not_unwinds]
  simp only [Option.some.injEq, exists_eq_left', hverb]
  split
  · rename_i hm
    rw [unwinds_bind_total fun _ => total_reply _, unwinds_attempt, unwinds_runFreg_iff]
    simp [Option.some.inj hm, FregTrips]
  · rename_i hm
    rw [unwinds_bind_total fun _ => total_reply _, unwinds_attempt, unwinds_runFput_iff hreg]
    simp [Option.some.inj hm, FputTrips]
  · rename_i hm
    rw [unwinds_bind_total fun _ => total_reply _, unwinds_attempt]
    simp [Option.some.inj hm, (tidy_runFpop build st req ip).total.not_unwinds]
  · rename_i hfreg hfput hfpop
    refine iff_of_false (total_respond _).not_unwinds ?_
    rintro (⟨rfl, -⟩ | ⟨rfl, -⟩)
    · exact hfreg rfl
    · exact hfput rfl

theorem unwinds_handleJson_iff (hreg : Registered w.reg) (frame : Bytes) :
    Unwinds env.handle (handleJson build cfg ip frame) w ↔ JsonTrips env build cfg ip w frame := by
  unfold handleJson JsonTrips
  rcases build.fromSlice frame with _ | req
  · simp [(total_respond _).not_unwinds]
  simp only [Option.some.injEq, exists_eq_left']
  rcases hverb : (req.get "verb").bind Value.asStr with _ | verb
  · dsimp only
    rw [if_neg (by simp), unwinds_bind_total, unwinds_attempt, unwinds_serveBody_iff]
    intro r
    cases r <;> exact total_respond _
  · dsimp only
    rw [if_pos Option.isSome_some, unwinds_handleVerb_iff hreg hverb]

/-- **A handler unwinds** exactly on the frames that trip. -/
theorem unwinds_handleFrame_iff (hreg : Registered w.reg) (frame : Bytes) :
    Unwinds env.handle (handleFrame build cfg dir ip frame) w ↔
      Trips env build cfg ip w frame := by
  rw [handleFrame, run_decodeMessage, Trips]
  change Unwinds env.handle (match decoded frame with
    | some msg => _
    | none => _) w ↔ _
  rcases decoded frame with _ | msg
  · exact unwinds_handleJson_iff hreg frame
  dsimp only
  split
  · exact unwinds_handleJson_iff hreg frame
  split
  · exact unwinds_handleRpc2Fabric_iff hreg msg
  · exact unwinds_handleRpc2_iff msg

end SporePeer
