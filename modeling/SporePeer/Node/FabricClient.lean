import SporePeer.Fabric.Delivery
import SporePeer.Node.Requests

/-!
# The client of a relay

`fabric reg`, `fabric put` and `fabric pop` send one verb to a relay in JSON, and report what comes
back; a drain prints one pointer a line. Commands from any clients, one after another, do to the
relay what their verbs do, and print what these return.

## Main definitions

* `FabricCli`, `fabricRequest`, `fabricPub`: the command, its request, and its run
* `FabricCli.verb`, `FabricCli.lines`: the verb it stands for, and the lines it prints
* `Visit`, `visits`, `served`: runs of the commands, and of their verbs

## Main results

* `exec_fabricPub`: one command
* `visits_served`: commands do to the relay what their verbs do
* `visits_delivery`: what drains print is what is delivered, in the order in which it was queued
-/

namespace SporePeer

open Effects Text Ledger

/-! ## The command -/

/-- The options of `spore-peer fabric`. -/
structure FabricCli where
  addr : String
  sub : String
  handle : String
  token : String := ""
  nonce : String := ""
  pointer : Option String := none
  lease : UInt64 := 3600
  max : UInt64 := 8

/-- The request of a command, unless its options are refused. -/
def fabricRequest (o : FabricCli) : Except String Value :=
  let req := [("handle", Value.string o.handle), ("verb", .string ("f" ++ o.sub))]
  if o.sub = "reg" then
    if o.token.utf8ByteSize < 16 then .error "token must be >= 16 bytes (relay shape rule)"
    else
      let req := Value.insertField "token" (.string o.token) req
      let req := Value.insertField "lease" (.number (.posInt o.lease)) req
      .ok (.object (if o.nonce = "" then req else Value.insertField "nonce" (.string o.nonce) req))
  else if o.sub = "put" then
    match o.pointer with
    | none => .error "fabric put needs --pointer"
    | some p => .ok (.object (Value.insertField "pointer_hex" (.string p) req))
  else if o.sub = "pop" then
    let req := Value.insertField "token" (.string o.token) req
    .ok (.object (Value.insertField "max" (.number (.posInt o.max)) req))
  else .error s!"unknown fabric subcommand {o.sub} (reg|put|pop)"

/-- The pointers in the body of a response. -/
def bodyPointers (body : Value) : List Value :=
  ((body.get "pointers").bind Value.asArray).getD []

def printAll : List Value → Fallible ShellOp Unit
  | [] => return ()
  | p :: rest =>
    match p.asStr with
    | some ph => do
      outside (.print ph)
      printAll rest
    | none => printAll rest

/-- What a command reports of the body of a response. -/
def fabricReport (o : FabricCli) (body : Value) : Fallible ShellOp Unit :=
  if o.sub = "reg" then
    let expires := ((body.get "expires").bind Value.asU64).elim 0 UInt64.toNat
    outside (.eprint s!"registered {o.handle} until {expires}")
  else if o.sub = "put" then outside (.eprint s!"queued pointer at {o.handle}")
  else if o.sub = "pop" then do
    outside (.eprint s!"drained {(bodyPointers body).length} pointer(s) from {o.handle}")
    printAll (bodyPointers body)
  else return ()

/-- `fabric_pub`: one verb against a relay. -/
def fabricPub (build : Build) (o : FabricCli) : Fallible ShellOp Unit := do
  let req ← orFail (fabricRequest o)
  connect o.addr
  let resp ← onNode (ask (.exchange (asBytes (build.toJson req))))
  let resp ← orFail resp
  match resp with
  | [] => throw "empty reply"
  | status :: text =>
    if status ≠ 0x00 then throw (trim (fromUtf8Lossy text))
    else fabricReport o ((build.fromSlice text).getD .null)

/-! ## The verb -/

/-- The verb that the request of a command is. -/
def FabricCli.verb (o : FabricCli) (ip : String) (req : Value) : Verb :=
  if o.sub = "reg" then .freg req
  else if o.sub = "put" then .fput req ip
  else .fpop req ip

/-- The lines that a command prints for a response. -/
def FabricCli.lines (o : FabricCli) (body : Value) : List String :=
  if o.sub = "pop" then responsePointers body else []

/-- The frame of a relay for the result of a verb. -/
def relayFrame (build : Build) : Except String Value → Bytes
  | .ok body => frameOk (asBytes (build.toJson body))
  | .error e => frameErr e

/-- What a command returns where the relay refuses with the text `e`. -/
def relayRefusal (e : String) : String :=
  if maxFrame < (frameErr e).length then "bad frame length" else trim e

/-- What a command makes of the outcome of its verb: the lines it prints, or its error. -/
def FabricCli.outcome (o : FabricCli) : Result (Except String Value) → Except String (List String)
  | .ok (.ok body) => .ok (o.lines body)
  | .ok (.error e) => .error (relayRefusal e)
  | .error _ => .error "connection closed"

section

variable {build : Build} {o : FabricCli} {req : Value}

/-- The request names its verb. -/
theorem fabricRequest_verb (h : fabricRequest o = .ok req) :
    (req.get "verb").bind Value.asStr = some ("f" ++ o.sub) ∧
      (o.sub = "reg" ∨ o.sub = "put" ∨ o.sub = "pop") := by
  rw [fabricRequest] at h
  dsimp only at h
  split at h
  · rename_i hsub
    split at h
    · cases h
    · obtain rfl := Except.ok.inj h
      refine ⟨?_, .inl hsub⟩
      split <;> simp [Value.get, Value.field]
  split at h
  · rename_i hsub
    split at h
    · cases h
    · obtain rfl := Except.ok.inj h
      refine ⟨?_, .inr (.inl hsub)⟩
      simp [Value.get, Value.field]
  split at h
  · rename_i hsub
    obtain rfl := Except.ok.inj h
    refine ⟨?_, .inr (.inr hsub)⟩
    simp [Value.get, Value.field]
  · cases h

theorem reply_eq_respond (r : Except String Value) :
    reply build r = respond (relayFrame build r) := by
  cases r <;> rfl

/-- **A relay runs the verb** of a request. -/
theorem handleRequest_fabric {cfg : ServeConfig} {st : FabricConfig} (hst : cfg.fabric = some st)
    (h : fabricRequest o = .ok req) (ip : String) :
    handleRequest build cfg ip req =
      answering ((o.verb ip req).run build st) (relayFrame build) := by
  obtain ⟨hverb, hsub⟩ := fabricRequest_verb h
  rw [handleRequest, hverb, Option.isSome_some, if_pos rfl, handleVerb, hst]
  dsimp only
  rw [hverb]
  simp only [answering, ← reply_eq_respond]
  rcases hsub with hsub | hsub | hsub
  · simp [FabricCli.verb, hsub, Verb.run]
  · simp [FabricCli.verb, hsub, Verb.run]
  · simp [FabricCli.verb, hsub, Verb.run]

end

section

variable {τ : Type} {senv : Env τ} {env : ShellEnv (World τ)} {build : Build} {cfg : ServeConfig}
  {st : FabricConfig} {sdir ip : String} {o : FabricCli} {req : Value}

/-- The lines that are printed are the pointers that are texts. -/
theorem exec_printAll (ps : List Value) (s : Shell (World τ)) :
    exec env.shell (printAll ps) s =
      ({ s with printed := s.printed ++ ps.filterMap Value.asStr }, .ok (.ok ())) := by
  induction ps generalizing s with
  | nil =>
    rw [List.filterMap_nil, List.append_nil]
    rfl
  | cons p rest ih =>
    rw [printAll]
    cases hp : p.asStr with
    | none => rw [List.filterMap_cons_none hp, ← ih]
    | some ph =>
      dsimp only
      rw [outside, exec_ask_bind, ih, List.filterMap_cons_some hp]
      simp only [ShellEnv.shell, List.append_assoc, List.singleton_append]

theorem exec_fabricReport (env : ShellEnv (World τ)) (o : FabricCli) (body : Value)
    (s : Shell (World τ)) :
    ∃ reported, exec env.shell (fabricReport o body) s =
      ({ s with printed := s.printed ++ o.lines body, reported := reported }, .ok (.ok ())) := by
  rw [fabricReport, FabricCli.lines]
  by_cases hreg : o.sub = "reg"
  · rw [if_pos hreg, hreg, if_neg (by decide), List.append_nil]
    exact ⟨_, rfl⟩
  rw [if_neg hreg]
  by_cases hput : o.sub = "put"
  · rw [if_pos hput, hput, if_neg (by decide), List.append_nil]
    exact ⟨_, rfl⟩
  rw [if_neg hput]
  by_cases hpop : o.sub = "pop"
  · rw [if_pos hpop, if_pos hpop, outside, exec_ask_bind, exec_printAll]
    exact ⟨_, rfl⟩
  · rw [if_neg hpop, if_neg hpop, List.append_nil]
    exact ⟨_, rfl⟩

theorem sendsNothing_verb (v : Verb) : Only SendsNothing (v.run build st) := by
  cases v with
  | freg req =>
    refine (only_runFreg build st req).mono fun β e he => ?_
    cases e with
    | writeFrame frame => exact he.elim
    | _ => trivial
  | fput req ip =>
    refine (only_runFput build st req ip).mono fun β e he => ?_
    cases e with
    | writeFrame frame => exact he.elim
    | _ => trivial
  | fpop req ip =>
    refine (tidy_runFpop build st req ip).only.mono fun β e he => ?_
    cases e with
    | writeFrame frame => exact he.elim
    | _ => trivial

/-- What a client reads of an answer that is no refusal. -/
theorem reading_body {body : Value} (h : Spoken build body) :
    reading (relayFrame build) (.ok (.ok body)) =
      .ok (0x00 :: asBytes (build.toJson body)) := by
  refine if_neg (not_or_intro (Nat.succ_ne_zero _) (not_lt.mpr ?_))
  rw [relayFrame, frameOk, List.length_cons]
  exact h.short

theorem reading_refusal (e : String) :
    reading (relayFrame build) (.ok (.error e)) =
      if maxFrame < (frameErr e).length then .error "bad frame length"
      else .ok (0x01 :: asBytes e) := by
  rw [reading, relayFrame, readFrame]
  refine if_congr ?_ rfl rfl
  exact or_iff_right (Nat.succ_ne_zero _)

/-- **One command** does to the relay what its verb does, and prints what the verb returns. -/
theorem exec_fabricPub (h : Connects env senv build cfg sdir ip) (hst : cfg.fabric = some st)
    (hreq : fabricRequest o = .ok req) (hspoken : Spoken build req) (s : Shell (World τ))
    (hbody : ∀ body, (exec senv.handle ((o.verb ip req).run build st) s.world.peer).2 =
      .ok (.ok body) → Spoken build body) :
    ∃ s', exec env.shell (fabricPub build o) s = (s', .ok ((o.outcome
          (exec senv.handle ((o.verb ip req).run build st) s.world.peer).2).map fun _ => ())) ∧
      s'.world.peer = World.answered (relayFrame build)
        (exec senv.handle ((o.verb ip req).run build st) s.world.peer) ∧
      s'.printed = s.printed ++ (o.outcome
        (exec senv.handle ((o.verb ip req).run build st) s.world.peer).2).toOption.getD [] := by
  set sent : Shell (World τ) := { s with world := s.world.next }
  have hanswer := exec_ask_spoken h hspoken
    (fun s => congrArg (exec senv.handle · s) (handleRequest_fabric hst hreq ip))
    (sendsNothing_verb _) sent
  rw [fabricPub, hreq, exec_orFail_ok_bind, exec_bind_ok (exec_connect h o.addr s),
    exec_bind_ok hanswer]
  have hpeer : sent.world.peer = s.world.peer := rfl
  rw [hpeer]
  set x := exec senv.handle ((o.verb ip req).run build st) s.world.peer
  rcases hx : x.2 with q | e | body
  · -- the relay unwinds, and the client reads the end of the stream
    exact ⟨_, rfl, rfl, (List.append_nil _).symm⟩
  · -- the relay refuses
    rw [reading_refusal, FabricCli.outcome, relayRefusal]
    split
    · exact ⟨_, rfl, rfl, (List.append_nil _).symm⟩
    · rw [exec_orFail_ok_bind]
      dsimp only
      rw [if_pos (by decide), fromUtf8Lossy_asBytes]
      exact ⟨_, rfl, rfl, (List.append_nil _).symm⟩
  · -- the relay answers, and the answer is printed
    rw [reading_body (hbody body hx), exec_orFail_ok_bind]
    dsimp only
    rw [if_neg (by decide), (hbody body hx).reads, Option.getD_some]
    obtain ⟨reported, hreport⟩ := exec_fabricReport env o body
      { sent with world := { sent.world.next with peer := World.answered (relayFrame build) x } }
    exact ⟨_, hreport, rfl, rfl⟩

end

/-! ## Runs -/

/-- A command, and the address it comes from. -/
structure Visit where
  cli : FabricCli
  ip : String

section

variable {τ : Type} (senv : Env τ) (env : Env (World τ)) (build : Build) (cfg : ServeConfig)
  (st : FabricConfig) (sdir : String)

/-- A client that connects to the relay from `ip`. -/
def clientAt (ip : String) : ShellEnv (World τ) where
  toEnv := { env with net := serverNet senv build cfg sdir ip }
  dial s _ := (s, .ok ())

/-- The relay after a command, what the command returns, and what it prints. -/
def visit (v : Visit) (w : World τ) : World τ × Result (Except String Unit) × List String :=
  let x := exec (clientAt senv env build cfg sdir v.ip).shell (fabricPub build v.cli)
    { world := .fresh w }
  (x.1.world.peer, x.2, x.1.printed)

/-- The server with `l` for what it has sent. -/
def World.withSent {σ : Type} (w : World σ) (l : List Bytes) : World σ := { w with sent := l }

/-- Commands one after another. -/
def visits : List Visit → World τ → World τ × List (Result (Except String Unit) × List String)
  | [], w => (w, [])
  | v :: vs, w =>
    let x := visit senv env build cfg sdir v w
    let y := visits vs x.1
    (y.1, x.2 :: y.2)

/-- The relay after the verb of a command, and what is made of its outcome. A command whose options
are refused has no verb. -/
def serveVisit (v : Visit) (w : World τ) : World τ × Except String (List String) :=
  match fabricRequest v.cli with
  | .error e => (w, .error e)
  | .ok req =>
    let x := exec senv.handle ((v.cli.verb v.ip req).run build st) w
    (x.1, v.cli.outcome x.2)

/-- The verbs of commands one after another. -/
def served : List Visit → World τ → World τ × List (Except String (List String))
  | [], w => (w, [])
  | v :: vs, w =>
    let x := serveVisit senv build st v w
    let y := served vs x.1
    (y.1, x.2 :: y.2)

/-- The JSON library knows the requests of the commands, and the responses to them. -/
def Speaks : List Visit → World τ → Prop
  | [], _ => True
  | v :: vs, w =>
    (∀ req, fabricRequest v.cli = .ok req → Spoken build req ∧
      ∀ body, (exec senv.handle ((v.cli.verb v.ip req).run build st) w).2 = .ok (.ok body) →
        Spoken build body) ∧ Speaks vs (serveVisit senv build st v w).1

end

section

variable {τ : Type} {senv : Env τ} {env : Env (World τ)} {build : Build} {cfg : ServeConfig}
  {st : FabricConfig} {sdir : String}

/-- What a call that sends nothing does, does not depend on what was sent. -/
theorem handle_withSent {β : Type} {e : Op β} (he : SendsNothing β e) (w : World τ)
    (l : List Bytes) : senv.handle β e (w.withSent l) =
      ((senv.handle β e w).1.withSent l, (senv.handle β e w).2) := by
  cases e with
  | writeFrame frame => exact he.elim
  | write name content =>
    simp only [Env.handle, Env.write, World.withSent]
    split
    · rfl
    · split <;> rfl
  | rename src dst =>
    simp only [Env.handle, Env.rename, World.withSent]
    split
    · rfl
    · split <;> rfl
  | removeFile name =>
    simp only [Env.handle, Env.removeFile, World.withSent]
    split <;> rfl
  | setWins l x => cases l <;> rfl
  | _ => rfl

theorem exec_withSent {α : Type} {m : Fallible Op α} (hm : Only SendsNothing m) (w : World τ)
    (l : List Bytes) : exec senv.handle m (w.withSent l) =
      ((exec senv.handle m w).1.withSent l, (exec senv.handle m w).2) := by
  have halike : Program.Alike (fun s t : World τ => t = s.withSent l)
      (exec senv.handle m w) (exec senv.handle m (w.withSent l)) := by
    refine hm.alike (fun β e s t he hst => ?_) rfl
    subst hst
    have hcall : senv.handle β e (s.withSent l) =
        ((senv.handle β e s).1.withSent l, (senv.handle β e s).2) := handle_withSent he s l
    exact ⟨congrArg Prod.fst hcall, (congrArg Prod.snd hcall).symm⟩
  exact Prod.ext halike.states halike.results.symm

theorem connects_clientAt (ip : String) :
    Connects (clientAt senv env build cfg sdir ip) senv build cfg sdir ip := ⟨rfl, fun _ _ => rfl⟩

/-- **One command of a run.** -/
theorem visit_served (hst : cfg.fabric = some st) {v : Visit} {w : World τ}
    (hspoken : ∀ req, fabricRequest v.cli = .ok req → Spoken build req ∧
      ∀ body, (exec senv.handle ((v.cli.verb v.ip req).run build st) w).2 = .ok (.ok body) →
        Spoken build body) (l : List Bytes) :
    ∃ l', visit senv env build cfg sdir v (w.withSent l) =
      ((serveVisit senv build st v w).1.withSent l',
        .ok ((serveVisit senv build st v w).2.map fun _ => ()),
        (serveVisit senv build st v w).2.toOption.getD []) := by
  rw [visit, serveVisit]
  rcases hreq : fabricRequest v.cli with e | req
  · -- a command that makes no request does not connect
    refine ⟨l, ?_⟩
    rw [fabricPub, hreq]
    rfl
  obtain ⟨hreqs, hbody⟩ := hspoken req hreq
  have hrun : exec senv.handle ((v.cli.verb v.ip req).run build st)
      ({ world := .fresh (w.withSent l) } : Shell (World τ)).world.peer = _ :=
    exec_withSent (sendsNothing_verb _) w l
  have hclient : Connects (clientAt senv env build cfg sdir v.ip) senv build cfg sdir v.ip :=
    connects_clientAt v.ip
  have hone := exec_fabricPub hclient hst hreq hreqs { world := .fresh (w.withSent l) }
  rw [hrun] at hone
  obtain ⟨s', hexec, hpeer, hprinted⟩ := hone hbody
  dsimp only
  rw [hexec]
  dsimp only
  rw [hpeer, hprinted, List.nil_append]
  rcases exec senv.handle ((v.cli.verb v.ip req).run build st) w with ⟨w', q | r⟩
  · exact ⟨_, rfl⟩
  · exact ⟨_, rfl⟩

/-- **Commands do to the relay what their verbs do**, and print what these return. -/
theorem visits_served (hst : cfg.fabric = some st) (vs : List Visit) (w : World τ)
    (hspeaks : Speaks senv build st vs w) (l : List Bytes) :
    ∃ l', visits senv env build cfg sdir vs (w.withSent l) =
      ((served senv build st vs w).1.withSent l', (served senv build st vs w).2.map fun r =>
        (.ok (r.map fun _ => ()), r.toOption.getD [])) := by
  induction vs generalizing w l with
  | nil => exact ⟨l, rfl⟩
  | cons v vs ih =>
    obtain ⟨l₁, hvisit⟩ : ∃ l₁, visit senv env build cfg sdir v (w.withSent l) = _ :=
      visit_served hst hspeaks.1 l
    obtain ⟨l₂, hrest⟩ := ih _ hspeaks.2 l₁
    refine ⟨l₂, ?_⟩
    rw [visits, hvisit]
    dsimp only
    rw [hrest]
    rfl

/-! ## Delivery -/

/-- The verbs of commands. -/
def verbsOf (vs : List Visit) : List Verb :=
  vs.filterMap fun v => (fabricRequest v.cli).toOption.map (v.cli.verb v.ip)

/-- What the drains of the handle `h` print, one command after the other. -/
def drained (build : Build) (h : String) (vs : List Visit) (printed : List (List String)) :
    List String :=
  (vs.zip printed).flatMap fun (v, lines) =>
    if v.cli.sub = "pop" ∧ toLowercase build.unicodeLowercase v.cli.handle = h then lines else []

theorem verbsOf_cons_error {v : Visit} {e : String} (hreq : fabricRequest v.cli = .error e)
    (vs : List Visit) : verbsOf (v :: vs) = verbsOf vs :=
  List.filterMap_cons_none (by rw [hreq]; rfl)

theorem verbsOf_cons_ok {v : Visit} {req : Value} (hreq : fabricRequest v.cli = .ok req)
    (vs : List Visit) : verbsOf (v :: vs) = v.cli.verb v.ip req :: verbsOf vs :=
  List.filterMap_cons_some (by rw [hreq]; rfl)

theorem served_fst (vs : List Visit) (w : World τ) :
    (served senv build st vs w).1 = serve senv build st w (verbsOf vs) := by
  induction vs generalizing w with
  | nil => rfl
  | cons v vs ih =>
    rw [served]
    dsimp only
    rw [ih, serveVisit]
    rcases hreq : fabricRequest v.cli with e | req
    · rw [verbsOf_cons_error hreq]
    · rw [verbsOf_cons_ok hreq]
      rfl

theorem fabricRequest_handle {o : FabricCli} {req : Value} (h : fabricRequest o = .ok req) :
    (req.get "handle").bind Value.asStr = some o.handle := by
  rw [fabricRequest] at h
  dsimp only at h
  split at h
  · split at h
    · cases h
    · obtain rfl := Except.ok.inj h
      split <;> simp [Value.get, Value.field]
  split at h
  · split at h
    · cases h
    · obtain rfl := Except.ok.inj h
      simp [Value.get, Value.field]
  split at h
  · obtain rfl := Except.ok.inj h
    simp [Value.get, Value.field]
  · cases h

/-- What a drain of `h` prints is what its verb returns from `h`. -/
theorem lines_serveVisit (h : String) {v : Visit} {req : Value} (hreq : fabricRequest v.cli = .ok req)
    (w : World τ) :
    (if v.cli.sub = "pop" ∧ toLowercase build.unicodeLowercase v.cli.handle = h then
      (serveVisit senv build st v w).2.toOption.getD [] else []) =
      returns senv build st h w (v.cli.verb v.ip req) := by
  by_cases hpop : v.cli.sub = "pop"
  · have hverb : v.cli.verb v.ip req = .fpop req v.ip := by
      simp [FabricCli.verb, hpop]
    have hread : readHandle build "400 fpop needs handle" req =
        if v.cli.handle.utf8ByteSize ≠ 64 then .error "400 handle must be 32-byte hex"
        else .ok (toLowercase build.unicodeLowercase v.cli.handle) := by
      rw [readHandle, fabricRequest_handle hreq]
    have hserve : (serveVisit senv build st v w).2 =
        v.cli.outcome (exec senv.handle (runFpop build st req v.ip) w).2 := by
      rw [serveVisit, hreq]
      dsimp only
      rw [hverb]
      rfl
    rw [hserve, hverb, returns, hread]
    rcases exec_runFpop senv w build st req v.ip with ⟨k, now, hres, hd⟩ | ⟨hres, -⟩
    · have hhandle := hd.handle
      rw [hread] at hhandle
      split at hhandle
      · cases hhandle
      rename_i hsize
      rw [if_neg hsize, hres, FabricCli.outcome, FabricCli.lines, if_pos hpop]
      exact if_congr (and_iff_right hpop) rfl rfl
    · -- a drain that fails prints nothing
      have hnone : (v.cli.outcome (exec senv.handle (runFpop build st req v.ip) w).2).toOption.getD
          [] = [] := by
        rcases hx : (exec senv.handle (runFpop build st req v.ip) w).2 with q | e | body
        · rfl
        · rfl
        · exact absurd hx (hres body)
      rw [hnone, ite_self]
      split
      · exact absurd ‹_› (hres _)
      · rfl
  · rw [if_neg fun hc => hpop hc.1]
    have hverb : v.cli.verb v.ip req = .freg req ∨ v.cli.verb v.ip req = .fput req v.ip := by
      rcases (fabricRequest_verb hreq).2 with hsub | hsub | hsub
      · exact .inl (by simp [FabricCli.verb, hsub])
      · exact .inr (by simp [FabricCli.verb, hsub])
      · exact absurd hsub hpop
    rcases hverb with hverb | hverb
    · rw [hverb]
      rfl
    · rw [hverb]
      rfl

/-- What all the requests of a run return from `h`. -/
theorem flatMap_returnsAt_cons (h : String) (w : World τ) (v : Verb) (vs : List Verb) :
    (List.range (v :: vs).length).flatMap (returnsAt senv build st h w (v :: vs)) =
      returns senv build st h w v ++ (List.range vs.length).flatMap
        (returnsAt senv build st h (exec senv.handle (v.run build st) w).1 vs) := by
  rw [List.length_cons, List.range_succ_eq_map, List.flatMap_cons, List.flatMap_map]
  rfl

/-- The lines printed for `h` are what the verbs return from it. -/
theorem drained_served (h : String) (vs : List Visit) (w : World τ) :
    drained build h vs ((served senv build st vs w).2.map fun r => r.toOption.getD []) =
      (List.range (verbsOf vs).length).flatMap (returnsAt senv build st h w (verbsOf vs)) := by
  induction vs generalizing w with
  | nil => rfl
  | cons v vs ih =>
    rw [served, List.map_cons, drained, List.zip_cons_cons, List.flatMap_cons]
    dsimp only
    change _ ++ drained build h vs _ = _
    rw [ih]
    rcases hreq : fabricRequest v.cli with e | req
    · have hrefused : (serveVisit senv build st v w).1 = w ∧
          (serveVisit senv build st v w).2.toOption.getD [] = [] := by
        rw [serveVisit, hreq]
        exact ⟨rfl, rfl⟩
      rw [verbsOf_cons_error hreq, hrefused.1, hrefused.2, ite_self, List.nil_append]
    · have hstep : (serveVisit senv build st v w).1 =
          (exec senv.handle ((v.cli.verb v.ip req).run build st) w).1 := by
        rw [serveVisit, hreq]
      rw [verbsOf_cons_ok hreq, flatMap_returnsAt_cons, lines_serveVisit h hreq, hstep]

/-- **From the put to the drain**: commands leave a relay that starts empty as their verbs do, every
pointer that they queue has one fate, and what the drains print is what is delivered, in the order in
which it was queued. -/
theorem visits_delivery (hst : cfg.fabric = some st) (hcap : 1 ≤ st.maxPerHandle) (peer : τ)
    (vs : List Visit) (hspeaks : Speaks senv build st vs (opened senv build st peer)) (h : String) :
    (∃ sent, (visits senv env build cfg sdir vs (opened senv build st peer)).1 =
        (serve senv build st (opened senv build st peer) (verbsOf vs)).withSent sent) ∧
      ∃ l, Delivery senv build st h (opened senv build st peer) (verbsOf vs) l ∧
        drained build h vs ((visits senv env build cfg sdir vs (opened senv build st peer)).2.map
          fun r => r.2) = (values Fate.isServed l).map fun p => Hex.encode p.toList := by
  have hopened : opened senv build st peer = (World.fresh peer).next := by
    rw [opened, opened_eq]
  have hreg : Registered (opened senv build st peer).reg := by
    rw [hopened]
    exact registered_empty
  have hempty : Queues.of (opened senv build st peer).queues h = [] := by
    rw [hopened]
    rfl
  obtain ⟨hist, hh⟩ := exists_history senv build st hreg hempty (verbsOf vs)
  have hdelivery := hh.delivery hcap
  obtain ⟨l', hvisits⟩ : ∃ l', visits senv env build cfg sdir vs
      ((opened senv build st peer).withSent (opened senv build st peer).sent) = _ :=
    visits_served hst vs _ hspeaks _
  have hsame : (opened senv build st peer).withSent (opened senv build st peer).sent =
      opened senv build st peer := rfl
  rw [hsame] at hvisits
  refine ⟨⟨l', ?_⟩, _, hdelivery, ?_⟩
  · rw [hvisits, served_fst]
  · rw [hvisits, hdelivery.inOrder, ← drained_served, List.map_map]
    rfl

theorem speaks_cons {v : Visit} {vs : List Visit} {w : World τ} {req body : Value}
    (hspoken : Spoken build req) (hbody : Spoken build body)
    (hreq : fabricRequest v.cli = .ok req)
    (hrun : (exec senv.handle ((v.cli.verb v.ip req).run build st) w).2 = .ok (.ok body))
    (hrest : Speaks senv build st vs
      (exec senv.handle ((v.cli.verb v.ip req).run build st) w).1) :
    Speaks senv build st (v :: vs) w := by
  refine ⟨fun req' hreq' => ?_, ?_⟩
  · obtain rfl := Except.ok.inj (hreq.symm.trans hreq')
    refine ⟨hspoken, fun body' hbody' => ?_⟩
    obtain rfl := Except.ok.inj (Except.ok.inj (hrun.symm.trans hbody'))
    exact hbody
  · rw [serveVisit, hreq]
    exact hrest

end

set_option maxRecDepth 100000 in
/-- A handle is registered, a pointer is queued, and the queue is drained. -/
theorem visits_delivery_three :
    let handle := Hex.encode (List.replicate 32 7)
    let token := "token-0123456789"
    let p := pointerOf 1 200
    let known : List Value := [
      .object [("handle", .string handle), ("lease", .uint 60), ("token", .string token),
        ("verb", .string "freg")],
      .object [("handle", .string handle), ("pointer_hex", .string (Hex.encode p.toList)),
        ("verb", .string "fput")],
      .object [("handle", .string handle), ("max", .uint 8), ("token", .string token),
        ("verb", .string "fpop")],
      .object [("expires", .uint 160), ("token", .string token)],
      .object [("queued", .bool true)],
      pointersResponse [p]]
    let build := Build.trailing.knowing known
    let senv : Env Unit := .still (fun p _ => (p, .error "closed")) 100
    let cfg : ServeConfig := { fabric := some {} }
    let vs : List Visit := [
      ⟨{ addr := "r:1", sub := "reg", handle := handle, token := token, lease := 60 }, "ip"⟩,
      ⟨{ addr := "r:1", sub := "put", handle := handle, pointer := some (Hex.encode p.toList) },
        "ip"⟩,
      ⟨{ addr := "r:1", sub := "pop", handle := handle, token := token }, "ip"⟩]
    let env : Env (World Unit) := .still (fun w _ => (w, .error "closed")) 100
    ∃ l, Delivery senv build {} handle (opened senv build {} ()) (verbsOf vs) l ∧
      drained build handle vs ((visits senv env build cfg "" vs (opened senv build {} ())).2.map
        fun r => r.2) = (values Fate.isServed l).map fun p => Hex.encode p.toList := by
  dsimp only
  refine (visits_delivery rfl (by decide) () _ ?_ _).2
  refine speaks_cons (spoken_knowing (by decide +kernel) (List.mem_of_getElem? (i := 0) rfl))
    (spoken_knowing (by decide +kernel) (List.mem_of_getElem? (i := 3) rfl)) rfl rfl ?_
  refine speaks_cons (spoken_knowing (by decide +kernel) (List.mem_of_getElem? (i := 1) rfl))
    (spoken_knowing (by decide +kernel) (List.mem_of_getElem? (i := 4) rfl)) rfl rfl ?_
  exact speaks_cons (spoken_knowing (by decide +kernel) (List.mem_of_getElem? (i := 2) rfl))
    (spoken_knowing (by decide +kernel) (List.mem_of_getElem? (i := 5) rfl)) rfl rfl trivial

end SporePeer
