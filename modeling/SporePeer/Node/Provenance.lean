import SporePeer.Node.Retention

/-!
# Where bodies come from

A server writes a body only for a push that names its hash and, where a write token is set, presents
it. So after any run of a server, with whatever failures and kills, each body in its store was there
before or was sent to it by such a push.

## Main definitions

* `PushedCall`, `FromPushes`: calls that store pushed bodies only, and what comes of them

## Main results

* `pushedCall_handlePutObject`: the calls of a push
* `bodies_were_pushed`: where the bodies of a server come from
-/

namespace SporePeer

open Effects Text

/-- A call that gives a name of a body to a file only if it holds a body that may be stored, and
the name is that of its hash. -/
def PushedCall {σ : Type} (build : Build) (may : Bytes → Prop) (w : World σ) :
    (Σ β, Op β) → Prop
  | ⟨_, .write name _⟩ => ¬ IsBodyFile name
  | ⟨_, .rename src dst⟩ => IsBodyFile dst → ∀ d, w.dir.lookup src = some d →
    may d.content ∧ dst = bodyFile (cidOf build d.content)
  | _ => True

/-- Every body of `dir` is one of `old`, or one that may be stored, under its hash. -/
def FromPushes (build : Build) (may : Bytes → Prop) (old dir : Table String FileData) : Prop :=
  ∀ stem d, dir.lookup (bodyFile stem) = some d → old.lookup (bodyFile stem) = some d ∨
    may d.content ∧ stem = cidOf build d.content

section

variable {σ : Type} {env : Env σ} {build : Build} {may : Bytes → Prop} {w : World σ}
  {old : Table String FileData}

theorem FromPushes.refl (build : Build) (may : Bytes → Prop) (dir : Table String FileData) :
    FromPushes build may dir dir := fun _ _ => .inl

theorem FromPushes.insert {dir : Table String FileData} (h : FromPushes build may old dir)
    {name : String} (hname : ¬ IsBodyFile name) (d : FileData) :
    FromPushes build may old (dir.insert name d) := by
  intro stem d' hd'
  rw [Table.lookup_insert_eq, if_neg fun heq => hname ⟨stem, heq.symm⟩] at hd'
  exact h stem d' hd'

theorem FromPushes.erase {dir : Table String FileData} (h : FromPushes build may old dir)
    (name : String) : FromPushes build may old (dir.erase name) := by
  intro stem d hd
  rw [Table.lookup_erase_eq] at hd
  split at hd
  · cases hd
  · exact h stem d hd

/-- **One call.** -/
theorem FromPushes.pushedCall {c : Σ β, Op β} (hc : PushedCall build may w c)
    (h : FromPushes build may old w.dir) :
    FromPushes build may old (env.handle _ c.2 w).1.dir := by
  obtain ⟨β, e⟩ := c
  cases e with
  | write name content =>
    simp only [Env.handle, Env.write_dir]
    split
    · exact h
    · exact h.insert hc _
  | rename src dst =>
    simp only [Env.handle, Env.rename]
    rcases env.fault w.tick with _ | f
    · rcases hd : w.dir.lookup src with _ | d
      · exact h
      · intro stem d' hd'
        rw [Table.lookup_insert_eq] at hd'
        split at hd'
        · -- the file that is moved here
          rename_i heq
          obtain rfl := Option.some.inj hd'
          obtain ⟨hmay, hdst⟩ := hc ⟨stem, heq.symm⟩ d hd
          exact .inr ⟨hmay, bodyFile_inj.mp (heq.trans hdst)⟩
        · exact h.erase src stem d' hd'
    · exact h
  | removeFile name =>
    simp only [Env.handle, Env.removeFile]
    split
    · exact h
    · exact h.erase name
  | setWins l x => cases l <;> exact h
  | _ => exact h

theorem permits_pushedCall (env : Env σ) (build : Build) (may : Bytes → Prop) :
    Permits fun _ m => ∀ w, EachCall env.handle (PushedCall build may) m w := by
  refine permits_eachCall (bodiless_avoidsBodies.mono fun β e he w => ?_)
  cases e with
  | write name content => exact he
  | rename src dst => exact fun h => absurd h he.2
  | _ => trivial

/-! ## Pushes -/

/-- A body is moved into place only once it has been written. -/
theorem pushedCall_storeBody (env : Env σ) (dir : String) {body : Bytes} (hmay : may body)
    (w : World σ) :
    EachCall env.handle (PushedCall build may) (storeBody build dir body) w := by
  refine eachCall_bind (eachCall_refuseIf _ _) fun _ _ _ =>
    eachCall_bind (eachCall_refuseIf _ _) fun _ _ _ => eachCall_bind (eachCall_ask trivial)
      fun _ present _ => ?_
  split
  · exact eachCall_pure _
  refine eachCall_bind (eachCall_ask trivial) fun _ made _ =>
    eachCall_bind (eachCall_orFail _) fun v _ _ =>
    eachCall_bind (eachCall_ask (not_isBodyFile_incomingFile _)) fun v₁ written hwrite =>
    eachCall_bind (eachCall_orFail _) fun v₂ _ hok =>
    eachCall_bind (eachCall_ask fun _ d hd => ?_) fun _ renamed _ => ?_
  · -- the write has succeeded, so the incoming file holds the body
    rw [exec_orFail] at hok
    obtain ⟨rfl, hok⟩ := Prod.mk.inj hok
    rw [exec_ask] at hwrite
    obtain ⟨rfl, hwritten⟩ := Prod.mk.inj hwrite
    obtain rfl := Except.ok.inj (Except.ok.inj hwritten)
    simp only [Env.handle, Env.write] at hd hok
    rcases hfault : env.fault v.tick with _ | f
    · simp only [hfault, AList.lookup_insert] at hd
      obtain rfl := Option.some.inj hd
      exact ⟨hmay, rfl⟩
    · simp only [hfault] at hok
      split at hok <;> cases hok
  · split
    · exact eachCall_bind (eachCall_ask trivial) fun _ _ _ => eachCall_throw _
    · exact eachCall_pure _

/-- **The calls of a push** store its body, if it presents what the server asks for. -/
theorem pushedCall_handlePutObject (env : Env σ) {cfg : ServeConfig} {dir ip : String}
    {msg : Rpc2Message} (hmethod : msg.method = "Peer.PutObject")
    (hmay : ∀ body, Pushed build cfg msg body → may body) (w : World σ) :
    EachCall env.handle (PushedCall build may) (handlePutObject build cfg dir ip msg) w := by
  have hP : Permits fun _ m => ∀ w, EachCall env.handle (PushedCall build may) m w :=
    permits_pushedCall env build may
  unfold handlePutObject
  split
  · exact hP.keeps (only_respond_keepsFiles _) w
  rename_i body hbody
  refine eachCall_bind (hP.keeps (only_attempt (only_enforceWritePolicy_keepsFiles _ _ _ _)) w)
    fun w₁ policy hpolicy => ?_
  split
  · exact hP.keeps (only_respond_keepsFiles _) w₁
  refine eachCall_bind (eachCall_orPanic _) fun w₂ blid hblid => ?_
  rw [exec_orPanic] at hblid
  split
  · exact hP.keeps (only_respond_keepsFiles _) w₂
  rename_i hsame
  have hpushed : Pushed build cfg msg body := by
    refine ⟨hmethod, hbody, ?_, fun tok htok => ?_⟩
    · -- the hash that is named is the one computed here
      obtain ⟨-, hblid⟩ := Prod.mk.inj hblid
      cases hread : (hexDecode (asBytes (payloadText msg "BLID"))).run with
      | error p =>
        rw [hread] at hblid
        cases hblid
      | ok r =>
        rw [hread] at hblid
        obtain rfl : r = blid := Except.ok.inj (Except.ok.inj hblid)
        rw [Bool.not_eq_false, Option.any_eq_true] at hsame
        obtain ⟨b, rfl, hb⟩ := hsame
        rw [(of_decide_eq_true hb).2]
    · have hany : Bodiless fun _ _ => True := bodiless_avoidsBodies.mono fun _ _ _ => trivial
      have hgate : Among env.handle (fun _ => True) (fun _ _ => True) (fun _ => ∀ tok,
          cfg.token = some tok → payloadText msg "TOKEN" = tok)
          (enforceWritePolicy cfg ip body.length msg.payload) :=
        among_enforceWritePolicy hany cfg ip body.length msg.payload
      exact hgate.exec (fun _ _ _ _ _ => trivial) trivial (exec_attempt_eq_ok.mp hpolicy) tok htok
  refine eachCall_bind (eachCall_attempt (pushedCall_storeBody env dir (hmay _ hpushed) w₂))
    fun w₃ stored _ => ?_
  split
  · exact hP.keeps (only_bind (only_orPanic _) fun _ => only_bind (only_orPanic _) fun _ =>
      only_respond_keepsFiles _) w₃
  · exact hP.keeps (only_respond_keepsFiles _) w₃

/-! ## Runs -/

/-- The task of an event. -/
def NodeEvent.task : NodeEvent → Task
  | .done t => t
  | .killed t _ => t

/-- One of the connections of a run pushes the body. -/
def PushedIn (build : Build) (events : List NodeEvent) (body : Bytes) : Prop :=
  ∃ e ∈ events, ∃ cfg ip frames, e.task = .connection cfg ip frames ∧
    ∃ frame ∈ frames, ∃ msg, decoded frame = some msg ∧ Pushed build cfg msg body

variable {dir : String} {readError : String → String}

/-- The calls of a task that fetches nothing. -/
theorem pushedCall_task {t : Task} (hpull : t ≠ .pull)
    (hmay : ∀ cfg ip frames, t = .connection cfg ip frames → ∀ frame ∈ frames, ∀ msg,
      decoded frame = some msg → ∀ body, Pushed build cfg msg body → may body) (w : World σ) :
    EachCall env.handle (PushedCall build may) (t.program build dir readError) w := by
  have hP : Permits fun _ m => ∀ w, EachCall env.handle (PushedCall build may) m w :=
    permits_pushedCall env build may
  cases t with
  | start cfg => exact hP.fabricOpen build cfg w
  | connection cfg ip frames =>
    exact hP.handleClient (fun frame hframe msg hdec hput =>
      pushedCall_handlePutObject env hput (hmay cfg ip frames rfl frame hframe msg hdec)) w
  | pull => exact absurd rfl hpull
  | push token =>
    exact hP.keeps (only_bind (only_pushStream_keepsFiles build dir token readError)
      fun _ => only_pure _) w
  | peers call => exact eachCall_bind (hP.peersCall dir call w) fun _ _ _ => eachCall_pure _

/-- The bodies are pushed ones, even where a write is torn. -/
theorem filesSurvive_pushedCall (env : Env σ) (build : Build) (may : Bytes → Prop)
    (old : Table String FileData) :
    FilesSurvive env (PushedCall build may) (FromPushes build may old) where
  call _ _ hc hI := hI.pushedCall hc
  tornWrite _ _ _ _ hc hI := hI.insert hc _

theorem FromPushes.trans {a b c : Table String FileData} (hab : FromPushes build may a b)
    (hbc : FromPushes build may b c) : FromPushes build may a c := by
  intro stem d hd
  rcases hbc stem d hd with hb | hnew
  · exact hab stem d hb
  · exact .inr hnew

theorem FromPushes.mono {may' : Bytes → Prop} {dir : Table String FileData}
    (h : FromPushes build may old dir) (hmay : ∀ body, may body → may' body) :
    FromPushes build may' old dir :=
  fun stem d hd => (h stem d hd).imp_right fun hnew => ⟨hmay _ hnew.1, hnew.2⟩

/-- **One event.** -/
theorem fromPushes_nodeStep (env : Env σ) {e : NodeEvent} (hpull : e.task ≠ .pull) (w : World σ) :
    FromPushes build (PushedIn build [e]) w.dir (nodeStep env build dir readError w e).dir := by
  have hm : EachCall env.handle (PushedCall build (PushedIn build [e]))
      (e.task.program build dir readError) w :=
    pushedCall_task hpull (fun cfg ip frames htask frame hframe msg hdec body hbody =>
      ⟨e, List.mem_singleton_self e, cfg, ip, frames, htask, frame, hframe, msg, hdec, hbody⟩) w
  have hs := filesSurvive_pushedCall env build (PushedIn build [e]) w.dir
  cases e with
  | done t => exact hs.run hm (.refl _ _ _)
  | killed t p => exact hs.crash hm (.refl _ _ _) p

/-- **Where bodies come from**: after anything that a server does, under any failures and kills,
each body in its store was there before, or a connection has pushed it under its hash, with the
write token of the server that took it. -/
theorem bodies_were_pushed (env : Env σ) (build : Build) (dir : String)
    (readError : String → String) {events : List NodeEvent}
    (hpull : ∀ e ∈ events, e.task ≠ .pull) (w : World σ) :
    FromPushes build (PushedIn build events) w.dir
      (nodeRun env build dir readError events w).dir := by
  induction events generalizing w with
  | nil => exact .refl _ _ _
  | cons e events ih =>
    obtain ⟨he, hevents⟩ := List.forall_mem_cons.mp hpull
    refine ((fromPushes_nodeStep env he w).mono fun body hbody => ?_).trans
      ((ih hevents _).mono fun body hbody => ?_)
    · obtain ⟨e', he', hbody⟩ := hbody
      rw [List.mem_singleton.mp he'] at hbody
      exact ⟨e, List.mem_cons_self, hbody⟩
    · obtain ⟨e', he', hbody⟩ := hbody
      exact ⟨e', List.mem_cons_of_mem _ he', hbody⟩

end

/-- A push is killed before it stores its body, and is sent again. -/
theorem bodies_were_pushed_again :
    let env : Env Unit := .still (fun p _ => (p, .error "closed")) 60
    let build := Build.leading
    let frame := Cbor.message "Peer.PutObject" 1 ""
      (putobjectRequest (build.sha256 [7]) [7] "open sesame")
    let t : Task := .connection { token := some "open sesame" } "ip" [frame]
    let events := [.done (.start {}), .killed t ⟨7, none⟩, .done t]
    let dir := (nodeRun env build "" id events (.fresh ())).dir
    (dir.lookup (bodyFile (cidOf build [7]))).map (·.content) = some [7] ∧
      PushedIn build events [7] := by
  intro env build frame t events dir
  have hstored : (dir.lookup (bodyFile (cidOf build [7]))).map (·.content) = some [7] := by
    decide +kernel
  refine ⟨hstored, ?_⟩
  obtain ⟨d, hd, hcontent⟩ := Option.map_eq_some_iff.mp hstored
  have hpull : ∀ e ∈ events, e.task ≠ .pull := by
    intro e he htask
    simp only [events, List.mem_cons, List.not_mem_nil, or_false] at he
    rcases he with rfl | rfl | rfl <;> cases htask
  rcases bodies_were_pushed env build "" id hpull (.fresh ()) _ d hd with hold | ⟨hpushed, -⟩
  · cases hold
  · rw [← hcontent]
    exact hpushed

end SporePeer
