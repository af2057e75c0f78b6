import SporePeer.Node.Requests

/-!
# Fetching what was stored

A body that a node has stored can be fetched from it: whatever the node does in between, however
often it is killed and started again, a client that asks for the body by its hash gets this body and
writes it to the file it was told to.

## Main definitions

* `fetchFrame`: the answer to a request for a body

## Main results

* `exec_fetch_held`: a body that a server holds is fetched
* `bodiesOf_storeBody`: a body that is acknowledged is held
* `fetched_after_push`: from the push to the fetch
-/

namespace SporePeer

open Effects Text

/-- The answer to a request for a body. -/
def fetchFrame : Except String Bytes → Bytes
  | .ok data => frameOk data
  | .error e => frameErr e

/-- The request for a body. -/
def fetchRequest (cid : String) : Value := .object [("cid", .string cid)]

section

variable {τ : Type} {senv : Env τ} {build : Build} {cfg : ServeConfig} {sdir ip : String}

/-! ## The server -/

/-- A request for a body is served from the store. -/
theorem handleRequest_fetch (cid : String) (s : World τ) :
    exec senv.handle (handleRequest build cfg ip (fetchRequest cid)) s =
      exec senv.handle (answering (serveBody build cid) fetchFrame) s := by
  have hverb : (((fetchRequest cid).get "verb").bind Value.asStr).isSome = false := rfl
  have hcid : (((fetchRequest cid).get "cid").bind Value.asStr).getD "" = cid := rfl
  rw [handleRequest, hverb, if_neg Bool.false_ne_true, hcid, answering, exec_bind, exec_bind]
  rcases exec senv.handle (attempt (serveBody build cid)) s with ⟨s', q | e | r⟩
  · rfl
  · rfl
  · cases r <;> rfl

/-- A body under its hash is served. -/
theorem exec_serveBody_held (hcalm : senv.Calm) {body : Bytes} {s : World τ}
    (hheld : bodiesOf s.dir (cidOf build body) = some body) (hfits : Fits body) :
    exec senv.handle (serveBody build (cidOf build body)) s = (s.next, .ok (.ok body)) := by
  have hshort : body.length < 2 ^ 63 := by
    have hle := hfits.2
    rw [maxBodyBytes] at hle
    omega
  have hread : senv.read s (bodyFile (cidOf build body)) = some body := by
    rw [Env.read, hcalm s.tick]
    change (bodiesOf s.dir (cidOf build body)).filter _ = _
    rw [hheld, Option.filter_some, if_pos (decide_eq_true hshort)]
  rw [cidOf] at hread ⊢
  rw [exec_serveBody, hread]
  dsimp only
  rw [if_neg (not_not.mpr rfl)]

/-- A body that is acknowledged is held, unless a file of its name held something else. -/
theorem bodiesOf_storeBody (hcalm : senv.Calm) {body : Bytes} {s s' : World τ} {cid : String}
    (hsame : ∀ b, bodiesOf s.dir (cidOf build body) = some b → b = body)
    (hrun : exec senv.handle (storeBody build sdir body) s = (s', .ok (.ok cid))) :
    Fits body ∧ cid = cidOf build body ∧ bodiesOf s'.dir cid = some body := by
  by_cases hfits : Fits body
  · refine ⟨hfits, ?_⟩
    rcases hlook : s.dir.lookup (bodyFile (cidOf build body)) with _ | d
    · obtain ⟨t, m, hstore⟩ := exec_storeBody_new hcalm sdir hfits hlook
      rw [hstore] at hrun
      obtain ⟨rfl, hcid⟩ := Prod.mk.inj hrun
      obtain rfl := Except.ok.inj (Except.ok.inj hcid)
      refine ⟨rfl, ?_⟩
      rw [bodiesOf, AList.lookup_insert]
      rfl
    · have hpresent : (s.dir.lookup (bodyFile (cidOf build body))).isSome := by
        rw [hlook]
        rfl
      rw [exec_storeBody_present hcalm sdir hfits hpresent] at hrun
      obtain ⟨rfl, hcid⟩ := Prod.mk.inj hrun
      obtain rfl := Except.ok.inj (Except.ok.inj hcid)
      refine ⟨rfl, ?_⟩
      have hheld : bodiesOf s.dir (cidOf build body) = some d.content := by
        rw [bodiesOf, hlook]
        rfl
      exact hheld.trans (congrArg some (hsame _ hheld))
  · obtain ⟨e, -, hstore⟩ := exec_storeBody_of_size senv build sdir s hfits
    rw [hstore] at hrun
    cases hrun

/-- What a directory holds under a hash, a directory that keeps its bodies holds as well. -/
theorem Keeps.bodiesOf {old dir : Table String FileData} (h : Keeps old dir) {cid : String}
    {b : Bytes} (hb : SporePeer.bodiesOf old cid = some b) : SporePeer.bodiesOf dir cid = some b := by
  obtain ⟨d, hd, hcontent⟩ := Option.map_eq_some_iff.mp hb
  exact Option.map_eq_some_iff.mpr ⟨d, h cid d hd, hcontent⟩

/-! ## The client -/

variable {env : ShellEnv (World τ)}

/-- **A body that the server holds is fetched.** -/
theorem exec_fetch_held (h : Connects env senv build cfg sdir ip) (hcalm : env.Calm)
    (hscalm : senv.Calm) {body : Bytes} {s : Shell (World τ)}
    (hheld : bodiesOf s.world.peer.dir (cidOf build body) = some body) (hfits : Fits body)
    (hstatus : build.sha256 (frameOk body) ≠ build.sha256 body)
    (hspoken : Spoken build (fetchRequest (cidOf build body))) (addr out : String) :
    ∃ s', exec env.shell (fetch build addr (cidOf build body) (some out)) s =
        (s', .ok (.ok ())) ∧ s'.outputs = s.outputs.insert out body ∧
      s'.world.dir = s.world.dir ∧ s'.world.peer.dir = s.world.peer.dir := by
  have hread : readFrame (frameOk body) = .ok (frameOk body) := by
    have hle := hfits.2
    rw [maxBodyBytes] at hle
    refine if_neg (not_or_intro (Nat.succ_ne_zero _) (not_lt.mpr ?_))
    rw [maxFrame, frameOk, List.length_cons]
    omega
  set sent : Shell (World τ) := { s with world := s.world.next }
  have hserve := exec_serveBody_held hscalm (s := sent.world.peer) hheld hfits
  have hanswer := exec_ask_spoken h hspoken (handleRequest_fetch _) (only_serveBody_sends build _)
    sent
  rw [hserve] at hanswer
  simp only [reading, fetchFrame, hread] at hanswer
  -- the connection, the request, the answer, and the file
  rw [fetch, exec_bind_ok (exec_connect h addr s), fetchStream]
  simp only [bind_assoc]
  rw [fetchRequest] at hanswer
  rw [exec_bind_ok hanswer, exec_orFail_ok_bind, parseFetchResponse_frameOk hstatus,
    exec_orPanic_ok_bind, exec_orFail_ok_bind]
  rw [outside, exec_ask_bind, ShellEnv.shell_writeOut hcalm]
  exact ⟨_, rfl, rfl, rfl, rfl⟩

/-- **From the push to the fetch**: a body that a node has acknowledged, over a free name or a file
of the same contents, can be fetched from it after anything that the node does since then. -/
theorem fetched_after_push (hscalm : senv.Calm) {body : Bytes} {w w' : World τ} {cid : String}
    (hsame : ∀ b, bodiesOf w.dir (cidOf build body) = some b → b = body)
    (hpush : exec senv.handle (storeBody build sdir body) w = (w', .ok (.ok cid)))
    (hstatus : build.sha256 (frameOk body) ≠ build.sha256 body)
    (hspoken : Spoken build (fetchRequest cid)) (readError : String → String)
    (events : List NodeEvent) (h : Connects env senv build cfg sdir ip) (hcalm : env.Calm)
    (addr out : String) {s : Shell (World τ)}
    (hserver : s.world.peer = nodeRun senv build sdir readError events w') :
    ∃ s', exec env.shell (fetch build addr cid (some out)) s = (s', .ok (.ok ())) ∧
      s'.outputs = s.outputs.insert out body := by
  obtain ⟨hfits, rfl, hheld⟩ := bodiesOf_storeBody hscalm hsame hpush
  have hkept := (keeps_nodeRun hscalm build sdir readError events w').bodiesOf hheld
  rw [← hserver] at hkept
  obtain ⟨s', hrun, hout, -⟩ := exec_fetch_held h hcalm hscalm hkept hfits hstatus hspoken addr out
  exact ⟨s', hrun, hout⟩

end

theorem peer_fresh {σ : Type} (peer : σ) : (World.fresh peer).peer = peer := rfl

/-- A body is pushed, the node is killed inside a pull and started again, and the body is
fetched. -/
theorem fetched_after_push_killed :
    let cid := cidOf .leading [7]
    let build := Build.leading.knowing [fetchRequest cid]
    let senv := Env.still peerNet 60
    let env : ShellEnv (World Peer) :=
      { toEnv := .still (serverNet senv build {} "" "ip") 60, dial := fun s _ => (s, .ok ()) }
    let w' := (exec senv.handle (storeBody build "" [7]) (.fresh (oneBody build [1, 2]))).1
    let events := [.killed .pull ⟨4, some 1⟩, .done (.start {})]
    let s : Shell (World Peer) := { world := .fresh (nodeRun senv build "" id events w') }
    ∃ s', exec env.shell (fetch build "a:1" cid (some "out")) s = (s', .ok (.ok ())) ∧
      s'.outputs = s.outputs.insert "out" [7] := by
  intro cid build senv env w' events s
  have hspoken : Spoken build (fetchRequest cid) :=
    spoken_knowing (by decide +kernel) List.mem_cons_self
  have hpush : exec senv.handle (storeBody build "" [7]) (.fresh (oneBody build [1, 2])) =
      (w', .ok (.ok cid)) := Prod.ext rfl (by decide +kernel)
  have hsame : ∀ b, bodiesOf (World.fresh (oneBody build [1, 2])).dir (cidOf build [7]) = some b →
      b = [7] := by
    intro b hb
    cases hb
  have hstatus : build.sha256 (frameOk [7]) ≠ build.sha256 [7] := by decide +kernel
  have hscalm : senv.Calm := Env.still_calm peerNet 60
  have hcalm : env.Calm := Env.still_calm _ 60
  have hconnects : Connects env senv build {} "" "ip" := ⟨rfl, fun _ _ => rfl⟩
  have hserver : s.world.peer = nodeRun senv build "" id events w' := peer_fresh _
  exact fetched_after_push hscalm hsame hpush hstatus hspoken id events hconnects hcalm "a:1" "out"
    hserver

end SporePeer
