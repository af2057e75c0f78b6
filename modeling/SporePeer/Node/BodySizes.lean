import Mathlib.Data.List.Induction
import SporePeer.Library.Outcomes
import SporePeer.Node.Serving
import SporePeer.Node.StoreNaming

/-!
# The sizes of bodies

A push stores no empty body and none over the limit, a sync pass stores whatever hashes to its name.
So the sizes of the bodies in a store are right exactly as long as the peers of its passes serve
nothing else.

## Main definitions

* `Fits`, `AllFit`: a body of an accepted size, and a store of such bodies
* `Meets`: the entries that a pass comes to, and the states in which it does
* `FetchesUnfit`: an entry for which the pass writes a body of another size

## Main results

* `allFit_handleRpc2`: requests keep the sizes
* `allFit_syncStream`: so does a pass that fetches no other body
* `fit_runStore`: so do runs, and what they store can be served and pushed
-/

namespace SporePeer

open Effects Text

/-- The sizes that `store_body` accepts. -/
def Fits (body : Bytes) : Prop := 1 ≤ body.length ∧ body.length ≤ maxBodyBytes

instance (body : Bytes) : Decidable (Fits body) := inferInstanceAs (Decidable (_ ∧ _))

/-- The bodies in `dir` that are not there in `old` have sizes that `store_body` accepts. -/
def AllFit (old dir : Table String FileData) : Prop :=
  ∀ cid d, dir.lookup (bodyFile cid) = some d → old.lookup (bodyFile cid) = some d ∨ Fits d.content

section

variable {old dir : Table String FileData}

theorem AllFit.refl (dir : Table String FileData) : AllFit dir dir := fun _ _ => .inl

theorem AllFit.erase (h : AllFit old dir) (name : String) : AllFit old (dir.erase name) := by
  intro c d hd
  rw [Table.lookup_erase_eq] at hd
  split at hd
  · cases hd
  · exact h c d hd

theorem AllFit.insert_body (h : AllFit old dir) (name : String) {d : FileData}
    (hd : Fits d.content) : AllFit old (dir.insert name d) := by
  intro c d' hd'
  rw [Table.lookup_insert_eq] at hd'
  split at hd'
  · cases hd'
    exact .inr hd
  · exact h c d' hd'

theorem AllFit.insert_incoming (h : AllFit old dir) (c : String) (d : FileData) :
    AllFit old (dir.insert (incomingFile c) d) := by
  intro c' d' hd'
  rw [Table.lookup_insert_eq, if_neg (bodyFile_ne_incomingFile _ _)] at hd'
  exact h c' d' hd'

end

/-! ## Requests -/

/-- The calls that leave the files alone. -/
def KeepsFiles : (β : Type) → Op β → Prop
  | _, .write _ _ => False
  | _, .rename _ _ => False
  | _, .removeFile _ => False
  | _, _ => True

section

variable {σ : Type} {env : Env σ} {build : Build} {cfg : ServeConfig} {dir ip : String}
  {w : World σ} {old : Table String FileData}

theorem dir_of_keepsFiles {α : Type} {m : Fallible Op α} (hm : Only KeepsFiles m) (w : World σ) :
    (exec env.handle m w).1.dir = w.dir := by
  refine hm.invariant (I := fun v : World σ => v.dir = w.dir) (fun γ e v he hv => ?_) rfl
  cases e with
  | write name content => exact he.elim
  | rename src dst => exact he.elim
  | removeFile name => exact he.elim
  | setWins l x => cases l <;> exact hv
  | _ => exact hv

/-- What a write leaves: nothing new, or a file with these contents. -/
def Env.leaves (env : Env σ) (t : ℕ) (content : Bytes) : Option Bytes :=
  match env.fault t with
  | none => some content
  | some f => f.left.map fun n => content.take n

theorem Env.write_dir (env : Env σ) (w : World σ) (name : String) (content : Bytes) :
    (env.write w name content).1.dir =
      match env.leaves w.tick content with
      | none => w.dir
      | some b => w.dir.insert name ⟨b, env.stamp w.tick⟩ := by
  rw [Env.write, Env.leaves]
  rcases env.fault w.tick with _ | ⟨text, _ | n⟩ <;> rfl

/-- A push leaves no body of another size, whatever fails. -/
theorem allFit_storeBody (h : AllFit old w.dir) (body : Bytes) :
    AllFit old (exec env.handle (storeBody build dir body) w).1.dir := by
  rw [storeBody, exec_refuseIf_bind]
  split
  · exact h
  rename_i hempty
  rw [exec_refuseIf_bind]
  split
  · exact h
  rename_i hlarge
  have hfits : Fits body := ⟨List.length_pos_iff.mpr hempty, not_lt.mp hlarge⟩
  rw [exec_ask_bind]
  split
  · exact h
  refine exec_bind_invariant (I := fun v : World σ => AllFit old v.dir) h fun made v hv => ?_
  refine exec_bind_invariant (I := fun v : World σ => AllFit old v.dir) hv fun _ v hv => ?_
  rw [exec_ask_bind]
  simp only [Env.handle]
  -- the incoming file is renamed only if it is complete
  rcases hfault : env.fault v.tick with _ | f
  · have hwrite : env.write v (incomingFile (cidOf build body)) body =
        ({ v.next with
            dir := v.dir.insert (incomingFile (cidOf build body)) ⟨body, env.stamp v.tick⟩ },
          .ok ()) := by
      rw [Env.write, hfault]
    rw [hwrite, Except.mapError, exec_orFail_ok_bind, exec_ask_bind]
    simp only [Env.handle, Env.rename, World.next]
    rcases env.fault (v.tick + 1) with _ | f
    · simp only [AList.lookup_insert]
      exact ((hv.insert_incoming _ _).erase _).insert_body _ hfits
    · simp only [exec_ask_bind, Env.handle, Env.removeFile]
      split
      · exact hv.insert_incoming _ _
      · exact (hv.insert_incoming _ _).erase _
  · have hdir : AllFit old (env.write v (incomingFile (cidOf build body)) body).1.dir := by
      rw [Env.write_dir]
      split
      · exact hv
      · exact hv.insert_incoming _ _
    have herr : (env.write v (incomingFile (cidOf build body)) body).2 = .error f.text := by
      rw [Env.write, hfault]
      dsimp only
      split <;> rfl
    rw [herr]
    exact hdir

theorem only_enforceWritePolicy_keepsFiles (cfg : ServeConfig) (ip : String) (len : ℕ)
    (payload : Value) : Only KeepsFiles (enforceWritePolicy cfg ip len payload) := by
  refine only_bind (only_ask trivial) fun _ => only_bind (tidy_allow (fun _ => trivial)
    (fun _ => trivial) trivial (fun _ => trivial) _ _ _).only fun _ =>
    only_bind (only_refuseIf _ _) fun _ => only_bind (only_refuseIf _ _) fun _ => ?_
  split
  · exact only_bind (tidy_storeBytes trivial fun _ => trivial).only fun _ => only_refuseIf _ _
  · exact only_pure _

theorem only_respond_keepsFiles (frame : Bytes) : Only KeepsFiles (respond frame) :=
  only_ask trivial

theorem allFit_handlePutObject (h : AllFit old w.dir) (msg : Rpc2Message) :
    AllFit old (exec env.handle (handlePutObject build cfg dir ip msg) w).1.dir := by
  have hkeeps {α : Type} {m : Fallible Op α} (hm : Only KeepsFiles m) {v : World σ}
      (hv : AllFit old v.dir) : AllFit old (exec env.handle m v).1.dir :=
    (dir_of_keepsFiles hm v).symm ▸ hv
  unfold handlePutObject
  split
  · exact hkeeps (only_respond_keepsFiles _) h
  refine exec_bind_invariant (I := fun v : World σ => AllFit old v.dir) (hkeeps (only_attempt
    (only_enforceWritePolicy_keepsFiles _ _ _ _)) h) fun policy v hv => ?_
  split
  · exact hkeeps (only_respond_keepsFiles _) hv
  refine exec_bind_invariant (I := fun v : World σ => AllFit old v.dir) (hkeeps (only_orPanic _) hv)
    fun blid v hv => ?_
  split
  · exact hkeeps (only_respond_keepsFiles _) hv
  refine exec_bind_invariant (I := fun v : World σ => AllFit old v.dir) ?_ fun stored v hv => ?_
  · rw [exec_attempt]
    exact allFit_storeBody hv _
  split
  · exact hkeeps (only_bind (only_orPanic _) fun _ => only_bind (only_orPanic _) fun _ =>
      only_respond_keepsFiles _) hv
  · exact hkeeps (only_respond_keepsFiles _) hv

/-- **Requests keep the sizes** of the bodies. -/
theorem allFit_handleRpc2 (h : AllFit old w.dir) (msg : Rpc2Message) :
    AllFit old (exec env.handle (handleRpc2 build cfg dir ip msg) w).1.dir := by
  have hkeeps {m : Fallible Op Unit} (hm : Only KeepsFiles m) :
      AllFit old (exec env.handle m w).1.dir := (dir_of_keepsFiles hm w).symm ▸ h
  have hchain : Only KeepsFiles chainView := only_chainView trivial fun _ => trivial
  unfold handleRpc2
  split
  · exact hkeeps (only_bind hchain fun _ => only_respond_keepsFiles _)
  · exact hkeeps (only_bind hchain fun _ => only_respond_keepsFiles _)
  · refine hkeeps (only_bind (only_attempt (only_serveBody (fun _ => trivial) _ _)) fun r => ?_)
    cases r <;> exact only_respond_keepsFiles _
  · exact allFit_handlePutObject h msg
  · exact hkeeps (only_respond_keepsFiles _)

end

/-! ## Passes -/

section

variable (env : Env Peer) (build : Build) (dir : String)

/-- The pass from `w` comes to the entry with index `i` in the state `v`. -/
def Meets (w : World Peer) (i : ℕ) (entry : Value) (v : World Peer) : Prop :=
  ∃ hs chain counts, w.peer.call "Peer.Handshake" 1 (handshakeRequest 1) = .ok hs ∧ hs.error = "" ∧
    w.peer.call "Peer.Chain" 2 (chainRequest 0 5000) = .ok chain ∧ chain.error = "" ∧
    (chain.payload.asArray.getD [])[i]? = some entry ∧
    exec env.handle (syncEntries build dir 0 ((chain.payload.asArray.getD []).take i) 0 0)
      w.next.next = (v, .ok (.ok counts))

/-- In the state `v`, the entry with index `i` names a body that is not there, within the cap; the
peer answers with a body of that hash; and what the write of it leaves has another size than
`store_body` accepts. -/
def FetchesUnfit (i : ℕ) (entry : Value) (v : World Peer) : Prop :=
  i < syncCap ∧ ∃ top text blid obj body left, chainPair entry = .ok (top, text) ∧
    readBlid text = .ok (some blid) ∧ env.lookup v (bodyFile text) = none ∧
    v.peer.call "Peer.GetObject" (100 + i) (getobjectRequest blid) = .ok obj ∧ obj.error = "" ∧
    verifiedBody build obj.payload top blid.toList = .ok body ∧
    env.leaves (v.tick + 2) body = some left ∧ ¬ Fits left

end

section

variable {env : Env Peer} {build : Build} {dir : String} {w : World Peer}
  {old : Table String FileData}

/-- An entry that fetches no body of another size keeps the sizes. -/
theorem allFit_syncEntry (hnet : env.net = peerNet) {i : ℕ} {entry : Value}
    (hunfit : ¬ FetchesUnfit env build i entry w) (h : AllFit old w.dir) :
    AllFit old (exec env.handle (syncEntry build dir i entry) w).1.dir := by
  rw [exec_syncEntry]
  split
  · exact h
  rename_i top text hpair
  split
  · exact h
  · exact h
  rename_i blid hread
  split
  · exact h
  rename_i habsent
  split
  · exact h
  rename_i hcap
  -- nothing is written before the peer has answered for this entry
  have hobj : objectAnswer env w.next i blid =
      (w.next.next, w.peer.call "Peer.GetObject" (100 + i) (getobjectRequest blid)) := by
    simp only [objectAnswer, exchange_peer hnet, Peer.call, World.next]
  rw [exec_fetchObject, hobj]
  split
  · rename_i hx
    obtain ⟨rfl, -⟩ := Prod.mk.inj hx
    exact h
  rename_i w' obj hx
  obtain ⟨rfl, hcall⟩ := Prod.mk.inj hx
  split
  · exact h
  rename_i herr
  split
  · exact h
  rename_i body hbody
  dsimp only
  rw [Env.write_dir]
  split
  · exact h
  rename_i left hleft
  -- what the disk is left with of the body, all of it or a part
  apply h.insert_body
  by_contra hfits
  exact hunfit ⟨not_le.mp hcap, top, text, blid, obj, body, left, hpair, hread,
    by simpa using habsent, hcall, not_not.mp herr, hbody, hleft, hfits⟩

/-- What every entry preserves in the state in which the loop comes to it, the loop preserves. -/
theorem syncEntries_invariant_met {I : World Peer → Prop} {i fetched had : ℕ}
    {entries : List Value}
    (hI : ∀ k entry v counts, entries[k]? = some entry →
      exec env.handle (syncEntries build dir i (entries.take k) fetched had) w =
        (v, .ok (.ok counts)) →
      I v → I (exec env.handle (syncEntry build dir (i + k) entry) v).1) (hw : I w) :
    I (exec env.handle (syncEntries build dir i entries fetched had) w).1 := by
  induction entries generalizing i fetched had w with
  | nil => exact hw
  | cons entry rest ih =>
    have h0 : I (exec env.handle (syncEntry build dir i entry) w).1 := hI 0 entry w _ rfl rfl hw
    rw [exec_syncEntries_cons]
    generalize hx : exec env.handle (syncEntry build dir i entry) w = x at h0 ⊢
    rcases x with ⟨w', p | e | progress⟩
    · exact h0
    · exact h0
    -- the entries after the first are met as in the loop over the rest
    have hrest (f h : ℕ) (hgo : ∀ l, exec env.handle (syncEntries build dir i (entry :: l) fetched
        had) w = exec env.handle (syncEntries build dir (i + 1) l f h) w') :
        I (exec env.handle (syncEntries build dir (i + 1) rest f h) w').1 := by
      refine ih (fun k e v counts hk hrun hv => ?_) h0
      rw [Nat.add_right_comm, Nat.add_assoc]
      exact hI (k + 1) e v counts hk (by rw [List.take_succ_cons, hgo, hrun]) hv
    cases progress with
    | capped => exact h0
    | skipped => exact hrest _ _ fun l => by rw [exec_syncEntries_cons, hx]
    | had => exact hrest _ _ fun l => by rw [exec_syncEntries_cons, hx]
    | fetched => exact hrest _ _ fun l => by rw [exec_syncEntries_cons, hx]

/-- **A pass keeps the sizes** of the bodies when no entry it comes to has another size. -/
theorem allFit_syncStream (hnet : env.net = peerNet)
    (hpass : ∀ i entry v, Meets env build dir w i entry v → ¬ FetchesUnfit env build i entry v)
    (h : AllFit old w.dir) : AllFit old (exec env.handle (syncStream build dir) w).1.dir := by
  rw [exec_syncStream]
  simp only [exchange_peer hnet]
  split
  · exact h
  rename_i hs hhs
  split
  · exact h
  rename_i hserr
  split
  · exact h
  rename_i chain hchain
  split
  · exact h
  rename_i chainerr
  refine syncEntries_invariant_met (w := w.next.next) (I := fun v : World Peer => AllFit old v.dir)
    (fun k entry v counts hk hrun hv => ?_) h
  rw [Nat.zero_add]
  exact allFit_syncEntry hnet (hpass k entry v ⟨hs, chain, counts, hhs, not_not.mp hserr, hchain,
    not_not.mp chainerr, hk, hrun⟩) hv

end

/-! ## Runs -/

/-- A body of an accepted size is not refused for its size. -/
theorem storeBody_accepts {σ : Type} (env : Env σ) (build : Build) (dir : String) {body : Bytes}
    (h : Fits body) (w : World σ) {e : String}
    (he : (exec env.handle (storeBody build dir body) w).2 = .ok (.error e)) :
    e ≠ "400 empty body" ∧ e ≠ "413 body too large" := by
  -- the texts of failed operations start with other letters
  have hstart {a : String} (t : String) (ha : a.toList.head?.any (· ≠ '4') = true) :
      (a ++ t).toList.head? ≠ some '4' := by
    obtain ⟨c, hc, hne⟩ := (Option.any_eq_true _ _).mp ha
    rw [String.toList_append, List.head?_append, hc, Option.some_or]
    simpa using hne
  have herrors : ErrorsIn (fun e => e.toList.head? ≠ some '4') (storeBody build dir body) := by
    refine errorsIn_bind (errorsIn_refuseIf _ fun hempty => ?_) fun _ =>
      errorsIn_bind (errorsIn_refuseIf _ fun hlarge => absurd h.2 (not_le.mpr hlarge)) fun _ =>
      errorsIn_bind (errorsIn_ask _) fun present => ?_
    · exact absurd h.1 (by rw [hempty]; decide)
    split
    · exact errorsIn_pure _
    refine errorsIn_bind (errorsIn_ask _) fun made => errorsIn_bind (errorsIn_orFail ?_) fun _ =>
      errorsIn_bind (errorsIn_ask _) fun written => errorsIn_bind (errorsIn_orFail ?_) fun _ =>
      errorsIn_bind (errorsIn_ask _) fun renamed => ?_
    · rcases made with e | ⟨⟩ <;> rintro _ ⟨⟩
      simp only [String.append_assoc]
      exact hstart _ rfl
    · rcases written with e | ⟨⟩ <;> rintro _ ⟨⟩
      simp only [String.append_assoc]
      exact hstart _ rfl
    split
    · refine errorsIn_bind (errorsIn_ask _) fun _ => errorsIn_throw ?_
      simp only [String.append_assoc]
      exact hstart _ rfl
    · exact errorsIn_pure _
  have hhead := herrors env.handle w e he
  constructor <;> rintro rfl <;> exact hhead rfl

/-- A response with such a body fits in a frame. -/
theorem readFrame_of_fits {body : Bytes} (h : Fits body) (msg : Rpc2Message) :
    readFrame (okFrame msg (getobjectResponse body)) =
      .ok (okFrame msg (getobjectResponse body)) := by
  obtain ⟨hpos, hle⟩ := length_okFrame msg (getobjectResponse body)
  have hhead := length_head_le 2 body.length
  have hlen : (getobjectResponse body).length ≤ body.length + 9 := by
    rw [getobjectResponse, Cbor.bytes, List.length_append]
    omega
  have hmax := h.2
  rw [maxBodyBytes] at hmax
  apply if_neg
  rw [maxFrame]
  omega

/-- **The sizes of bodies.** In a run whose passes come to no entry of another size, every body that
is created has a size that `store_body` accepts: it can be served in one frame, and no peer refuses
it for its size. -/
theorem fit_runStore {env : Env Peer} (hnet : env.net = peerNet) (build : Build) (dir : String)
    (events : List StoreEvent) (w₀ : World Peer)
    (hpass : ∀ pre peer post, events = pre ++ .pass peer :: post → ∀ i entry v,
      Meets env build dir { runStore env build dir pre w₀ with peer := peer } i entry v →
        ¬ FetchesUnfit env build i entry v) :
    let w := runStore env build dir events w₀
    ∀ cid d, w.dir.lookup (bodyFile cid) = some d → w₀.dir.lookup (bodyFile cid) = some d ∨
      Fits d.content ∧
      (∀ msg, readFrame (okFrame msg (getobjectResponse d.content)) =
        .ok (okFrame msg (getobjectResponse d.content))) ∧
      ∀ {σ : Type} (penv : Env σ) (pdir : String) (v : World σ) (e : String),
        (exec penv.handle (storeBody build pdir d.content) v).2 = .ok (.error e) →
          e ≠ "400 empty body" ∧ e ≠ "413 body too large" := by
  -- by induction on the events, the last one last
  have hall : AllFit w₀.dir (runStore env build dir events w₀).dir := by
    induction events using List.reverseRecOn with
    | nil => exact .refl _
    | append_singleton events e ih =>
      have hbefore : AllFit w₀.dir (runStore env build dir events w₀).dir :=
        ih fun pre peer post he => hpass pre peer (post ++ [e]) (by rw [he]; simp)
      rw [runStore, List.foldl_append]
      cases e with
      | request cfg ip msg => exact allFit_handleRpc2 hbefore msg
      | pass peer =>
        exact allFit_syncStream (w := { runStore env build dir events w₀ with peer := peer }) hnet
          (hpass events peer [] rfl) hbefore
  intro w cid d hd
  refine (hall cid d hd).imp_right fun hfits => ⟨hfits, readFrame_of_fits hfits,
    fun penv pdir v e he => storeBody_accepts penv build pdir hfits v he⟩

/-- A push, and a pass against a peer that has another body. -/
theorem fit_runStore_push :
    let w := runStore (.still peerNet 0) .leading "" [
      .request {} "" ⟨"Peer.PutObject", 7, "", .object [("BLID", .string (cidOf .leading [1])),
        ("BODY", .string "01")]⟩,
      .pass (oneBody .leading [2])] (.fresh (oneBody .leading [2]))
    ((w.dir.lookup (bodyFile (cidOf .leading [1]))).isSome ∧
      (w.dir.lookup (bodyFile (cidOf .leading [2]))).isSome) ∧
    ∀ cid d, w.dir.lookup (bodyFile cid) = some d → Fits d.content := by
  intro w
  refine ⟨by decide +kernel, fun cid d hd => ?_⟩
  have hnet : (Env.still peerNet 0).net = peerNet := rfl
  have hfit := fit_runStore hnet .leading "" [
    .request {} "" ⟨"Peer.PutObject", 7, "", .object [("BLID", .string (cidOf .leading [1])),
      ("BODY", .string "01")]⟩,
    .pass (oneBody .leading [2])] (.fresh (oneBody .leading [2]))
    (fun pre peer post he i entry v hmeets => ?_) cid d hd
  · rcases hfit with hold | hfit
    · exact (Option.some_ne_none _ hold.symm).elim
    · exact hfit.1
  obtain rfl : peer = oneBody .leading [2] := by
    have hmem : StoreEvent.pass peer ∈ pre ++ .pass peer :: post := by simp
    rw [← he] at hmem
    simpa using hmem
  -- the one entry is asked for, and the answer to it is the body
  rintro ⟨-, top, text, blid, obj, body, left, hpair, hread, -, hcall, -, hbody, hleft, hunfit⟩
  obtain ⟨hs, chain, counts, hhs, hserr, hchain, herr, hentry, hrun⟩ := hmeets
  obtain ⟨rfl, rfl, rfl⟩ := listsEntry_oneBody
    ⟨hs, chain, entry, hhs, hserr, hchain, herr, hentry, hpair⟩
  rw [cidOf, readBlid_encode] at hread
  cases hread
  rw [List.take_zero] at hrun
  cases hrun
  have hserved : ((oneBody .leading [2]).call "Peer.GetObject" (100 + 0)
      (getobjectRequest (Build.leading.sha256 [2]))).toOption.map (fun obj =>
        (verifiedBody .leading obj.payload 0 (Build.leading.sha256 [2]).toList).toOption) =
      some (some [2]) := by
    decide +kernel
  rw [show (oneBody .leading [2]).call "Peer.GetObject" (100 + 0) _ = _ from hcall] at hserved
  simp only [Except.toOption, Option.map_some, hbody, Option.some.injEq] at hserved
  subst hserved
  cases hleft
  exact hunfit (by decide)

/-- A pass stores the empty body, which a push of it is refused for. -/
theorem empty_body_stored :
    let build := Build.const (.replicate 32 0xaa)
    let w := runStore (.still peerNet 0) build "" [.pass (oneBody build [])]
      (.fresh (oneBody build []))
    (w.dir.lookup (bodyFile (cidOf build []))).map (·.content) = some [] ∧ ¬ Fits [] ∧
    (exec (Env.still peerNet 0).handle (storeBody build "" []) (.fresh (oneBody build []))).2 =
      .ok (.error "400 empty body") := by
  refine ⟨by decide +kernel, by decide, rfl⟩

end SporePeer
