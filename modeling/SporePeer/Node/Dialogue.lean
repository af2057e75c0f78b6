import SporePeer.Library.Outcomes
import SporePeer.Node.Holdings
import SporePeer.Node.PushProgress
import SporePeer.Node.SyncSafety

/-!
# The dialogue with a peer

Whatever a peer answers, a pass keeps to its part of the dialogue: a handshake, a request for the
chain, and then requests for bodies, or bodies, under increasing numbers and up to the cap. A pull
asks for bodies that the peer has listed and the store lacks, and a push sends bodies of the store
that hash to their names and that the peer has not listed.

## Main definitions

* `frames`: what a program sends to its peer
* `InOrder`, `Dialogue`: numbered frames, and the course of a pass
* `answeredChain`: the chain that the peer answers with
* `Wanted`, `Offered`: a body that a pull may ask for, and one that a push may send

## Main results

* `inOrder_syncEntries`, `inOrder_pushEntries`: the frames of the loops
* `pull_keeps_to_dialogue`, `push_keeps_to_dialogue`: and those of a pass that may be cut off
-/

namespace SporePeer

open Effects Text

/-! ## Frames -/

/-- The frame that a call sends to the peer. -/
def exchanged : (Σ β, Op β) → Option Bytes
  | ⟨_, .exchange frame⟩ => some frame
  | _ => none

/-- The frames that a program sends to its peer. -/
def frames {σ α : Type} (env : Env σ) (m : Fallible Op α) (w : World σ) : List Bytes :=
  emitted exchanged env.handle m w

/-- The calls that send no frame to the peer. -/
def KeepsQuiet : (β : Type) → Op β → Prop
  | _, .exchange _ => False
  | _, _ => True

def handshakeFrame : Bytes := Cbor.message "Peer.Handshake" 1 "" (handshakeRequest 1)

/-- The request for the body `blid`, which is at position `i` of the chain. -/
def objectFrame (i : ℕ) (blid : U8Array 32) : Bytes :=
  Cbor.message "Peer.GetObject" (100 + i) "" (getobjectRequest blid)

/-- The attempt `k` to send a body. -/
def putFrame (token : String) (k : ℕ) (x : U8Array 32 × Bytes) : Bytes :=
  Cbor.message "Peer.PutObject" (200 + k) "" (putobjectRequest x.1 x.2 token)

/-- The frames `frame k x` for some `x` that satisfy `ok k`, under increasing numbers `k`. -/
def InOrder {X : Type} (frame : ℕ → X → Bytes) (ok : ℕ → X → Prop) (sent : List Bytes) : Prop :=
  ∃ asked : List (ℕ × X), sent = asked.map (fun a => frame a.1 a.2) ∧
    asked.Pairwise (fun a b => a.1 < b.1) ∧ ∀ a ∈ asked, ok a.1 a.2

/-- The frames are the beginning of a dialogue: the handshake, the request for the chain, and then
numbered frames. -/
def Dialogue {X : Type} (frame : ℕ → X → Bytes) (ok : ℕ → X → Prop) (sent : List Bytes) : Prop :=
  ∃ rest, InOrder frame ok rest ∧ sent <+: handshakeFrame :: chainFrame :: rest

section

variable {X : Type} {frame : ℕ → X → Bytes} {ok ok' : ℕ → X → Prop} {sent : List Bytes}

theorem InOrder.nil : InOrder frame ok [] := ⟨[], rfl, .nil, nofun⟩

theorem InOrder.mono (h : InOrder frame ok sent) (hok : ∀ k x, ok k x → ok' k x) :
    InOrder frame ok' sent := by
  obtain ⟨asked, rfl, hlt, hall⟩ := h
  exact ⟨asked, rfl, hlt, fun a ha => hok _ _ (hall a ha)⟩

/-- A frame comes before those with greater numbers. -/
theorem InOrder.cons {k : ℕ} {x : X} (hx : ok k x)
    (h : InOrder frame (fun k' x' => k < k' ∧ ok k' x') sent) :
    InOrder frame ok (frame k x :: sent) := by
  obtain ⟨asked, rfl, hlt, hall⟩ := h
  refine ⟨(k, x) :: asked, rfl, List.pairwise_cons.mpr ⟨fun a ha => (hall a ha).1, hlt⟩, ?_⟩
  exact List.forall_mem_cons.mpr ⟨hx, fun a ha => (hall a ha).2⟩

theorem Dialogue.of_prefix (h : Dialogue frame ok sent) {sent' : List Bytes} (hp : sent' <+: sent) :
    Dialogue frame ok sent' := by
  obtain ⟨rest, hrest, hsent⟩ := h
  exact ⟨rest, hrest, hp.trans hsent⟩

end

/-- The entries of the chain with which the peer answers a pass. -/
def answeredChain {σ : Type} (env : Env σ) (w : World σ) : List Value :=
  chainOf (env.net (env.net w.peer handshakeFrame).1 chainFrame).2

section

variable {σ : Type} {env : Env σ} {w : World σ}

theorem frames_of_quiet {α : Type} {m : Fallible Op α} (hm : Only KeepsQuiet m) (w : World σ) :
    frames env m w = [] := by
  refine emitted_of_only hm fun β e he => ?_
  cases e with
  | exchange frame => exact he.elim
  | _ => rfl

/-- A request, and what follows when it is answered. -/
theorem frames_rpc2Call_bind {α : Type} (method : String) (seq : ℕ) (body : Bytes)
    (f : Rpc2Message → Fallible Op α) (w : World σ) :
    let x := env.exchange w (Cbor.message method seq "" body)
    frames env (rpc2Call method seq body >>= f) w = Cbor.message method seq "" body ::
      match callResult x.2 with
      | .error _ => []
      | .ok m => frames env (f m) x.1 := by
  intro x
  have hcall := exec_rpc2Call env w method seq body
  unfold frames emitted
  rcases hr : callResult x.2 with e | m
  · rw [hr] at hcall
    rw [trace_bind_error hcall, trace_rpc2Call]
    rfl
  · rw [hr] at hcall
    rw [trace_bind_ok hcall, trace_rpc2Call]
    rfl

theorem frames_bind_pure {α γ : Type} (m : Fallible Op α) (g : α → γ) (w : World σ) :
    frames env (m >>= fun a => pure (g a)) w = frames env m w :=
  congrArg (List.filterMap exchanged) (trace_bind_pure m g)

/-- What follows a check. -/
theorem frames_refuseIf_bind {α : Type} (c : Prop) [Decidable c] (msg : String)
    (f : Unit → Fallible Op α) (w : World σ) :
    frames env (refuseIf c msg >>= f) w = if c then [] else frames env (f ()) w := by
  split
  · rw [refuseIf_bind_of ‹c›]
    rfl
  · rw [refuseIf_bind_of_not ‹¬ c›]

/-- A pass that sends numbered frames after the two requests keeps to the dialogue. -/
theorem dialogue_of_inOrder {X α : Type} {frame : ℕ → X → Bytes} {ok : ℕ → X → Prop}
    {e₁ e₂ : Rpc2Message → String} {f : Rpc2Message → Rpc2Message → Fallible Op α}
    (hf : ∀ hs chain w', w'.dir = w.dir → answeredChain env w = chain.payload.asArray.getD [] →
      InOrder frame ok (frames env (f hs chain) w')) :
    Dialogue frame ok (frames env (do
      let hs ← rpc2Call "Peer.Handshake" 1 (handshakeRequest 1)
      refuseIf (hs.error ≠ "") (e₁ hs)
      let chain ← rpc2Call "Peer.Chain" 2 (chainRequest 0 5000)
      refuseIf (chain.error ≠ "") (e₂ chain)
      f hs chain) w) := by
  rw [frames_rpc2Call_bind]
  rcases callResult _ with e | hs
  · -- no answer to the handshake
    exact ⟨[], .nil, List.cons_prefix_cons.mpr ⟨rfl, List.nil_prefix⟩⟩
  dsimp only
  rw [frames_refuseIf_bind]
  split
  · -- the peer refuses it
    exact ⟨[], .nil, List.cons_prefix_cons.mpr ⟨rfl, List.nil_prefix⟩⟩
  rw [frames_rpc2Call_bind]
  rcases hanswer : callResult _ with e | chain
  · -- no chain
    exact ⟨[], .nil, List.prefix_rfl⟩
  dsimp only
  rw [frames_refuseIf_bind]
  split
  · exact ⟨[], .nil, List.prefix_rfl⟩
  rename_i herr
  refine ⟨_, hf hs chain (env.exchange (env.exchange w handshakeFrame).1 chainFrame).1 rfl ?_,
    List.prefix_rfl⟩
  have hchain :
      callResult ((env.net (env.net w.peer handshakeFrame).1 chainFrame).2 >>= readFrame) =
        .ok chain := hanswer
  rw [answeredChain, chainOf, hchain]
  exact if_pos (not_not.mp herr)

end

/-! ## Pulls -/

/-- The entry at position `i` of the chain names a body that the directory lacks, and the position
is below the cap. -/
def Wanted (dir : Table String FileData) (entries : List Value) (i : ℕ) (blid : U8Array 32) :
    Prop :=
  i < syncCap ∧ ∃ entry top text, entries[i]? = some entry ∧ chainPair entry = .ok (top, text) ∧
    readBlid text = .ok (some blid) ∧ dir.lookup (bodyFile text) = none

section

variable {σ : Type} {env : Env σ} {build : Build} {dir : String} {w : World σ}

theorem frames_fetchObject (i top : ℕ) (text : String) (blid : U8Array 32) (w : World σ) :
    frames env (fetchObject build dir i top text blid.toList) w = [objectFrame i blid] := by
  rw [fetchObject, Bytes.copyFromSlice_toList, orPanic_ok_bind, frames_rpc2Call_bind]
  refine congrArg (objectFrame i blid :: ·) ?_
  rcases callResult _ with e | obj
  · rfl
  refine frames_of_quiet ?_ _
  split
  · exact only_pure _
  · exact only_bind (only_orFail _) fun _ => only_bind (only_ask trivial) fun _ =>
      only_bind (only_orFail _) fun _ => only_pure _

/-- One chain entry is passed over, or the body that it names is asked for. -/
theorem frames_syncEntry (hcalm : env.Calm) (i : ℕ) (entry : Value) (w : World σ) :
    frames env (syncEntry build dir i entry) w = [] ∨
      ∃ top text blid, i < syncCap ∧ chainPair entry = .ok (top, text) ∧
        readBlid text = .ok (some blid) ∧ w.dir.lookup (bodyFile text) = none ∧
        frames env (syncEntry build dir i entry) w = [objectFrame i blid] := by
  rw [syncEntry]
  rcases hpair : chainPair entry with e | ⟨top, text⟩
  · exact .inl rfl
  change frames env (orPanic (hexDecode (asBytes text)).run >>= _) w = [] ∨ ∃ top' text' blid,
    _ ∧ _ ∧ _ ∧ _ ∧ frames env (orPanic (hexDecode (asBytes text)).run >>= _) w = _
  rcases hdec : (hexDecode (asBytes text)).run with p | _ | expected
  · exact .inl rfl
  · exact .inl rfl
  rw [orPanic_ok_bind]
  by_cases hlen : expected.length = 32
  swap
  · rw [Option.filter_some, if_neg (by simpa using hlen)]
    exact .inl rfl
  rw [Option.filter_some, if_pos (by simpa using hlen)]
  dsimp only
  -- a body that is there is not asked for, and neither is one beyond the cap
  have hmeta : exchanged ⟨_, .metadata (bodyFile text)⟩ = none := rfl
  rw [frames, emitted, trace_ask_bind, List.filterMap_cons_none hmeta]
  split
  · exact .inl rfl
  rename_i habsent
  split
  · exact .inl rfl
  rename_i hcap
  let blid : U8Array 32 := ⟨expected, hlen⟩
  refine .inr ⟨top, text, blid, not_le.mp hcap, rfl, ?_, ?_,
    frames_fetchObject i top text blid _⟩
  · rw [readBlid, hdec]
    change Except.ok (dite _ _ _) = _
    rw [dif_pos hlen]
  · simpa [Env.handle, hcalm.lookup] using habsent

/-- An entry, and those after it, which have greater numbers. -/
theorem frames_syncEntries_cons (i : ℕ) (entry : Value) (rest : List Value) (fetched had : ℕ)
    (w : World σ) :
    let w' := (exec env.handle (syncEntry build dir i entry) w).1
    ∃ later, frames env (syncEntries build dir i (entry :: rest) fetched had) w =
        frames env (syncEntry build dir i entry) w ++ later ∧
      (later = [] ∨ ∃ fetched' had',
        later = frames env (syncEntries build dir (i + 1) rest fetched' had') w') := by
  intro w'
  rw [syncEntries]
  rcases emitted_bind (syncEntry build dir i entry) _ w with hall | ⟨v, progress, hrun, hall⟩
  · exact ⟨[], hall.trans (List.append_nil _).symm, .inl rfl⟩
  · obtain rfl : w' = v := congrArg Prod.fst hrun
    refine ⟨_, hall, ?_⟩
    cases progress with
    | capped => exact .inl rfl
    | skipped => exact .inr ⟨fetched, had, rfl⟩
    | had => exact .inr ⟨fetched, had + 1, rfl⟩
    | fetched => exact .inr ⟨fetched + 1, had, rfl⟩

/-- **The loop** asks for bodies of the chain in order. -/
theorem inOrder_syncEntries (hcalm : env.Calm) {old : Table String FileData} {all : List Value}
    {i : ℕ} {entries : List Value} (hall : all.drop i = entries) (hkeeps : Keeps old w.dir)
    (fetched had : ℕ) :
    InOrder objectFrame (fun k blid => i ≤ k ∧ Wanted old all k blid)
      (frames env (syncEntries build dir i entries fetched had) w) := by
  induction entries generalizing i fetched had w with
  | nil => exact .nil
  | cons entry rest ih =>
    have hcalls : EachCall env.handle (PassCall build) (syncEntry build dir i entry) w :=
      eachCall_syncEntry hcalm i entry w
    have hstep : Keeps old (exec env.handle (syncEntry build dir i entry) w).1.dir :=
      (filesSurvive_spares env old).run (hcalls.mono fun _ _ hc hv => spares_of_passCall hc hv) hkeeps
    have hentry : all[i]? = some entry := by
      rw [← List.head?_drop, hall, List.head?_cons]
    have hdrop : all.drop (i + 1) = rest := by
      rw [← List.tail_drop, hall, List.tail_cons]
    obtain ⟨later, hframes, hlater⟩ := frames_syncEntries_cons i entry rest fetched had w
    have hrest : InOrder objectFrame (fun k blid => i < k ∧ Wanted old all k blid) later := by
      rcases hlater with rfl | ⟨fetched', had', rfl⟩
      · exact .nil
      · exact ih hdrop hstep fetched' had'
    rw [hframes]
    rcases frames_syncEntry hcalm i entry w with
      hnone | ⟨top, text, blid, hcap, hpair, hread, habsent, hone⟩
    · rw [hnone]
      exact hrest.mono fun k blid hk => ⟨hk.1.le, hk.2⟩
    · rw [hone]
      refine .cons ⟨le_rfl, hcap, entry, top, text, hentry, hpair, hread, ?_⟩
        (hrest.mono fun k blid hk => ⟨hk.1, hk.1.le, hk.2⟩)
      -- the files that were there are still there
      by_contra hthere
      obtain ⟨d, hd⟩ := Option.ne_none_iff_exists'.mp hthere
      have hkept := hkeeps text d hd
      rw [habsent] at hkept
      cases hkept

/-- **A pull** against any peer, cut off anywhere, asks for bodies that the peer has listed and the
store lacks, in the order of the list. -/
theorem pull_keeps_to_dialogue (hcalm : env.Calm) (build : Build) (dir : String) (w : World σ)
    (n : ℕ) :
    Dialogue objectFrame (Wanted w.dir (answeredChain env w))
      ((cutOff env.handle n (syncStream build dir) w).1.filterMap exchanged) := by
  have hpass : Dialogue objectFrame (Wanted w.dir (answeredChain env w))
      (frames env (syncStream build dir) w) := by
    refine dialogue_of_inOrder fun hs chain w' hdir hchain => ?_
    have hkeeps : Keeps w.dir w'.dir := by
      rw [hdir]
      exact .refl _
    have hloop : InOrder objectFrame
        (fun k blid => 0 ≤ k ∧ Wanted w.dir (answeredChain env w) k blid)
        (frames env (syncEntries build dir 0 (chain.payload.asArray.getD []) 0 0) w') :=
      inOrder_syncEntries hcalm (List.drop_zero.trans hchain) hkeeps 0 0
    let height := ((hs.payload.get "H").bind Value.asU64).elim 0 UInt64.toNat
    rw [← frames_bind_pure _ (fun x : ℕ × ℕ => (height, x.1, x.2))] at hloop
    exact hloop.mono fun k blid hk => hk.2
  exact hpass.of_prefix ((cutOff_begins n _ w).filterMap exchanged)

end

/-- A pull that is killed after its first request for a body. -/
theorem pull_keeps_to_dialogue_one :
    let env : Env Peer := .still peerNet 0
    let w : World Peer := .fresh (oneBody .leading [1, 2])
    let sent := (cutOff env.handle 4 (syncStream .leading "") w).1.filterMap exchanged
    sent = [handshakeFrame, chainFrame, objectFrame 0 (Build.leading.sha256 [1, 2])] ∧
      Dialogue objectFrame (Wanted w.dir (answeredChain env w)) sent := by
  intro env w sent
  exact ⟨by decide +kernel, pull_keeps_to_dialogue (Env.still_calm _ _) .leading "" w 4⟩

/-! ## Pushes -/

/-- The directory has the body under its hash, the peer does not list it, and as many bodies as the
cap may be sent. -/
def Offered (build : Build) (dir : Table String FileData) (listed : String → Prop) (k : ℕ)
    (x : U8Array 32 × Bytes) : Prop :=
  k ≤ syncCap ∧ build.sha256 x.2 = x.1 ∧
    (∃ d, dir.lookup (bodyFile (Hex.encode x.1.toList)) = some d ∧ d.content = x.2) ∧
    ¬ listed (Hex.encode x.1.toList)

/-- The entries of a chain have the name. -/
def Listed (entries : List Value) (text : String) : Prop :=
  ∃ entry ∈ entries, ∃ top, chainPair entry = .ok (top, text)

theorem mem_peerHas {entries : List Value} {has has' : Finset String}
    (h : peerHas entries has = .ok has') :
    has ⊆ has' ∧ ∀ text, Listed entries text → text ∈ has' := by
  induction entries generalizing has with
  | nil =>
    obtain rfl := Except.ok.inj h
    exact ⟨subset_rfl, fun text ⟨_, hentry, _⟩ => absurd hentry List.not_mem_nil⟩
  | cons entry rest ih =>
    rw [peerHas] at h
    rcases hpair : chainPair entry with e | ⟨top, name⟩ <;> rw [hpair] at h
    · cases h
    obtain ⟨hsub, hmem⟩ := ih h
    refine ⟨(Finset.subset_insert _ _).trans hsub, ?_⟩
    rintro text ⟨e, he, top', hpair'⟩
    rcases List.mem_cons.mp he with rfl | he
    · obtain ⟨-, rfl⟩ := Prod.mk.inj (Except.ok.inj (hpair.symm.trans hpair'))
      exact hsub (Finset.mem_insert_self _ _)
    · exact hmem text ⟨e, he, top', hpair'⟩

section

variable {σ : Type} {env : Env σ} {build : Build} {dir token : String}
  {readError : String → String} {w : World σ}

theorem attemptOf_dir (k : ℕ) (cid : U8Array 32) (w : World σ) :
    (attemptOf env build token k cid w).1.dir = w.dir := by
  rw [attemptOf]
  rcases env.read w (bodyFile (Hex.encode cid.toList)) with _ | body
  · rfl
  dsimp only
  split <;> rfl

/-- One local body is passed over, or sent. -/
theorem frames_pushObject (k topo : ℕ) (cid : U8Array 32) (w : World σ) :
    frames env (pushObject build dir token readError k topo cid) w = [] ∨
      ∃ body d, build.sha256 body = cid ∧
        w.dir.lookup (bodyFile (Hex.encode cid.toList)) = some d ∧ d.content = body ∧
        frames env (pushObject build dir token readError k topo cid) w =
          [putFrame token k (cid, body)] := by
  rw [frames, emitted, trace_pushObject, attemptOf]
  rcases hread : env.read w (bodyFile (Hex.encode cid.toList)) with _ | body
  · exact .inl rfl
  dsimp only
  split
  · exact .inl rfl
  · rename_i hsha
    obtain ⟨d, hd, hbody⟩ := Env.read_eq_some hread
    exact .inr ⟨body, d, not_not.mp hsha, hd, hbody, rfl⟩

/-- **The loop** sends bodies that the peer lacks, and counts them. -/
theorem inOrder_pushEntries {old : Table String FileData} (hold : w.dir = old)
    (has : Finset String) (view : List (ℕ × U8Array 32)) (attempted pushed : ℕ) :
    InOrder (putFrame token) (fun k x => attempted < k ∧ Offered build old (· ∈ has) k x)
      (frames env (pushEntries build dir token readError has view attempted pushed) w) := by
  induction view generalizing attempted pushed w with
  | nil => exact .nil
  | cons e rest ih =>
    obtain ⟨topo, cid⟩ := e
    rw [pushEntries]
    split
    · -- the peer lists it
      exact ih hold attempted pushed
    rename_i hlacks
    split
    · -- the cap has been reached
      exact .nil
    rename_i hcap
    -- what comes after this entry, if the push goes on after it
    obtain ⟨later, hframes, hrest⟩ : ∃ later,
        frames env (do
          let sent ← pushObject build dir token readError (attempted + 1) topo cid
          pushEntries build dir token readError has rest (attempted + 1)
            (if sent then pushed + 1 else pushed)) w =
          frames env (pushObject build dir token readError (attempted + 1) topo cid) w ++ later ∧
        InOrder (putFrame token) (fun k x => attempted + 1 < k ∧ attempted < k ∧
          Offered build old (· ∈ has) k x) later := by
      rcases emitted_bind (pushObject build dir token readError (attempted + 1) topo cid) _ w with
        hall | ⟨v, sent, hrun, hall⟩
      · exact ⟨[], hall.trans (List.append_nil _).symm, .nil⟩
      · refine ⟨_, hall, (ih ?_ (attempted + 1) _).mono fun k x hk =>
          ⟨hk.1, (Nat.lt_succ_self _).trans hk.1, hk.2⟩⟩
        rw [exec_pushObject] at hrun
        rw [← (Prod.mk.inj hrun).1, attemptOf_dir, hold]
    rw [hframes]
    rcases frames_pushObject (attempted + 1) topo cid w with
      hnone | ⟨body, d, hsha, hd, hbody, hone⟩
    · -- a file that is not read, or does not hash to its name, is not sent
      rw [hnone]
      exact hrest.mono fun k x hk => hk.2
    · rw [hone]
      exact .cons ⟨Nat.lt_succ_self _, not_le.mp hcap, hsha, ⟨d, hold ▸ hd, hbody⟩, hlacks⟩ hrest

/-- **A push** to any peer, cut off anywhere, sends bodies of the store that the peer has not
listed, each one under its hash. -/
theorem push_keeps_to_dialogue (env : Env σ) (build : Build) (dir token : String)
    (readError : String → String) (w : World σ) (n : ℕ) :
    Dialogue (putFrame token) (Offered build w.dir (Listed (answeredChain env w)))
      ((cutOff env.handle n (pushStream build dir token readError) w).1.filterMap exchanged) := by
  have hpass : Dialogue (putFrame token) (Offered build w.dir (Listed (answeredChain env w)))
      (frames env (pushStream build dir token readError) w) := by
    refine dialogue_of_inOrder fun hs chain w' hdir hchain => ?_
    rw [hchain]
    rcases hhas : peerHas (chain.payload.asArray.getD []) ∅ with e | has
    · exact .nil
    have hview : Only KeepsQuiet chainView := only_chainView trivial fun _ => trivial
    change InOrder _ _ (frames env (chainView >>= _) w')
    rcases emitted_bind chainView _ w' with hall | ⟨v, view, hrun, hall⟩
    · rw [frames, hall, ← frames, frames_of_quiet hview]
      exact .nil
    have hdir' : v.dir = w.dir := by
      have hkept := (kept_chainView env w').1
      rw [hrun, hdir] at hkept
      exact hkept
    have hloop : InOrder (putFrame token) (fun k x => 0 < k ∧ Offered build w.dir (· ∈ has) k x)
        (frames env (pushEntries build dir token readError has view 0 0) v) :=
      inOrder_pushEntries hdir' has view 0 0
    let height := ((hs.payload.get "H").bind Value.asU64).elim 0 UInt64.toNat
    rw [← frames_bind_pure _ (fun pushed : ℕ => (height, pushed, has.card))] at hloop
    rw [frames, hall, ← frames, frames_of_quiet hview, List.nil_append]
    exact hloop.mono fun k x hk => ⟨hk.2.1, hk.2.2.1, hk.2.2.2.1,
      fun hlisted => hk.2.2.2.2 ((mem_peerHas hhas).2 _ hlisted)⟩
  exact hpass.of_prefix ((cutOff_begins n _ w).filterMap exchanged)

end

end SporePeer
