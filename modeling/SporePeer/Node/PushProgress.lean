import SporePeer.Node.PushStream
import SporePeer.Node.Serving

/-!
# Progress of a push pass

A push pass tries the local bodies that the peer lacks one after another. A body that cannot be
sent should not keep the pass from the bodies behind it. There are two ways in which it does: its
file is gone by the time it is read, and it is refused with a text that has the digits 401 anywhere
in it, such as a file path with a hash.

## Main definitions

* `Attempt`, `attemptOf`: what happens to one body
* `attempts`: a loop that no single body stops
* `greet`: a pass up to its loop
* `Overcomes`: no single body stops the pass

## Main results

* `exec_pushObject`: one body
* `tries_pushEntries_iff`, `overcomes_iff`: the loop and the pass
-/

namespace SporePeer

open Effects Text

/-! ## One body -/

/-- The peer's answer to a body. -/
inductive PutAnswer
  | failed (e : String)
  | refused (text : String)
  | stored (hash : String)

/-- What happens to a local body that the pass tries to send. -/
inductive Attempt
  | unreadable (cidHex : String)
  | corrupt (cidHex : String)
  | sent (cidHex : String) (frame : Bytes) (answer : PutAnswer)

/-- A refusal with the status of a bad token. -/
def hasStatus401 (text : String) : Bool := startsWith text "401 "

namespace Attempt

/-- The calls that an attempt makes. -/
def calls : Attempt → List (Σ β, Op β)
  | unreadable cidHex => [⟨_, .read (bodyFile cidHex)⟩]
  | corrupt cidHex => [⟨_, .read (bodyFile cidHex)⟩]
  | sent cidHex frame _ => [⟨_, .read (bodyFile cidHex)⟩, ⟨_, .exchange frame⟩]

/-- Whether a pass has to end with this attempt: the connection is of no more use, the token is no
good, or the peer disagrees about the body. -/
def Ends : Attempt → Prop
  | sent _ _ (.failed _) => True
  | sent _ _ (.refused text) => hasStatus401 text
  | sent cidHex _ (.stored hash) => hash ≠ cidHex
  | _ => False

instance : DecidablePred Ends
  | unreadable _ => inferInstanceAs (Decidable False)
  | corrupt _ => inferInstanceAs (Decidable False)
  | sent _ _ (.failed _) => inferInstanceAs (Decidable True)
  | sent _ _ (.refused _) => inferInstanceAs (Decidable (_ = true))
  | sent _ _ (.stored _) => inferInstanceAs (Decidable (_ ≠ _))

/-- The file is read, and a refusal that has the digits 401 in it has them as its status. -/
def Harmless : Attempt → Prop
  | unreadable _ => False
  | sent _ _ (.refused text) => containsText text "401" → hasStatus401 text
  | _ => True

instance : DecidablePred Harmless
  | unreadable _ => inferInstanceAs (Decidable False)
  | corrupt _ => inferInstanceAs (Decidable True)
  | sent _ _ (.failed _) => inferInstanceAs (Decidable True)
  | sent _ _ (.refused _) => inferInstanceAs (Decidable (_ → _))
  | sent _ _ (.stored _) => inferInstanceAs (Decidable True)

theorem calls_ne_nil (a : Attempt) : a.calls ≠ [] := by
  cases a <;> exact List.cons_ne_nil _ _

end Attempt

section

variable {σ : Type} (env : Env σ) (build : Build) (dir token : String)
  (readError : String → String)

/-- The attempt to send a body; `attempted` counts it already. -/
def attemptOf (attempted : ℕ) (cid : U8Array 32) (w : World σ) : World σ × Attempt :=
  let cidHex := Hex.encode cid.toList
  match env.read w (bodyFile cidHex) with
  | none => (w.next, .unreadable cidHex)
  | some body =>
    if build.sha256 body ≠ cid then (w.next, .corrupt cidHex)
    else
      let frame := Cbor.message "Peer.PutObject" (200 + attempted) ""
        (putobjectRequest cid body token)
      let answered := env.exchange w.next frame
      (answered.1, .sent cidHex frame
        (match callResult answered.2 with
        | .error e => .failed e
        | .ok resp =>
          if resp.error ≠ "" then .refused resp.error else .stored (payloadText resp "BLID")))

/-- What the pass makes of an attempt. -/
def attemptResult (topo : ℕ) : Attempt → Except String Bool
  | .unreadable cidHex =>
    .error s!"read {dir}/{bodyFile cidHex}: {readError (bodyFile cidHex)}"
  | .corrupt _ => .ok false
  | .sent _ _ (.failed e) => .error e
  | .sent _ _ (.refused text) =>
    if containsText text "401" then .error s!"push: write token rejected by peer: {text}"
    else .ok false
  | .sent cidHex _ (.stored hash) =>
    if hash ≠ cidHex then .error s!"topo {topo}: peer stored different hash ({hash})" else .ok true

/-- The attempts of a loop that ends only where it has to; `attempted` counts those before. -/
def attempts : List (U8Array 32) → ℕ → World σ → List Attempt
  | [], _, _ => []
  | cid :: rest, attempted, w =>
    let (w', a) := attemptOf env build token (attempted + 1) cid w
    a :: if a.Ends then [] else attempts rest (attempted + 1) w'

/-- **One body** is tried, and the loop goes on or ends. -/
theorem exec_pushObject (attempted topo : ℕ) (cid : U8Array 32) (w : World σ) :
    exec env.handle (pushObject build dir token readError attempted topo cid) w =
      ((attemptOf env build token attempted cid w).1,
        .ok (attemptResult dir readError topo (attemptOf env build token attempted cid w).2)) := by
  have hread : env.handle _ (.read (bodyFile (Hex.encode cid.toList))) w =
      (w.next, env.read w (bodyFile (Hex.encode cid.toList))) := rfl
  rw [pushObject, exec_ask_bind, hread, attemptOf]
  rcases env.read w (bodyFile (Hex.encode cid.toList)) with _ | body
  · rfl
  dsimp only
  -- a corrupt file is not sent
  by_cases hsha : build.sha256 body ≠ cid
  · rw [if_pos hsha, if_pos hsha]
    rfl
  rw [if_neg hsha, if_neg hsha, exec_bind, exec_rpc2Call]
  dsimp only
  generalize env.exchange w.next _ = x
  rcases callResult x.2 with e | resp
  · rfl
  dsimp only
  by_cases herr : resp.error ≠ ""
  · rw [if_pos herr, if_pos herr, attemptResult]
    -- only this text is looked at, not the status
    by_cases h401 : containsText resp.error "401"
    · rw [if_pos h401, if_pos h401]
      rfl
    · rw [if_neg h401, if_neg h401]
      rfl
  · rw [if_neg herr, if_neg herr, attemptResult]
    by_cases hhash : payloadText resp "BLID" ≠ Hex.encode cid.toList
    · rw [if_pos hhash, if_pos hhash]
      rfl
    · rw [if_neg hhash, if_neg hhash]
      rfl

theorem trace_rpc2Call (method : String) (seq : ℕ) (body : Bytes) (w : World σ) :
    trace env.handle (rpc2Call method seq body) w =
      [⟨_, .exchange (Cbor.message method seq "" body)⟩] := by
  rw [rpc2Call, trace_ask_bind]
  congr 1
  generalize (env.handle _ (.exchange (Cbor.message method seq "" body)) w) = x
  obtain ⟨w', e | resp⟩ := x
  · rfl
  change trace env.handle (orPanic (decodeMessage resp).run >>= _) w' = []
  rcases (decodeMessage resp).run with p | _ | m
  · rfl
  · rfl
  · rfl

theorem trace_pushObject (attempted topo : ℕ) (cid : U8Array 32) (w : World σ) :
    trace env.handle (pushObject build dir token readError attempted topo cid) w =
      (attemptOf env build token attempted cid w).2.calls := by
  have hread : env.handle _ (.read (bodyFile (Hex.encode cid.toList))) w =
      (w.next, env.read w (bodyFile (Hex.encode cid.toList))) := rfl
  rw [pushObject, trace_ask_bind, hread, attemptOf]
  rcases env.read w (bodyFile (Hex.encode cid.toList)) with _ | body
  · rfl
  dsimp only
  by_cases hsha : build.sha256 body ≠ cid
  · rw [if_pos hsha, if_pos hsha]
    rfl
  rw [if_neg hsha, if_neg hsha, Attempt.calls]
  congr 1
  have hcall := exec_rpc2Call env w.next "Peer.PutObject" (200 + attempted)
    (putobjectRequest cid body token)
  rcases hr : callResult (env.exchange w.next (Cbor.message "Peer.PutObject" (200 + attempted) ""
      (putobjectRequest cid body token))).2 with e | resp
  · rw [hr] at hcall
    rw [trace_bind_error hcall, trace_rpc2Call]
  · rw [hr] at hcall
    rw [trace_bind_ok hcall, trace_rpc2Call]
    split
    · split <;> rfl
    · split <;> rfl

end

theorem containsText_of_hasStatus401 {text : String} (h : hasStatus401 text) :
    containsText text "401" := by
  rw [hasStatus401, startsWith, List.isPrefixOf_iff_prefix] at h
  rw [containsText, List.any_eq_true]
  have hdigits : "401".toList <+: "401 ".toList := by decide
  exact ⟨text.toList, (List.mem_tails _ _).mpr List.suffix_rfl,
    List.isPrefixOf_iff_prefix.mpr (hdigits.trans h)⟩

theorem Attempt.Ends.harmless {a : Attempt} (h : a.Ends) : a.Harmless := by
  match a with
  | .unreadable _ => exact h.elim
  | .corrupt _ => trivial
  | .sent _ _ (.failed _) => trivial
  | .sent _ _ (.refused _) => exact fun _ => h
  | .sent _ _ (.stored _) => trivial

/-- The loop goes on after an attempt that need not end it, if it is harmless. -/
theorem attemptResult_ok_iff (dir : String) (readError : String → String) (topo : ℕ) (a : Attempt) :
    (∃ b, attemptResult dir readError topo a = .ok b) ↔ ¬ a.Ends ∧ a.Harmless := by
  match a with
  | .unreadable _ => exact iff_of_false nofun fun h => h.2
  | .corrupt _ => exact iff_of_true ⟨false, rfl⟩ ⟨id, trivial⟩
  | .sent _ _ (.failed _) => exact iff_of_false nofun fun h => h.1 trivial
  | .sent _ _ (.refused text) =>
    rw [attemptResult]
    by_cases h401 : containsText text "401"
    · rw [if_pos h401]
      exact iff_of_false nofun fun h => h.1 (h.2 h401)
    · rw [if_neg h401]
      exact iff_of_true ⟨false, rfl⟩
        ⟨fun h => h401 (containsText_of_hasStatus401 h), fun h => absurd h h401⟩
  | .sent cidHex _ (.stored hash) =>
    rw [attemptResult]
    by_cases hhash : hash ≠ cidHex
    · rw [if_pos hhash]
      exact iff_of_false nofun fun h => h.1 hhash
    · rw [if_neg hhash]
      exact iff_of_true ⟨true, rfl⟩ ⟨hhash, trivial⟩

/-! ## The loop -/

/-- The first `cap` of the local bodies that the peer lacks. -/
def lacking (cap : ℕ) (has : Finset String) (view : List (ℕ × U8Array 32)) : List (U8Array 32) :=
  ((view.map Prod.snd).filter fun cid => Hex.encode cid.toList ∉ has).take cap

/-- After the calls `cs` the program makes exactly the attempts `as`. It returns an error only if
one of them has to end it, and does not unwind. -/
def Tries {σ α : Type} (env : Env σ) (cs : List (Σ β, Op β)) (as : List Attempt)
    (m : Fallible Op α) (w : World σ) : Prop :=
  trace env.handle m w = cs ++ as.flatMap Attempt.calls ∧
    ∃ r, (exec env.handle m w).2 = .ok r ∧ ((∃ x, r = .ok x) ↔ ∀ a ∈ as, ¬ a.Ends)

section

variable {σ : Type} {env : Env σ} {build : Build} {dir token : String}
  {readError : String → String}

/-- An attempt that ends the program is the last one. -/
theorem tries_bind_error {α β : Type} {m : Fallible Op α} {f : α → Fallible Op β} {w w' : World σ}
    {a : Attempt} {as : List Attempt} {e : String} (hm : exec env.handle m w = (w', .ok (.error e)))
    (htrace : trace env.handle m w = a.calls) :
    Tries env [] (a :: if a.Ends then [] else as) (m >>= f) w ↔ a.Ends := by
  rw [Tries, trace_bind_error hm, exec_bind_error hm, htrace, List.nil_append, List.flatMap_cons]
  constructor
  · rintro ⟨hcalls, r, hr, hends⟩
    obtain rfl := Except.ok.inj hr
    by_contra ha
    rw [if_neg ha] at hcalls hends
    -- the error has a reason, so there is another attempt, but no call of it
    have hnil : as.flatMap Attempt.calls = [] := by
      have := congrArg List.length hcalls
      rw [List.length_append] at this
      exact List.length_eq_zero_iff.mp (by omega)
    have hall : ∀ b ∈ a :: as, ¬ b.Ends := by
      intro b hb
      rcases List.mem_cons.mp hb with rfl | hb
      · exact ha
      · exact absurd (List.flatMap_eq_nil_iff.mp hnil b hb) b.calls_ne_nil
    obtain ⟨x, hx⟩ := hends.mpr hall
    cases hx
  · intro ha
    rw [if_pos ha]
    refine ⟨(List.append_nil _).symm, _, rfl, iff_of_false nofun fun h => ?_⟩
    exact h a List.mem_cons_self ha

/-- After an attempt that does not end the program, the rest of it is what counts. -/
theorem tries_bind_ok {α β : Type} {m : Fallible Op α} {f : α → Fallible Op β} {w w' : World σ}
    {a : Attempt} {as : List Attempt} {x : α} (hm : exec env.handle m w = (w', .ok (.ok x)))
    (htrace : trace env.handle m w = a.calls) (ha : ¬ a.Ends) :
    Tries env [] (a :: if a.Ends then [] else as) (m >>= f) w ↔ Tries env [] as (f x) w' := by
  rw [if_neg ha, Tries, Tries, trace_bind_ok hm, exec_bind_ok hm, htrace, List.flatMap_cons,
    List.nil_append, List.nil_append, List.append_cancel_left_eq, List.forall_mem_cons,
    and_iff_right ha]

/-- **The loop** tries every body that the peer lacks, and ends only where it has to, exactly when
no attempt does harm. By induction on the bodies. -/
theorem tries_pushEntries_iff (has : Finset String) (view : List (ℕ × U8Array 32))
    (attempted pushed : ℕ) (w : World σ) :
    Tries env [] (attempts env build token (lacking (syncCap - attempted) has view) attempted w)
        (pushEntries build dir token readError has view attempted pushed) w ↔
      ∀ a ∈ attempts env build token (lacking (syncCap - attempted) has view) attempted w,
        a.Harmless := by
  induction view generalizing attempted pushed w with
  | nil =>
    have hnone : lacking (syncCap - attempted) has [] = [] := List.take_nil
    rw [hnone]
    exact iff_of_true ⟨rfl, _, rfl, iff_of_true ⟨_, rfl⟩ (List.forall_mem_nil _)⟩
      (List.forall_mem_nil _)
  | cons e rest ih =>
    obtain ⟨topo, cid⟩ := e
    -- the entries before the cap that the peer lacks are the attempts, in order
    by_cases hcid : Hex.encode cid.toList ∈ has
    · have hskip : lacking (syncCap - attempted) has ((topo, cid) :: rest) =
          lacking (syncCap - attempted) has rest := by
        rw [lacking, List.map_cons, List.filter_cons_of_neg (by simpa using hcid), lacking]
      rw [hskip, pushEntries, if_pos hcid]
      exact ih attempted pushed w
    by_cases hcap : syncCap ≤ attempted
    · have hnone : lacking (syncCap - attempted) has ((topo, cid) :: rest) = [] := by
        rw [lacking, Nat.sub_eq_zero_of_le hcap, List.take_zero]
      rw [hnone, pushEntries, if_neg hcid, if_pos hcap]
      exact iff_of_true ⟨rfl, _, rfl, iff_of_true ⟨_, rfl⟩ (List.forall_mem_nil _)⟩
        (List.forall_mem_nil _)
    have hnext : lacking (syncCap - attempted) has ((topo, cid) :: rest) =
        cid :: lacking (syncCap - (attempted + 1)) has rest := by
      have hsucc : syncCap - attempted = (syncCap - (attempted + 1)) + 1 := by omega
      rw [lacking, List.map_cons, List.filter_cons_of_pos (by simpa using hcid), hsucc,
        List.take_succ_cons, lacking]
    rw [hnext, attempts, pushEntries, if_neg hcid, if_neg hcap]
    have hexec := exec_pushObject env build dir token readError (attempted + 1) topo cid w
    have htrace := trace_pushObject env build dir token readError (attempted + 1) topo cid w
    have hgoes := attemptResult_ok_iff dir readError topo
      (attemptOf env build token (attempted + 1) cid w).2
    generalize attemptOf env build token (attempted + 1) cid w = x at hexec htrace hgoes
    obtain ⟨w', a⟩ := x
    rcases hr : attemptResult dir readError topo a with err | sent
    · rw [hr] at hexec hgoes
      rw [tries_bind_error hexec htrace, List.forall_mem_cons]
      constructor
      · intro ha
        rw [if_pos ha]
        exact ⟨ha.harmless, List.forall_mem_nil _⟩
      · rintro ⟨hharm, -⟩
        by_contra ha
        obtain ⟨b, hb⟩ := hgoes.mpr ⟨ha, hharm⟩
        cases hb
    · rw [hr] at hexec hgoes
      obtain ⟨ha, hharm⟩ := hgoes.mp ⟨sent, rfl⟩
      rw [tries_bind_ok hexec htrace ha, List.forall_mem_cons, if_neg ha, and_iff_right hharm]
      exact ih (attempted + 1) _ w'

end

/-! ## The pass -/

/-- `push_stream` up to its loop: the peer's height, and the names in its chain. -/
def greet : Fallible Op (ℕ × Finset String) := do
  let hs ← rpc2Call "Peer.Handshake" 1 (handshakeRequest 1)
  refuseIf (hs.error ≠ "") s!"handshake: {hs.error}"
  let height := ((hs.payload.get "H").bind Value.asU64).elim 0 UInt64.toNat
  let chain ← rpc2Call "Peer.Chain" 2 (chainRequest 0 5000)
  refuseIf (chain.error ≠ "") s!"chain: {chain.error}"
  let has ← orFail (peerHas (chain.payload.asArray.getD []) ∅)
  return (height, has)

theorem pushStream_eq (build : Build) (dir token : String) (readError : String → String) :
    pushStream build dir token readError = greet >>= fun x => chainView >>= fun view =>
      pushEntries build dir token readError x.2 view 0 0 >>= fun pushed =>
        return (x.1, pushed, x.2.card) := by
  simp only [pushStream, greet, bind_assoc, pure_bind]

section

variable {σ : Type} (env : Env σ) (build : Build) (dir token : String)
  (readError : String → String) (w : World σ)

/-- The connection fails at the handshake or at the request for the chain. -/
def GreetingFails (e : String) : Prop :=
  (exec env.handle (rpc2Call "Peer.Handshake" 1 (handshakeRequest 1)) w).2 = .ok (.error e) ∨
    ∃ w₁ hs, exec env.handle (rpc2Call "Peer.Handshake" 1 (handshakeRequest 1)) w =
        (w₁, .ok (.ok hs)) ∧
      (exec env.handle (rpc2Call "Peer.Chain" 2 (chainRequest 0 5000)) w₁).2 = .ok (.error e)

/-- If the peer answers the handshake and the request for its chain, it does so as a server does. -/
def HonestFormat : Prop :=
  ∀ w₁ hs, exec env.handle (rpc2Call "Peer.Handshake" 1 (handshakeRequest 1)) w =
      (w₁, .ok (.ok hs)) → hs.error = "" ∧
    ∀ w₂ m, exec env.handle (rpc2Call "Peer.Chain" 2 (chainRequest 0 5000)) w₁ =
        (w₂, .ok (.ok m)) → m.error = "" ∧
      ∃ has, peerHas (m.payload.asArray.getD []) ∅ = .ok has

/-- **No single body stops the pass.** Unless the connection fails before, it tries the local bodies
that the peer lacks, in the order of the local chain and up to the cap. It returns an error only if
one of the attempts has to end it. -/
def Overcomes : Prop :=
  (∃ e, GreetingFails env w e ∧
      (exec env.handle (pushStream build dir token readError) w).2 = .ok (.error e)) ∨
    ∃ w₁ height has w₂ view, exec env.handle greet w = (w₁, .ok (.ok (height, has))) ∧
      exec env.handle chainView w₁ = (w₂, .ok (.ok view)) ∧
      Tries env (trace env.handle greet w ++ trace env.handle chainView w₁)
        (attempts env build token (lacking syncCap has view) 0 w₂)
        (pushStream build dir token readError) w

/-- The local chain is read, every file that the pass tries to send is read as well, and a refusal
that has the digits 401 in it has them as its status. -/
def Undisturbed : Prop :=
  ∀ w₁ height has, exec env.handle greet w = (w₁, .ok (.ok (height, has))) →
    ∃ w₂ view, exec env.handle chainView w₁ = (w₂, .ok (.ok view)) ∧
      ∀ a ∈ attempts env build token (lacking syncCap has view) 0 w₂, a.Harmless

end

section

variable {σ : Type} {env : Env σ} {build : Build} {dir token : String}
  {readError : String → String} {w : World σ}

theorem GreetingFails.exec_greet (h : HonestFormat env w) {e : String}
    (hfails : GreetingFails env w e) : (exec env.handle greet w).2 = .ok (.error e) := by
  rcases hfails with hfails | ⟨w₁, hs, hhs, hfails⟩
  · rw [greet, exec_bind_error (Prod.ext rfl hfails)]
  · have herr : hs.error = "" := (h w₁ hs hhs).1
    rw [greet, exec_bind_ok hhs, refuseIf_bind_of_not (not_not.mpr herr),
      exec_bind_error (Prod.ext rfl hfails)]

/-- A request is answered, or the connection fails. -/
theorem exec_rpc2Call_cases (env : Env σ) (w : World σ) (method : String) (seq : ℕ) (body : Bytes) :
    ∃ w', (∃ e, exec env.handle (rpc2Call method seq body) w = (w', .ok (.error e))) ∨
      ∃ m, exec env.handle (rpc2Call method seq body) w = (w', .ok (.ok m)) := by
  rw [exec_rpc2Call]
  rcases callResult (env.exchange w (Cbor.message method seq "" body)).2 with e | m
  · exact ⟨_, .inl ⟨e, rfl⟩⟩
  · exact ⟨_, .inr ⟨m, rfl⟩⟩

/-- With a peer that answers as a server does, a pass gets to the loop unless the connection
fails. -/
theorem HonestFormat.greet_cases (h : HonestFormat env w) :
    (∃ w' e, exec env.handle greet w = (w', .ok (.error e)) ∧ GreetingFails env w e) ∨
      ∃ w₁ height has, exec env.handle greet w = (w₁, .ok (.ok (height, has))) := by
  obtain ⟨w₁, ⟨e, hhs⟩ | ⟨hs, hhs⟩⟩ :=
    exec_rpc2Call_cases env w "Peer.Handshake" 1 (handshakeRequest 1)
  · refine .inl ⟨w₁, e, exec_bind_error hhs, .inl ?_⟩
    rw [hhs]
  obtain ⟨herr, hchain⟩ := h w₁ hs hhs
  obtain ⟨w₂, ⟨e, hm⟩ | ⟨m, hm⟩⟩ := exec_rpc2Call_cases env w₁ "Peer.Chain" 2 (chainRequest 0 5000)
  · refine .inl ⟨w₂, e, ?_, .inr ⟨w₁, hs, hhs, ?_⟩⟩
    · rw [greet, exec_bind_ok hhs, refuseIf_bind_of_not (not_not.mpr herr), exec_bind_error hm]
    · rw [hm]
  obtain ⟨hmerr, has, hhas⟩ := hchain w₂ m hm
  refine .inr ⟨w₂, ((hs.payload.get "H").bind Value.asU64).elim 0 UInt64.toNat, has, ?_⟩
  rw [greet, exec_bind_ok hhs, refuseIf_bind_of_not (not_not.mpr herr), exec_bind_ok hm,
    refuseIf_bind_of_not (not_not.mpr hmerr), hhas]
  rfl

/-- What a program does before its attempts. -/
theorem tries_bind_before {α β : Type} {m : Fallible Op α} {f : α → Fallible Op β} {w' : World σ}
    {x : α} (hm : exec env.handle m w = (w', .ok (.ok x))) (cs : List (Σ β, Op β))
    (as : List Attempt) :
    Tries env (trace env.handle m w ++ cs) as (m >>= f) w ↔ Tries env cs as (f x) w' := by
  rw [Tries, Tries, trace_bind_ok hm, exec_bind_ok hm, List.append_assoc,
    List.append_cancel_left_eq]

/-- What a program makes of the result of its attempts. -/
theorem tries_bind_after {α β : Type} {m : Fallible Op α} {g : α → β} (cs : List (Σ β, Op β))
    (as : List Attempt) :
    Tries env cs as (m >>= fun x => return g x) w ↔ Tries env cs as m w := by
  rcases hm : exec env.handle m w with ⟨w', p | e | x⟩
  · have hpanic : exec env.handle (m >>= fun x => return g x) w = (w', .error p) :=
      exec_bind_panic hm
    rw [Tries, Tries, hpanic, hm]
    exact iff_of_false (fun h => nomatch h.2) (fun h => nomatch h.2)
  · have herror : exec env.handle (m >>= fun x => return g x) w = (w', .ok (.error e)) :=
      exec_bind_error hm
    rw [Tries, Tries, trace_bind_error hm, herror, hm]
    simp only [Except.ok.injEq, exists_eq_left', reduceCtorEq, exists_false]
  · have hok : exec env.handle (m >>= fun x => return g x) w = (w', .ok (.ok (g x))) :=
      exec_bind_ok hm
    have hnone : trace env.handle (pure (g x) : Fallible Op β) w' = [] := rfl
    rw [Tries, Tries, trace_bind_ok hm, hok, hm, hnone, List.append_nil]
    simp only [Except.ok.injEq, exists_eq_left', exists_eq']

/-- A pass whose loop is reached. -/
theorem overcomes_iff_of_greet (h : HonestFormat env w) {w₁ w₂ : World σ} {height : ℕ}
    {has : Finset String} {view : List (ℕ × U8Array 32)}
    (hgreet : exec env.handle greet w = (w₁, .ok (.ok (height, has))))
    (hview : exec env.handle chainView w₁ = (w₂, .ok (.ok view))) :
    Overcomes env build dir token readError w ↔
      ∀ a ∈ attempts env build token (lacking syncCap has view) 0 w₂, a.Harmless := by
  have hloop : Tries env (trace env.handle greet w ++ trace env.handle chainView w₁)
      (attempts env build token (lacking syncCap has view) 0 w₂)
      (pushStream build dir token readError) w ↔
        ∀ a ∈ attempts env build token (lacking syncCap has view) 0 w₂, a.Harmless := by
    rw [pushStream_eq, tries_bind_before hgreet, ← List.append_nil (trace env.handle chainView w₁),
      tries_bind_before hview, tries_bind_after]
    exact tries_pushEntries_iff has view 0 0 w₂
  rw [← hloop]
  constructor
  · -- the greeting has gone well, and there is only one of it
    rintro (⟨e, hfails, -⟩ | ⟨w₁', height', has', w₂', view', hgreet', hview', htries⟩)
    · have herror := hfails.exec_greet h
      rw [hgreet] at herror
      cases herror
    · rw [hgreet] at hgreet'
      cases hgreet'
      rw [hview] at hview'
      cases hview'
      exact htries
  · intro htries
    exact .inr ⟨w₁, height, has, w₂, view, hgreet, hview, htries⟩

/-- **A push pass** is not stopped by a single body exactly when it is undisturbed. -/
theorem overcomes_iff (h : HonestFormat env w) :
    Overcomes env build dir token readError w ↔ Undisturbed env build token w := by
  rcases h.greet_cases with ⟨w', e, hgreet, hfails⟩ | ⟨w₁, height, has, hgreet⟩
  · refine iff_of_true (.inl ⟨e, hfails, ?_⟩) fun w₁ height has hok => ?_
    · rw [pushStream_eq, exec_bind_error hgreet]
    · rw [hgreet] at hok
      cases hok
  by_cases hview : ∃ w₂ view, exec env.handle chainView w₁ = (w₂, .ok (.ok view))
  · obtain ⟨w₂, view, hview⟩ := hview
    rw [overcomes_iff_of_greet h hgreet hview]
    constructor
    · intro hharm w₁' height' has' hgreet'
      rw [hgreet] at hgreet'
      cases hgreet'
      exact ⟨w₂, view, hview, hharm⟩
    · intro hund
      obtain ⟨w₂', view', hview', hharm⟩ := hund w₁ height has hgreet
      rw [hview] at hview'
      cases hview'
      exact hharm
  · -- listing the local bodies unwinds
    refine iff_of_false ?_ fun hund => ?_
    · rintro (⟨e, hfails, -⟩ | ⟨w₁', height', has', w₂, view, hgreet', hview', -⟩)
      · have herror := hfails.exec_greet h
        rw [hgreet] at herror
        cases herror
      · rw [hgreet] at hgreet'
        cases hgreet'
        exact hview ⟨w₂, view, hview'⟩
    · obtain ⟨w₂, view, hview', -⟩ := hund w₁ height has hgreet
      exact hview ⟨w₂, view, hview'⟩

end

/-! ## A peer without bodies -/

/-- A peer without bodies, and with the answer `puts n` to the push with the number `n`. It knows
only how many requests it has answered. -/
def pushPeer (puts : ℕ → Bytes) : ℕ → Bytes → ℕ × Except String Bytes
  | 0, _ => (1, .ok (okFrame (requestMessage "Peer.Handshake" 1 .null) (handshakeResponse 0 1)))
  | 1, _ => (2, .ok (okFrame (requestMessage "Peer.Chain" 2 .null) (chainResponse [])))
  | n + 2, _ => (n + 3, .ok (puts n))

/-- A peer with one answer to every push. -/
def emptyPeer (put : Bytes) : ℕ → Bytes → ℕ × Except String Bytes := pushPeer fun _ => put

section

variable {env : Env ℕ} {puts : ℕ → Bytes} {w : World ℕ}

theorem rpc2Call_pushPeer (hnet : env.net = pushPeer puts) (hpeer : w.peer = 0) :
    ∃ hs m, exec env.handle (rpc2Call "Peer.Handshake" 1 (handshakeRequest 1)) w =
        ({ w.next with peer := 1 }, .ok (.ok hs)) ∧ hs.error = "" ∧
      exec env.handle (rpc2Call "Peer.Chain" 2 (chainRequest 0 5000)) { w.next with peer := 1 } =
        ({ w.next.next with peer := 2 }, .ok (.ok m)) ∧ m.error = "" ∧
      peerHas (m.payload.asArray.getD []) ∅ = .ok ∅ := by
  have hhandshake := @callResult_okFrame (requestMessage "Peer.Handshake" 1 .null) _ _
    (encodesPayload_handshakeResponse 0 1) (by decide)
  have hchain := @callResult_okFrame (requestMessage "Peer.Chain" 2 .null) _ _
    (@encodesPayload_chainResponse [] (by decide)) (by decide)
  refine ⟨⟨"", 1, "", fieldsObject [("H", Cbor.uint 0, .uint 0), ("N", Cbor.uint 1, .uint 1)]⟩,
    ⟨"", 2, "", .array []⟩, ?_, rfl, ?_, rfl, rfl⟩
  · rw [exec_rpc2Call]
    simp only [Env.exchange, hnet, hpeer, pushPeer]
    rw [hhandshake]
    rfl
  · rw [exec_rpc2Call]
    simp only [Env.exchange, hnet, pushPeer]
    rw [hchain]
    rfl

theorem honestFormat_pushPeer (hnet : env.net = pushPeer puts) (hpeer : w.peer = 0) :
    HonestFormat env w := by
  obtain ⟨hs, m, hhs, herr, hm, hmerr, hhas⟩ := rpc2Call_pushPeer hnet hpeer
  intro w₁ hs' hhs'
  rw [hhs] at hhs'
  cases hhs'
  refine ⟨herr, fun w₂ m' hm' => ?_⟩
  rw [hm] at hm'
  cases hm'
  exact ⟨hmerr, ∅, hhas⟩

theorem exec_greet_pushPeer (hnet : env.net = pushPeer puts) (hpeer : w.peer = 0) :
    ∃ height, exec env.handle greet w =
      ({ w.next.next with peer := 2 }, .ok (.ok (height, ∅))) := by
  obtain ⟨hs, m, hhs, herr, hm, hmerr, hhas⟩ := rpc2Call_pushPeer hnet hpeer
  refine ⟨((hs.payload.get "H").bind Value.asU64).elim 0 UInt64.toNat, ?_⟩
  rw [greet, exec_bind_ok hhs, refuseIf_bind_of_not (not_not.mpr herr), exec_bind_ok hm,
    refuseIf_bind_of_not (not_not.mpr hmerr), hhas]
  rfl

end

theorem eq_of_snd {α β : Type} {x : α × β} {b : β} (h : x.2 = b) : x = (x.1, b) := Prod.ext rfl h

/-- Of three bodies the peer refuses the second: it is skipped, and the two others are pushed. -/
theorem overcomes_iff_refused :
    let puts (n : ℕ) : Bytes := if n = 1 then errorResponse 202 "413 body too large"
      else Cbor.message "" (201 + n) "" (putobjectResponse (Build.leading.sha256 [5 + .ofNat n]))
    let env : Env ℕ := .still (pushPeer puts) 60
    let w : World ℕ := { World.fresh 0 with dir := storeOf .leading [[5], [6], [7]] }
    (exec env.handle (pushStream .leading "/cli" "" id) w).2.toOption = some (.ok (0, 2, 0)) ∧
      Overcomes env .leading "/cli" "" id w := by
  intro puts env w
  refine ⟨by decide +kernel, ?_⟩
  refine (overcomes_iff (honestFormat_pushPeer rfl rfl)).mpr fun w₁ height has hgreet => ?_
  obtain ⟨height', hgreet'⟩ := @exec_greet_pushPeer env puts w rfl rfl
  rw [hgreet] at hgreet'
  cases hgreet'
  have hview : (exec env.handle chainView { w.next.next with peer := 2 }).2 = .ok (.ok
      [(0, Build.leading.sha256 [5]), (1, Build.leading.sha256 [6]),
        (2, Build.leading.sha256 [7])]) := by
    decide +kernel
  refine ⟨_, _, eq_of_snd hview, ?_⟩
  decide +kernel

/-- A node with two bodies; the hash of the first starts with 401. -/
def twoBodies : World ℕ := { World.fresh 0 with dir := storeOf .leading [[0x40, 0x11], [7]] }

/-- A system in which the file `lost` calls later cannot be read. -/
def losing (put : Bytes) (lost : ℕ) : Env ℕ :=
  { Env.still (emptyPeer put) 60 with
    fault := fun t => if t = lost then some ⟨"Input/output error (os error 5)", none⟩ else none }

/-- **A single body stops the pass**: because the disk of the peer is full and the hash in the file
path has the digits 401, or because its own file is not read. -/
theorem single_body_stops :
    let full := s!"write /srv/{incomingFile (cidOf .leading [0x40, 0x11])}: No space left on device"
    let refusing : Env ℕ := .still (emptyPeer (errorResponse 201 full)) 60
    let unread : Env ℕ := losing [] 5
    (HonestFormat refusing twoBodies ∧ ¬ Overcomes refusing .leading "/cli" "" id twoBodies) ∧
      HonestFormat unread twoBodies ∧ ¬ Overcomes unread .leading "/cli" "" id twoBodies := by
  intro full refusing unread
  have hrefusing : HonestFormat refusing twoBodies := honestFormat_pushPeer rfl rfl
  have hunread : HonestFormat unread twoBodies := honestFormat_pushPeer rfl rfl
  refine ⟨⟨hrefusing, fun h => ?_⟩, hunread, fun h => ?_⟩
  · obtain ⟨height, hgreet⟩ := @exec_greet_pushPeer refusing _ twoBodies rfl rfl
    have hview : (exec refusing.handle chainView { twoBodies.next.next with peer := 2 }).2 =
        .ok (.ok [(0, Build.leading.sha256 [0x40, 0x11]), (1, Build.leading.sha256 [7])]) := by
      decide +kernel
    rw [overcomes_iff_of_greet hrefusing hgreet (eq_of_snd hview)] at h
    revert h
    decide +kernel
  · obtain ⟨height, hgreet⟩ := @exec_greet_pushPeer unread _ twoBodies rfl rfl
    have hview : (exec unread.handle chainView { twoBodies.next.next with peer := 2 }).2 =
        .ok (.ok [(0, Build.leading.sha256 [0x40, 0x11]), (1, Build.leading.sha256 [7])]) := by
      decide +kernel
    rw [overcomes_iff_of_greet hunread hgreet (eq_of_snd hview)] at h
    revert h
    decide +kernel

end SporePeer
