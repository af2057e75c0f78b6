import SporePeer.Node.Serving

/-!
# The gates of a push

A push is stored exactly if it passes every gate: the body is hexadecimal, the limiter admits the
address, the token is right, the quota has room, and the name is the hash of the body. Nothing else
changes the store.

## Main definitions

* `bodyBytes`, `bodiesOf`: the size of a store, and its bodies
* `Admitted`: the gates

## Main results

* `exec_storeBytes`, `exec_enforceWritePolicy`, `exec_storeBody_present`, `exec_storeBody_new`: what
  the parts of the handler do
* `putObject_iff`: what the handler does
-/

namespace SporePeer

open Effects Text

/-! ## The size of a store -/

/-- The bytes of the body under a name. -/
def bodySize (dir : Table String FileData) (name : String) : ℕ :=
  if extension name = some "body" then ((dir.lookup name).map (·.content.length)).getD 0 else 0

/-- The bytes of the bodies in a store. -/
def bodyBytes (dir : Table String FileData) : ℕ :=
  ((dir.entries.filter fun e => extension e.1 = some "body").map fun e => e.2.content.length).sum

theorem sum_bodySize (dir : Table String FileData) :
    (dir.keys.map (bodySize dir)).sum = bodyBytes dir := by
  have hsum (l : List (Σ _ : String, FileData)) (hl : ∀ e ∈ l, e ∈ dir.entries) :
      ((l.map Sigma.fst).map (bodySize dir)).sum =
        ((l.filter fun e => extension e.1 = some "body").map fun e => e.2.content.length).sum := by
    induction l with
    | nil => rfl
    | cons e l ih =>
      have he : dir.lookup e.1 = some e.2 := Table.mem_entries_iff.mp (hl e (by simp))
      rw [List.map_cons, List.map_cons, List.sum_cons, ih fun x hx => hl x (by simp [hx]),
        List.filter_cons, bodySize, he]
      by_cases hext : extension e.1 = some "body"
      · simp [hext]
      · simp [hext]
  exact hsum dir.entries fun _ he => he

section

variable {σ : Type} {env : Env σ} {build : Build} {cfg : ServeConfig} {w : World σ}

theorem exec_storeBytesOf (hcalm : env.Calm) (names : List String) {total : ℕ}
    (htotal : total ≤ 2 ^ 64 - 1) (w : World σ) :
    ∃ t, exec env.handle (storeBytesOf names total) w = ({ w with tick := t },
      .ok (.ok (min (total + (names.map (bodySize w.dir)).sum) (2 ^ 64 - 1)))) := by
  induction names generalizing total w with
  | nil =>
    refine ⟨w.tick, ?_⟩
    rw [storeBytesOf, List.map_nil, List.sum_nil, Nat.add_zero, min_eq_left htotal]
    rfl
  | cons name rest ih =>
    rw [storeBytesOf, List.map_cons, List.sum_cons, bodySize]
    by_cases hext : extension name = some "body"
    · rw [if_pos hext, if_pos hext, exec_ask_bind]
      simp only [Env.handle, hcalm.lookup]
      -- a file without metadata counts nothing
      rcases w.dir.lookup name with _ | d
      · obtain ⟨t, ht⟩ := ih htotal w.next
        rw [Option.map_none, Option.getD_none, Nat.zero_add]
        exact ⟨t, ht⟩
      · have hle : min (total + d.content.length) (2 ^ 64 - 1) ≤ 2 ^ 64 - 1 := min_le_right _ _
        obtain ⟨t, ht⟩ := ih hle w.next
        refine ⟨t, ?_⟩
        simp only [Option.map_some, Option.elim_some, Option.getD_some]
        rw [ht]
        have hmin : min (min (total + d.content.length) (2 ^ 64 - 1) +
            (rest.map (bodySize w.dir)).sum) (2 ^ 64 - 1) = min (total + (d.content.length +
            (rest.map (bodySize w.dir)).sum)) (2 ^ 64 - 1) := by omega
        exact congrArg (fun n => (_, Except.ok (Except.ok n))) hmin
    · rw [if_neg hext, if_neg hext, Nat.zero_add]
      exact ih htotal w

/-- The bytes of the bodies, as far as a counter of 64 bits goes. -/
theorem exec_storeBytes (hcalm : env.Calm) (w : World σ) :
    ∃ t, exec env.handle storeBytes w =
      ({ w with tick := t }, .ok (.ok (min (bodyBytes w.dir) (2 ^ 64 - 1)))) := by
  obtain ⟨t, ht⟩ := exec_storeBytesOf hcalm (env.listing w.tick w.dir.keys) (Nat.zero_le _) w.next
  refine ⟨t, ?_⟩
  rw [storeBytes, exec_ask_bind]
  simp only [Env.handle, hcalm w.tick, Option.getD_some]
  rw [ht, Nat.zero_add]
  have hsum : ((env.listing w.tick w.dir.keys).map (bodySize w.dir)).sum = bodyBytes w.dir := by
    rw [((env.listing_perm w.tick w.dir.keys).map _).sum_eq, sum_bodySize]
  exact congrArg (fun n => (_, Except.ok (Except.ok (min n _)))) hsum

end

/-! ## The gates -/

/-- The limiter of pushes admits the address in a second. -/
def Unhurried (cfg : ServeConfig) (wins : Wins) (ip : String) (now : ℕ) : Prop :=
  cfg.putRate = 0 ∨ (countHit cfg.putRate wins ip now).2 = true

instance (cfg : ServeConfig) (wins : Wins) (ip : String) (now : ℕ) :
    Decidable (Unhurried cfg wins ip now) := inferInstanceAs (Decidable (_ ∨ _))

/-- A store of `used` bytes has room for a body. -/
def HasRoom (cfg : ServeConfig) (used len : ℕ) : Prop :=
  0 < cfg.maxStoreBytes → min (min used (2 ^ 64 - 1) + len) (2 ^ 64 - 1) ≤ cfg.maxStoreBytes

instance (cfg : ServeConfig) (used len : ℕ) : Decidable (HasRoom cfg used len) :=
  inferInstanceAs (Decidable (_ → _))

/-- The push of `body` passes every gate. -/
structure Admitted {σ : Type} (env : Env σ) (build : Build) (cfg : ServeConfig) (ip : String)
    (msg : Rpc2Message) (w : World σ) (body : Bytes) : Prop where
  hex : Hex.decode (payloadText msg "BODY") = some body
  rate : Unhurried cfg w.putWins ip (env.clock w.tick)
  token : ∀ tok, cfg.token = some tok → payloadText msg "TOKEN" = tok
  room : HasRoom cfg (bodyBytes w.dir) body.length
  blid : (hexDecode (asBytes (payloadText msg "BLID"))).run =
    .ok (some (build.sha256 body).toList)
  size : 1 ≤ body.length ∧ body.length ≤ maxBodyBytes

theorem admitted_iff {σ : Type} {env : Env σ} {build : Build} {cfg : ServeConfig} {ip : String}
    {msg : Rpc2Message} {w : World σ} {body : Bytes} :
    Admitted env build cfg ip msg w body ↔
      Hex.decode (payloadText msg "BODY") = some body ∧
      Unhurried cfg w.putWins ip (env.clock w.tick) ∧
      (∀ tok ∈ cfg.token, payloadText msg "TOKEN" = tok) ∧
      HasRoom cfg (bodyBytes w.dir) body.length ∧
      (hexDecode (asBytes (payloadText msg "BLID"))).run = .ok (some (build.sha256 body).toList) ∧
      1 ≤ body.length ∧ body.length ≤ maxBodyBytes :=
  ⟨fun ⟨h₁, h₂, h₃, h₄, h₅, h₆⟩ => ⟨h₁, h₂, h₃, h₄, h₅, h₆⟩,
    fun ⟨h₁, h₂, h₃, h₄, h₅, h₆⟩ => ⟨h₁, h₂, h₃, h₄, h₅, h₆⟩⟩

instance {σ : Type} (env : Env σ) (build : Build) (cfg : ServeConfig) (ip : String)
    (msg : Rpc2Message) (w : World σ) (body : Bytes) :
    Decidable (Admitted env build cfg ip msg w body) :=
  decidable_of_iff' _ admitted_iff

section

variable {σ : Type} {env : Env σ} {build : Build} {cfg : ServeConfig} {dir ip : String}
  {msg : Rpc2Message} {w : World σ}

theorem exec_allow (w : World σ) (ip : String) (now : ℕ) :
    ∃ wins, exec env.handle (allow .put cfg.putRate ip now) w =
      ({ w with putWins := wins }, .ok (.ok (decide (Unhurried cfg w.putWins ip now)))) := by
  unfold allow
  by_cases hrate : cfg.putRate = 0
  · have hu : Unhurried cfg w.putWins ip now := .inl hrate
    refine ⟨w.putWins, ?_⟩
    rw [if_pos hrate, decide_eq_true hu]
    rfl
  · have hu : decide (Unhurried cfg w.putWins ip now) =
        (countHit cfg.putRate w.putWins ip now).2 := by
      rw [Bool.eq_iff_iff, decide_eq_true_iff, Unhurried, or_iff_right hrate]
    refine ⟨(countHit cfg.putRate w.putWins ip now).1, ?_⟩
    rw [if_neg hrate, exec_locked, exec_ask_bind, exec_ask_bind, hu]
    rfl

/-- The verdict of the policy on a push. -/
def verdict (env : Env σ) (cfg : ServeConfig) (ip : String) (len : ℕ) (payload : Value)
    (w : World σ) : Except String Unit :=
  if ¬ Unhurried cfg w.putWins ip (env.clock w.tick) then .error "429 put rate limit exceeded"
  else if cfg.token.any fun tok => !ctEq (((payload.get "TOKEN").bind Value.asStr).getD "") tok then
    .error "401 bad write token"
  else if ¬ HasRoom cfg (bodyBytes w.dir) len then .error "507 store full"
  else .ok ()

/-- The policy counts the hit, and changes nothing else. -/
theorem exec_enforceWritePolicy (hcalm : env.Calm) (cfg : ServeConfig) (ip : String) (len : ℕ)
    (payload : Value) (w : World σ) :
    ∃ t wins, exec env.handle (enforceWritePolicy cfg ip len payload) w =
      ({ w with tick := t, putWins := wins }, .ok (verdict env cfg ip len payload w)) := by
  have hallow : ∃ wins, exec env.handle (allow .put cfg.putRate ip (env.clock w.tick)) w.next =
      ({ w.next with putWins := wins },
        .ok (.ok (decide (Unhurried cfg w.putWins ip (env.clock w.tick))))) := exec_allow w.next ip _
  obtain ⟨wins, hallow⟩ := hallow
  rw [enforceWritePolicy, exec_ask_bind]
  simp only [Env.handle]
  rw [exec_bind_ok hallow, exec_refuseIf_bind, verdict]
  -- the checks are made in this order: rate, token, room
  by_cases hu : Unhurried cfg w.putWins ip (env.clock w.tick)
  · rw [if_neg (by simpa using hu), if_neg (not_not.mpr hu), exec_refuseIf_bind]
    split
    · exact ⟨_, _, rfl⟩
    · by_cases hmax : 0 < cfg.maxStoreBytes
      · obtain ⟨t, hbytes⟩ := exec_storeBytes hcalm ({ w.next with putWins := wins } : World σ)
        refine ⟨t, wins, ?_⟩
        rw [if_pos hmax, exec_bind_ok hbytes, refuseIf, exec_orFail]
        have hroom : HasRoom cfg (bodyBytes w.dir) len ↔ ¬ cfg.maxStoreBytes <
            min (min (bodyBytes w.dir) (2 ^ 64 - 1) + len) (2 ^ 64 - 1) := by
          rw [HasRoom, not_lt, forall_prop_of_true hmax]
        simp only [hroom, not_not]
        rfl
      · have hroom : HasRoom cfg (bodyBytes w.dir) len := fun hpos => absurd hpos hmax
        rw [if_neg hmax, if_neg (not_not.mpr hroom)]
        exact ⟨_, _, rfl⟩
  · rw [if_pos (by simpa using hu), if_pos hu]
    exact ⟨_, _, rfl⟩

/-! ## Storing -/

theorem exec_storeBody_of_size (env : Env σ) (build : Build) (dir : String) (w : World σ)
    {body : Bytes} (hsize : ¬ (1 ≤ body.length ∧ body.length ≤ maxBodyBytes)) :
    ∃ e ∈ ["400 empty body", "413 body too large"],
      exec env.handle (storeBody build dir body) w = (w, .ok (.error e)) := by
  rw [storeBody, exec_refuseIf_bind]
  by_cases hempty : body = []
  · rw [if_pos hempty]
    exact ⟨_, by simp, rfl⟩
  · have hpos := List.length_pos_iff.mpr hempty
    rw [if_neg hempty, exec_refuseIf_bind, if_pos (by omega)]
    exact ⟨_, by simp, rfl⟩

/-- A body that is there is not written again. -/
theorem exec_storeBody_present (hcalm : env.Calm) (dir : String) {w : World σ} {body : Bytes}
    (hsize : 1 ≤ body.length ∧ body.length ≤ maxBodyBytes)
    (hpresent : (w.dir.lookup (bodyFile (cidOf build body))).isSome) :
    exec env.handle (storeBody build dir body) w = (w.next, .ok (.ok (cidOf build body))) := by
  have hne : body ≠ [] := List.length_pos_iff.mp hsize.1
  rw [storeBody, exec_refuseIf_bind, if_neg hne, exec_refuseIf_bind, if_neg (not_lt.mpr hsize.2),
    exec_ask_bind]
  simp only [Env.handle, hcalm.lookup, Option.isSome_map, hpresent, if_true]
  rfl

/-- A new body gets its file by way of the incoming one. -/
theorem exec_storeBody_new (hcalm : env.Calm) (dir : String) {w : World σ} {body : Bytes}
    (hsize : 1 ≤ body.length ∧ body.length ≤ maxBodyBytes)
    (hnew : w.dir.lookup (bodyFile (cidOf build body)) = none) :
    ∃ t m, exec env.handle (storeBody build dir body) w =
      ({ w with
          tick := t
          dir := ((w.dir.insert (incomingFile (cidOf build body)) ⟨body, m⟩).erase
            (incomingFile (cidOf build body))).insert (bodyFile (cidOf build body)) ⟨body, m⟩ },
        .ok (.ok (cidOf build body))) := by
  have hne : body ≠ [] := List.length_pos_iff.mp hsize.1
  refine ⟨w.tick + 4, env.stamp (w.tick + 2), ?_⟩
  rw [storeBody, exec_refuseIf_bind, if_neg hne, exec_refuseIf_bind, if_neg (not_lt.mpr hsize.2),
    exec_ask_bind]
  simp only [Env.handle, hcalm.lookup, hnew, Option.map_none, Option.isSome_none,
    Bool.false_eq_true, if_false]
  rw [exec_ask_bind]
  simp only [Env.handle, hcalm _, Except.mapError, exec_orFail_ok_bind]
  rw [exec_ask_bind]
  simp only [Env.handle, Env.write, hcalm _, exec_orFail_ok_bind]
  rw [exec_ask_bind]
  simp only [Env.handle, Env.rename, hcalm _, AList.lookup_insert]
  rfl

/-- The hash of the body is sent back. -/
theorem exec_putResponse (msg : Rpc2Message) (blid : U8Array 32) (w : World σ) :
    exec env.handle (putResponse msg (Hex.encode blid.toList)) w =
      ({ w with sent := w.sent ++ [okFrame msg (putobjectResponse blid)] }, .ok (.ok ())) := by
  rw [putResponse, hexDecode_encode, exec_orPanic_ok_bind]
  dsimp only
  rw [Bytes.copyFromSlice_toList, exec_orPanic_ok_bind]
  rfl

/-! ## Pushing -/

/-- The texts of refusals. -/
def refusals : List String :=
  ["400 body not valid hex", "429 put rate limit exceeded", "401 bad write token",
    "507 store full", "400 body sha256 != BLID", "400 empty body", "413 body too large"]

theorem verdict_cases (env : Env σ) (cfg : ServeConfig) (ip : String) (msg : Rpc2Message) (len : ℕ)
    (w : World σ) :
    (∃ e ∈ refusals, verdict env cfg ip len msg.payload w = .error e) ∨
    (verdict env cfg ip len msg.payload w = .ok () ∧
      Unhurried cfg w.putWins ip (env.clock w.tick) ∧
      (∀ tok, cfg.token = some tok → payloadText msg "TOKEN" = tok) ∧
      HasRoom cfg (bodyBytes w.dir) len) := by
  unfold verdict
  split
  · exact .inl ⟨_, by simp [refusals], rfl⟩
  rename_i hrate
  split
  · exact .inl ⟨_, by simp [refusals], rfl⟩
  rename_i htoken
  split
  · exact .inl ⟨_, by simp [refusals], rfl⟩
  rename_i hroom
  refine .inr ⟨rfl, not_not.mp hrate, fun tok htok => ?_, not_not.mp hroom⟩
  rw [htok, Option.any_some, Bool.not_eq_true', Bool.not_eq_false] at htoken
  exact ctEq_iff.mp htoken

theorem Admitted.verdict {body : Bytes} (h : Admitted env build cfg ip msg w body) :
    SporePeer.verdict env cfg ip body.length msg.payload w = .ok () := by
  have htoken : ¬ (cfg.token.any fun tok =>
      !ctEq (((msg.payload.get "TOKEN").bind Value.asStr).getD "") tok) = true := by
    rcases htok : cfg.token with _ | tok
    · exact Bool.false_ne_true
    · rw [Option.any_some, Bool.not_eq_true', Bool.not_eq_false, ctEq_iff]
      exact h.token tok htok
  rw [SporePeer.verdict, if_neg (not_not.mpr h.rate), if_neg htoken,
    if_neg (not_not.mpr h.room)]

/-- The name that a push gives must be the hash of its body. -/
theorem names_iff {raw : Option Bytes} {digest : U8Array 32} :
    ¬ (raw.any fun b => b.length = 32 ∧ b = digest.toList) = false ↔ raw = some digest.toList := by
  rcases raw with _ | b
  · simp
  · simp only [Option.any_some, Bool.not_eq_false, decide_eq_true_iff, Option.some.injEq,
      and_iff_right_iff_imp]
    rintro rfl
    exact digest.toList_length

/-- A push that passes the gates is stored and confirmed. -/
theorem putObject_of_admitted (hcalm : env.Calm) (dir : String) {body : Bytes}
    (h : Admitted env build cfg ip msg w body) :
    ∃ w' : World σ, exec env.handle (handlePutObject build cfg dir ip msg) w = (w', .ok (.ok ())) ∧
      w'.sent = w.sent ++ [okFrame msg (putobjectResponse (build.sha256 body))] ∧
      ((w.dir.lookup (bodyFile (cidOf build body))).isSome ∧ w'.dir = w.dir ∨
        w.dir.lookup (bodyFile (cidOf build body)) = none ∧ ∃ m,
          w'.dir = ((w.dir.insert (incomingFile (cidOf build body)) ⟨body, m⟩).erase
            (incomingFile (cidOf build body))).insert (bodyFile (cidOf build body)) ⟨body, m⟩) := by
  obtain ⟨t, wins, hpolicy⟩ :=
    exec_enforceWritePolicy hcalm cfg ip body.length msg.payload w
  rw [h.verdict] at hpolicy
  rw [handlePutObject, h.hex]
  dsimp only
  rw [exec_attempt_bind_ok hpolicy]
  dsimp only
  rw [h.blid, exec_orPanic_ok_bind, if_neg (names_iff.mpr rfl)]
  -- the policy has changed the windows of the limiter, and no file
  generalize hw₁ : ({ w with tick := t, putWins := wins } : World σ) = w₁
  have hdir : w₁.dir = w.dir := hw₁ ▸ rfl
  have hsent : w₁.sent = w.sent := hw₁ ▸ rfl
  rcases hlook : w.dir.lookup (bodyFile (cidOf build body)) with _ | d
  · obtain ⟨t', m, hstore⟩ := exec_storeBody_new hcalm dir h.size (by rwa [hdir])
    rw [exec_attempt_bind_ok hstore]
    dsimp only
    rw [cidOf, exec_putResponse]
    exact ⟨_, rfl, by rw [← hsent], .inr ⟨rfl, m, by rw [← hdir]⟩⟩
  · have hpresent : (w₁.dir.lookup (bodyFile (cidOf build body))).isSome := by
      rw [hdir, hlook]
      rfl
    have hstore := exec_storeBody_present hcalm dir h.size hpresent
    rw [exec_attempt_bind_ok hstore]
    dsimp only
    rw [cidOf, exec_putResponse]
    exact ⟨_, rfl, by rw [← hsent]; rfl, .inl ⟨rfl, by rw [← hdir]; rfl⟩⟩

/-- A push that some gate stops changes no file, and is refused, unless the handler unwinds. -/
theorem putObject_of_refused (hcalm : env.Calm) (dir : String)
    (h : ∀ body, ¬ Admitted env build cfg ip msg w body) :
    let w' := (exec env.handle (handlePutObject build cfg dir ip msg) w).1
    w'.dir = w.dir ∧ (w'.sent = w.sent ∨ ∃ e ∈ refusals, w'.sent = w.sent ++ [errFrame msg e]) := by
  intro w'
  have hrefuse {e : String} {v : World σ}
      (hw' : w' = (exec env.handle (respond (errFrame msg e)) v).1) (hdir : v.dir = w.dir)
      (hsent : v.sent = w.sent) (he : e ∈ refusals) : w'.dir = w.dir ∧
        (w'.sent = w.sent ∨ ∃ e ∈ refusals, w'.sent = w.sent ++ [errFrame msg e]) := by
    rw [hw']
    exact ⟨hdir, .inr ⟨e, he, by rw [← hsent]; rfl⟩⟩
  have hw' : w' = (exec env.handle (handlePutObject build cfg dir ip msg) w).1 := rfl
  rw [handlePutObject] at hw'
  rcases hhex : Hex.decode (payloadText msg "BODY") with _ | body
  · rw [hhex] at hw'
    exact hrefuse hw' rfl rfl (by simp [refusals])
  rw [hhex] at hw'
  dsimp only at hw'
  obtain ⟨t, wins, hpolicy⟩ :=
    exec_enforceWritePolicy hcalm cfg ip body.length msg.payload w
  rw [exec_attempt_bind_ok hpolicy] at hw'
  rcases verdict_cases env cfg ip msg body.length w with
    ⟨e, he, hverdict⟩ | ⟨hverdict, hrate, htoken, hroom⟩ <;> rw [hverdict] at hw' <;>
    dsimp only at hw'
  · exact hrefuse hw' rfl rfl he
  rcases hblid : (hexDecode (asBytes (payloadText msg "BLID"))).run with p | raw
  · -- the name cuts a character, and the connection is lost
    rw [hblid] at hw'
    rw [hw']
    exact ⟨rfl, .inl rfl⟩
  rw [hblid, exec_orPanic_ok_bind] at hw'
  by_cases hname : (raw.any fun b => b.length = 32 ∧ b = (build.sha256 body).toList) = false
  · rw [if_pos hname] at hw'
    exact hrefuse hw' rfl rfl (by simp [refusals])
  rw [if_neg hname] at hw'
  have hsize : ¬ (1 ≤ body.length ∧ body.length ≤ maxBodyBytes) := fun hsize =>
    h body ⟨hhex, hrate, htoken, hroom, by rw [hblid, names_iff.mp hname], hsize⟩
  obtain ⟨e, he, hstore⟩ := exec_storeBody_of_size env build dir
    { w with tick := t, putWins := wins } hsize
  rw [exec_attempt_bind_ok hstore] at hw'
  dsimp only at hw'
  refine hrefuse hw' rfl rfl ?_
  rcases List.mem_pair.mp he with rfl | rfl <;> simp [refusals]

/-! ## The store -/

/-- The bodies of a store, by name. -/
def bodiesOf (dir : Table String FileData) (cid : String) : Option Bytes :=
  (dir.lookup (bodyFile cid)).map FileData.content

theorem bodiesOf_stored (dir : Table String FileData) (cid : String) (d : FileData) :
    bodiesOf (((dir.insert (incomingFile cid) d).erase (incomingFile cid)).insert
      (bodyFile cid) d) = Function.update (bodiesOf dir) cid (some d.content) := by
  funext c
  rw [bodiesOf, Table.lookup_insert_eq, Function.update_apply]
  by_cases hc : c = cid
  · rw [if_pos hc, if_pos (bodyFile_inj.mpr hc)]
    rfl
  · rw [if_neg hc, if_neg (mt bodyFile_inj.mp hc), Table.lookup_erase_eq,
      if_neg (bodyFile_ne_incomingFile _ _), Table.lookup_insert_eq,
      if_neg (bodyFile_ne_incomingFile _ _), bodiesOf]

/-- The response to a stored body is no refusal, and tells the hash. -/
theorem okFrame_ne_errFrame {blid : U8Array 32} {e : String} (he : e ∈ refusals) :
    okFrame msg (putobjectResponse blid) ≠ errFrame msg e := by
  intro hframe
  have hok : decoded (okFrame msg (putobjectResponse blid)) = _ :=
    decoded_message (by decide) (encodesPayload_putobjectResponse blid)
  have hsize : ∀ e ∈ refusals, e.utf8ByteSize ≤ 100 ∧ e ≠ "" := by decide
  obtain ⟨hle, hne⟩ := hsize e he
  have hlen : "".utf8ByteSize + e.utf8ByteSize + 100 < 2 ^ 64 := by
    rw [show "".utf8ByteSize = 0 from rfl]
    omega
  have herr : decoded (errFrame msg e) = _ := decoded_message hlen (.inl ⟨rfl, rfl⟩)
  rw [hframe, herr] at hok
  have := congrArg Rpc2Message.error (Option.some.inj hok)
  exact hne this

theorem okFrame_putobjectResponse_inj {b b' : U8Array 32}
    (h : okFrame msg (putobjectResponse b) = okFrame msg (putobjectResponse b')) : b = b' := by
  have hb : decoded (okFrame msg (putobjectResponse b)) = _ :=
    decoded_message (by decide) (encodesPayload_putobjectResponse b)
  have hb' : decoded (okFrame msg (putobjectResponse b')) = _ :=
    decoded_message (by decide) (encodesPayload_putobjectResponse b')
  rw [h, hb'] at hb
  have hpayload := congrArg Rpc2Message.payload (Option.some.inj hb)
  have hfield := congrArg (fun v : Value => (v.get "BLID").bind Value.asStr) hpayload
  have hspell := Option.some.inj hfield
  exact (List.Vector.toList_injective (Hex.encode_injective hspell)).symm

/-- **What a push does.** The response confirms the hash of the body exactly if the push passes the
gates. Then the store gains the body under its hash, otherwise no file changes. -/
theorem putObject_iff (env : Env σ) (hcalm : env.Calm) (build : Build) (cfg : ServeConfig)
    (dir ip : String) (msg : Rpc2Message) (w : World σ)
    (hnamed : ∀ cid b, bodiesOf w.dir cid = some b → cidOf build b = cid)
    (hcollide : ∀ cid b body, bodiesOf w.dir cid = some b →
      Hex.decode (payloadText msg "BODY") = some body → build.sha256 b = build.sha256 body →
      b = body) :
    let w' := (exec env.handle (handlePutObject build cfg dir ip msg) w).1
    (∀ blid, w'.sent = w.sent ++ [okFrame msg (putobjectResponse blid)] ↔
      ∃ body, Admitted env build cfg ip msg w body ∧ blid = build.sha256 body) ∧
    (∀ body, Admitted env build cfg ip msg w body →
      bodiesOf w'.dir = Function.update (bodiesOf w.dir) (cidOf build body) (some body)) ∧
    ((¬ ∃ body, Admitted env build cfg ip msg w body) → w'.dir = w.dir) := by
  intro w'
  by_cases h : ∃ body, Admitted env build cfg ip msg w body
  · obtain ⟨body, hbody⟩ := h
    obtain ⟨w₁, hrun, hsent, hdir⟩ := putObject_of_admitted hcalm dir hbody
    have hw' : w' = w₁ := congrArg Prod.fst hrun
    -- the body is read off the message, so there is only one
    have hunique (b : Bytes) (hb : Admitted env build cfg ip msg w b) : b = body :=
      Option.some.inj (hb.hex.symm.trans hbody.hex)
    refine ⟨fun blid => ?_, fun b hb => ?_, fun hno => absurd ⟨body, hbody⟩ hno⟩
    · rw [hw', hsent, List.append_cancel_left_eq, List.cons.injEq, and_iff_left rfl]
      constructor
      · exact fun he => ⟨body, hbody, (okFrame_putobjectResponse_inj he).symm⟩
      · rintro ⟨b, hb, rfl⟩
        rw [hunique b hb]
    · rw [hw', hunique b hb]
      rcases hdir with ⟨hpresent, hdir⟩ | ⟨-, m, hdir⟩
      · -- the file that is there already has these contents
        rw [hdir]
        obtain ⟨d, hd⟩ := Option.isSome_iff_exists.mp hpresent
        have hat : bodiesOf w.dir (cidOf build body) = some d.content := by rw [bodiesOf, hd]; rfl
        have hsame := hcollide _ _ body hat hbody.hex (List.Vector.toList_injective
          (Hex.encode_injective (hnamed _ _ hat)))
        rw [← hsame] at hat ⊢
        rw [← hat, Function.update_eq_self]
      · rw [hdir, bodiesOf_stored]
  · obtain ⟨hdir, hsent⟩ := putObject_of_refused hcalm dir (not_exists.mp h)
    refine ⟨fun blid => ⟨fun he => ?_, fun ⟨b, hb, _⟩ => absurd ⟨b, hb⟩ h⟩,
      fun b hb => absurd ⟨b, hb⟩ h, fun _ => hdir⟩
    -- an answer that is sent here is an error
    rcases hsent with hsent | ⟨e, hmem, hsent⟩
    · have := congrArg List.length (hsent.symm.trans he)
      simp at this
    · have hframe := List.append_cancel_left (hsent.symm.trans he)
      exact absurd (List.cons.inj hframe).1.symm (okFrame_ne_errFrame hmem)

end

/-- The push of a body under its name. -/
def putRequest (build : Build) (body : Bytes) : Rpc2Message :=
  ⟨"Peer.PutObject", 1, "", .object [("BLID", .string (cidOf build body)),
    ("BODY", .string (Hex.encode body))]⟩

/-- The first push under a rate of one and a quota of two bytes. -/
theorem putObject_iff_first :
    let env : Env Unit := .still (fun p _ => (p, .error "closed")) 60
    let cfg : ServeConfig := { maxStoreBytes := 2, putRate := 1 }
    let msg := putRequest .leading [7, 8]
    let w' := (exec env.handle (handlePutObject .leading cfg "" "ip" msg) (.fresh ())).1
    w'.sent = [okFrame msg (putobjectResponse (Build.leading.sha256 [7, 8]))] ∧
      bodiesOf w'.dir (cidOf .leading [7, 8]) = some [7, 8] := by
  intro env cfg msg w'
  have hempty (cid : String) : bodiesOf ∅ cid = none := rfl
  have hiff := putObject_iff env (Env.still_calm _ _) .leading cfg "" "ip" msg (.fresh ())
    (fun cid b hb => nomatch (hempty cid).symm.trans hb)
    (fun cid b _ hb => nomatch (hempty cid).symm.trans hb)
  have hadmitted : Admitted env .leading cfg "ip" msg (.fresh ()) [7, 8] := by
    refine ⟨by decide +kernel, by decide, fun tok htok => (nomatch htok), by decide,
      hexDecode_encode _, by decide⟩
  refine ⟨(hiff.1 _).mpr ⟨_, hadmitted, rfl⟩, ?_⟩
  rw [hiff.2.1 _ hadmitted, Function.update_self]

end SporePeer
