import SporePeer.Node.Admission
import SporePeer.Node.BodySizes
import SporePeer.Node.Fetch
import SporePeer.Node.Serving

/-!
# What an answer to a push is worth

The write path looks at the name of a body only: a file of that name is taken for the body, before
the write and not before the quota. So a body that is held is pushed again in vain where the store
is nearly full, and one whose file is damaged is acknowledged and not served. A store that fails
leaves its incoming file behind, unless it is the rename that fails.

## Main definitions

* `FailsClean`: the failures that leave no trace

## Main results

* `repush_iff`: when pushing a held body is a success that changes nothing
* `acknowledged_iff`: when a body that was acknowledged is served
* `failed_store_iff`: when a store that fails leaves the files as they were
-/

namespace SporePeer

open Effects Text

section

variable {σ : Type} {env : Env σ} {build : Build} {cfg : ServeConfig} {dir ip : String}
  {msg : Rpc2Message} {w : World σ} {body : Bytes}

/-! ## Pushing what is held -/

/-- A push that some gate stops does not confirm the body. -/
theorem not_confirmed (hcalm : env.Calm) (dir : String)
    (hhex : Hex.decode (payloadText msg "BODY") = some body)
    (hno : ¬ (Fits body ∧ HasRoom cfg (bodyBytes w.dir) body.length)) (blid : U8Array 32) :
    (exec env.handle (handlePutObject build cfg dir ip msg) w).1.sent ≠
      w.sent ++ [okFrame msg (putobjectResponse blid)] := by
  intro hsent
  have hrefused : ∀ b, ¬ Admitted env build cfg ip msg w b := by
    intro b hb
    obtain rfl : b = body := Option.some.inj (hb.hex.symm.trans hhex)
    exact hno ⟨hb.size, hb.room⟩
  rcases (putObject_of_refused hcalm dir hrefused).2 with hsame | ⟨e, he, herr⟩
  · have hlen := congrArg List.length (hsame.symm.trans hsent)
    rw [List.length_append, List.length_singleton] at hlen
    omega
  · -- a refusal is no confirmation
    have hframe := List.append_cancel_left (herr.symm.trans hsent)
    exact absurd (List.cons.inj hframe).1.symm (okFrame_ne_errFrame he)

/-- **Pushing a held body succeeds and changes nothing**, exactly if it has a size that is stored at
all, and the quota has room for a second copy of it. -/
theorem repush_iff (hcalm : env.Calm) (build : Build) (cfg : ServeConfig) (dir ip : String)
    (msg : Rpc2Message) (w : World σ) (body : Bytes)
    (hheld : bodiesOf w.dir (cidOf build body) = some body)
    (hhex : Hex.decode (payloadText msg "BODY") = some body)
    (hblid : (hexDecode (asBytes (payloadText msg "BLID"))).run =
      .ok (some (build.sha256 body).toList))
    (hrate : Unhurried cfg w.putWins ip (env.clock w.tick))
    (htoken : ∀ tok, cfg.token = some tok → payloadText msg "TOKEN" = tok) :
    let w' := (exec env.handle (handlePutObject build cfg dir ip msg) w).1
    (w'.sent = w.sent ++ [okFrame msg (putobjectResponse (build.sha256 body))] ∧
        w'.dir = w.dir) ↔
      Fits body ∧ HasRoom cfg (bodyBytes w.dir) body.length := by
  intro w'
  constructor
  · rintro ⟨hsent, -⟩
    by_contra hno
    exact not_confirmed hcalm dir hhex hno _ hsent
  · rintro ⟨hfits, hroom⟩
    obtain ⟨w₁, hrun, hsent, hdir⟩ :=
      putObject_of_admitted hcalm dir ⟨hhex, hrate, htoken, hroom, hblid, hfits⟩
    have hw' : w' = w₁ := congrArg Prod.fst hrun
    rw [hw']
    refine ⟨hsent, ?_⟩
    rcases hdir with ⟨-, hdir⟩ | ⟨hnone, -⟩
    · exact hdir
    · -- the body is held, so it is not new
      rw [bodiesOf, hnone] at hheld
      cases hheld

end

/-- A server that holds the one body `[7]`. -/
def holdingSeven : World Unit := serverOf .leading [[7]]

theorem bodiesOf_holdingSeven : bodiesOf holdingSeven.dir (cidOf .leading [7]) = some [7] := by
  rw [bodiesOf, holdingSeven, serverOf, storeOf, AList.lookup_insert]
  rfl

/-- With a quota of two bytes the second copy has room. -/
theorem repush_iff_room :
    let env : Env Unit := .still (fun p _ => (p, .error "closed")) 60
    let msg := putRequest .leading [7]
    let w' := (exec env.handle (handlePutObject .leading { maxStoreBytes := 2 } "" "ip" msg)
      holdingSeven).1
    w'.sent = [okFrame msg (putobjectResponse (Build.leading.sha256 [7]))] ∧
      w'.dir = holdingSeven.dir := by
  intro env msg w'
  have hcalm : env.Calm := Env.still_calm _ _
  have hiff := repush_iff hcalm .leading { maxStoreBytes := 2 } "" "ip" msg holdingSeven [7]
    bodiesOf_holdingSeven (by decide +kernel) (hexDecode_encode _) (.inl rfl)
    (fun tok htok => nomatch htok)
  exact hiff.mpr ⟨by decide, by decide +kernel⟩

/-- With a quota of one byte, which the body fills, it is refused. -/
theorem repush_refused :
    let env : Env Unit := .still (fun p _ => (p, .error "closed")) 60
    let msg := putRequest .leading [7]
    bodiesOf holdingSeven.dir (cidOf .leading [7]) = some [7] ∧
      (exec env.handle (handlePutObject .leading { maxStoreBytes := 1 } "" "ip" msg)
        holdingSeven).1.sent ≠ [okFrame msg (putobjectResponse (Build.leading.sha256 [7]))] := by
  intro env msg
  have hcalm : env.Calm := Env.still_calm _ _
  have hno : ¬ (Fits [7] ∧ HasRoom { maxStoreBytes := 1 } (bodyBytes holdingSeven.dir) 1) := by
    rintro ⟨-, hroom⟩
    exact absurd hroom (by decide +kernel)
  exact ⟨bodiesOf_holdingSeven, not_confirmed hcalm "" (by decide +kernel) hno _⟩

section

variable {σ : Type} {env : Env σ} {build : Build} {dir : String} {w : World σ} {body : Bytes}

/-! ## Serving what is acknowledged -/

/-- **A body that was acknowledged is served**, exactly if it was not stored at all, or no file of
its name with other contents was there. -/
theorem acknowledged_iff (hcalm : env.Calm) (build : Build) (dir : String) (w : World σ)
    (body : Bytes) :
    (∀ w' cid, exec env.handle (storeBody build dir body) w = (w', .ok (.ok cid)) →
        (exec env.handle (serveBody build cid) w').2 = .ok (.ok body)) ↔
      (Fits body → ∀ b, bodiesOf w.dir (cidOf build body) = some b → b = body) := by
  by_cases hfits : Fits body
  · rw [forall_prop_of_true hfits]
    have hshort : body.length < 2 ^ 63 := by
      have hle := hfits.2
      rw [maxBodyBytes] at hle
      omega
    -- what is served is what the file of the name holds
    have hserve {v : World σ} {b : Bytes} (hb : bodiesOf v.dir (cidOf build body) = some b) :
        (exec env.handle (serveBody build (cidOf build body)) v).2 = .ok (.ok body) ↔
          b = body := by
      rw [cidOf, exec_serveBody, Env.read, hcalm v.tick]
      dsimp only
      rw [show (v.dir.lookup (bodyFile (Hex.encode (build.sha256 body).toList))).map
        FileData.content = some b from hb, Option.filter_some]
      constructor
      · intro h
        split at h
        · cases h
        · rename_i data hdata
          split at hdata
          · obtain rfl := Option.some.inj hdata
            split at h
            · cases h
            · exact Except.ok.inj (Except.ok.inj h)
          · cases hdata
      · rintro rfl
        rw [if_pos (decide_eq_true hshort)]
        dsimp only
        rw [if_neg (not_not.mpr rfl)]
    rcases hlook : w.dir.lookup (bodyFile (cidOf build body)) with _ | d
    · -- a new name: the file is the body
      obtain ⟨t, m, hstore⟩ := exec_storeBody_new hcalm dir hfits hlook
      refine iff_of_true ?_ ?_
      · intro w' cid hrun
        rw [hstore] at hrun
        obtain ⟨rfl, hcid⟩ := Prod.mk.inj hrun
        obtain rfl := Except.ok.inj (Except.ok.inj hcid)
        refine (hserve (b := body) ?_).mpr rfl
        rw [bodiesOf, AList.lookup_insert]
        rfl
      · intro b hb
        rw [bodiesOf, hlook] at hb
        cases hb
    · -- a held name: the file stays, and the acknowledgement is about what it holds
      have hpresent : (w.dir.lookup (bodyFile (cidOf build body))).isSome := by
        rw [hlook]
        rfl
      have hstore := exec_storeBody_present hcalm dir hfits hpresent
      have hheld : bodiesOf w.dir (cidOf build body) = some d.content := by
        rw [bodiesOf, hlook]
        rfl
      constructor
      · intro h b hb
        obtain rfl := Option.some.inj (hheld.symm.trans hb)
        exact (hserve (v := w.next) hheld).mp (h _ _ hstore)
      · intro h w' cid hrun
        rw [hstore] at hrun
        obtain ⟨rfl, hcid⟩ := Prod.mk.inj hrun
        obtain rfl := Except.ok.inj (Except.ok.inj hcid)
        exact (hserve (v := w.next) hheld).mpr (h _ hheld)
  · -- a body of a wrong size is never acknowledged
    refine iff_of_true ?_ fun h => absurd h hfits
    intro w' cid hrun
    obtain ⟨e, -, hstore⟩ := exec_storeBody_of_size env build dir w hfits
    rw [hstore] at hrun
    cases hrun

end

/-- A body whose file holds another is acknowledged, and not served. -/
theorem damaged_acknowledged :
    let env : Env Unit := .still (fun p _ => (p, .error "closed")) 60
    let w : World Unit :=
      { World.fresh () with dir := (∅ : Table _ _).insert (bodyFile (cidOf .leading [7])) ⟨[9], 0⟩ }
    let r := exec env.handle (storeBody .leading "" [7]) w
    r.2 = .ok (.ok (cidOf .leading [7])) ∧
      (exec env.handle (serveBody .leading (cidOf .leading [7])) r.1).2 =
        .ok (.error "500 cid mismatch") := by
  refine ⟨by decide +kernel, by decide +kernel⟩

/-- A body that is new, and so is served. -/
theorem acknowledged_iff_new :
    let env : Env Unit := .still (fun p _ => (p, .error "closed")) 60
    ∀ w' cid, exec env.handle (storeBody .leading "" [7]) (.fresh ()) = (w', .ok (.ok cid)) →
      (exec env.handle (serveBody .leading cid) w').2 = .ok (.ok [7]) := by
  intro env
  have hcalm : env.Calm := Env.still_calm _ _
  exact (acknowledged_iff hcalm .leading "" (.fresh ()) [7]).mpr fun _ b hb => nomatch hb

/-! ## Stores that fail -/

section

variable {σ : Type} {env : Env σ} {build : Build} {dir : String} {w : World σ} {body : Bytes}

/-- The failures of a store that leave no trace. Its calls are those from the tick of `w` on: the
body is looked up, the directory made, the incoming file written and renamed, and removed if it
could not be renamed. -/
def FailsClean (env : Env σ) (build : Build) (w : World σ) (body : Bytes) : Prop :=
  (env.fault w.tick = none ∧ bodyFile (cidOf build body) ∈ w.dir) ∨
    env.fault (w.tick + 1) ≠ none ∨
    match env.fault (w.tick + 2) with
    | some f => f.left = none ∨ incomingFile (cidOf build body) ∈ w.dir
    | none => env.fault (w.tick + 3) = none ∨
      (env.fault (w.tick + 4) = none ↔ incomingFile (cidOf build body) ∉ w.dir)

/-- The names of files are the same after a run that fails. -/
def SameNames (dir : Table String FileData) (r : World σ × Result (Except String String)) : Prop :=
  ∀ e, r.2 = .ok (.error e) → ∀ name, name ∈ r.1.dir ↔ name ∈ dir

theorem sameNames_ok {v : World σ} {cid : String} {names : Table String FileData} :
    SameNames names (v, .ok (.ok cid)) := nofun

theorem sameNames_error {v : World σ} {e : String} {names : Table String FileData} :
    SameNames names (v, .ok (.error e)) ↔ ∀ name, name ∈ v.dir ↔ name ∈ names :=
  ⟨fun h => h e rfl, fun h _ _ => h⟩

/-- A file that was written is no new name if it was there. -/
theorem names_insert {names : Table String FileData} {file : String} {d : FileData} :
    (∀ name, name ∈ names.insert file d ↔ name ∈ names) ↔ file ∈ names := by
  constructor
  · intro h
    exact (h file).mp ((AList.mem_insert _).mpr (.inl rfl))
  · intro h name
    rw [AList.mem_insert, or_iff_right_iff_imp]
    rintro rfl
    exact h

/-- A file that was written and removed is no name that is missed if it was not there. -/
theorem names_insert_erase {names : Table String FileData} {file : String} {d : FileData} :
    (∀ name, name ∈ (names.insert file d).erase file ↔ name ∈ names) ↔ file ∉ names := by
  constructor
  · intro h hmem
    exact (AList.mem_erase.mp ((h file).mpr hmem)).1 rfl
  · intro h name
    rw [AList.mem_erase, AList.mem_insert]
    constructor
    · rintro ⟨hne, rfl | hmem⟩
      · exact absurd rfl hne
      · exact hmem
    · intro hmem
      exact ⟨fun he => h (he ▸ hmem), .inr hmem⟩

/-- **A store that fails leaves the files as they were**, exactly if it was refused for the size of
the body, or its failures leave no trace. -/
theorem failed_store_iff (env : Env σ) (build : Build) (dir : String) (w : World σ)
    (body : Bytes) :
    let r := exec env.handle (storeBody build dir body) w
    (∀ e, r.2 = .ok (.error e) → ∀ name, name ∈ r.1.dir ↔ name ∈ w.dir) ↔
      (Fits body → FailsClean env build w body) := by
  intro r
  show SameNames w.dir r ↔ _
  by_cases hfits : Fits body
  · rw [forall_prop_of_true hfits, FailsClean]
    have hrun : r = exec env.handle (storeBody build dir body) w := rfl
    have hne : body ≠ [] := List.length_pos_iff.mp hfits.1
    rw [storeBody, exec_refuseIf_bind, if_neg hne, exec_refuseIf_bind,
      if_neg (not_lt.mpr hfits.2), exec_ask_bind] at hrun
    by_cases hthere : env.fault w.tick = none ∧ bodyFile (cidOf build body) ∈ w.dir
    · -- the body is there already
      have hfound : (env.handle _ (.metadata (bodyFile (cidOf build body))) w).2.isSome := by
        simp only [Env.handle, Env.lookup, hthere.1, Option.isSome_map]
        exact AList.lookup_isSome.mpr hthere.2
      rw [if_pos hfound] at hrun
      rw [hrun]
      exact iff_of_true sameNames_ok (.inl hthere)
    rw [or_iff_right hthere]
    -- otherwise the body is not found, and the store goes on
    have hmissing : ¬ (env.handle _ (.metadata (bodyFile (cidOf build body))) w).2.isSome := by
      intro hfound
      simp only [Env.handle, Env.lookup, Option.isSome_map] at hfound
      split at hfound
      · cases hfound
      · rename_i hfault
        exact hthere ⟨hfault, AList.lookup_isSome.mp hfound⟩
    rw [if_neg hmissing, exec_ask_bind] at hrun
    simp only [Env.handle, World.next] at hrun
    rcases hmade : env.fault (w.tick + 1) with _ | f
    · rw [or_iff_right (not_not.mpr rfl)]
      rw [hmade] at hrun
      simp only [Except.mapError, exec_orFail_ok_bind] at hrun
      rw [exec_ask_bind] at hrun
      simp only [Env.handle, Env.write, World.next] at hrun
      rcases hwrite : env.fault (w.tick + 2) with _ | ⟨text, _ | n⟩
      · -- the incoming file is written
        simp only [hwrite, exec_orFail_ok_bind] at hrun
        rw [exec_ask_bind] at hrun
        simp only [Env.handle, Env.rename, World.next] at hrun
        rcases hrename : env.fault (w.tick + 3) with _ | g
        · simp only [hrename, AList.lookup_insert] at hrun
          rw [hrun]
          exact iff_of_true sameNames_ok (.inl rfl)
        · -- the rename fails, and the incoming file is removed unless that fails too
          simp only [hrename] at hrun
          rw [exec_ask_bind] at hrun
          simp only [Env.handle, Env.removeFile, World.next] at hrun
          rw [or_iff_right (Option.some_ne_none g), hrun]
          rcases hremove : env.fault (w.tick + 4) with _ | g'
          · rw [iff_true_left rfl]
            dsimp only
            exact sameNames_error.trans names_insert_erase
          · rw [iff_false_left (Option.some_ne_none g'), not_not]
            dsimp only
            exact sameNames_error.trans names_insert
      · -- the write fails before it touches the file
        simp only [hwrite] at hrun
        rw [hrun]
        exact iff_of_true (sameNames_error.mpr fun _ => Iff.rfl) (.inl rfl)
      · -- the incoming file is left behind
        simp only [hwrite] at hrun
        rw [hrun]
        show SameNames w.dir _ ↔ some n = none ∨ incomingFile (cidOf build body) ∈ w.dir
        rw [or_iff_right (Option.some_ne_none n)]
        exact sameNames_error.trans names_insert
    · -- nothing was touched yet
      rw [hmade] at hrun
      rw [hrun]
      exact iff_of_true (sameNames_error.mpr fun _ => Iff.rfl) (.inl (Option.some_ne_none f))
  · -- refused for its size, before any call
    obtain ⟨e, -, hstore⟩ := exec_storeBody_of_size env build dir w hfits
    have hsame : r.1 = w := congrArg Prod.fst hstore
    exact iff_of_true (fun _ _ name => by rw [hsame]) fun h => absurd h hfits

end

/-- A full disk: the incoming file is made, and nothing of the body fits. -/
def fullDisk : Env Unit :=
  { Env.still (fun p _ => (p, .error "closed")) 60 with
    fault := fun t => if t = 2 then some ⟨"No space left on device (os error 28)", some 0⟩ else none }

/-- The incoming file stays on the full disk. -/
theorem incoming_left_behind :
    let r := exec fullDisk.handle (storeBody .leading "store" [7]) (.fresh ())
    ¬ (∀ e, r.2 = .ok (.error e) → ∀ name, name ∈ r.1.dir ↔ name ∈ (World.fresh ()).dir) := by
  intro r h
  have herr : r.2 = .ok (.error
      (s!"write store/{incomingFile (cidOf .leading [7])}: " ++
        "No space left on device (os error 28)")) := by
    decide +kernel
  have hleft : incomingFile (cidOf .leading [7]) ∈ r.1.dir := by decide +kernel
  exact absurd ((h _ herr _).mp hleft) (by decide)

end SporePeer
