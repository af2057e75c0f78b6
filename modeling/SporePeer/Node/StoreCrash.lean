import SporePeer.Library.Outcomes
import SporePeer.Node.BodySizes

/-!
# Crashes while a body is written

A push writes a body to its incoming file and renames that, so a crash leaves the body file complete
or leaves none. A sync pass writes to the body file itself: a crash inside that write leaves the
start of the body under its final name, and nothing removes it.

## Main definitions

* `CrashPoint`, `torn`, `crashDir`: a crash, and the files it leaves
* `FilesSurvive`: what calls leave of the files, also where a write is torn
* `Whole`: every new body file hashes to its name

## Main results

* `whole_storeBody`: after a crash of a push
* `whole_syncStream_iff`: after a crash of a pass
* `whole_after_crash_iff`: both
-/

namespace SporePeer

open Effects Text

/-! ## Crashes -/

/-- A crash after some calls, and inside the next one if that is a write, which has then got as far
as some bytes: none right after the file was created or truncated. -/
structure CrashPoint where
  calls : ℕ
  inside : Option ℕ

section

variable {σ α : Type} (env : Env σ) (m : Fallible Op α) (w : World σ) (p : CrashPoint)

/-- The file that a crash inside a write leaves, and the part of its contents that it has. -/
def torn : Option (String × Bytes) :=
  match p.inside, (trace env.handle m w)[p.calls]? with
  | some k, some ⟨_, .write name content⟩ => some (name, content.take k)
  | _, _ => none

/-- The files that a crash leaves. -/
def crashDir : Table String FileData :=
  let v := (cutOff env.handle p.calls m w).2
  match torn env m w p with
  | some (name, part) => v.dir.insert name ⟨part, env.stamp v.tick⟩
  | none => v.dir

end

/-- What holds of the files, holds of them after calls with the property `P`, also where such a call
is a write that is torn. -/
structure FilesSurvive {σ : Type} (env : Env σ) (P : World σ → (Σ β, Op β) → Prop)
    (I : Table String FileData → Prop) : Prop where
  call : ∀ w c, P w c → I w.dir → I (env.handle _ c.2 w).1.dir
  tornWrite : ∀ w name content k, P w ⟨_, .write name content⟩ → I w.dir →
    I (w.dir.insert name ⟨content.take k, env.stamp w.tick⟩)

section

variable {σ α : Type} {env : Env σ} {P : World σ → (Σ β, Op β) → Prop}
  {I : Table String FileData → Prop} {m : Fallible Op α} {w : World σ}

theorem FilesSurvive.run (hs : FilesSurvive env P I) (hm : EachCall env.handle P m w)
    (hI : I w.dir) : I (exec env.handle m w).1.dir :=
  hm.invariant_exec (I := fun v : World σ => I v.dir) (fun _ _ hc hv => hs.call _ _ hc hv) hI

/-- What survives the calls, survives a crash on the way. -/
theorem FilesSurvive.crash (hs : FilesSurvive env P I) (hm : EachCall env.handle P m w)
    (hI : I w.dir) (p : CrashPoint) : I (crashDir env m w p) := by
  have hcut : I (cutOff env.handle p.calls m w).2.dir :=
    hm.invariant (I := fun v : World σ => I v.dir) (fun _ _ hc hv => hs.call _ _ hc hv) hI p.calls
  rw [crashDir]
  split
  · rename_i name part htorn
    rw [torn] at htorn
    split at htorn
    · rename_i k name' content _ hcall
      obtain ⟨rfl, rfl⟩ := Prod.mk.inj (Option.some.inj htorn)
      exact hs.tornWrite _ _ _ _ (hm.next hcall) hcut
    · cases htorn
  · exact hcut

end

/-- Every body file with a name of 32 bytes that is not there in `old` hashes to its name. -/
def Whole (build : Build) (old dir : Table String FileData) : Prop :=
  ∀ stem blid d, readBlid stem = .ok (some blid) → dir.lookup (bodyFile stem) = some d →
    old.lookup (bodyFile stem) = some d ∨ build.sha256 d.content = blid

section

variable {build : Build} {old dir : Table String FileData}

theorem Whole.refl (build : Build) (dir : Table String FileData) : Whole build dir dir :=
  fun _ _ _ _ => .inl

theorem Whole.erase (h : Whole build old dir) (name : String) :
    Whole build old (dir.erase name) := by
  intro stem blid d hread hd
  rw [Table.lookup_erase_eq] at hd
  split at hd
  · cases hd
  · exact h stem blid d hread hd

theorem Whole.insert_incoming (h : Whole build old dir) (c : String) (d : FileData) :
    Whole build old (dir.insert (incomingFile c) d) := by
  intro stem blid d' hread hd'
  rw [Table.lookup_insert_eq, if_neg (bodyFile_ne_incomingFile _ _)] at hd'
  exact h stem blid d' hread hd'

theorem Whole.insert_body (h : Whole build old dir) {name : String} {d : FileData}
    (hname : readBlid name = .ok (some (build.sha256 d.content))) :
    Whole build old (dir.insert (bodyFile name) d) := by
  intro stem blid d' hread hd'
  rw [Table.lookup_insert_eq] at hd'
  split at hd'
  · rename_i hstem
    obtain rfl := Option.some.inj hd'
    rw [bodyFile_inj.mp hstem, hname] at hread
    exact .inr (Option.some.inj (Except.ok.inj hread))
  · exact h stem blid d' hread hd'

end

/-! ## A push -/

section

variable {σ : Type} {env : Env σ} {build : Build} {dir : String} {w : World σ}
  {old : Table String FileData}

/-- The calls of a push: it writes and removes incoming files, and gives a body file only contents
that hash to its name. -/
def PushCall (build : Build) (w : World σ) : (Σ β, Op β) → Prop
  | ⟨_, .write name _⟩ => ∃ c, name = incomingFile c
  | ⟨_, .removeFile name⟩ => ∃ c, name = incomingFile c
  | ⟨_, .rename src dst⟩ =>
    ∀ d, w.dir.lookup src = some d → dst = bodyFile (cidOf build d.content)
  | _ => True

theorem Whole.pushCall {c : Σ β, Op β} (hc : PushCall build w c) (h : Whole build old w.dir) :
    Whole build old (env.handle _ c.2 w).1.dir := by
  obtain ⟨β, e⟩ := c
  cases e with
  | write name content =>
    obtain ⟨c, rfl⟩ := hc
    simp only [Env.handle, Env.write_dir]
    split
    · exact h
    · exact h.insert_incoming _ _
  | rename src dst =>
    simp only [Env.handle, Env.rename]
    rcases env.fault w.tick with _ | f
    · rcases hd : w.dir.lookup src with _ | d
      · exact h
      · rw [hc d hd]
        exact (h.erase src).insert_body (readBlid_encode _)
    · exact h
  | removeFile name =>
    simp only [Env.handle, Env.removeFile]
    split
    · exact h
    · exact h.erase name
  | setWins l x => cases l <;> exact h
  | _ => exact h

theorem eachCall_storeBody (env : Env σ) (build : Build) (dir : String) (body : Bytes)
    (w : World σ) : EachCall env.handle (PushCall build) (storeBody build dir body) w := by
  refine eachCall_bind (eachCall_refuseIf _ _) fun _ _ _ =>
    eachCall_bind (eachCall_refuseIf _ _) fun _ _ _ => eachCall_bind (eachCall_ask trivial)
      fun _ present _ => ?_
  split
  · exact eachCall_pure _
  refine eachCall_bind (eachCall_ask trivial) fun _ made _ =>
    eachCall_bind (eachCall_orFail _) fun v _ _ =>
    eachCall_bind (eachCall_ask ⟨_, rfl⟩) fun v₁ written hwrite =>
    eachCall_bind (eachCall_orFail _) fun v₂ _ hok =>
    eachCall_bind (eachCall_ask fun d hd => ?_) fun _ renamed _ => ?_
  · -- the write has succeeded, so the incoming file holds the body
    rw [exec_orFail] at hok
    obtain ⟨rfl, hok⟩ := Prod.mk.inj hok
    rw [exec_ask] at hwrite
    obtain ⟨rfl, hwritten⟩ := Prod.mk.inj hwrite
    obtain rfl := Except.ok.inj (Except.ok.inj hwritten)
    simp only [Env.handle, Env.write] at hd hok
    rcases hfault : env.fault v.tick with _ | f
    · simp only [hfault, AList.lookup_insert] at hd
      obtain rfl := Option.some.inj hd
      rfl
    · simp only [hfault] at hok
      split at hok <;> cases hok
  · split
    · exact eachCall_bind (eachCall_ask ⟨_, rfl⟩) fun _ _ _ => eachCall_throw _
    · exact eachCall_pure _

theorem filesSurvive_pushCall (env : Env σ) (build : Build) (old : Table String FileData) :
    FilesSurvive env (PushCall build) (Whole build old) where
  call _ _ hc hI := hI.pushCall hc
  tornWrite _ _ _ _ hc hI := by
    -- the file that is torn is an incoming file
    obtain ⟨c, rfl⟩ := hc
    exact hI.insert_incoming _ _

/-- **A crash of a push** leaves no incomplete body file. -/
theorem whole_storeBody (env : Env σ) (build : Build) (dir : String) (body : Bytes) (w : World σ)
    (p : CrashPoint) : Whole build w.dir (crashDir env (storeBody build dir body) w p) :=
  (filesSurvive_pushCall env build w.dir).crash (eachCall_storeBody env build dir body w)
    (.refl _ _) p

/-! ## A pass -/

/-- The calls of a pass: it writes only body files that are not there yet, and contents that hash
to their names. -/
def PassCall (build : Build) (w : World σ) : (Σ β, Op β) → Prop
  | ⟨_, .write name content⟩ => ∃ stem, name = bodyFile stem ∧
      readBlid stem = .ok (some (build.sha256 content)) ∧ w.dir.lookup name = none
  | ⟨_, .removeFile _⟩ => False
  | ⟨_, .rename _ _⟩ => False
  | _ => True

theorem eachCall_rpc2Call (method : String) (seq : ℕ) (body : Bytes) (w : World σ) :
    EachCall env.handle (PassCall build) (rpc2Call method seq body) w := by
  refine eachCall_bind (eachCall_ask trivial) fun _ _ _ => eachCall_bind (eachCall_orFail _)
    fun _ _ _ => eachCall_bind (eachCall_orPanic _) fun _ decoded _ => ?_
  split
  · exact eachCall_pure _
  · exact eachCall_throw _

theorem eachCall_fetchObject {stem : String} {blid : U8Array 32} (i top : ℕ)
    (hread : readBlid stem = .ok (some blid)) (habsent : w.dir.lookup (bodyFile stem) = none) :
    EachCall env.handle (PassCall build) (fetchObject build dir i top stem blid.toList) w := by
  rw [fetchObject, Bytes.copyFromSlice_toList]
  refine eachCall_bind (eachCall_orPanic _) fun w₁ b hb => ?_
  obtain ⟨rfl, -⟩ := Prod.mk.inj hb
  refine eachCall_bind (eachCall_rpc2Call _ _ _ _) fun w₂ obj hobj => ?_
  have hdir : w₂.dir = w.dir := by
    rw [exec_rpc2Call] at hobj
    rw [← (Prod.mk.inj hobj).1]
    rfl
  split
  · exact eachCall_pure _
  refine eachCall_bind (eachCall_orFail _) fun w₃ body hbody => ?_
  rw [exec_orFail] at hbody
  obtain ⟨rfl, hverified⟩ := Prod.mk.inj hbody
  have hsha := sha256_of_verifiedBody (Except.ok.inj hverified)
  refine eachCall_bind (eachCall_ask ⟨stem, rfl, ?_, hdir ▸ habsent⟩) fun _ _ _ =>
    eachCall_bind (eachCall_orFail _) fun _ _ _ => eachCall_pure _
  rw [hread, List.Vector.toList_injective hsha]

theorem eachCall_syncEntry (hcalm : env.Calm) (i : ℕ) (entry : Value) (w : World σ) :
    EachCall env.handle (PassCall build) (syncEntry build dir i entry) w := by
  refine eachCall_bind (eachCall_orFail _) fun w₁ pair _ => ?_
  obtain ⟨top, stem⟩ := pair
  refine eachCall_bind (eachCall_orPanic _) fun w₂ expected hexpected => ?_
  rw [exec_orPanic] at hexpected
  obtain ⟨rfl, hread⟩ := Prod.mk.inj hexpected
  split
  · exact eachCall_pure _
  rename_i raw hfilter
  refine eachCall_bind (eachCall_ask trivial) fun w₃ present hpresent => ?_
  obtain ⟨rfl, hmeta⟩ := Prod.mk.inj hpresent
  split
  · exact eachCall_pure _
  rename_i habsent
  split
  · exact eachCall_pure _
  obtain ⟨rfl, hlen⟩ := Option.filter_eq_some_iff.mp hfilter
  obtain rfl := Except.ok.inj (Except.ok.inj hmeta)
  -- the file is looked up before anything is fetched
  have hnone : w₁.dir.lookup (bodyFile stem) = none := by
    simpa [Env.handle, hcalm.lookup] using habsent
  have hblid : readBlid stem = .ok (some ⟨raw, of_decide_eq_true hlen⟩) := by
    rcases hrun : (hexDecode (asBytes stem)).run with p | r <;> rw [hrun] at hread
    · cases hread
    · obtain rfl := Except.ok.inj (Except.ok.inj hread)
      rw [readBlid, hrun]
      exact congrArg Except.ok (dif_pos (of_decide_eq_true hlen))
  exact eachCall_fetchObject i top hblid hnone

theorem eachCall_syncEntries (hcalm : env.Calm) (i fetched had : ℕ) (entries : List Value)
    (w : World σ) :
    EachCall env.handle (PassCall build) (syncEntries build dir i entries fetched had) w := by
  induction entries generalizing i fetched had w with
  | nil => exact eachCall_pure _
  | cons entry rest ih =>
    refine eachCall_bind (eachCall_syncEntry hcalm i entry w) fun _ progress _ => ?_
    cases progress with
    | capped => exact eachCall_pure _
    | _ => exact ih _ _ _ _

theorem eachCall_syncStream (hcalm : env.Calm) (build : Build) (dir : String) (w : World σ) :
    EachCall env.handle (PassCall build) (syncStream build dir) w := by
  refine eachCall_bind (eachCall_rpc2Call _ _ _ _) fun _ _ _ =>
    eachCall_bind (eachCall_refuseIf _ _) fun _ _ _ =>
    eachCall_bind (eachCall_rpc2Call _ _ _ _) fun _ _ _ =>
    eachCall_bind (eachCall_refuseIf _ _) fun _ _ _ =>
    eachCall_bind (eachCall_syncEntries hcalm _ _ _ _ _) fun _ _ _ => eachCall_pure _

/-- Without a torn write, every call of a pass keeps the new bodies whole, and removes no file. -/
theorem Whole.passCall {c : Σ β, Op β} (hcalm : env.Calm) (hc : PassCall build w c)
    (h : Whole build old w.dir ∧ ∀ name, w.dir.lookup name = none → old.lookup name = none) :
    Whole build old (env.handle _ c.2 w).1.dir ∧
      ∀ name, (env.handle _ c.2 w).1.dir.lookup name = none → old.lookup name = none := by
  obtain ⟨β, e⟩ := c
  cases e with
  | write name content =>
    obtain ⟨stem, rfl, hread, -⟩ := hc
    have hdir : (env.handle _ (.write (bodyFile stem) content) w).1.dir =
        w.dir.insert (bodyFile stem) ⟨content, env.stamp w.tick⟩ := by
      simp only [Env.handle, Env.write_dir, Env.leaves, hcalm w.tick]
    rw [hdir]
    refine ⟨h.1.insert_body hread, fun name hnone => h.2 name ?_⟩
    rw [Table.lookup_insert_eq] at hnone
    split at hnone
    · cases hnone
    · exact hnone
  | rename src dst => exact hc.elim
  | removeFile name => exact hc.elim
  | setWins l x => cases l <;> exact h
  | _ => exact h

/-- **A crash of a pass** leaves an incomplete body file exactly if it tears a write. -/
theorem whole_syncStream_iff (hcalm : env.Calm) (build : Build) (dir : String) (w : World σ)
    (p : CrashPoint) :
    Whole build w.dir (crashDir env (syncStream build dir) w p) ↔
      ∀ stem part blid, torn env (syncStream build dir) w p = some (bodyFile stem, part) →
        readBlid stem = .ok (some blid) → build.sha256 part = blid := by
  have heach := eachCall_syncStream hcalm build dir w
  have hcut := heach.invariant (I := fun v : World σ => Whole build w.dir v.dir ∧
    ∀ name, v.dir.lookup name = none → w.dir.lookup name = none)
    (fun _ _ hc hv => Whole.passCall hcalm hc hv) ⟨.refl _ _, fun _ => id⟩ p.calls
  rw [crashDir]
  rcases htorn : torn env (syncStream build dir) w p with _ | ⟨name, part⟩
  · exact iff_of_true hcut.1 nofun
  obtain ⟨content, hcall⟩ : ∃ content, (trace env.handle (syncStream build dir) w)[p.calls]? =
      some ⟨_, .write name content⟩ := by
    rw [torn] at htorn
    split at htorn
    · rename_i hcall
      obtain ⟨rfl, -⟩ := Prod.mk.inj (Option.some.inj htorn)
      exact ⟨_, hcall⟩
    · cases htorn
  -- the write that is torn is of a body that has been asked for
  obtain ⟨stem, rfl, hread, habsent⟩ := heach.next hcall
  constructor
  · intro h stem' part' blid heq hread'
    obtain ⟨hstem, rfl⟩ := Prod.mk.inj (Option.some.inj heq)
    rcases h stem' blid _ hread' (by rw [← hstem]; exact AList.lookup_insert _) with hold | hsha
    · rw [← hstem, hcut.2 _ habsent] at hold
      cases hold
    · exact hsha
  · intro h
    exact hcut.1.insert_body (by rw [hread, h stem part _ rfl hread])

/-- **After a crash**, every body file that a push created is complete. So are those that a pass
created, exactly if the crash does not fall inside the write of a body, with a part of it written
that does not hash to the name. -/
theorem whole_after_crash_iff (env : Env σ) (build : Build) (dir : String) (w : World σ)
    (p : CrashPoint) :
    (∀ body, Whole build w.dir (crashDir env (storeBody build dir body) w p)) ∧
    (env.Calm → (Whole build w.dir (crashDir env (syncStream build dir) w p) ↔
      ∀ stem part blid, torn env (syncStream build dir) w p = some (bodyFile stem, part) →
        readBlid stem = .ok (some blid) → build.sha256 part = blid)) :=
  ⟨fun body => whole_storeBody env build dir body w p,
    fun hcalm => whole_syncStream_iff hcalm build dir w p⟩

end

/-- A pass against a peer with one body, cut off between its calls. -/
theorem whole_after_crash_iff_between :
    let peer := oneBody .leading [1, 2]
    Whole .leading ∅ (crashDir (.still peerNet 0) (syncStream .leading "") (.fresh peer)
      ⟨4, none⟩) := by
  intro peer
  have hiff := (whole_after_crash_iff (.still peerNet 0) .leading "" (.fresh peer) ⟨4, none⟩).2
    (Env.still_calm _ _)
  exact hiff.mpr nofun

/-- A crash inside the write of a fetched body leaves its first byte. The next pass counts it as
held, and a request for it is answered with an error. -/
theorem torn_body_stays :
    let build := Build.leading
    let env := Env.still peerNet 0
    let w := World.fresh (oneBody build [1, 2])
    let dir := crashDir env (syncStream build "") w ⟨4, some 1⟩
    let cid := cidOf build [1, 2]
    ¬ Whole build w.dir dir ∧ (dir.lookup (bodyFile cid)).map (·.content) = some [1] ∧
    (exec env.handle (syncStream build "") { w with dir := dir }).2 = .ok (.ok (1, 0, 1)) ∧
    (exec env.handle (serveBody build cid) { w with dir := dir }).2 =
      .ok (.error "500 cid mismatch") := by
  intro build env w dir cid
  have hpart : (dir.lookup (bodyFile cid)).map (·.content) = some [1] := by decide +kernel
  refine ⟨fun hwhole => ?_, hpart, by decide +kernel, by decide +kernel⟩
  obtain ⟨d, hd, hcontent⟩ := Option.map_eq_some_iff.mp hpart
  rcases hwhole cid _ d (readBlid_encode _) hd with hold | hsha
  · cases hold
  · rw [hcontent] at hsha
    exact absurd hsha (by decide)

end SporePeer
