import SporePeer.Fabric.Runs

/-!
# What a start makes of a directory

A start reads the envelope files one by one. It keeps those whose deadline is ahead and within the
horizon, and removes the others; the kept ones become the entries of the queues, in the order of
arrival that the files record.

## Main definitions

* `Admits`, `Rejects`: the two checks of a start
* `entryOf`: the entry of an envelope file
* `Opened`: the files a start keeps, and what it does to the directory

## Main results

* `exec_openFiles`: the loop
* `exec_fabricOpen`: a start
-/

namespace SporePeer

open Effects Text Bytes

/-! ## Names -/

theorem fenvFile_inj {c c' : String} : fenvFile c = fenvFile c' ↔ c = c' := by
  constructor
  · exact fun h => (append_inj_of_size rfl h).1
  · exact fun h => h ▸ rfl

theorem extension_fenvFile {c : String} (hc : c ≠ "") : extension (fenvFile c) = some "fenv" :=
  extension_append hc (by decide)

theorem fenvFile_of_extension {name : String} (h : extension name = some "fenv") :
    ∃ c, name = fenvFile c := by
  obtain ⟨c, -, hname⟩ := extension_eq_some h
  exact ⟨c, hname⟩

theorem tmpFile_ne_fenvFile (c c' : String) : tmpFile c ≠ fenvFile c' := by
  intro h
  have hlast := congrArg (fun s : String => s.toList.getLast?) h
  simp [tmpFile, fenvFile] at hlast

theorem trimEndMatches_fenvFile {c : String} (hc : '.' ∉ c.toList) :
    trimEndMatches (fenvFile c) ".fenv" = c :=
  trimEndMatches_append rfl hc

/-! ## The loop -/

section

variable {σ : Type} (env : Env σ) (build : Build) (cfg : FabricConfig)

/-- A start that reads the clock from `t` on keeps the envelope `e`. -/
def Admits (e : Envelope) (t : ℕ) : Prop :=
  env.clock t < e.pointer.deadline ∧
    ∃ horizon, addU64 build.overflowChecks (env.clock (t + 1)) cfg.maxDeadlineHorizonSec =
      .ok horizon ∧ e.pointer.deadline ≤ horizon

/-- A start that reads the clock from `t` on removes the envelope `e`. -/
def Rejects (e : Envelope) (t : ℕ) : Prop :=
  e.pointer.deadline ≤ env.clock t ∨
    ∃ horizon, addU64 build.overflowChecks (env.clock (t + 1)) cfg.maxDeadlineHorizonSec =
      .ok horizon ∧ horizon < e.pointer.deadline

/-- The entry of an envelope file. -/
def entryOf (f : String × Envelope) : Queued :=
  ⟨f.2.pointer, trimEndMatches f.1 ".fenv", f.2.pointer.deadline, f.2.receivedAt⟩

/-- The key of the queue of an envelope. -/
def Envelope.key (e : Envelope) : String := Hex.encode e.handle.toList

/-- Of the files `names`, a start keeps the envelopes `kept`. -/
structure Opened (names : List String) (kept : List (String × Envelope)) (w w' : World σ) :
    Prop where
  memory : SameMemory w w'
  sublist : (kept.map Prod.fst).Sublist names
  files : ∀ f ∈ kept, extension f.1 = some "fenv" ∧ ∃ d t, w.dir.lookup f.1 = some d ∧
    parseEnvelope d.content = .ok f.2 ∧ w.tick ≤ t ∧ t + 1 < w'.tick ∧ Admits env build cfg f.2 t
  shrinks : ∀ name, w'.dir.lookup name = w.dir.lookup name ∨
    w'.dir.lookup name = none ∧ name ∈ names ∧ extension name = some "fenv" ∧
      name ∉ kept.map Prod.fst
  removes : env.Calm → ∀ name ∈ names, extension name = some "fenv" → name ∉ kept.map Prod.fst →
    ∀ d, w.dir.lookup name = some d → d.content.length < 2 ^ 63 → w'.dir.lookup name = none ∧
      ∀ e, parseEnvelope d.content = .ok e →
        ∃ t, w.tick ≤ t ∧ t + 1 < w'.tick ∧ Rejects env build cfg e t

variable {env build cfg} {w w₁ w' : World σ} {name : String} {names : List String}
  {kept : List (String × Envelope)}

/-- A start passes over a file, or removes it. -/
theorem Opened.skip (hnot : name ∉ names) (h : Opened env build cfg names kept w₁ w')
    (hmem : SameMemory w w₁)
    (hshrinks : ∀ n, w₁.dir.lookup n = w.dir.lookup n ∨
      w₁.dir.lookup n = none ∧ n = name ∧ extension name = some "fenv")
    (hremoves : env.Calm → extension name = some "fenv" → ∀ d, w.dir.lookup name = some d →
      d.content.length < 2 ^ 63 → w₁.dir.lookup name = none ∧
        ∀ e, parseEnvelope d.content = .ok e →
          ∃ t, w.tick ≤ t ∧ t + 1 < w₁.tick ∧ Rejects env build cfg e t) :
    Opened env build cfg (name :: names) kept w w' where
  memory := hmem.trans h.memory
  sublist := h.sublist.cons name
  files f hf := by
    obtain ⟨hext, d, t, hd, hp, ht, ht', hadm⟩ := h.files f hf
    have hin : f.1 ∈ names := h.sublist.subset (List.mem_map_of_mem hf)
    have hne : f.1 ≠ name := fun he => hnot (he ▸ hin)
    refine ⟨hext, d, t, ?_, hp, hmem.tick.trans ht, ht', hadm⟩
    rcases hshrinks f.1 with heq | ⟨hnone, heq, -⟩
    · rwa [← heq]
    · exact absurd heq hne
  shrinks n := by
    rcases h.shrinks n with heq | ⟨hnone, hn, hext, hk⟩
    · rw [heq]
      rcases hshrinks n with heq' | ⟨hnone, rfl, hext⟩
      · exact .inl heq'
      · exact .inr ⟨hnone, List.mem_cons_self, hext, fun hk => hnot (h.sublist.subset hk)⟩
    · exact .inr ⟨hnone, List.mem_cons_of_mem _ hn, hext, hk⟩
  removes hcalm n hn hext hk d hd hlen := by
    rcases List.mem_cons.mp hn with rfl | hn
    · -- this name: it is gone, and the names further on do not bring it back
      obtain ⟨hnone, hrej⟩ := hremoves hcalm hext d hd hlen
      refine ⟨?_, fun e he => ?_⟩
      · rcases h.shrinks n with heq | ⟨hnone', -⟩
        · rwa [heq]
        · exact hnone'
      · obtain ⟨t, ht, ht', hr⟩ := hrej e he
        exact ⟨t, ht, ht'.trans_le h.memory.tick, hr⟩
    · -- a name further on, which this step has left alone
      have hne : n ≠ name := fun he => hnot (he ▸ hn)
      have hd₁ : w₁.dir.lookup n = some d := by
        rcases hshrinks n with heq | ⟨-, heq, -⟩
        · rwa [heq]
        · exact absurd heq hne
      obtain ⟨hnone, hrej⟩ := h.removes hcalm n hn hext hk d hd₁ hlen
      refine ⟨hnone, fun e he => ?_⟩
      obtain ⟨t, ht, ht', hr⟩ := hrej e he
      exact ⟨t, hmem.tick.trans ht, ht', hr⟩

/-- A start keeps a file. -/
theorem Opened.keep {e : Envelope} {d : FileData} {t : ℕ} (hnot : name ∉ names)
    (h : Opened env build cfg names kept w₁ w') (hmem : SameMemory w w₁) (hdir : w₁.dir = w.dir)
    (hext : extension name = some "fenv") (hd : w.dir.lookup name = some d)
    (hp : parseEnvelope d.content = .ok e) (ht : w.tick ≤ t) (ht' : t + 1 < w₁.tick)
    (hadm : Admits env build cfg e t) :
    Opened env build cfg (name :: names) ((name, e) :: kept) w w' where
  memory := hmem.trans h.memory
  sublist := h.sublist.cons_cons name
  files f hf := by
    rcases List.mem_cons.mp hf with rfl | hf
    · exact ⟨hext, d, t, hd, hp, ht, ht'.trans_le h.memory.tick, hadm⟩
    · obtain ⟨hext', d', t', hd', hp', hle, hlt, hadm'⟩ := h.files f hf
      exact ⟨hext', d', t', hdir ▸ hd', hp', hmem.tick.trans hle, hlt, hadm'⟩
  shrinks n := by
    rcases h.shrinks n with heq | ⟨hnone, hn, hext', hk⟩
    · exact .inl (hdir ▸ heq)
    · -- the file is not among the later names, so that no later step removes it
      refine .inr ⟨hnone, List.mem_cons_of_mem _ hn, hext', fun hc => ?_⟩
      rcases List.mem_cons.mp hc with rfl | hc
      · exact hnot hn
      · exact hk hc
  removes hcalm n hn hext' hk d' hd' hlen := by
    rw [List.map_cons, List.mem_cons, not_or] at hk
    rcases List.mem_cons.mp hn with rfl | hn
    · exact absurd rfl hk.1
    · obtain ⟨hnone, hrej⟩ := h.removes hcalm n hn hext' hk.2 d' (hdir ▸ hd') hlen
      refine ⟨hnone, fun e' he' => ?_⟩
      obtain ⟨t', hle, hlt, hr⟩ := hrej e' he'
      exact ⟨t', hmem.tick.trans hle, hlt, hr⟩

theorem Env.read_eq_some {raw : Bytes} (h : env.read w name = some raw) :
    ∃ d, w.dir.lookup name = some d ∧ d.content = raw := by
  unfold Env.read at h
  split at h
  · cases h
  · obtain ⟨d, hd, hraw⟩ := Option.map_eq_some_iff.mp (Option.filter_eq_some_iff.mp h).1
    exact ⟨d, hd, hraw⟩

theorem Env.read_of_calm (hcalm : env.Calm) {d : FileData} (hd : w.dir.lookup name = some d)
    (hlen : d.content.length < 2 ^ 63) : env.read w name = some d.content := by
  rw [Env.read, hcalm]
  simp only [hd, Option.map_some, Option.filter_some, decide_eq_true hlen, if_true]

theorem Env.removeFile_lookup (env : Env σ) (w : World σ) (name n : String) :
    (env.removeFile w name).dir.lookup n = w.dir.lookup n ∨
      (env.removeFile w name).dir.lookup n = none ∧ n = name := by
  unfold Env.removeFile
  split
  · exact .inl rfl
  · rw [Table.lookup_erase_eq]
    split
    · exact .inr ⟨rfl, ‹_›⟩
    · exact .inl rfl

theorem Env.removeFile_lookup_ne (env : Env σ) (w : World σ) {name n : String} (h : n ≠ name) :
    (env.removeFile w name).dir.lookup n = w.dir.lookup n := by
  rcases env.removeFile_lookup w name n with heq | ⟨-, rfl⟩
  · exact heq
  · exact absurd rfl h

theorem Env.removeFile_tick (w : World σ) (name : String) :
    (env.removeFile w name).tick = w.tick + 1 := by
  unfold Env.removeFile
  split <;> rfl

theorem Env.removeFile_of_calm (hcalm : env.Calm) (w : World σ) (name : String) :
    (env.removeFile w name).dir.lookup name = none := by
  rw [Env.removeFile, hcalm]
  exact AList.lookup_erase _ _

/-- A start removes a file. -/
theorem Opened.remove {v : World σ} (hnot : name ∉ names) (hext : extension name = some "fenv")
    (hmem : SameMemory w v) (hdir : v.dir = w.dir)
    (h : Opened env build cfg names kept (env.removeFile v name) w')
    (hwhy : ∀ d e, w.dir.lookup name = some d → parseEnvelope d.content = .ok e →
      ∃ t, w.tick ≤ t ∧ t + 1 < (env.removeFile v name).tick ∧ Rejects env build cfg e t) :
    Opened env build cfg (name :: names) kept w w' := by
  refine h.skip hnot (hmem.trans (Env.removeFile_sameMemory _)) (fun n => ?_) ?_
  · rw [← hdir]
    exact (env.removeFile_lookup v name n).imp_right fun ⟨h₁, h₂⟩ => ⟨h₁, h₂, hext⟩
  · exact fun hcalm _ d hd _ => ⟨Env.removeFile_of_calm hcalm v name, fun e => hwhy d e hd⟩

/-- One turn of the loop, at the file of an envelope: it is removed as expired or as beyond the
horizon, or it is kept behind the entries of its queue; an overflow of the horizon unwinds. -/
theorem exec_openFiles_cons {e : Envelope} {raw : Bytes} (queues : Queues)
    (hext : extension name = some "fenv") (hread : env.read w name = some raw)
    (hparse : parseEnvelope raw = .ok e) :
    exec env.handle (openFiles build cfg (name :: names) queues) w =
      if e.pointer.deadline ≤ env.clock (w.tick + 1) then
        exec env.handle (openFiles build cfg names queues) (env.removeFile w.next.next name)
      else match addU64 build.overflowChecks (env.clock (w.tick + 2))
          cfg.maxDeadlineHorizonSec with
        | .error q => (w.next.next.next, .error q)
        | .ok horizon =>
          if horizon < e.pointer.deadline then
            exec env.handle (openFiles build cfg names queues)
              (env.removeFile w.next.next.next name)
          else
            exec env.handle (openFiles build cfg names
              (queues.insert e.key (Queues.of queues e.key ++ [entryOf (name, e)])))
              w.next.next.next := by
  have hfirst : (env.handle _ .nowSec w.next).2 = env.clock (w.tick + 1) := rfl
  have hsecond : (env.handle _ .nowSec w.next.next).2 = env.clock (w.tick + 2) := rfl
  have hnext : (env.handle _ .nowSec w.next).1 = w.next.next := rfl
  rw [openFiles, if_neg (not_not.mpr hext), exec_ask_bind]
  simp only [Env.handle, hread, hparse]
  rw [exec_ask_bind, hfirst]
  split
  · rfl
  rw [exec_ask_bind, hnext, hsecond]
  rcases addU64 build.overflowChecks (env.clock (w.tick + 2)) cfg.maxDeadlineHorizonSec with
    q | horizon
  · rfl
  rw [exec_orPanic_ok_bind]
  dsimp only
  split
  · rfl
  · rfl

/-- **The loop of a start.** -/
theorem exec_openFiles {w : World σ} {queues queues' : Queues} (hnodup : names.Nodup)
    (h : exec env.handle (openFiles build cfg names queues) w = (w', .ok (.ok queues'))) :
    ∃ kept, Opened env build cfg names kept w w' ∧ ∀ k, Queues.of queues' k =
      Queues.of queues k ++ (kept.filter fun f => f.2.key = k).map entryOf := by
  induction names generalizing queues w with
  | nil =>
    cases h
    exact ⟨[], ⟨.refl _, .slnil, nofun, fun _ => .inl rfl, nofun⟩,
      fun k => (List.append_nil _).symm⟩
  | cons name names ih =>
    obtain ⟨hnot, hnodup⟩ := List.nodup_cons.mp hnodup
    by_cases hext : extension name = some "fenv"
    swap
    · -- another file is passed over
      rw [openFiles, if_pos hext] at h
      obtain ⟨kept, hopen, hq⟩ := ih hnodup h
      exact ⟨kept, hopen.skip hnot (.refl w) (fun _ => .inl rfl) fun _ he => absurd he hext, hq⟩
    rcases hread : env.read w name with _ | raw
    · -- a file that cannot be read stays where it is
      rw [openFiles, if_neg (not_not.mpr hext), exec_ask_bind] at h
      simp only [Env.handle, hread] at h
      obtain ⟨kept, hopen, hq⟩ := ih hnodup h
      refine ⟨kept, hopen.skip hnot w.next_sameMemory (fun _ => .inl rfl) ?_, hq⟩
      intro hcalm _ d hd hlen
      rw [Env.read_of_calm hcalm hd hlen] at hread
      cases hread
    obtain ⟨d, hd, rfl⟩ := Env.read_eq_some hread
    have hsame {d' : FileData} (hd' : w.dir.lookup name = some d') : d' = d :=
      Option.some.inj (hd'.symm.trans hd)
    rcases hparse : parseEnvelope d.content with err | e
    · -- a file that is no envelope is removed
      rw [openFiles, if_neg (not_not.mpr hext), exec_ask_bind] at h
      simp only [Env.handle, hread, hparse] at h
      rw [exec_ask_bind] at h
      obtain ⟨kept, hopen, hq⟩ := ih hnodup h
      refine ⟨kept, hopen.remove hnot hext w.next_sameMemory rfl ?_, hq⟩
      intro d' e' hd' he'
      rw [hsame hd', hparse] at he'
      cases he'
    have hwhy (v : World σ) (hv : w.tick + 1 + 1 < v.tick)
        (hrej : Rejects env build cfg e (w.tick + 1)) (d' : FileData) (e' : Envelope)
        (hd' : w.dir.lookup name = some d') (he' : parseEnvelope d'.content = .ok e') :
        ∃ t, w.tick ≤ t ∧ t + 1 < v.tick ∧ Rejects env build cfg e' t := by
      rw [hsame hd', hparse] at he'
      cases he'
      exact ⟨w.tick + 1, Nat.le_succ _, hv, hrej⟩
    rw [exec_openFiles_cons queues hext hread hparse] at h
    by_cases hexp : e.pointer.deadline ≤ env.clock (w.tick + 1)
    · -- the envelope has run out, and is removed
      rw [if_pos hexp] at h
      obtain ⟨kept, hopen, hq⟩ := ih hnodup h
      have hmem := w.next_sameMemory.trans w.next.next_sameMemory
      refine ⟨kept, hopen.remove hnot hext hmem rfl ?_, hq⟩
      refine hwhy _ ?_ (.inl hexp)
      rw [Env.removeFile_tick]
      exact Nat.lt_succ_self _
    rw [if_neg hexp] at h
    have hmem : SameMemory w w.next.next.next :=
      w.next_sameMemory.trans (w.next.next_sameMemory.trans w.next.next.next_sameMemory)
    rcases hadd : addU64 build.overflowChecks (env.clock (w.tick + 2))
      cfg.maxDeadlineHorizonSec with q | horizon
    · -- an overflow of the horizon unwinds, so the start does not come up
      rw [hadd] at h
      cases h
    rw [hadd] at h
    dsimp only at h
    by_cases hbeyond : horizon < e.pointer.deadline
    · -- the deadline is beyond the horizon, and the envelope is removed
      rw [if_pos hbeyond] at h
      obtain ⟨kept, hopen, hq⟩ := ih hnodup h
      refine ⟨kept, hopen.remove hnot hext hmem rfl ?_, hq⟩
      refine hwhy _ ?_ (.inr ⟨horizon, hadd, hbeyond⟩)
      rw [Env.removeFile_tick]
      exact (Nat.lt_succ_self _).trans (Nat.lt_succ_self _)
    · -- the envelope is kept, behind those in its queue
      rw [if_neg hbeyond] at h
      obtain ⟨kept, hopen, hq⟩ := ih hnodup h
      refine ⟨(name, e) :: kept, hopen.keep hnot hmem rfl hext hd hparse (Nat.le_succ _)
        (Nat.lt_succ_self _)
        ⟨not_le.mp hexp, horizon, hadd, not_lt.mp hbeyond⟩, fun k => ?_⟩
      rw [hq, Queues.of_insert]
      by_cases hk : e.key = k
      · subst hk
        rw [List.filter_cons_of_pos (by simp), List.map_cons, if_pos rfl, List.append_assoc]
        rfl
      · rw [List.filter_cons_of_neg (by simpa using hk), if_neg (Ne.symm hk)]

/-- A start that does not come up has read an envelope that lives, and its horizon overflows. -/
def Stopped (env : Env σ) (build : Build) (cfg : FabricConfig) (names : List String)
    (w w' : World σ) : Prop :=
  ∃ name ∈ names, extension name = some "fenv" ∧ ∃ d e t q, w.dir.lookup name = some d ∧
    parseEnvelope d.content = .ok e ∧ w.tick ≤ t ∧ t + 1 < w'.tick ∧
    env.clock t < e.pointer.deadline ∧
    addU64 build.overflowChecks (env.clock (t + 1)) cfg.maxDeadlineHorizonSec = .error q

theorem Stopped.later {names : List String} {name : String} {w w₁ w' : World σ}
    (hnot : name ∉ names) (h : Stopped env build cfg names w₁ w') (htick : w.tick ≤ w₁.tick)
    (hdir : ∀ n, n ≠ name → w₁.dir.lookup n = w.dir.lookup n) :
    Stopped env build cfg (name :: names) w w' := by
  obtain ⟨n, hn, hext, d, e, t, q, hd, hp, ht, ht', hlive, hadd⟩ := h
  have hne : n ≠ name := fun he => hnot (he ▸ hn)
  rw [hdir n hne] at hd
  exact ⟨n, List.mem_cons_of_mem _ hn, hext, d, e, t, q, hd, hp, htick.trans ht, ht', hlive, hadd⟩

theorem exec_openFiles_stopped {names : List String} {w w' : World σ} {queues : Queues}
    {res : Result (Except String Queues)} (hnodup : names.Nodup)
    (h : exec env.handle (openFiles build cfg names queues) w = (w', res))
    (hres : ∀ q, res ≠ .ok (.ok q)) : Stopped env build cfg names w w' := by
  induction names generalizing queues w with
  | nil =>
    cases h
    exact absurd rfl (hres queues)
  | cons name names ih =>
    obtain ⟨hnot, hnodup⟩ := List.nodup_cons.mp hnodup
    by_cases hext : extension name = some "fenv"
    swap
    · -- another file is passed over
      rw [openFiles, if_pos hext] at h
      exact (ih hnodup h).later hnot le_rfl fun _ _ => rfl
    rcases hread : env.read w name with _ | raw
    · rw [openFiles, if_neg (not_not.mpr hext), exec_ask_bind] at h
      simp only [Env.handle, hread] at h
      exact (ih hnodup h).later hnot (Nat.le_succ _) fun _ _ => rfl
    obtain ⟨d, hd, rfl⟩ := Env.read_eq_some hread
    -- what is removed on the way is this file
    have hafter (v : World σ) (hv : w.tick ≤ v.tick) (hdir : v.dir = w.dir)
        (hrest : exec env.handle (openFiles build cfg names queues) (env.removeFile v name) =
          (w', res)) : Stopped env build cfg (name :: names) w w' := by
      refine (ih hnodup hrest).later hnot ?_ fun n hn => ?_
      · rw [Env.removeFile_tick]
        exact hv.trans (Nat.le_succ _)
      · rw [env.removeFile_lookup_ne v hn, hdir]
    rcases hparse : parseEnvelope d.content with err | e
    · rw [openFiles, if_neg (not_not.mpr hext), exec_ask_bind] at h
      simp only [Env.handle, hread, hparse] at h
      rw [exec_ask_bind] at h
      exact hafter w.next (Nat.le_succ _) rfl h
    have hticks : w.tick ≤ w.next.next.next.tick := by
      simp only [World.next]
      omega
    rw [exec_openFiles_cons queues hext hread hparse] at h
    by_cases hexp : e.pointer.deadline ≤ env.clock (w.tick + 1)
    · rw [if_pos hexp] at h
      exact hafter w.next.next ((Nat.le_succ _).trans (Nat.le_succ _)) rfl h
    rw [if_neg hexp] at h
    rcases hadd : addU64 build.overflowChecks (env.clock (w.tick + 2))
      cfg.maxDeadlineHorizonSec with q | horizon
    · -- this is the envelope to stop at
      rw [hadd] at h
      obtain ⟨rfl, -⟩ := Prod.mk.inj h
      exact ⟨name, List.mem_cons_self, hext, d, e, w.tick + 1, q, hd, hparse, Nat.le_succ _,
        Nat.lt_succ_self _, not_le.mp hexp, hadd⟩
    rw [hadd] at h
    dsimp only at h
    by_cases hbeyond : horizon < e.pointer.deadline
    · rw [if_pos hbeyond] at h
      exact hafter w.next.next.next hticks rfl h
    · rw [if_neg hbeyond] at h
      exact (ih hnodup h).later hnot hticks fun _ _ => rfl

/-! ## A start -/

/-- The calls of a start. -/
def OpenOp : (β : Type) → Op β → Prop
  | _, .nowSec => True
  | _, .read _ => True
  | _, .removeFile _ => True
  | _, .readDir => True
  | _, .setWins l _ => l = .fput
  | _, .setReg _ => True
  | _, .setQueues _ => True
  | _, .setLastSweep _ => True
  | _, _ => False

theorem only_openFiles (build : Build) (cfg : FabricConfig) (names : List String)
    (queues : Queues) : Only OpenOp (openFiles build cfg names queues) := by
  induction names generalizing queues with
  | nil => exact only_pure _
  | cons name names ih =>
    unfold openFiles
    split
    · exact ih _
    refine only_bind (only_ask trivial) fun raw => ?_
    split
    · exact ih _
    split
    · exact only_bind (only_ask trivial) fun _ => ih _
    refine only_bind (only_ask trivial) fun now => ?_
    split
    · exact only_bind (only_ask trivial) fun _ => ih _
    refine only_bind (only_ask trivial) fun now' => only_bind (only_orPanic _) fun horizon => ?_
    split
    · exact only_bind (only_ask trivial) fun _ => ih _
    · exact ih _

theorem only_fabricOpen (build : Build) (cfg : FabricConfig) :
    Only OpenOp (fabricOpen build cfg) :=
  only_bind (only_ask rfl) fun _ => only_bind (only_ask trivial) fun _ =>
    only_bind (only_ask trivial) fun _ => only_bind (only_ask trivial) fun _ =>
    only_bind (only_ask trivial) fun _ => only_bind (only_openFiles _ _ _ _) fun _ =>
    only_ask trivial

/-- A start writes nothing, even if it unwinds. -/
theorem exec_fabricOpen_shrinks (env : Env σ) (build : Build) (cfg : FabricConfig) (w : World σ)
    (name : String) :
    (exec env.handle (fabricOpen build cfg) w).1.dir.lookup name = w.dir.lookup name ∨
      (exec env.handle (fabricOpen build cfg) w).1.dir.lookup name = none := by
  refine (only_fabricOpen build cfg).invariant (I := fun v : World σ =>
    v.dir.lookup name = w.dir.lookup name ∨ v.dir.lookup name = none)
    (fun γ e v he hv => ?_) (.inl rfl)
  cases e with
  | nowSec => exact hv
  | read n => exact hv
  | readDir => exact hv
  | setReg reg => exact hv
  | setQueues q => exact hv
  | setLastSweep sec => exact hv
  | setWins l x => cases l <;> exact hv
  | removeFile n =>
    rcases env.removeFile_lookup v n name with heq | ⟨hnone, -⟩
    · exact heq ▸ hv
    · exact .inr hnone
  | _ => exact he.elim

/-- A start keeps the envelope files `kept`. -/
structure Started (env : Env σ) (build : Build) (cfg : FabricConfig)
    (kept : List (String × Envelope)) (w w' : World σ) : Prop where
  reg : w'.reg = ∅
  tick : w.tick < w'.tick
  queues : ∀ k, Queues.of w'.queues k =
    ((kept.filter fun f => f.2.key = k).map entryOf).insertionSort Queued.before
  nodup : (kept.map Prod.fst).Nodup
  files : ∀ f ∈ kept, extension f.1 = some "fenv" ∧ ∃ d t, w.dir.lookup f.1 = some d ∧
    parseEnvelope d.content = .ok f.2 ∧ w.tick ≤ t ∧ t + 1 < w'.tick ∧ Admits env build cfg f.2 t
  shrinks : ∀ name, w'.dir.lookup name = w.dir.lookup name ∨
    w'.dir.lookup name = none ∧ extension name = some "fenv" ∧ name ∉ kept.map Prod.fst
  removes : env.Calm → ∀ name, extension name = some "fenv" → name ∉ kept.map Prod.fst →
    ∀ d, w.dir.lookup name = some d → d.content.length < 2 ^ 63 → w'.dir.lookup name = none ∧
      ∀ e, parseEnvelope d.content = .ok e →
        ∃ t, w.tick ≤ t ∧ t + 1 < w'.tick ∧ Rejects env build cfg e t

theorem perm_readDir (hcalm : env.Calm) (w : World σ) :
    ((env.handle _ .readDir w).2.getD []).Perm w.dir.keys := by
  simp only [Env.handle, hcalm w.tick]
  exact env.listing_perm _ _

/-- A directory is listed without repetitions. -/
theorem nodup_readDir (env : Env σ) (w : World σ) :
    ((env.handle _ .readDir w).2.getD []).Nodup := by
  simp only [Env.handle]
  split
  · exact List.nodup_nil
  · exact (env.listing_perm _ _).nodup_iff.mpr w.dir.nodupKeys

/-- **A start.** -/
theorem exec_fabricOpen (h : exec env.handle (fabricOpen build cfg) w = (w', .ok (.ok ()))) :
    ∃ kept, Started env build cfg kept w w' := by
  let w₀ : World σ := { w with fputWins := ∅, reg := ∅, queues := ∅, lastSweepSec := 0 }
  let rd := (env.handle _ .readDir w₀).2
  have hnodup : (rd.getD []).Nodup := nodup_readDir env w₀
  have hopen : exec env.handle (do
      let queues ← openFiles build cfg (rd.getD []) ∅
      ask (.setQueues (queues.mapValues fun q => q.insertionSort Queued.before))) w₀.next =
      (w', .ok (.ok ())) := h
  -- a start that ends well has read every file
  obtain ⟨v, queues, hfiles, hset⟩ := exec_bind_eq_ok.mp hopen
  obtain ⟨kept, ho, hq⟩ := exec_openFiles hnodup hfiles
  obtain ⟨rfl, -⟩ := Prod.mk.inj hset
  refine ⟨kept, ho.memory.reg, ho.memory.tick, fun k => ?_, hnodup.sublist ho.sublist,
    fun f hf => ?_, fun name => ?_, fun hc name hext hk d hd hlen => ?_⟩
  · have hk := hq k
    rw [Queues.of, Queues.of, AList.lookup_empty, Option.getD_none, List.nil_append] at hk
    change ((queues.mapValues fun q => q.insertionSort Queued.before).lookup k).getD [] = _
    rw [← hk, Table.lookup_mapValues]
    rcases queues.lookup k with _ | q
    · rfl
    · rfl
  · obtain ⟨hext, d, t, hd, hp, ht, ht', hadm⟩ := ho.files f hf
    exact ⟨hext, d, t, hd, hp, (Nat.le_succ _).trans ht, ht', hadm⟩
  · rcases ho.shrinks name with heq | ⟨hnone, -, hext, hk⟩
    · exact .inl heq
    · exact .inr ⟨hnone, hext, hk⟩
  · have hin : name ∈ rd.getD [] := by
      rw [(perm_readDir hc w₀).mem_iff]
      exact Table.mem_of_lookup hd
    obtain ⟨hnone, hrej⟩ := ho.removes hc name hin hext hk d hd hlen
    refine ⟨hnone, fun e he => ?_⟩
    obtain ⟨t, ht, ht', hr⟩ := hrej e he
    exact ⟨t, (Nat.le_succ _).trans ht, ht', hr⟩

/-- **A start that does not come up.** -/
theorem exec_fabricOpen_stopped {res : Result (Except String Unit)}
    (h : exec env.handle (fabricOpen build cfg) w = (w', res)) (hres : res ≠ .ok (.ok ())) :
    ∃ names, Stopped env build cfg names w w' := by
  let w₀ : World σ := { w with fputWins := ∅, reg := ∅, queues := ∅, lastSweepSec := 0 }
  let names := ((env.handle _ .readDir w₀).2).getD []
  have hnodup : names.Nodup := nodup_readDir env w₀
  have hopen : exec env.handle (do
      let queues ← openFiles build cfg names ∅
      ask (.setQueues (queues.mapValues fun q => q.insertionSort Queued.before))) w₀.next =
      (w', res) := h
  rw [exec_bind] at hopen
  rcases hfiles : exec env.handle (openFiles build cfg names ∅) w₀.next with ⟨v, r⟩
  rw [hfiles] at hopen
  have hstop (hr : ∀ q, r ≠ .ok (.ok q)) : Stopped env build cfg names w v := by
    obtain ⟨n, hn, hext, d, e, t, q, hd, hp, ht, hrest⟩ := exec_openFiles_stopped hnodup hfiles hr
    exact ⟨n, hn, hext, d, e, t, q, hd, hp, (Nat.le_succ _).trans ht, hrest⟩
  rcases r with q | e | queues
  · obtain ⟨rfl, -⟩ := Prod.mk.inj hopen
    exact ⟨names, hstop nofun⟩
  · obtain ⟨rfl, -⟩ := Prod.mk.inj hopen
    exact ⟨names, hstop nofun⟩
  · obtain ⟨-, rfl⟩ := Prod.mk.inj hopen
    exact absurd rfl hres
end

end SporePeer
