import SporePeer.Fabric.Matching
import SporePeer.Library.Sorting

/-!
# What a restart makes of the queues

A restart takes the order of a queue from the envelope files: the second in which each arrived,
and within a second the hashes. A refresh writes a file with a new second but leaves the entry in
its place, and pointers that arrive in one second are queued in any order of their hashes. So a
queue comes back as it was only if its files happen to be in its order.

## Main definitions

* `filedAt`, `FiledBefore`: the order of the files
* `Live`, `WithinHorizon`: what a restart keeps
* `Preserved`, `InFileOrder`: the queues come back as they were, and when they do

## Main results

* `kept_perm`: what a restart keeps of a queue
* `preserved_run_iff`: the queues come back exactly when their files are in order
-/

namespace SporePeer

open Effects Text Bytes

section

variable {σ : Type} (env : Env σ) (build : Build) (cfg : FabricConfig) (w : World σ)

/-- The second of arrival that the file of an entry records. -/
def filedAt (x : Queued) : ℕ :=
  match (w.dir.lookup (fenvFile x.envCidHex)).map fun d => parseEnvelope d.content with
  | some (.ok e) => e.receivedAt
  | _ => 0

/-- The entry that a restart makes of the file of `x`. -/
def refiled (x : Queued) : Queued := { x with receivedAt := filedAt w x }

/-- The file of `x` comes before that of `y`: the order of a start. -/
def FiledBefore (x y : Queued) : Prop := (refiled w x).before (refiled w y)

/-- At `t` the deadline of the entry is ahead. -/
def Live (t : ℕ) (x : Queued) : Prop := env.clock t < x.deadline

instance (t : ℕ) (x : Queued) : Decidable (Live env t x) :=
  inferInstanceAs (Decidable (_ < _))

/-- A start that reads the clock at `t + 1` finds the deadline within its horizon. -/
def WithinHorizon (t : ℕ) (x : Queued) : Prop :=
  ∃ horizon, addU64 build.overflowChecks (env.clock (t + 1)) cfg.maxDeadlineHorizonSec =
    .ok horizon ∧ x.deadline ≤ horizon

/-- Every queue comes back with the pointers that live, in order. The clock is read for the file of
`x` at `read x`. -/
def Preserved (read : Queued → ℕ) (w w' : World σ) : Prop :=
  ∀ h, (Queues.of w'.queues h).map Queued.pointer =
    ((Queues.of w.queues h).filter fun x => Live env (read x) x).map Queued.pointer

/-- The entries that live are within the horizon, and queued in the order of their files. -/
def InFileOrder (read : Queued → ℕ) : Prop :=
  ∀ h, (∀ x ∈ (Queues.of w.queues h).filter fun x => Live env (read x) x,
      WithinHorizon env build cfg (read x) x) ∧
    ((Queues.of w.queues h).filter fun x => Live env (read x) x).Pairwise (FiledBefore w)

end

instance : Std.Total Queued.before where
  total x y := by
    rcases lt_trichotomy x.receivedAt y.receivedAt with h | h | h
    · exact .inl (.inl h)
    · rcases String.le_total x.envCidHex y.envCidHex with hc | hc
      · exact .inl (.inr ⟨h, hc⟩)
      · exact .inr (.inr ⟨h.symm, hc⟩)
    · exact .inr (.inl h)

instance : IsTrans Queued Queued.before where
  trans x y z hxy hyz := by
    rcases hxy with hxy | ⟨hxy, hcxy⟩
    · rcases hyz with hyz | ⟨hyz, -⟩
      · exact .inl (hxy.trans hyz)
      · exact .inl (hyz ▸ hxy)
    · rcases hyz with hyz | ⟨hyz, hcyz⟩
      · exact .inl (hxy ▸ hyz)
      · exact .inr ⟨hxy.trans hyz, String.le_trans hcxy hcyz⟩

theorem envCidHex_of_before {x y : Queued} (hxy : x.before y) (hyx : y.before x) :
    x.envCidHex = y.envCidHex := by
  rcases hxy with hxy | ⟨hxy, hcxy⟩
  · rcases hyx with hyx | ⟨hyx, -⟩
    · exact absurd hxy hyx.asymm
    · exact absurd hxy (hyx ▸ lt_irrefl _)
  · rcases hyx with hyx | ⟨-, hcyx⟩
    · exact absurd hyx (hxy ▸ lt_irrefl _)
    · exact String.le_antisymm hcxy hcyx

section

variable {σ : Type} {env : Env σ} {build : Build} {cfg : FabricConfig} {w w' : World σ}
  {written : Bytes → Prop}

/-- The envelope file of an entry. -/
structure FileOf (build : Build) (w : World σ) (h : String) (x : Queued) (d : FileData)
    (e : Envelope) : Prop where
  lookup : w.dir.lookup (fenvFile x.envCidHex) = some d
  parse : parseEnvelope d.content = .ok e
  key : e.key = h
  pointer : e.pointer = x.pointer
  deadline : x.deadline = e.pointer.deadline
  name : extension (fenvFile x.envCidHex) = some "fenv"
  refiled : entryOf (fenvFile x.envCidHex, e) = refiled w x

theorem OnDisk.fileOf (hdisk : OnDisk w)
    (hrec : ∀ h, ∀ x ∈ Queues.of w.queues h, Recorded build written h x) {h : String} {x : Queued}
    (hx : x ∈ Queues.of w.queues h) : ∃ d e, FileOf build w h x d e := by
  obtain ⟨d, e, hd, hp, hkey, hptr⟩ := hdisk.parses h x hx
  obtain ⟨e', -, -, hptr', hc, hdead⟩ := hrec h x hx
  have hdeadline : x.deadline = e.pointer.deadline := by rw [hdead, hptr, hptr']
  have hfiled : filedAt w x = e.receivedAt := by
    rw [filedAt, hd, Option.map_some, hp]
  refine ⟨d, e, hd, hp, hkey, hptr, hdeadline, extension_fenvFile ?_, ?_⟩
  · rw [hc]
    exact cidHex_ne_empty build e'
  · have htrim : trimEndMatches (fenvFile x.envCidHex) ".fenv" = x.envCidHex := by
      rw [hc]
      exact trimEndMatches_fenvFile (dot_notMem_cidHex build e')
    rw [entryOf, refiled, hfiled, htrim, hdeadline, hptr]

/-- For every entry, a start reads the clock and keeps its file or removes it. -/
theorem exists_read (hcalm : env.Calm) (hdisk : OnDisk w)
    (hrec : ∀ h, ∀ x ∈ Queues.of w.queues h, Recorded build written h x)
    {kept : List (String × Envelope)} (hst : Started env build cfg kept w w') {h : String}
    {x : Queued} (hx : x ∈ Queues.of w.queues h) :
    ∃ t, w.tick ≤ t ∧ t < w'.tick ∧
      (fenvFile x.envCidHex ∈ kept.map Prod.fst ↔
        Live env t x ∧ WithinHorizon env build cfg t x) := by
  obtain ⟨d, e, hfile⟩ := hdisk.fileOf hrec hx
  -- the reading that kept the file, or the one that removed it
  by_cases hin : fenvFile x.envCidHex ∈ kept.map Prod.fst
  · obtain ⟨f, hf, hname⟩ := List.mem_map.mp hin
    obtain ⟨-, d', t, hd', hp', ht, ht', hlive, hwithin⟩ := hst.files f hf
    rw [hname, hfile.lookup, Option.some.injEq] at hd'
    obtain rfl : f.2 = e := Except.ok.inj (hp'.symm.trans (hd' ▸ hfile.parse))
    have hdead := hfile.deadline
    refine ⟨t, ht, (Nat.lt_succ_self t).trans ht', iff_of_true hin ⟨?_, ?_⟩⟩
    · rwa [Live, hdead]
    · rwa [WithinHorizon, hdead]
  · have hlen : d.content.length < 2 ^ 63 := by
      obtain ⟨hlen, -⟩ := parseEnvelope_eq_ok.mp hfile.parse
      rw [hlen]
      decide
    obtain ⟨-, hrej⟩ := hst.removes hcalm _ hfile.name hin d hfile.lookup hlen
    obtain ⟨t, ht, ht', hwhy⟩ := hrej e hfile.parse
    refine ⟨t, ht, (Nat.lt_succ_self t).trans ht', iff_of_false hin ?_⟩
    rintro ⟨hlive, horizon, hadd, hle⟩
    rw [Live, hfile.deadline] at hlive
    rw [hfile.deadline] at hle
    rcases hwhy with hexp | ⟨horizon', hadd', hlt⟩
    · exact absurd hlive (not_lt.mpr hexp)
    · rw [hadd, Except.ok.injEq] at hadd'
      exact absurd hlt (not_lt.mpr (hadd' ▸ hle))

/-- **What a restart keeps of a queue.** -/
theorem kept_perm (hdisk : OnDisk w)
    (hrec : ∀ h, ∀ x ∈ Queues.of w.queues h, Recorded build written h x)
    {kept : List (String × Envelope)} (hst : Started env build cfg kept w w') {read : Queued → ℕ}
    (hread : ∀ h, ∀ x ∈ Queues.of w.queues h, fenvFile x.envCidHex ∈ kept.map Prod.fst ↔
      Live env (read x) x ∧ WithinHorizon env build cfg (read x) x) (h : String) :
    ((kept.filter fun f => f.2.key = h).map entryOf).Perm
      ((((Queues.of w.queues h).filter fun x => Live env (read x) x).filter
        fun x => fenvFile x.envCidHex ∈ kept.map Prod.fst).map (refiled w)) := by
  -- a kept file is the file of an entry, which it refiles
  have hkept {f : String × Envelope} (hf : f ∈ kept) : ∃ x ∈ Queues.of w.queues f.2.key,
      f.1 = fenvFile x.envCidHex ∧ entryOf f = refiled w x := by
    obtain ⟨hext, d, t, hd, hp, -⟩ := hst.files f hf
    obtain ⟨k, x, hx, hname⟩ := (hdisk.files f.1).mp ⟨Table.mem_of_lookup hd, hext⟩
    obtain ⟨d', e', hfile⟩ := hdisk.fileOf hrec hx
    have hd' := hfile.lookup
    rw [← hname, hd, Option.some.injEq] at hd'
    subst d'
    have he : f.2 = e' := Except.ok.inj (hp.symm.trans hfile.parse)
    have hf' : f = (fenvFile x.envCidHex, e') := Prod.ext hname he
    refine ⟨x, ?_, hname, ?_⟩
    · rw [he, hfile.key]
      exact hx
    · rw [hf']
      exact hfile.refiled
  have hcids {l : List Queued} (hl : l.Sublist (Queues.of w.queues h)) :
      (l.map (refiled w)).Nodup := by
    have hnodup : ((l.map (refiled w)).map Queued.envCidHex).Nodup := by
      rw [List.map_map]
      exact (hdisk.names h).sublist (hl.map _)
    exact hnodup.of_map
  have hentries : ((kept.filter fun f => f.2.key = h).map entryOf).Nodup := by
    refine List.Nodup.map_on (fun f hf g hg heq => ?_) (hst.nodup.of_map.filter _)
    obtain ⟨x, -, hx, hfx⟩ := hkept (List.mem_filter.mp hf).1
    obtain ⟨y, -, hy, hgy⟩ := hkept (List.mem_filter.mp hg).1
    have hcid : (refiled w x).envCidHex = (refiled w y).envCidHex := by rw [← hfx, ← hgy, heq]
    change x.envCidHex = y.envCidHex at hcid
    exact List.inj_on_of_nodup_map hst.nodup (List.mem_filter.mp hf).1 (List.mem_filter.mp hg).1
      (hx.trans (hcid ▸ hy.symm))
  -- neither list repeats an entry, so the members decide
  refine (List.perm_ext_iff_of_nodup hentries
    (hcids (List.filter_sublist.trans List.filter_sublist))).mpr fun z => ?_
  simp only [List.mem_map, List.mem_filter, decide_eq_true_eq]
  constructor
  · rintro ⟨f, ⟨hf, rfl⟩, rfl⟩
    obtain ⟨x, hx, hname, hfx⟩ := hkept hf
    have hin : ∃ a ∈ kept, a.1 = fenvFile x.envCidHex := ⟨f, hf, hname⟩
    exact ⟨x, ⟨⟨hx, ((hread _ x hx).mp (List.mem_map.mpr hin)).1⟩, hin⟩, hfx.symm⟩
  · rintro ⟨x, ⟨⟨hx, -⟩, f, hf, hname⟩, rfl⟩
    obtain ⟨y, hy, hname', hfy⟩ := hkept hf
    have hcid : y.envCidHex = x.envCidHex := fenvFile_inj.mp (hname'.symm.trans hname)
    obtain ⟨hkey, rfl⟩ := hdisk.apart _ _ y x hy hx hcid
    exact ⟨f, ⟨hf, hkey⟩, hfy⟩

/-- A start that comes up gives the queues back exactly when their files are in order. -/
theorem preserved_iff (hdisk : OnDisk w)
    (hrec : ∀ h, ∀ x ∈ Queues.of w.queues h, Recorded build written h x)
    (hdistinct : ∀ h, ((Queues.of w.queues h).map Queued.pointer).Nodup)
    {kept : List (String × Envelope)} (hst : Started env build cfg kept w w') {read : Queued → ℕ}
    (hread : ∀ h, ∀ x ∈ Queues.of w.queues h, fenvFile x.envCidHex ∈ kept.map Prod.fst ↔
      Live env (read x) x ∧ WithinHorizon env build cfg (read x) x) :
    Preserved env read w w' ↔ InFileOrder env build cfg w read := by
  refine forall_congr' fun h => ?_
  let live := (Queues.of w.queues h).filter fun x => Live env (read x) x
  have hsub : live.Sublist (Queues.of w.queues h) := List.filter_sublist
  -- entries that sort alike have one file, and are one
  have hanti (x : Queued) (hx : x ∈ live) (y : Queued) (hy : y ∈ live)
      (hxy : (refiled w x).before (refiled w y)) (hyx : (refiled w y).before (refiled w x)) :
      refiled w x = refiled w y := by
    have hcid : (refiled w x).envCidHex = (refiled w y).envCidHex := envCidHex_of_before hxy hyx
    rw [(hdisk.apart h h x y (hsub.subset hx) (hsub.subset hy) hcid).2]
  have hsort := List.map_insertionSort_eq_iff (f := Queued.pointer)
    (kept_perm hdisk hrec hst hread h) ((hdistinct h).sublist (hsub.map _)) hanti
  have hwithin : (∀ x ∈ live, decide (fenvFile x.envCidHex ∈ kept.map Prod.fst) = true) ↔
      ∀ x ∈ live, WithinHorizon env build cfg (read x) x := by
    refine forall₂_congr fun x hx => ?_
    obtain ⟨hx, hlive⟩ := List.mem_filter.mp hx
    rw [decide_eq_true_eq, hread h x hx, and_iff_right (by simpa using hlive)]
  rw [hst.queues]
  refine hsort.trans (and_congr hwithin ?_)
  rw [List.pairwise_map]
  rfl

/-- A start that does not come up finds an entry that lives beyond any horizon. -/
theorem Stopped.not_inFileOrder {names : List String} (hdisk : OnDisk w)
    (hrec : ∀ h, ∀ x ∈ Queues.of w.queues h, Recorded build written h x)
    (hstop : Stopped env build cfg names w w') :
    ∃ read : Queued → ℕ, (∀ x, w.tick ≤ read x ∧ read x < w'.tick) ∧
      ¬ InFileOrder env build cfg w read := by
  obtain ⟨name, -, hext, d, e, t, q, hd, hp, ht, ht', hlive, hadd⟩ := hstop
  obtain ⟨h, x, hx, rfl⟩ := (hdisk.files name).mp ⟨Table.mem_of_lookup hd, hext⟩
  obtain ⟨d', e', hfile⟩ := hdisk.fileOf hrec hx
  have hd' := hfile.lookup
  rw [hd, Option.some.injEq] at hd'
  subst d'
  obtain rfl : e = e' := Except.ok.inj (hp.symm.trans hfile.parse)
  refine ⟨fun _ => t, fun _ => ⟨ht, (Nat.lt_succ_self t).trans ht'⟩, fun horder => ?_⟩
  have hin : x ∈ (Queues.of w.queues h).filter fun x => Live env t x :=
    List.mem_filter.mpr ⟨hx, by simpa [Live, hfile.deadline] using hlive⟩
  obtain ⟨horizon, hok, -⟩ := (horder h).1 x hin
  rw [hadd] at hok
  cases hok

/-- **When a restart preserves the queues.** For every entry the start reads the clock, at `read`.
It comes up, and gives every queue back as the list of its live pointers, exactly when these are
within the horizon and their files are in order. -/
theorem preserved_run_iff (hcalm : env.Calm) (peer : σ) {steps : List Step}
    (hord : ∀ s ∈ steps, s.Orderly cfg)
    (hnc : NoCollision build (· ∈ (Relay.fresh peer).writes env build (.start cfg :: steps)))
    (hup : ((Relay.fresh peer).run env build (.start cfg :: steps)).cfg.isSome) :
    let r := (Relay.fresh peer).run env build (.start cfg :: steps)
    let r' := r.step env build (.start cfg)
    ∃ read : Queued → ℕ, (∀ x, r.world.tick ≤ read x ∧ read x < r'.world.tick) ∧
      (r'.cfg.isSome ∧ Preserved env read r.world r'.world ↔
        InFileOrder env build cfg r.world read) := by
  intro r
  have hall : ∀ s ∈ Step.start cfg :: steps, s.Orderly cfg :=
    List.forall_mem_cons.mpr ⟨rfl, hord⟩
  have hs : r.Sound build (· ∈ (Relay.fresh peer).writes env build (.start cfg :: steps)) :=
    sound_run (fun _ hb => hb) (sound_fresh peer)
  have hm : r.Matched := matched_run hcalm hnc hall (fun _ hb => hb) (sound_fresh peer)
    (matched_fresh peer)
  have hrec := hs.entries hup
  have hdisk : OnDisk r.world :=
    onDisk_of_matched hnc hs.files hrec (hm.indexed hup) (hm.stored hup)
  unfold Relay.step
  dsimp only
  split
  · rename_i w' hopen
    obtain ⟨kept, hst⟩ := exec_fabricOpen hopen
    -- each entry has its own reading of the clock, within the start
    have hchoice (x : Queued) : ∃ t, (r.world.tick ≤ t ∧ t < w'.tick) ∧
        ∀ h, x ∈ Queues.of r.world.queues h → (fenvFile x.envCidHex ∈ kept.map Prod.fst ↔
          Live env t x ∧ WithinHorizon env build cfg t x) := by
      by_cases hx : ∃ h, x ∈ Queues.of r.world.queues h
      · obtain ⟨h, hx⟩ := hx
        obtain ⟨t, ht, ht', hread⟩ := exists_read hcalm hdisk hrec hst hx
        exact ⟨t, ⟨ht, ht'⟩, fun _ _ => hread⟩
      · exact ⟨r.world.tick, ⟨le_rfl, hst.tick⟩, fun h hin => absurd ⟨h, hin⟩ hx⟩
    choose read hwindow hread using hchoice
    refine ⟨read, hwindow, ?_⟩
    refine (and_iff_right rfl).trans ?_
    exact preserved_iff hdisk hrec (hm.indexed hup).distinct hst fun h x hx => hread x h hx
  · -- a start that stops keeps nothing in memory
    rename_i w' res hne hopen
    have hres : res ≠ .ok (.ok ()) := hne
    obtain ⟨names, hstop⟩ := exec_fabricOpen_stopped hopen hres
    obtain ⟨read, hwindow, hnot⟩ := hstop.not_inFileOrder hdisk hrec
    exact ⟨read, hwindow, iff_of_false (fun hup' => absurd hup'.1 Bool.false_ne_true) hnot⟩

end

/-- Two pointers arrive in different seconds of their hashes, and the relay starts again. -/
theorem preserved_run_iff_two :
    let env : Env Unit := .still (fun p _ => (p, .error "closed")) 100
    let handle : U8Array 32 := .replicate 32 7
    let r := (Relay.fresh ()).run env .trailing [.start {},
      .verb (.freg (fregRequest handle "token-0123456789" 60)),
      .verb (.fput (fputRequest handle (pointerOf 1 200)) "ip"),
      .verb (.fput (fputRequest handle (pointerOf 2 200)) "ip")]
    let r' := r.step env .trailing (.start {})
    ∃ read : Queued → ℕ, (∀ x, r.world.tick ≤ read x ∧ read x < r'.world.tick) ∧
      (r'.cfg.isSome ∧ Preserved env read r.world r'.world ↔
        InFileOrder env .trailing {} r.world read) := by
  refine preserved_run_iff (Env.still_calm _ _) () ?_ (noCollision_of_mem ?_) ?_
  · simp [Step.Orderly]
  · decide +kernel
  · decide +kernel

/-- Two pointers that arrive in one second come back in the order of their hashes. -/
theorem same_second_reordered :
    let env : Env Unit := .still (fun p _ => (p, .error "closed")) 100
    let handle : U8Array 32 := .replicate 32 7
    let h := Hex.encode handle.toList
    let r := (Relay.fresh ()).run env .trailing [.start {},
      .verb (.freg (fregRequest handle "token-0123456789" 60)),
      .verb (.fput (fputRequest handle (pointerOf 2 200)) "ip"),
      .verb (.fput (fputRequest handle (pointerOf 1 200)) "ip")]
    let r' := r.step env .trailing (.start {})
    (Queues.of r'.world.queues h).map Queued.pointer = [pointerOf 1 200, pointerOf 2 200] ∧
      ((Queues.of r.world.queues h).filter fun x => 100 < x.deadline).map Queued.pointer =
        [pointerOf 2 200, pointerOf 1 200] := by
  decide +kernel

end SporePeer
