import SporePeer.Fabric.Keeping

/-!
# Entries and envelope files

The queues of a relay live twice, as entries in memory and as envelope files. Where file operations
succeed, every envelope file belongs to an entry; where, besides, the hash separates the envelopes
of a run, every entry has its file, so that one can be rebuilt from the other.

## Main definitions

* `Single`: a directory with one envelope file for a handle and a pointer
* `Indexed`: every envelope file belongs to an entry
* `Stored`: every entry has its file
* `OnDisk`: entries and envelope files correspond

## Main results

* `indexed_verb`, `stored_verb`: what a request preserves
* `onDisk_run`: entries and envelope files correspond in every run
-/

namespace SporePeer

open Effects Text Bytes

/-- The directory holds at most one envelope for a handle and a pointer. -/
def Single (dir : Table String FileData) : Prop :=
  ∀ c c' d d' e e', dir.lookup (fenvFile c) = some d → dir.lookup (fenvFile c') = some d' →
    parseEnvelope d.content = .ok e → parseEnvelope d'.content = .ok e' →
    e.key = e'.key → e.pointer = e'.pointer → c = c'

/-- Every envelope file belongs to an entry, and a queue holds distinct pointers. -/
structure Indexed {σ : Type} (w : World σ) : Prop where
  distinct : ∀ h, ((Queues.of w.queues h).map Queued.pointer).Nodup
  entry : ∀ c d e, w.dir.lookup (fenvFile c) = some d → parseEnvelope d.content = .ok e →
    ∃ x ∈ Queues.of w.queues e.key, x.pointer = e.pointer ∧ x.envCidHex = c

/-- Every entry has its file. -/
def Stored {σ : Type} (w : World σ) : Prop :=
  ∀ h, ∀ x ∈ Queues.of w.queues h, (w.dir.lookup (fenvFile x.envCidHex)).isSome

/-- The hash separates what is written. -/
def NoCollision (build : Build) (written : Bytes → Prop) : Prop :=
  ∀ a b, written a → written b → build.sha256 a = build.sha256 b → a = b

theorem noCollision_of_mem {build : Build} {l : List Bytes}
    (h : ∀ a ∈ l, ∀ b ∈ l, build.sha256 a = build.sha256 b → a = b) : NoCollision build (· ∈ l) :=
  fun a b ha hb => h a ha b hb

theorem Single.of_shrinks {dir dir' : Table String FileData} (h : Single dir)
    (hshrinks : ∀ c, dir'.lookup (fenvFile c) = dir.lookup (fenvFile c) ∨
      dir'.lookup (fenvFile c) = none) : Single dir' := by
  have hold {c : String} {d : FileData} (hd : dir'.lookup (fenvFile c) = some d) :
      dir.lookup (fenvFile c) = some d := by
    rcases hshrinks c with heq | hnone
    · rwa [← heq]
    · rw [hnone] at hd
      cases hd
  exact fun c c' d d' e e' hd hd' => h c c' d d' e e' (hold hd) (hold hd')

/-- Files of one handle and one pointer belong to one entry. -/
theorem Indexed.single {σ : Type} {w : World σ} (h : Indexed w) : Single w.dir := by
  intro c c' d d' e e' hd hd' hp hp' hkey hptr
  obtain ⟨x, hx, hxp, rfl⟩ := h.entry c d e hd hp
  obtain ⟨y, hy, hyp, rfl⟩ := h.entry c' d' e' hd' hp'
  rw [← hkey] at hy
  rw [eq_of_pointer (h.distinct _) hx hy (hxp.trans (hptr.trans hyp.symm))]

theorem cidHex_ne_empty (build : Build) (e : Envelope) : e.cidHex build ≠ "" := by
  intro hempty
  have hsize := Hex.utf8ByteSize_encode (build.sha256 (marshalEnvelope e)).toList
  rw [List.Vector.toList_length] at hsize
  rw [Envelope.cidHex] at hempty
  rw [hempty] at hsize
  cases hsize

/-- Under a hash that separates what is written, a name determines its envelope. -/
theorem NoCollision.envelope {build : Build} {written : Bytes → Prop}
    (h : NoCollision build written) {e e' : Envelope} (he : Filed written e)
    (he' : Filed written e') (hc : e.cidHex build = e'.cidHex build) : e = e' := by
  have hraw := h _ _ he.written he'.written (Subtype.ext (Hex.encode_injective hc))
  have hp := parseEnvelope_marshalEnvelope he.header he.arrived
  rw [hraw, parseEnvelope_marshalEnvelope he'.header he'.arrived] at hp
  exact (Except.ok.inj hp).symm

/-- Entries of one name are entries of one handle and one pointer. -/
theorem NoCollision.entry {build : Build} {written : Bytes → Prop} (h : NoCollision build written)
    {k k' : String} {x x' : Queued} (hx : Recorded build written k x)
    (hx' : Recorded build written k' x') (hc : x.envCidHex = x'.envCidHex) :
    k = k' ∧ x.pointer = x'.pointer := by
  obtain ⟨e, he, rfl, hp, hxc, -⟩ := hx
  obtain ⟨e', he', rfl, hp', hxc', -⟩ := hx'
  obtain rfl := h.envelope he he' (hxc.symm.trans (hc.trans hxc'))
  exact ⟨rfl, hp.trans hp'.symm⟩

section

variable {σ : Type} {env : Env σ} {build : Build} {cfg : FabricConfig} {w u w' : World σ}
  {written : Bytes → Prop}

/-! ## Files belong to entries -/

theorem indexed_put {req : Value} {ip : String} {p : Put} {now : ℕ} (hcalm : env.Calm)
    (h : Indexed w) (hacc : Accepted env build cfg req ip p now w w')
    (hp : Filed written p.envelope) : Indexed w' := by
  obtain ⟨u, sec, hmem, hpersist, heff⟩ := hacc.effect
  have hqueue : Queues.of w'.queues p.key =
      putKept cfg (p.entry build) now (Queues.of w.queues p.key) := by
    rw [heff.queues, if_pos rfl]
  have hother {k : String} (hk : k ≠ p.key) :
      Queues.of w'.queues k = Queues.of w.queues k := by
    rw [heff.queues, if_neg hk, hmem.queues]
  refine ⟨fun k => ?_, fun c d e hd he => ?_⟩
  · by_cases hk : k = p.key
    · rw [hk, hqueue]
      exact nodup_putKept (h.distinct _)
    · rw [hother hk]
      exact h.distinct k
  rw [heff.removes hcalm] at hd
  split at hd
  · cases hd
  rename_i hkept
  have hnot : c ∉ putDropped cfg (p.entry build) now (Queues.of w.queues p.key) :=
    fun hc => hkept ⟨c, hc, rfl⟩
  rw [putDropped_eq, List.mem_append, not_or] at hnot
  -- an entry with a place is kept, as its envelope was not removed
  have hkeep {x : Queued} (hx : x ∈ placed (p.entry build) (Queues.of w.queues p.key))
      (hc : x.envCidHex = c) :
      x ∈ putKept cfg (p.entry build) now (Queues.of w.queues p.key) := by
    rcases List.mem_append.mp ((perm_placed cfg (p.entry build) now _).mem_iff.mp hx) with hr | hk
    · exact absurd (List.mem_map.mpr ⟨x, hr, hc⟩) hnot.2
    · exact hk
  rw [hpersist.fenv] at hd
  split at hd
  · rename_i hc
    cases hd
    obtain rfl : p.envelope = e := by
      rw [parseEnvelope_marshalEnvelope hp.header hp.arrived] at he
      exact Except.ok.inj he
    obtain ⟨x, hx, hxp, hxc, -⟩ := exists_mem_placed (p.entry build) (Queues.of w.queues p.key)
    refine ⟨x, ?_, hxp, hxc.trans hc.symm⟩
    exact hqueue ▸ hkeep hx (hxc.trans hc.symm)
  · rename_i hc
    obtain ⟨x, hx, hxp, hxc⟩ := h.entry c d e hd he
    refine ⟨x, ?_, hxp, hxc⟩
    by_cases hk : e.key = p.key
    · rw [hk] at hx ⊢
      rw [hqueue]
      refine hkeep (mem_placed_of_ne hx fun hptr => ?_) hxc
      have hsup := superseded_of_mem (h.distinct _) hx hptr (by rw [hxc]; exact hc)
      exact hnot.1 (hxc ▸ hsup)
    · rwa [hother hk]

theorem indexed_pop {req : Value} {k : String} {now : ℕ} (hcalm : env.Calm) (h : Indexed w)
    (hd : Drained env build req k now w w') : Indexed w' := by
  obtain ⟨u, hun, heff⟩ := hd.effect
  have hqueue (j : String) : Queues.of w'.queues j =
      if j = k then (Queues.of w.queues k).drop (drainCount now (readMax req) (Queues.of w.queues k))
      else Queues.of w.queues j := by
    rw [heff.queues, hun.queues]
  refine ⟨fun j => ?_, fun c d e hd he => ?_⟩
  · rw [hqueue]
    split
    · exact (h.distinct k).sublist ((List.drop_sublist _ _).map _)
    · exact h.distinct j
  rw [heff.removes hcalm] at hd
  split at hd
  · cases hd
  -- the file is still there, so its entry has not been taken
  rename_i hkept
  rw [hun.dir] at hd
  obtain ⟨x, hx, hxp, hxc⟩ := h.entry c d e hd he
  refine ⟨x, ?_, hxp, hxc⟩
  rw [hqueue]
  split
  · rename_i hj
    rw [hj] at hx
    rw [← List.take_append_drop (drainCount now (readMax req) (Queues.of w.queues k))
      (Queues.of w.queues k), List.mem_append] at hx
    refine hx.resolve_left fun htaken => hkept ⟨c, ?_, rfl⟩
    exact List.mem_map.mpr ⟨x, htaken, hxc⟩
  · exact hx

/-- **A request keeps every envelope file with its entry.** -/
theorem indexed_verb (hcalm : env.Calm) (hreg : Registered w.reg) (h : Indexed w) (v : Verb) :
    Indexed (exec env.handle (v.run build cfg) w).1 := by
  refine Verb.exec_cases (P := Indexed) hreg v ?_ ?_ ?_ ?_
  · rintro req -
    obtain ⟨hd, hq, -⟩ := exec_runFreg_frame env build cfg w req
    refine ⟨?_, ?_⟩
    · rw [hq]
      exact h.distinct
    · rw [hd, hq]
      exact h.entry
  · intro w' hun
    refine ⟨?_, ?_⟩
    · rw [hun.queues]
      exact h.distinct
    · rw [hun.calm hcalm, hun.queues]
      exact h.entry
  · rintro req ip p now w' - hacc
    have hp : Filed (fun _ => True) p.envelope := hacc.filed fun _ _ => trivial
    exact indexed_put hcalm h hacc hp
  · rintro req ip k now w' - hd
    exact indexed_pop hcalm h hd

theorem indexed_start {kept : List (String × Envelope)} (hcalm : env.Calm) (hsingle : Single w.dir)
    (hfiles : FilesRecorded build written w.dir) (h : Started env build cfg kept w w') :
    Indexed w' := by
  have hkept (k : String) : (Queues.of w'.queues k).Perm
      ((kept.filter fun f => f.2.key = k).map entryOf) := by
    rw [h.queues]
    exact List.perm_insertionSort _ _
  -- two kept files of one handle and pointer would be one file; a file left over is a kept one
  refine ⟨fun k => ?_, fun c d e hd he => ?_⟩
  · rw [((hkept k).map _).nodup_iff, List.map_map]
    refine List.Nodup.map_on (fun f hf f' hf' hptr => ?_) (h.nodup.of_map.filter _)
    obtain ⟨hf, hk⟩ := List.mem_filter.mp hf
    obtain ⟨hf', hk'⟩ := List.mem_filter.mp hf'
    obtain ⟨hext, d, t, hd, hp, -⟩ := h.files f hf
    obtain ⟨hext', d', t', hd', hp', -⟩ := h.files f' hf'
    obtain ⟨c, hc⟩ := fenvFile_of_extension hext
    obtain ⟨c', hc'⟩ := fenvFile_of_extension hext'
    have hcc : c = c' := hsingle c c' d d' f.2 f'.2 (hc ▸ hd) (hc' ▸ hd') hp hp'
      ((by simpa using hk : f.2.key = k).trans (by simpa using hk' : f'.2.key = k).symm) hptr
    have hname : f.1 = f'.1 := by rw [hc, hc', hcc]
    exact List.inj_on_of_nodup_map h.nodup hf hf' hname
  · obtain ⟨e', he', rfl, hcont⟩ : ∃ e', Filed written e' ∧ c = e'.cidHex build ∧
        d.content = marshalEnvelope e' := by
      rcases h.shrinks (fenvFile c) with heq | ⟨hnone, -⟩
      · exact hfiles c d (heq ▸ hd)
      · rw [hnone] at hd
        cases hd
    have hd₀ : w.dir.lookup (fenvFile (e'.cidHex build)) = some d := by
      rcases h.shrinks (fenvFile (e'.cidHex build)) with heq | ⟨hnone, -⟩
      · exact heq ▸ hd
      · rw [hnone] at hd
        cases hd
    obtain rfl : e' = e := by
      rw [hcont, parseEnvelope_marshalEnvelope he'.header he'.arrived] at he
      exact Except.ok.inj he
    have hext : extension (fenvFile (e'.cidHex build)) = some "fenv" :=
      extension_fenvFile (cidHex_ne_empty build e')
    -- a file that is not kept has been removed
    have hin : fenvFile (e'.cidHex build) ∈ kept.map Prod.fst := by
      by_contra hnot
      have hlen : d.content.length < 2 ^ 63 := by
        rw [hcont, length_marshalEnvelope]
        decide
      rw [(h.removes hcalm _ hext hnot d hd₀ hlen).1] at hd
      cases hd
    obtain ⟨f, hf, hname⟩ := List.mem_map.mp hin
    obtain ⟨-, d', t, hd', hp', -⟩ := h.files f hf
    rw [hname, hd₀, Option.some.injEq] at hd'
    obtain rfl : f.2 = e' := by
      rw [← hd', hcont, parseEnvelope_marshalEnvelope he'.header he'.arrived] at hp'
      exact (Except.ok.inj hp').symm
    have hcid : (entryOf f).envCidHex = f.2.cidHex build := by
      change trimEndMatches f.1 ".fenv" = _
      rw [hname, trimEndMatches_fenvFile (dot_notMem_cidHex build f.2)]
    refine ⟨entryOf f, (hkept _).mem_iff.mpr (List.mem_map_of_mem ?_), rfl, hcid⟩
    exact List.mem_filter.mpr ⟨hf, by simp⟩

/-! ## Entries have their files -/

/-- What has a place in the queue of a put is recorded. -/
theorem recorded_placed {p : Put} {q : List Queued} (hp : Filed written p.envelope)
    (hq : ∀ x ∈ q, Recorded build written p.key x) {x : Queued}
    (hx : x ∈ placed (p.entry build) q) : Recorded build written p.key x := by
  rcases mem_placed hx with ⟨hptr, hc, hd⟩ | hx
  · exact ⟨p.envelope, hp, rfl, hptr, hc, hd⟩
  · exact hq x hx

/-- A put removes only envelopes of its own handle. -/
theorem recorded_putDropped {p : Put} {now : ℕ} {q : List Queued} (hp : Filed written p.envelope)
    (hq : ∀ x ∈ q, Recorded build written p.key x) {c : String}
    (hc : c ∈ putDropped cfg (p.entry build) now q) :
    ∃ y, Recorded build written p.key y ∧ y.envCidHex = c := by
  rw [putDropped_eq] at hc
  rcases List.mem_append.mp hc with hc | hc
  · obtain ⟨-, y, hy, -, hyc⟩ := mem_superseded hc
    exact ⟨y, hq y hy, hyc⟩
  · obtain ⟨y, hy, hyc⟩ := List.mem_map.mp hc
    have hplaced := (perm_placed cfg (p.entry build) now q).mem_iff.mpr (List.mem_append_left _ hy)
    exact ⟨y, recorded_placed hp hq hplaced, hyc⟩

/-- So does a drain. -/
theorem recorded_popDropped {h : String} {now max : ℕ} {q : List Queued}
    (hq : ∀ x ∈ q, Recorded build written h x) {c : String} (hc : c ∈ popDropped now max q) :
    ∃ y, Recorded build written h y ∧ y.envCidHex = c := by
  obtain ⟨y, hy, hyc⟩ := List.mem_map.mp hc
  exact ⟨y, hq y (List.mem_of_mem_take hy), hyc⟩

/-- A section that removes only envelopes of entries that leave the queue. -/
theorem stored_rewrites {h : String} {q : List Queued} {cids : List String}
    (hnc : NoCollision build written) (hrw : Rewrites env h q cids u w')
    (hcids : ∀ c ∈ cids, ∃ y, Recorded build written h y ∧ y.envCidHex = c)
    (hkept : ∀ x ∈ q, x.envCidHex ∉ cids)
    (hq : ∀ x ∈ q, (u.dir.lookup (fenvFile x.envCidHex)).isSome)
    (hrec : ∀ k, ∀ x ∈ Queues.of u.queues k, Recorded build written k x)
    (hother : ∀ k ≠ h, ∀ x ∈ Queues.of u.queues k,
      (u.dir.lookup (fenvFile x.envCidHex)).isSome) : Stored w' := by
  have hsame {c : String} (hc : c ∉ cids) :
      w'.dir.lookup (fenvFile c) = u.dir.lookup (fenvFile c) := by
    rcases hrw.shrinks (fenvFile c) with heq | ⟨-, c', hc', heq⟩
    · exact heq
    · exact absurd (fenvFile_inj.mp heq ▸ hc') hc
  intro k x hx
  rw [hrw.queues] at hx
  split at hx
  · rw [hsame (hkept x hx)]
    exact hq x hx
  · rename_i hk
    have hx' := hrec k x hx
    -- what goes is of this queue, and no two queues share a file
    have hnot : x.envCidHex ∉ cids := by
      intro hc
      obtain ⟨y, hy, hyc⟩ := hcids _ hc
      exact hk (hnc.entry hx' hy hyc.symm).1
    rw [hsame hnot]
    exact hother k hk x hx

/-- The queue section of a put whose envelope is in its place. -/
theorem stored_putQueue {p : Put} {now : ℕ} (hnc : NoCollision build written)
    (hdistinct : ((Queues.of u.queues p.key).map Queued.pointer).Nodup) (hst : Stored u)
    (hrec : ∀ k, ∀ x ∈ Queues.of u.queues k, Recorded build written k x)
    (hp : Filed written p.envelope)
    (hin : (u.dir.lookup (fenvFile (p.envelope.cidHex build))).isSome)
    (heff : Rewrites env p.key (putKept cfg (p.entry build) now (Queues.of u.queues p.key))
      (putDropped cfg (p.entry build) now (Queues.of u.queues p.key)) u w') : Stored w' := by
  let q := Queues.of u.queues p.key
  have hplaced {x : Queued} (hx : x ∈ placed (p.entry build) q) :
      Recorded build written p.key x := recorded_placed hp (hrec p.key) hx
  have hnodup : ((placed (p.entry build) q).map Queued.pointer).Nodup := nodup_placed hdistinct
  -- entries with a place are told apart by their names
  have hsep {x y : Queued} (hx : x ∈ placed (p.entry build) q)
      (hy : y ∈ placed (p.entry build) q) (hc : x.envCidHex = y.envCidHex) : x = y :=
    eq_of_pointer hnodup hx hy (hnc.entry (hplaced hx) (hplaced hy) hc).2
  have hperm : (placed (p.entry build) q).Perm
      (putRemoved cfg (p.entry build) now q ++ putKept cfg (p.entry build) now q) :=
    perm_placed _ _ _ _
  have hremoved {x : Queued} (hx : x ∈ putRemoved cfg (p.entry build) now q) :
      x ∈ placed (p.entry build) q := hperm.mem_iff.mpr (List.mem_append_left _ hx)
  have hfile {x : Queued} (hx : x ∈ placed (p.entry build) q) :
      (u.dir.lookup (fenvFile x.envCidHex)).isSome := by
    rcases mem_placed hx with ⟨-, hc, -⟩ | hx
    · rw [hc]
      exact hin
    · exact hst _ x hx
  refine stored_rewrites hnc heff (fun c hc => recorded_putDropped hp (hrec p.key) hc)
    (fun x hx hc => ?_) (fun x hx => hfile (putKept_sublist.subset hx)) hrec
    fun k _ x hx => hst k x hx
  · have hxp := putKept_sublist.subset hx
    rw [putDropped_eq] at hc
    rcases List.mem_append.mp hc with hc | hc
    · obtain ⟨hne, y, hy, hyp, hyc⟩ := mem_superseded hc
      obtain ⟨z, hz, hzp, hzc, -⟩ := exists_mem_placed (p.entry build) q
      have hptr := (hnc.entry (hplaced hxp) (hrec _ y hy) hyc.symm).2
      have hxz : x = z := eq_of_pointer hnodup hxp hz (hptr.trans (hyp.trans hzp.symm))
      exact hne (hxz ▸ hzc)
    · obtain ⟨y, hy, hyc⟩ := List.mem_map.mp hc
      obtain rfl := hsep (hremoved hy) hxp hyc
      have hboth := hperm.map Queued.pointer |>.nodup_iff.mp hnodup
      rw [List.map_append, List.nodup_append] at hboth
      exact hboth.2.2 _ (List.mem_map_of_mem hy) _ (List.mem_map_of_mem hx) rfl

/-- The queue section of a drain. -/
theorem stored_drainQueue {k : String} {now max : ℕ} (hnc : NoCollision build written)
    (hdistinct : ((Queues.of u.queues k).map Queued.pointer).Nodup) (hst : Stored u)
    (hrec : ∀ k, ∀ x ∈ Queues.of u.queues k, Recorded build written k x)
    (heff : Rewrites env k ((Queues.of u.queues k).drop (drainCount now max (Queues.of u.queues k)))
      (popDropped now max (Queues.of u.queues k)) u w') : Stored w' := by
  refine stored_rewrites hnc heff (fun c hc => recorded_popDropped (hrec k) hc) (fun x hx hc => ?_)
    (fun x hx => hst k x (List.mem_of_mem_drop hx)) hrec fun j _ x hx => hst j x hx
  · obtain ⟨y, hy, hyc⟩ := List.mem_map.mp hc
    have hptr := (hnc.entry (hrec k y (List.mem_of_mem_take hy))
      (hrec k x (List.mem_of_mem_drop hx)) hyc).2
    rw [← List.take_append_drop (drainCount now max (Queues.of u.queues k))
      (Queues.of u.queues k), List.map_append, List.nodup_append] at hdistinct
    exact hdistinct.2.2 _ (List.mem_map_of_mem hy) _ (List.mem_map_of_mem hx) hptr

theorem stored_put {req : Value} {ip : String} {p : Put} {now : ℕ} (hnc : NoCollision build written)
    (hdistinct : ((Queues.of w.queues p.key).map Queued.pointer).Nodup) (hst : Stored w)
    (hrec : ∀ k, ∀ x ∈ Queues.of w.queues k, Recorded build written k x)
    (hacc : Accepted env build cfg req ip p now w w') (hp : Filed written p.envelope) :
    Stored w' := by
  obtain ⟨u, sec, hmem, hpersist, heff⟩ := hacc.effect
  have hq : u.queues = w.queues := hmem.queues
  rw [← hq] at hdistinct hrec heff
  refine stored_putQueue hnc hdistinct (fun k x hx => ?_) hrec hp ?_ heff
  · rw [hpersist.fenv]
    split
    · rfl
    · exact hst k x (hq ▸ hx)
  · rw [hpersist.fenv, if_pos rfl]
    rfl

theorem stored_pop {req : Value} {k : String} {now : ℕ} (hnc : NoCollision build written)
    (hdistinct : ((Queues.of w.queues k).map Queued.pointer).Nodup) (hst : Stored w)
    (hrec : ∀ k, ∀ x ∈ Queues.of w.queues k, Recorded build written k x)
    (hd : Drained env build req k now w w') : Stored w' := by
  obtain ⟨u, hun, heff⟩ := hd.effect
  have hq : u.queues = w.queues := hun.queues
  rw [← hq] at hdistinct hrec heff
  refine stored_drainQueue hnc hdistinct (fun j x hx => ?_) hrec heff
  rw [hun.dir]
  exact hst j x (hq ▸ hx)

/-- **A request keeps every entry with its file.** -/
theorem stored_verb (hcalm : env.Calm) (hnc : NoCollision build written) (hreg : Registered w.reg)
    (hrec : ∀ k, ∀ x ∈ Queues.of w.queues k, Recorded build written k x) (hind : Indexed w)
    (hst : Stored w) (v : Verb)
    (hw : ∀ b ∈ SporePeer.written env (v.run build cfg) w, written b) :
    Stored (exec env.handle (v.run build cfg) w).1 := by
  refine Verb.exec_cases (P := Stored) hreg v ?_ ?_ ?_ ?_
  · rintro req -
    obtain ⟨hd, hq, -⟩ := exec_runFreg_frame env build cfg w req
    unfold Stored
    rw [hd, hq]
    exact hst
  · intro w' hun
    unfold Stored
    rw [hun.calm hcalm, hun.queues]
    exact hst
  · rintro req ip p now w' rfl hacc
    exact stored_put hnc (hind.distinct _) hst hrec hacc (hacc.filed hw)
  · rintro req ip k now w' - hd
    exact stored_pop hnc (hind.distinct _) hst hrec hd

theorem stored_start {kept : List (String × Envelope)}
    (hfiles : FilesRecorded build written w.dir) (h : Started env build cfg kept w w') :
    Stored w' := by
  intro k x hx
  rw [h.queues, List.mem_insertionSort] at hx
  obtain ⟨f, hf, rfl⟩ := List.mem_map.mp hx
  have hf := (List.mem_filter.mp hf).1
  obtain ⟨hext, d, t, hd, hp, -⟩ := h.files f hf
  obtain ⟨-, hname, hcid, -⟩ := recorded_entryOf hfiles hext hd hp
  rw [hcid, ← hname]
  rcases h.shrinks f.1 with heq | ⟨-, -, hnot⟩
  · rw [heq, hd]
    rfl
  · exact absurd (List.mem_map_of_mem hf) hnot

/-! ## Runs -/

/-- Entries and envelope files of a relay belong together. -/
structure Relay.Matched (r : Relay σ) : Prop where
  single : Single r.world.dir
  indexed : r.cfg.isSome → Indexed r.world
  stored : r.cfg.isSome → Stored r.world

theorem matched_step (hcalm : env.Calm) (hnc : NoCollision build written) {r : Relay σ}
    (hs : r.Sound build written) (hm : r.Matched) {s : Step} (hord : s.Orderly cfg)
    (hw : ∀ b ∈ r.stepWrites env build s, written b) : (r.step env build s).Matched := by
  obtain ⟨w, running⟩ := r
  cases s with
  | crash v n => exact hord.elim
  | verb v =>
    cases running with
    | none => exact hm
    | some c =>
      have hreg : Registered w.reg := hs.reg rfl
      have hrec : ∀ k, ∀ x ∈ Queues.of w.queues k, Recorded build written k x := hs.entries rfl
      have hind : Indexed w := hm.indexed rfl
      have hst : Stored w := hm.stored rfl
      have hnext : Indexed (exec env.handle (v.run build c) w).1 := indexed_verb hcalm hreg hind v
      exact ⟨hnext.single, fun _ => hnext, fun _ => stored_verb hcalm hnc hreg hrec hind hst v hw⟩
  | start c =>
    unfold Relay.step
    dsimp only
    split
    · rename_i w' he
      obtain ⟨kept, hstart⟩ := exec_fabricOpen he
      have hind : Indexed w' := indexed_start hcalm hm.single hs.files hstart
      exact ⟨hind.single, fun _ => hind, fun _ => stored_start hs.files hstart⟩
    · -- a start that fails has removed files, and put none in their place
      rename_i w' res hne he
      refine ⟨hm.single.of_shrinks fun c' => ?_, nofun, nofun⟩
      have := exec_fabricOpen_shrinks env build c w (fenvFile c')
      rwa [he] at this

theorem matched_fresh (peer : σ) : (Relay.fresh peer).Matched :=
  ⟨nofun, nofun, nofun⟩

theorem matched_run (hcalm : env.Calm) (hnc : NoCollision build written) {r : Relay σ}
    {steps : List Step} (hord : ∀ s ∈ steps, s.Orderly cfg)
    (hw : ∀ b ∈ r.writes env build steps, written b) (hs : r.Sound build written)
    (hm : r.Matched) : (r.run env build steps).Matched :=
  (Relay.run_invariant (I := fun r => r.Sound build written ∧ r.Matched)
    (fun _ s hin hws hr => ⟨sound_step hr.1 hws,
      matched_step hcalm hnc hr.1 hr.2 (hord s hin) hws⟩) hw ⟨hs, hm⟩).2

/-- Entries and envelope files correspond. -/
structure OnDisk (w : World σ) : Prop where
  files : ∀ name, name ∈ w.dir ∧ extension name = some "fenv" ↔
    ∃ h, ∃ x ∈ Queues.of w.queues h, name = fenvFile x.envCidHex
  names : ∀ h, ((Queues.of w.queues h).map Queued.envCidHex).Nodup
  apart : ∀ h h' x x', x ∈ Queues.of w.queues h → x' ∈ Queues.of w.queues h' →
    x.envCidHex = x'.envCidHex → h = h' ∧ x = x'
  parses : ∀ h, ∀ x ∈ Queues.of w.queues h, ∃ d e, w.dir.lookup (fenvFile x.envCidHex) = some d ∧
    parseEnvelope d.content = .ok e ∧ e.key = h ∧ e.pointer = x.pointer

theorem onDisk_of_matched (hnc : NoCollision build written)
    (hfiles : FilesRecorded build written w.dir)
    (hrec : ∀ h, ∀ x ∈ Queues.of w.queues h, Recorded build written h x) (hind : Indexed w)
    (hst : Stored w) : OnDisk w := by
  have hparses (h : String) (x : Queued) (hx : x ∈ Queues.of w.queues h) :
      ∃ d e, w.dir.lookup (fenvFile x.envCidHex) = some d ∧ parseEnvelope d.content = .ok e ∧
        e.key = h ∧ e.pointer = x.pointer := by
    obtain ⟨d, hd⟩ := Option.isSome_iff_exists.mp (hst h x hx)
    obtain ⟨e, he, hc, hcont⟩ := hfiles _ d hd
    obtain ⟨e', he', rfl, hp, hc', -⟩ := hrec h x hx
    obtain rfl := hnc.envelope he he' (hc.symm.trans hc')
    exact ⟨d, e, hd, hcont ▸ parseEnvelope_marshalEnvelope he.header he.arrived, rfl, hp.symm⟩
  have hapart (h h' : String) (x x' : Queued) (hx : x ∈ Queues.of w.queues h)
      (hx' : x' ∈ Queues.of w.queues h') (hc : x.envCidHex = x'.envCidHex) : h = h' ∧ x = x' := by
    obtain ⟨rfl, hp⟩ := hnc.entry (hrec h x hx) (hrec h' x' hx') hc
    exact ⟨rfl, eq_of_pointer (hind.distinct h) hx hx' hp⟩
  refine ⟨fun name => ⟨?_, ?_⟩, fun h => ?_, hapart, hparses⟩
  · -- an envelope on disk is queued
    rintro ⟨hin, hext⟩
    obtain ⟨c, rfl⟩ := fenvFile_of_extension hext
    rw [← AList.lookup_isSome] at hin
    obtain ⟨d, hd⟩ := Option.isSome_iff_exists.mp hin
    obtain ⟨e, he, -, hcont⟩ := hfiles c d hd
    obtain ⟨x, hx, -, hxc⟩ := hind.entry c d e hd
      (hcont ▸ parseEnvelope_marshalEnvelope he.header he.arrived)
    exact ⟨e.key, x, hx, by rw [hxc]⟩
  · -- a queued pointer has its envelope on disk
    rintro ⟨h, x, hx, rfl⟩
    obtain ⟨e, -, -, -, hc, -⟩ := hrec h x hx
    refine ⟨AList.lookup_isSome.mp (hst h x hx), extension_fenvFile ?_⟩
    rw [hc]
    exact cidHex_ne_empty build e
  · exact List.Nodup.map_on (fun x hx y hy hc => (hapart h h x y hx hy hc).2)
      (hind.distinct h).of_map

/-- **Entries and envelope files correspond in every run.** -/
theorem onDisk_run (hcalm : env.Calm) (peer : σ) {steps : List Step}
    (hord : ∀ s ∈ steps, s.Orderly cfg)
    (hnc : NoCollision build (· ∈ (Relay.fresh peer).writes env build (.start cfg :: steps)))
    (hup : ((Relay.fresh peer).run env build (.start cfg :: steps)).cfg.isSome) :
    OnDisk ((Relay.fresh peer).run env build (.start cfg :: steps)).world := by
  have hall : ∀ s ∈ Step.start cfg :: steps, s.Orderly cfg :=
    List.forall_mem_cons.mpr ⟨rfl, hord⟩
  have hs : ((Relay.fresh peer).run env build (.start cfg :: steps)).Sound build
      (· ∈ (Relay.fresh peer).writes env build (.start cfg :: steps)) :=
    sound_run (fun _ hb => hb) (sound_fresh peer)
  have hm : ((Relay.fresh peer).run env build (.start cfg :: steps)).Matched :=
    matched_run hcalm hnc hall (fun _ hb => hb) (sound_fresh peer) (matched_fresh peer)
  exact onDisk_of_matched hnc hs.files (hs.entries hup) (hm.indexed hup) (hm.stored hup)
end

/-- Two pointers are queued, the relay starts again, and one of them is drained. -/
theorem onDisk_run_restart :
    let env : Env Unit := .still (fun p _ => (p, .error "closed")) 100
    let handle : U8Array 32 := .replicate 32 7
    OnDisk ((Relay.fresh ()).run env .trailing [.start {},
      .verb (.freg (fregRequest handle "token-0123456789" 60)),
      .verb (.fput (fputRequest handle (pointerOf 1 200)) "ip"),
      .verb (.fput (fputRequest handle (pointerOf 2 200)) "ip"),
      .start {},
      .verb (.freg (fregRequest handle "token-0123456789" 60)),
      .verb (.fpop (fpopRequest handle "token-0123456789" 1) "ip")]).world := by
  refine onDisk_run (Env.still_calm _ _) () ?_ (noCollision_of_mem ?_) ?_
  · simp [Step.Orderly]
  · decide +kernel
  · decide +kernel

end SporePeer
