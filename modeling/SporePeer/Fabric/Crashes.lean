import Mathlib.Data.List.Perm.Subperm
import SporePeer.Fabric.Matching

/-!
# Crashes

A put that is cut off once its envelope is in its place may leave the envelope that it supersedes,
or those over the cap, where they are, and the next start finds both. A relay that leaves nothing
behind keeps its queues well formed, however often it crashes.

## Main definitions

* `Relay.Clean`: a step that leaves no envelope behind
* `Relay.Tidied`: a directory with one envelope for a handle and a pointer, and queues under the cap

## Main results

* `bounded_run`: where all steps are clean, queues hold distinct pointers under the cap
-/

namespace SporePeer

open Effects Text Bytes

section

variable {σ : Type} {env : Env σ} {build : Build} {cfg : FabricConfig} {w w' : World σ}

/-! ## Clean steps -/

/-- The files `names` hold envelopes of `h` that a start under `cfg` keeps. -/
def KeptAt (env : Env σ) (build : Build) (cfg : FabricConfig) (w : World σ) (h : String)
    (names : List String) : Prop :=
  ∀ name ∈ names, extension name = some "fenv" ∧ ∃ d e t, w.dir.lookup name = some d ∧
    parseEnvelope d.content = .ok e ∧ e.key = h ∧ w.tick ≤ t ∧
    t + 1 < (exec env.handle (fabricOpen build cfg) w).1.tick ∧ Admits env build cfg e t

/-- The crash of a put that has moved an envelope to its place has removed the envelope that it
supersedes. -/
def Superseded (build : Build) (w : World σ) (req : Value) (calls : List (Σ β, Op β)) : Prop :=
  ∀ h p c, readHandle build "400 fput needs handle" req = .ok h → fputPointer req = .ok p →
    fenvFile c ∈ calls.filterMap movedTo →
    ∀ x ∈ Queues.of w.queues h, x.pointer = p → x.envCidHex ≠ c →
      fenvFile x.envCidHex ∈ calls.filterMap removed

/-- A put of a pointer that is not queued supersedes nothing. -/
theorem superseded_of_not_isQueued {req : Value} {h : String} {p : Pointer}
    (hh : readHandle build "400 fput needs handle" req = .ok h) (hp : fputPointer req = .ok p)
    (hnot : ¬ IsQueued p (Queues.of w.queues h)) (calls : List (Σ β, Op β)) :
    Superseded build w req calls := by
  rintro h' p' c hh' hp' - x hx hxp -
  rw [hh, Except.ok.injEq] at hh'
  rw [hp, Except.ok.injEq] at hp'
  subst hh' hp'
  exact absurd ⟨x, hx, hxp⟩ hnot

/-- No crash leaves two envelopes of one pointer behind, and no start finds more envelopes of a
handle than its cap. -/
def Relay.Clean (env : Env σ) (build : Build) (r : Relay σ) : Step → Prop
  | .crash (.fput req ip) n => ∀ cfg, r.cfg = some cfg →
    Superseded build r.world req (cutOff env.handle n (runFput build cfg req ip) r.world).1
  | .start cfg => ∀ h names, names.Nodup → KeptAt env build cfg r.world h names →
    names.length ≤ cfg.maxPerHandle
  | _ => True

/-- No more envelopes are kept than there are files. -/
theorem KeptAt.length_le {h : String} {names : List String} (hnodup : names.Nodup)
    (hkept : KeptAt env build cfg w h names) : names.length ≤ w.dir.keys.length := by
  refine (hnodup.subperm fun name hname => ?_).length_le
  obtain ⟨-, d, e, t, hd, -⟩ := hkept name hname
  exact Table.mem_of_lookup hd

/-- One envelope for a handle and a pointer, and queues under the cap. -/
structure Relay.Tidied (build : Build) (r : Relay σ) : Prop where
  sound : r.Sound build fun _ => True
  single : Single r.world.dir
  indexed : r.cfg.isSome → Indexed r.world
  bounded : ∀ cfg, r.cfg = some cfg → ∀ h, (Queues.of r.world.queues h).length ≤ cfg.maxPerHandle

/-- A request keeps the queues under the cap. -/
theorem bounded_verb (hreg : Registered w.reg)
    (hle : ∀ h, (Queues.of w.queues h).length ≤ cfg.maxPerHandle) (v : Verb) (h : String) :
    (Queues.of (exec env.handle (v.run build cfg) w).1.queues h).length ≤ cfg.maxPerHandle := by
  refine Verb.exec_cases (P := fun w' => (Queues.of w'.queues h).length ≤ cfg.maxPerHandle)
    hreg v ?_ ?_ ?_ ?_
  · rintro req -
    rw [(exec_runFreg_frame env build cfg w req).2.1]
    exact hle h
  · intro w' hun
    rw [hun.queues]
    exact hle h
  · rintro req ip p now w' - hacc
    obtain ⟨u, sec, hmem, -, heff⟩ := hacc.effect
    rw [heff.queues, hmem.queues]
    split
    · exact length_putKept_le (hle _)
    · exact hle h
  · rintro req ip k now w' - hd
    obtain ⟨u, hun, heff⟩ := hd.effect
    rw [heff.queues, hun.queues]
    split
    · exact (List.drop_sublist _ _).length_le.trans (hle k)
    · exact hle h

/-- A clean crash inside a put leaves one envelope for a handle and a pointer. -/
theorem Cut.single {req : Value} {p : Put} {calls : List (Σ β, Op β)} (hcalm : env.Calm)
    (hcut : Cut env build req p calls w w') (hind : Indexed w)
    (hclean : Superseded build w req calls) : Single w'.dir := by
  obtain ⟨v, sec, hv, hsub⟩ := hcut.stored
  have hheader : p.pointer.HasHeader := fputPointer_ok hcut.pointer
  have hold {c : String} {d : FileData} (hd : w'.dir.lookup (fenvFile c) = some d) :
      (if c = p.envelope.cidHex build then some ⟨marshalEnvelope p.envelope, sec⟩
        else w.dir.lookup (fenvFile c)) = some d := by
    rw [← hv.fenv]
    rcases hsub (fenvFile c) with heq | hnone
    · rwa [← heq]
    · rw [hnone] at hd
      cases hd
  -- the new envelope is alone: one of its handle and pointer was an entry, and has been removed
  have halone {c : String} {d : FileData} {e : Envelope} (hc : c ≠ p.envelope.cidHex build)
      (hd : w'.dir.lookup (fenvFile c) = some d) (he : parseEnvelope d.content = .ok e)
      (hkey : e.key = p.key) : e.pointer ≠ p.pointer := by
    intro hptr
    have hd₀ := hold hd
    rw [if_neg hc] at hd₀
    obtain ⟨x, hx, hxp, hxc⟩ := hind.entry c d e hd₀ he
    rw [hkey] at hx
    have hgone := hclean p.key p.pointer _ hcut.handle hcut.pointer hcut.moved x hx
      (hxp.trans hptr) (by rwa [hxc])
    rw [hxc] at hgone
    rw [hcut.removed hcalm _ hgone] at hd
    cases hd
  have hnew {d : FileData} {e : Envelope}
      (hd : some (⟨marshalEnvelope p.envelope, sec⟩ : FileData) = some d)
      (he : parseEnvelope d.content = .ok e) : e = p.envelope := by
    cases hd
    rw [parseEnvelope_marshalEnvelope hheader hcut.arrived] at he
    exact (Except.ok.inj he).symm
  intro c c' d d' e e' hd hd' he he' hkey hptr
  have hd₀ := hold hd
  have hd₀' := hold hd'
  by_cases hc : c = p.envelope.cidHex build <;> by_cases hc' : c' = p.envelope.cidHex build
  · exact hc.trans hc'.symm
  · rw [if_pos hc] at hd₀
    obtain rfl := hnew hd₀ he
    exact absurd hptr.symm (halone hc' hd' he' hkey.symm)
  · rw [if_pos hc'] at hd₀'
    obtain rfl := hnew hd₀' he'
    exact absurd hptr (halone hc hd he hkey)
  · rw [if_neg hc] at hd₀
    rw [if_neg hc'] at hd₀'
    exact hind.single c c' d d' e e' hd₀ hd₀' he he' hkey hptr

/-- A start that finds no more envelopes than its cap. -/
theorem Started.length_le {kept : List (String × Envelope)}
    (h : Started env build cfg kept w w')
    (hend : (exec env.handle (fabricOpen build cfg) w).1 = w') {k : String}
    (hclean : ∀ names, names.Nodup → KeptAt env build cfg w k names →
      names.length ≤ cfg.maxPerHandle) :
    (Queues.of w'.queues k).length ≤ cfg.maxPerHandle := by
  rw [h.queues, List.length_insertionSort, List.length_map]
  have hnames : ((kept.filter fun f => f.2.key = k).map Prod.fst).Nodup :=
    h.nodup.sublist (List.filter_sublist.map _)
  rw [← List.length_map (f := Prod.fst)]
  refine hclean _ hnames fun name hname => ?_
  obtain ⟨f, hf, rfl⟩ := List.mem_map.mp hname
  obtain ⟨hf, hk⟩ := List.mem_filter.mp hf
  obtain ⟨hext, d, t, hd, hp, ht, ht', hadm⟩ := h.files f hf
  exact ⟨hext, d, f.2, t, hd, hp, by simpa using hk, ht, hend ▸ ht', hadm⟩

theorem tidied_step (hcalm : env.Calm) {r : Relay σ} {s : Step} (hclean : r.Clean env build s)
    (h : r.Tidied build) : (r.step env build s).Tidied build := by
  obtain ⟨w, running⟩ := r
  cases s with
  | verb v =>
    cases running with
    | none => exact h
    | some c =>
      have hreg : Registered w.reg := h.sound.reg rfl
      have hind : Indexed (exec env.handle (v.run build c) w).1 :=
        indexed_verb hcalm hreg (h.indexed rfl) v
      refine ⟨sound_step h.sound fun _ _ => trivial, hind.single, fun _ => hind,
        fun c' hc' k => ?_⟩
      cases hc'
      exact bounded_verb hreg (h.bounded c rfl) v k
  | crash v n =>
    cases running with
    | none => exact h
    | some c =>
      have hsingle : Single (cutOff env.handle n (v.run build c) w).2.dir := by
        -- only a put writes, and one that is cut has written at most one envelope
        rcases noWrite_run build c v with hm | ⟨req, ip, rfl⟩
        · exact h.single.of_shrinks fun c' => cutOff_noWrite hm w n (fenvFile c')
        · rcases crash_fput env (h.sound.reg rfl) n with hsame | ⟨p, hcut, -⟩
          · exact h.single.of_shrinks fun c => .inl (hsame c)
          · exact hcut.single hcalm (h.indexed rfl) (hclean c rfl)
      exact ⟨sound_step h.sound fun _ _ => trivial, hsingle, nofun, nofun⟩
  | start c =>
    have hsound : (Relay.step env build ⟨w, running⟩ (.start c)).Sound build fun _ => True :=
      sound_step h.sound fun _ _ => trivial
    unfold Relay.step at hsound ⊢
    dsimp only at hsound ⊢
    split at hsound
    · rename_i w' he
      obtain ⟨kept, hst⟩ := exec_fabricOpen he
      have hind : Indexed w' := indexed_start hcalm h.single h.sound.files hst
      refine ⟨hsound, hind.single, fun _ => hind, fun c' hc' k => ?_⟩
      cases hc'
      exact hst.length_le (congrArg Prod.fst he) (hclean k)
    · rename_i w' res hne he
      refine ⟨hsound, h.single.of_shrinks fun c' => ?_, nofun, nofun⟩
      have := exec_fabricOpen_shrinks env build c w (fenvFile c')
      rwa [he] at this

theorem tidied_fresh (peer : σ) : (Relay.fresh peer).Tidied build :=
  ⟨sound_fresh peer, nofun, nofun, nofun⟩

/-- **Queues stay well formed.** Where every step is clean, a queue holds distinct pointers, and no
more than the cap of the running process. -/
theorem bounded_run (hcalm : env.Calm) (peer : σ) {steps : List Step}
    (hclean : (Relay.fresh peer).Along env build (Relay.Clean env build) steps)
    (hcfg : ((Relay.fresh peer).run env build steps).cfg = some cfg) (h : String) :
    ((Queues.of ((Relay.fresh peer).run env build steps).world.queues h).map
        Queued.pointer).Nodup ∧
      (Queues.of ((Relay.fresh peer).run env build steps).world.queues h).length ≤
        cfg.maxPerHandle := by
  have htidied : ((Relay.fresh peer).run env build steps).Tidied build :=
    Relay.run_along (fun _ _ => tidied_step hcalm) hclean (tidied_fresh peer)
  refine ⟨(htidied.indexed ?_).distinct h, htidied.bounded cfg hcfg h⟩
  rw [hcfg]
  rfl

end

/-- A put is cut off once its envelope is in its place, next to that of another pointer. -/
theorem bounded_run_crash :
    let env : Env Unit := .still (fun p _ => (p, .error "closed")) 100
    let handle : U8Array 32 := .replicate 32 7
    let cfg : FabricConfig := {}
    let r := (Relay.fresh ()).run env .trailing [.start cfg,
      .verb (.freg (fregRequest handle "token-0123456789" 60)),
      .verb (.fput (fputRequest handle (pointerOf 1 200)) "ip"),
      .crash (.fput (fputRequest handle (pointerOf 2 200)) "ip") 13, .start cfg]
    ((Queues.of r.world.queues (Hex.encode handle.toList)).map Queued.pointer).Nodup ∧
      (Queues.of r.world.queues (Hex.encode handle.toList)).length ≤ cfg.maxPerHandle := by
  refine bounded_run (Env.still_calm _ _) () ?_ ?_ _
  · refine ⟨fun h names hnodup hkept => ?_, trivial, trivial, fun cfg _ => ?_,
      fun h names hnodup hkept => ?_, trivial⟩
    · exact (hkept.length_le hnodup).trans (by decide)
    · refine superseded_of_not_isQueued (h := Hex.encode (List.replicate 32 7))
        (p := pointerOf 2 200) ?_ ?_ ?_ _
      · decide +kernel
      · decide +kernel
      · decide +kernel
    · exact (hkept.length_le hnodup).trans (by decide +kernel)
  · decide +kernel

/-- A put renews a pointer in a later second, and is cut off before the superseded envelope is
removed: the next start queues the pointer twice. And a start queues what an earlier one had room
for, whatever its own cap. -/
theorem crash_queues_twice :
    let env : Env Unit := .jump (fun p _ => (p, .error "closed")) 100 101 9
    let handle : U8Array 32 := .replicate 32 7
    let served := [.start {}, .verb (.freg (fregRequest handle "token-0123456789" 60)),
      .verb (.fput (fputRequest handle (pointerOf 1 200)) "ip")]
    let queue (cfg : FabricConfig) (more : List Step) : List Queued :=
      Queues.of ((Relay.fresh ()).run env .trailing (served ++ more ++ [.start cfg])).world.queues
        (Hex.encode handle.toList)
    ¬ ((queue {} [.crash (.fput (fputRequest handle (pointerOf 1 200)) "ip") 13]).map
        Queued.pointer).Nodup ∧
      ¬ (queue { maxPerHandle := 0 } []).length ≤ 0 := by
  decide +kernel

end SporePeer
