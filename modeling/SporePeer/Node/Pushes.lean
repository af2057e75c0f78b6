import SporePeer.Library.Interleaving
import SporePeer.Node.Admission
import SporePeer.Node.BodySizes

/-!
# Pushes of one body at the same time

All pushes of a body write to the same incoming file. A file that is open stays the same file when
its name changes, so a push that creates the incoming file between the creation and the renaming by
another push truncates the file that the other one gives its final name.

## Main definitions

* `FileOp`, `Disk`: the file operations, on names and the files behind them
* `storeSteps`: `store_body`, one operation at a time
* `pushes`: some pushes of one body
* `Alone`: a creation of the incoming file while no other push is between its own and the renaming

## Main results

* `storeSteps_eq_storeBody`: alone, the operations are those of `storeBody`
* `orderly_step`: what one step keeps
* `pushes_agree`: what concurrent pushes do when every creation is alone
-/

namespace SporePeer

open Effects Text

/-! ## Files -/

/-- The file operations of `store_body`. `fs::write` creates or truncates the file, then writes. -/
inductive FileOp : Type → Type
  | metadata (name : String) : FileOp Bool
  | createDirAll : FileOp (Except String Unit)
  | create (name : String) : FileOp (Except String ℕ)
  | writeAll (file : ℕ) (content : Bytes) : FileOp (Except String Unit)
  | rename (src dst : String) : FileOp (Except String Unit)
  | removeFile (name : String) : FileOp Unit

/-- A directory: its names, and the contents of the files behind them. The files from `unused` on
are not in use. -/
structure Disk where
  names : Table String ℕ
  contents : ℕ → Bytes
  unused : ℕ

namespace Disk

/-- The file operations, when they succeed. An open file is written from its start. -/
def handle : Handler FileOp Disk
  | _, .metadata name, d => (d, (d.names.lookup name).isSome)
  | _, .createDirAll, d => (d, .ok ())
  | _, .create name, d =>
    match d.names.lookup name with
    | some x => ({ d with contents := Function.update d.contents x [] }, .ok x)
    | none =>
      ({ names := d.names.insert name d.unused
         contents := Function.update d.contents d.unused []
         unused := d.unused + 1 }, .ok d.unused)
  | _, .writeAll x b, d =>
    ({ d with contents := Function.update d.contents x (b ++ (d.contents x).drop b.length) },
      .ok ())
  | _, .rename src dst, d =>
    match d.names.lookup src with
    | none => (d, .error noSuchFile)
    | some x => ({ d with names := (d.names.erase src).insert dst x }, .ok ())
  | _, .removeFile name, d => ({ d with names := d.names.erase name }, ())

/-- What a reader finds under a name. -/
def read (d : Disk) (name : String) : Option Bytes := (d.names.lookup name).map d.contents

/-- Every file in use has one name. -/
structure Sane (d : Disk) : Prop where
  used : ∀ name x, d.names.lookup name = some x → x < d.unused
  single : ∀ name name' x, d.names.lookup name = some x → d.names.lookup name' = some x →
    name = name'

variable {d : Disk} {name : String} {x : ℕ}

/-- A file that is created or truncated is empty, and the others are as before. -/
theorem Sane.create (h : d.Sane) (name : String) :
    let d' := (handle _ (.create name) d).1
    ∃ x, (handle _ (.create name) d).2 = .ok x ∧ d'.Sane ∧ d'.names.lookup name = some x ∧
      d'.contents x = [] ∧ ∀ n ≠ name, d'.read n = d.read n := by
  rcases hx : d.names.lookup name with _ | x
  · -- a new file
    simp only [handle, hx]
    refine ⟨d.unused, rfl, ⟨fun n y hy => ?_, fun n n' y hy hy' => ?_⟩, AList.lookup_insert _,
      Function.update_self .., fun n hn => ?_⟩
    · rw [Table.lookup_insert_eq] at hy
      split at hy
      · obtain rfl := Option.some.inj hy
        exact Nat.lt_succ_self _
      · exact (h.used n y hy).trans (Nat.lt_succ_self _)
    · rw [Table.lookup_insert_eq] at hy hy'
      split at hy <;> split at hy'
      · exact ‹n = name›.trans ‹n' = name›.symm
      · obtain rfl := Option.some.inj hy
        exact absurd (h.used n' _ hy') (lt_irrefl _)
      · obtain rfl := Option.some.inj hy'
        exact absurd (h.used n _ hy) (lt_irrefl _)
      · exact h.single n n' y hy hy'
    · rw [read, read, Table.lookup_insert_eq, if_neg hn]
      refine Option.map_congr fun y hy => Function.update_of_ne ?_ _ _
      exact (h.used n y hy).ne
  · -- the file is there, and is truncated
    simp only [handle, hx]
    refine ⟨x, rfl, ⟨h.used, h.single⟩, rfl, Function.update_self .., fun n hn => ?_⟩
    refine Option.map_congr fun y hy => Function.update_of_ne ?_ _ _
    rintro rfl
    exact hn (h.single n name y hy hx)

/-- A write changes the file that is open. -/
theorem Sane.writeAll (h : d.Sane) (hx : d.names.lookup name = some x) (b : Bytes) :
    let d' := (handle _ (.writeAll x b) d).1
    d'.Sane ∧ d'.contents x = b ++ (d.contents x).drop b.length ∧
      ∀ n ≠ name, d'.read n = d.read n := by
  refine ⟨⟨h.used, h.single⟩, Function.update_self .., fun n hn => ?_⟩
  refine Option.map_congr fun y hy => Function.update_of_ne ?_ _ _
  rintro rfl
  exact hn (h.single n name y hy hx)

/-- A file that is renamed keeps its contents. -/
theorem Sane.rename (h : d.Sane) {src dst : String} (hx : d.names.lookup src = some x)
    (hne : src ≠ dst) :
    let d' := (handle _ (.rename src dst) d).1
    (handle _ (.rename src dst) d).2 = .ok () ∧ d'.Sane ∧ d'.names.lookup src = none ∧
      d'.read dst = some (d.contents x) ∧ ∀ n, n ≠ src → n ≠ dst → d'.read n = d.read n := by
  simp only [handle, hx]
  have hlook (n : String) : ((d.names.erase src).insert dst x).lookup n =
      if n = dst then some x else if n = src then none else d.names.lookup n := by
    rw [Table.lookup_insert_eq, Table.lookup_erase_eq]
  -- the destination takes the file over from the source
  refine ⟨trivial, ⟨fun n y hy => ?_, fun n n' y hy hy' => ?_⟩, ?_, ?_, fun n hs hd => ?_⟩
  · rw [hlook] at hy
    split at hy
    · exact Option.some.inj hy ▸ h.used src x hx
    · split at hy
      · cases hy
      · exact h.used n y hy
  · rw [hlook] at hy hy'
    split at hy <;> split at hy'
    · exact ‹n = dst›.trans ‹n' = dst›.symm
    · split at hy'
      · cases hy'
      · exact absurd (h.single n' src y hy' (Option.some.inj hy ▸ hx)) ‹n' ≠ src›
    · split at hy
      · cases hy
      · exact absurd (h.single n src y hy (Option.some.inj hy' ▸ hx)) ‹n ≠ src›
    · split at hy
      · cases hy
      split at hy'
      · cases hy'
      exact h.single n n' y hy hy'
  · rw [hlook, if_neg hne, if_pos rfl]
  · rw [read, hlook, if_pos rfl]
    rfl
  · rw [read, read, hlook, if_neg hd, if_neg hs]

end Disk

/-! ## Steps -/

section

variable (build : Build) (dir : String) (body : Bytes)

/-- `store_body` from the renaming on. -/
def fromRename : Fallible FileOp String := do
  let tmp := incomingFile (cidOf build body)
  let renamed ← ask (.rename tmp (bodyFile (cidOf build body)))
  match renamed with
  | .error e => do
    ask (.removeFile tmp)
    throw s!"rename {dir}/{tmp}: {e}"
  | .ok () => return cidOf build body

/-- `store_body` from the write to the open file on. -/
def fromWrite (file : ℕ) : Fallible FileOp String := do
  let written ← ask (.writeAll file body)
  orFail (written.mapError fun e => s!"write {dir}/{incomingFile (cidOf build body)}: {e}")
  fromRename build dir body

/-- `store_body` from the creation of the incoming file on. -/
def fromCreate : Fallible FileOp String := do
  let created ← ask (.create (incomingFile (cidOf build body)))
  let file ← orFail (created.mapError fun e =>
    s!"write {dir}/{incomingFile (cidOf build body)}: {e}")
  fromWrite build dir body file

/-- `store_body` from the creation of the directory on. -/
def fromMake : Fallible FileOp String := do
  let made ← ask .createDirAll
  orFail (made.mapError fun e => s!"dir {dir}: {e}")
  fromCreate build dir body

/-- `store_body` from the presence check on. -/
def fromCheck : Fallible FileOp String := do
  let present ← ask (.metadata (bodyFile (cidOf build body)))
  if present then return cidOf build body
  else fromMake build dir body

/-- `store_body`, one file operation at a time. -/
def storeSteps : Fallible FileOp String := do
  refuseIf (body = []) "400 empty body"
  refuseIf (maxBodyBytes < body.length) "413 body too large"
  fromCheck build dir body

theorem storeSteps_of_fits (h : Fits body) :
    storeSteps build dir body = fromCheck build dir body := by
  rw [storeSteps, refuseIf_bind_of_not (List.length_pos_iff.mp h.1),
    refuseIf_bind_of_not (not_lt.mpr h.2)]

end

/-- A body that is there is not written again. -/
theorem exec_fromCheck_present (build : Build) (dir : String) {body : Bytes} {d : Disk}
    (hpresent : (d.names.lookup (bodyFile (cidOf build body))).isSome) :
    exec Disk.handle (fromCheck build dir body) d = (d, .ok (.ok (cidOf build body))) := by
  rw [fromCheck, exec_ask_bind]
  simp only [Disk.handle, hpresent, if_true]
  rfl

/-- A new body gets its file, and the other files stay. -/
theorem exec_fromCheck_new (build : Build) (dir : String) {body : Bytes} {d : Disk} (hd : d.Sane)
    (hnew : d.names.lookup (bodyFile (cidOf build body)) = none) :
    let r := exec Disk.handle (fromCheck build dir body) d
    r.2 = .ok (.ok (cidOf build body)) ∧
      r.1.read (bodyFile (cidOf build body)) = some body ∧
      r.1.read (incomingFile (cidOf build body)) = none ∧
      ∀ name, name ≠ incomingFile (cidOf build body) → name ≠ bodyFile (cidOf build body) →
        r.1.read name = d.read name := by
  set tmp := incomingFile (cidOf build body) with htmp
  set final := bodyFile (cidOf build body) with hfinal
  obtain ⟨x, hx, hsane, hlook, hempty, hread⟩ := hd.create tmp
  set d₁ := (Disk.handle _ (.create tmp) d).1 with hd₁
  obtain ⟨hsane₂, hcontents, hread₂⟩ := hsane.writeAll hlook body
  set d₂ := (Disk.handle _ (.writeAll x body) d₁).1 with hd₂
  have hne : tmp ≠ final := (bodyFile_ne_incomingFile _ _).symm
  obtain ⟨hok, -, hgone, hplaced, hread₃⟩ := hsane₂.rename hlook hne
  have hcheck : exec Disk.handle (fromCheck build dir body) d =
      exec Disk.handle (fromMake build dir body) d := by
    rw [fromCheck, exec_ask_bind]
    simp only [Disk.handle, show d.names.lookup (bodyFile (cidOf build body)) = none from hnew,
      Option.isSome_none, Bool.false_eq_true, if_false]
  have hmake : exec Disk.handle (fromMake build dir body) d =
      exec Disk.handle (fromCreate build dir body) d := by
    rw [fromMake, exec_ask_bind]
    rfl
  have hcreate : exec Disk.handle (fromCreate build dir body) d =
      exec Disk.handle (fromWrite build dir body x) d₁ := by
    rw [fromCreate, exec_ask_bind, ← htmp, hx]
    rfl
  have hwrite : exec Disk.handle (fromWrite build dir body x) d₁ =
      exec Disk.handle (fromRename build dir body) d₂ := by
    rw [fromWrite, exec_ask_bind]
    rfl
  have hrename : exec Disk.handle (fromRename build dir body) d₂ =
      ((Disk.handle _ (.rename tmp final) d₂).1, .ok (.ok (cidOf build body))) := by
    rw [fromRename, exec_ask_bind, ← htmp, ← hfinal, hok]
    rfl
  -- the five steps of the store, one after the other
  have hrun := hcheck.trans (hmake.trans (hcreate.trans (hwrite.trans hrename)))
  rw [hrun]
  refine ⟨rfl, ?_, ?_, fun name ht hf => ?_⟩
  · rw [hplaced, hcontents, hempty, List.drop_nil, List.append_nil]
  · rw [Disk.read, hgone, Option.map_none]
  · rw [hread₃ name ht hf, hread₂ name ht, hread name ht]

/-- Alone, the steps do what `storeBody` does. -/
theorem storeSteps_eq_storeBody {σ : Type} {env : Env σ} (hcalm : env.Calm) (build : Build)
    (dir : String) (body : Bytes) {w : World σ} {d : Disk} (hd : d.Sane)
    (hfiles : ∀ name, (w.dir.lookup name).map FileData.content = d.read name) :
    (exec Disk.handle (storeSteps build dir body) d).2 =
      (exec env.handle (storeBody build dir body) w).2 ∧
    ∀ name, ((exec env.handle (storeBody build dir body) w).1.dir.lookup name).map
      FileData.content = (exec Disk.handle (storeSteps build dir body) d).1.read name := by
  have hpresent (name : String) :
      (d.names.lookup name).isSome = (w.dir.lookup name).isSome := by
    simpa [Disk.read] using congrArg Option.isSome (hfiles name).symm
  by_cases hfits : Fits body
  · rw [storeSteps_of_fits _ _ _ hfits]
    by_cases hthere : (w.dir.lookup (bodyFile (cidOf build body))).isSome
    · rw [exec_storeBody_present hcalm dir hfits hthere,
        exec_fromCheck_present build dir ((hpresent _).trans hthere)]
      exact ⟨rfl, hfiles⟩
    · rw [Option.not_isSome_iff_eq_none] at hthere
      obtain ⟨tick, m, hrun⟩ := exec_storeBody_new hcalm dir hfits hthere
      have hnew : d.names.lookup (bodyFile (cidOf build body)) = none := by
        rw [← Option.not_isSome_iff_eq_none, hpresent, hthere]
        exact Bool.false_ne_true
      obtain ⟨hok, hbody, htmp, hread⟩ := exec_fromCheck_new build dir hd hnew
      rw [hrun]
      refine ⟨hok, fun name => ?_⟩
      rw [Table.lookup_insert_eq]
      split
      · rw [‹name = _›, hbody]
        rfl
      · rw [Table.lookup_erase_eq]
        split
        · rw [‹name = _›, htmp]
          rfl
        · rw [Table.lookup_insert_eq, if_neg ‹_›, hread name ‹_› ‹_›, hfiles]
  · -- both refuse before their first operation
    by_cases hempty : body = []
    · rw [storeSteps, storeBody, exec_refuseIf_bind, if_pos hempty, exec_refuseIf_bind,
        if_pos hempty]
      exact ⟨rfl, hfiles⟩
    · have hlarge : maxBodyBytes < body.length :=
        not_le.mp fun h => hfits ⟨List.length_pos_iff.mpr hempty, h⟩
      rw [storeSteps, storeBody, exec_refuseIf_bind, if_neg hempty, exec_refuseIf_bind,
        if_pos hlarge, exec_refuseIf_bind, if_neg hempty, exec_refuseIf_bind, if_pos hlarge]
      exact ⟨rfl, hfiles⟩

/-! ## Pushes -/

/-- `n` pushes of one body. -/
def pushes (build : Build) (dir : String) (body : Bytes) (n : ℕ) (d : Disk) :
    Pool FileOp Disk (Except String String) :=
  Pool.start (List.replicate n (storeSteps build dir body).run) d

def isCreate : (Σ β, FileOp β) → Bool
  | ⟨_, .create _⟩ => true
  | _ => false

def isRename : (Σ β, FileOp β) → Bool
  | ⟨_, .rename _ _⟩ => true
  | _ => false

/-- The next operation of the thread creates a file. -/
def createsNext {α : Type} (t : Thread FileOp α) : Bool :=
  match t.rest with
  | .call e _ => isCreate ⟨_, e⟩
  | _ => false

/-- The thread has created its incoming file and has not renamed it. -/
def between {α : Type} (t : Thread FileOp α) : Bool := t.made.any isCreate && !t.made.any isRename

/-- If the thread `i` creates the incoming file now, no other thread is between its creation of the
file and the renaming. -/
def Alone (P : Pool FileOp Disk (Except String String)) (i : ℕ) : Prop :=
  (P.threads[i]?.any createsNext) = true →
    ∀ j ∈ List.range P.threads.length, j ≠ i → (P.threads[j]?.any between) = false

instance (P : Pool FileOp Disk (Except String String)) (i : ℕ) : Decidable (Alone P i) :=
  inferInstanceAs (Decidable (_ → _))

/-! ## Phases -/

/-- Where a push stands. -/
inductive Phase
  | checking
  | making
  | creating
  | writing (file : ℕ)
  | placing (file : ℕ)
  | done

section

variable (build : Build) (dir : String) (body : Bytes)

/-- What is left of a push. -/
def Phase.program : Phase → Program FileOp (Except String String)
  | .checking => (fromCheck build dir body).run
  | .making => (fromMake build dir body).run
  | .creating => (fromCreate build dir body).run
  | .writing x => (fromWrite build dir body x).run
  | .placing _ => (fromRename build dir body).run
  | .done => .ret (.ok (cidOf build body))

/-- The operations that a push has made. -/
def Phase.Made (made : List (Σ β, FileOp β)) : Phase → Prop
  | .checking => made = []
  | .making => made.length = 1 ∧ made.any isCreate = false ∧ made.any isRename = false
  | .creating => made.length = 2 ∧ made.any isCreate = false ∧ made.any isRename = false
  | .writing _ => made.length = 3 ∧ made.any isCreate = true ∧ made.any isRename = false
  | .placing _ => made.length = 4 ∧ made.any isCreate = true ∧ made.any isRename = false
  | .done => made.any isCreate = made.any isRename

/-- The incoming file, while it is open and until it is renamed. -/
def Phase.Holds (d : Disk) : Phase → Prop
  | .writing x => d.names.lookup (incomingFile (cidOf build body)) = some x ∧ d.contents x = []
  | .placing x => d.names.lookup (incomingFile (cidOf build body)) = some x ∧ d.contents x = body
  | _ => True

/-- A push in a phase. -/
structure InPhase (ph : Phase) (t : Thread FileOp (Except String String)) (d : Disk) : Prop where
  rest : t.rest = ph.program build dir body
  made : ph.Made t.made
  holds : ph.Holds build body d

/-- The state of pushes none of which has created the incoming file next to another one. -/
structure Orderly (d₀ : Disk) (P : Pool FileOp Disk (Except String String)) : Prop where
  phases : ∀ (i : ℕ) t, P.threads[i]? = some t → ∃ ph, InPhase build dir body ph t P.state
  single : ∀ (i j : ℕ) t u, P.threads[i]? = some t → P.threads[j]? = some u → between t = true →
    between u = true → i = j
  sane : P.state.Sane
  complete : ∀ b, P.state.read (bodyFile (cidOf build body)) = some b → b = body
  clean : (∀ (i : ℕ) t, P.threads[i]? = some t → between t = false) →
    P.state.names.lookup (incomingFile (cidOf build body)) = none ∨
      P.state.names.lookup (incomingFile (cidOf build body)) =
        d₀.names.lookup (incomingFile (cidOf build body))

end

section

variable {build : Build} {dir : String} {body : Bytes} {d : Disk}

theorem between_of_made {ph : Phase} {t : Thread FileOp (Except String String)}
    (h : ph.Made t.made) : between t = true ↔ (∃ x, ph = .writing x) ∨ ∃ x, ph = .placing x := by
  unfold between
  cases ph with
  | checking => simp [show t.made = [] from h]
  | done => simp [show t.made.any isCreate = t.made.any isRename from h]
  | making => simp [h.2.1]
  | creating => simp [h.2.1]
  | writing x => simp [h.2.1, h.2.2]
  | placing x => simp [h.2.1, h.2.2]

/-- A push that is not between its creation and its renaming does not look at the directory. -/
theorem InPhase.of_not_between {ph : Phase} {t : Thread FileOp (Except String String)} {d' : Disk}
    (h : InPhase build dir body ph t d) (ht : between t = false) :
    InPhase build dir body ph t d' := by
  refine ⟨h.rest, h.made, ?_⟩
  have hno := mt (between_of_made h.made).mpr (by rw [ht]; exact Bool.false_ne_true)
  cases ph with
  | writing x => exact absurd (.inl ⟨x, rfl⟩) hno
  | placing x => exact absurd (.inr ⟨x, rfl⟩) hno
  | _ => trivial

/-- After a step of a push, when the other pushes are still in a phase. -/
theorem orderly_of_step {d₀ d' : Disk} {P : Pool FileOp Disk (Except String String)} {i : ℕ}
    {t : Thread FileOp (Except String String)} {cs : List (Σ β, FileOp β)}
    {rest : Program FileOp (Except String String)} (ph : Phase) (ht : P.threads[i]? = some t)
    (hstep : Program.advance noSections Disk.handle t.rest P.state = (cs, rest, d'))
    (hown : InPhase build dir body ph ⟨t.made ++ cs, rest⟩ d')
    (hothers : ∀ (j : ℕ) u, j ≠ i → P.threads[j]? = some u →
      ∃ ph, InPhase build dir body ph u d')
    (halone : between ⟨t.made ++ cs, rest⟩ = true → ∀ (j : ℕ) u, j ≠ i → P.threads[j]? = some u →
      between u = false)
    (hsingle : ∀ (i j : ℕ) t u, P.threads[i]? = some t → P.threads[j]? = some u →
      between t = true → between u = true → i = j)
    (hsane : d'.Sane) (hcomplete : ∀ b, d'.read (bodyFile (cidOf build body)) = some b → b = body)
    (hclean : between ⟨t.made ++ cs, rest⟩ = false →
      (∀ (j : ℕ) u, j ≠ i → P.threads[j]? = some u → between u = false) →
      d'.names.lookup (incomingFile (cidOf build body)) = none ∨
        d'.names.lookup (incomingFile (cidOf build body)) =
          d₀.names.lookup (incomingFile (cidOf build body))) :
    Orderly build dir body d₀ (P.step noSections Disk.handle i) := by
  have hstate : (P.step noSections Disk.handle i).state = d' := by
    rw [Pool.step_eq ht, hstep]
  -- the thread that has made the step, or one that has not
  have hthread {j : ℕ} {u : Thread FileOp (Except String String)}
      (hu : (P.step noSections Disk.handle i).threads[j]? = some u) :
      j = i ∧ u = ⟨t.made ++ cs, rest⟩ ∨ j ≠ i ∧ P.threads[j]? = some u := by
    have := Pool.threads_step ht hu
    rwa [hstep] at this
  constructor
  · intro j u hu
    rw [hstate]
    rcases hthread hu with ⟨rfl, rfl⟩ | ⟨hji, hu⟩
    · exact ⟨ph, hown⟩
    · exact hothers j u hji hu
  · intro j k u v hu hv hbu hbv
    rcases hthread hu with ⟨rfl, rfl⟩ | ⟨hji, hu'⟩ <;>
      rcases hthread hv with ⟨rfl, rfl⟩ | ⟨hki, hv'⟩
    · rfl
    · rw [halone hbu k v hki hv'] at hbv
      cases hbv
    · rw [halone hbv j u hji hu'] at hbu
      cases hbu
    · exact hsingle j k u v hu' hv' hbu hbv
  · rw [hstate]
    exact hsane
  · rw [hstate]
    exact hcomplete
  · intro hidle
    rw [hstate]
    have hlt : i < P.threads.length := (List.getElem?_eq_some_iff.mp ht).1
    -- all are idle now, so the others were idle before
    refine hclean ?_ fun j u hji hu => ?_
    · refine hidle i _ ?_
      rw [Pool.step_eq ht, hstep]
      exact List.getElem?_set_self hlt
    · refine hidle j u ?_
      rw [Pool.step_eq ht]
      dsimp only
      rw [List.getElem?_set_ne (Ne.symm hji)]
      exact hu

section

variable {d₀ d' : Disk} {P : Pool FileOp Disk (Except String String)} {i : ℕ}
  {t : Thread FileOp (Except String String)} {cs : List (Σ β, FileOp β)}
  {rest : Program FileOp (Except String String)}

/-- While a push is between its creation and its renaming, or creates the file now, the others are
not between theirs. -/
theorem Orderly.idle (h : Orderly build dir body d₀ P) (halone : Alone P i)
    (ht : P.threads[i]? = some t) (hb : between t = true ∨ createsNext t = true) (j : ℕ)
    (u : Thread FileOp (Except String String)) (hji : j ≠ i) (hu : P.threads[j]? = some u) :
    between u = false := by
  rcases hb with hb | hb
  · rw [← Bool.not_eq_true]
    exact fun hbu => hji (h.single j i u t hu ht hbu hb)
  · have hlt := (List.getElem?_eq_some_iff.mp hu).1
    have := halone (by rw [ht]; exact hb) j (List.mem_range.mpr hlt) hji
    rwa [hu] at this

/-- An operation that leaves the disk alone, of a push that is not between. -/
theorem Orderly.of_quiet (h : Orderly build dir body d₀ P) (ph : Phase)
    (ht : P.threads[i]? = some t)
    (hstep : Program.advance noSections Disk.handle t.rest P.state = (cs, rest, P.state))
    (hown : InPhase build dir body ph ⟨t.made ++ cs, rest⟩ P.state) (hb : between t = false)
    (hb' : between ⟨t.made ++ cs, rest⟩ = false) :
    Orderly build dir body d₀ (P.step noSections Disk.handle i) := by
  refine orderly_of_step ph ht hstep hown (fun j u _ hu => h.phases j u hu)
    (fun hbetween => ?_) h.single h.sane h.complete fun _ hall => ?_
  · rw [hb'] at hbetween
    cases hbetween
  · apply h.clean
    intro j u hu
    by_cases hji : j = i
    · rw [hji, ht] at hu
      exact Option.some.inj hu ▸ hb
    · exact hall j u hji hu

/-- An operation on the incoming file, of a push that has it to itself. -/
theorem Orderly.of_alone (h : Orderly build dir body d₀ P) (halone : Alone P i) (ph : Phase)
    (ht : P.threads[i]? = some t) (hb : between t = true ∨ createsNext t = true)
    (hstep : Program.advance noSections Disk.handle t.rest P.state = (cs, rest, d'))
    (hown : InPhase build dir body ph ⟨t.made ++ cs, rest⟩ d') (hsane : d'.Sane)
    (hcomplete : ∀ b, d'.read (bodyFile (cidOf build body)) = some b → b = body)
    (hclean : between ⟨t.made ++ cs, rest⟩ = false →
      d'.names.lookup (incomingFile (cidOf build body)) = none) :
    Orderly build dir body d₀ (P.step noSections Disk.handle i) := by
  have hidle := h.idle halone ht hb
  refine orderly_of_step ph ht hstep hown (fun j u hji hu => ?_) (fun _ => hidle) h.single hsane
    hcomplete fun hbetween _ => .inl (hclean hbetween)
  -- the others do not look at the directory
  obtain ⟨ph', hph'⟩ := h.phases j u hu
  exact ⟨ph', hph'.of_not_between (hidle j u hji hu)⟩

end

/-- **One step** keeps the pushes orderly. -/
theorem orderly_step {d₀ : Disk} {P : Pool FileOp Disk (Except String String)} {i : ℕ}
    (halone : Alone P i) (h : Orderly build dir body d₀ P) :
    Orderly build dir body d₀ (P.step noSections Disk.handle i) := by
  rcases ht : P.threads[i]? with _ | t
  · rw [Pool.step, ht]
    exact h
  obtain ⟨ph, hph⟩ := h.phases i t ht
  have hrest := hph.rest
  have hmade := hph.made
  have hholds := hph.holds
  cases ph with
  | checking =>
    -- looks for the body, and touches nothing
    have hnil : t.made = [] := hmade
    have hb : between t = false := by
      rw [between, hnil]
      rfl
    have hb' (rest : Program FileOp (Except String String)) :
        between ⟨t.made ++ [⟨_, .metadata (bodyFile (cidOf build body))⟩], rest⟩ = false := by
      rw [between, hnil]
      rfl
    have hstep : Program.advance noSections Disk.handle t.rest P.state =
        ([⟨_, .metadata (bodyFile (cidOf build body))⟩],
          (if (P.state.names.lookup (bodyFile (cidOf build body))).isSome then
            pure (cidOf build body) else fromMake build dir body : Fallible FileOp String).run,
          P.state) := by
      rw [hrest]
      exact advance_ask_bind rfl _
    by_cases hpresent : (P.state.names.lookup (bodyFile (cidOf build body))).isSome
    · rw [if_pos hpresent] at hstep
      refine h.of_quiet .done ht hstep ⟨rfl, ?_, trivial⟩ hb (hb' _)
      rw [hnil]
      rfl
    · rw [if_neg hpresent] at hstep
      refine h.of_quiet .making ht hstep ⟨rfl, ?_, trivial⟩ hb (hb' _)
      rw [hnil]
      exact ⟨rfl, rfl, rfl⟩
  | making =>
    -- makes the directory, which is there already
    have hstep : Program.advance noSections Disk.handle t.rest P.state =
        ([⟨_, .createDirAll⟩], (fromCreate build dir body).run, P.state) := by
      rw [hrest]
      exact advance_ask_bind rfl _
    obtain ⟨hlen, hc, hr⟩ := hmade
    refine h.of_quiet .creating ht hstep ⟨rfl, ?_, trivial⟩ ?_ ?_
    · exact ⟨by simp [hlen], by simp [hc, isCreate], by simp [hr, isRename]⟩
    · simp [between, hc]
    · simp [between, hc, isCreate]
  | creating =>
    -- an empty file of its own, or what another push has left, emptied
    have hnext : createsNext t = true := by rw [createsNext, hrest]; rfl
    obtain ⟨x, hx, hsane, hlook, hempty, hread⟩ :=
      h.sane.create (incomingFile (cidOf build body))
    have hstep : Program.advance noSections Disk.handle t.rest P.state =
        ([⟨_, .create (incomingFile (cidOf build body))⟩], (fromWrite build dir body x).run,
          (Disk.handle _ (.create (incomingFile (cidOf build body))) P.state).1) := by
      rw [hrest]
      refine (advance_ask_bind rfl _).trans ?_
      rw [hx]
      rfl
    obtain ⟨hlen, hc, hr⟩ := hmade
    refine h.of_alone halone (.writing x) ht (.inr hnext) hstep ⟨rfl, ?_, hlook, hempty⟩ hsane ?_ ?_
    · exact ⟨by simp [hlen], by simp [isCreate], by simp [hr, isRename]⟩
    · rw [hread _ (bodyFile_ne_incomingFile _ _)]
      exact h.complete
    · intro hb
      simp [between, hr, isCreate, isRename] at hb
  | writing x =>
    -- no other push is between creating and placing, so the file is still empty
    have hb : between t = true := (between_of_made hmade).mpr (.inl ⟨x, rfl⟩)
    obtain ⟨hlook, hempty⟩ := hholds
    obtain ⟨hsane, hcontents, hread⟩ := h.sane.writeAll hlook body
    have hstep : Program.advance noSections Disk.handle t.rest P.state =
        ([⟨_, .writeAll x body⟩], (fromRename build dir body).run,
          (Disk.handle _ (.writeAll x body) P.state).1) := by
      rw [hrest]
      exact advance_ask_bind rfl _
    obtain ⟨hlen, hc, hr⟩ := hmade
    refine h.of_alone halone (.placing x) ht (.inl hb) hstep ⟨rfl, ?_, hlook, ?_⟩ hsane ?_ ?_
    · exact ⟨by simp [hlen], by simp [hc], by simp [hr, isRename]⟩
    · -- the file is empty, so the body is all that it holds now
      rw [hcontents, hempty, List.drop_nil, List.append_nil]
    · rw [hread _ (bodyFile_ne_incomingFile _ _)]
      exact h.complete
    · intro hb
      simp [between, hc, hr, isRename] at hb
  | placing x =>
    -- the body is complete when it takes its name
    have hb : between t = true := (between_of_made hmade).mpr (.inr ⟨x, rfl⟩)
    obtain ⟨hlook, hcontents⟩ := hholds
    obtain ⟨hok, hsane, hgone, hplaced, -⟩ :=
      h.sane.rename hlook (bodyFile_ne_incomingFile (cidOf build body) (cidOf build body)).symm
    have hstep : Program.advance noSections Disk.handle t.rest P.state =
        ([⟨_, .rename (incomingFile (cidOf build body)) (bodyFile (cidOf build body))⟩],
          .ret (.ok (cidOf build body)), (Disk.handle _ (.rename (incomingFile (cidOf build body))
            (bodyFile (cidOf build body))) P.state).1) := by
      rw [hrest]
      refine (advance_ask_bind rfl _).trans ?_
      rw [hok]
      rfl
    obtain ⟨hlen, hc, hr⟩ := hmade
    refine h.of_alone halone .done ht (.inl hb) hstep ⟨rfl, ?_, trivial⟩ hsane ?_ fun _ => hgone
    · simp [Phase.Made, hc, isRename]
    · intro b hb
      rw [hplaced, hcontents] at hb
      exact (Option.some.inj hb).symm
  | done =>
    -- a thread that is done makes no step
    have hstep : Program.advance noSections Disk.handle t.rest P.state =
        ([], .ret (.ok (cidOf build body)), P.state) := by
      rw [hrest]
      rfl
    have hb : between t = false := by
      rw [between, show t.made.any isCreate = t.made.any isRename from hmade, Bool.and_not_self]
    have hsame : (⟨t.made ++ [], .ret (.ok (cidOf build body))⟩ :
        Thread FileOp (Except String String)) = t := by
      rw [List.append_nil, ← show t.rest = .ret (.ok (cidOf build body)) from hrest]
    exact h.of_quiet .done ht hstep (hsame.symm ▸ hph) hb (hsame.symm ▸ hb)

/-- At the start no push has done anything. -/
theorem orderly_start (build : Build) (dir : String) {body : Bytes} (hfits : Fits body) {d₀ : Disk}
    (hsane : d₀.Sane) (hfinal : ∀ b, d₀.read (bodyFile (cidOf build body)) = some b → b = body)
    (n : ℕ) : Orderly build dir body d₀ (pushes build dir body n d₀) := by
  have hthread {i : ℕ} {t : Thread FileOp (Except String String)}
      (ht : (pushes build dir body n d₀).threads[i]? = some t) :
      t = ⟨[], (fromCheck build dir body).run⟩ := by
    obtain ⟨hlt, rfl⟩ := List.getElem?_eq_some_iff.mp ht
    simp [pushes, Pool.start, storeSteps_of_fits _ _ _ hfits]
  refine ⟨fun i t ht => ⟨.checking, ?_⟩, fun i j t u ht _ hb => ?_, hsane, hfinal,
    fun _ => .inr rfl⟩
  · rw [hthread ht]
    exact ⟨rfl, rfl, trivial⟩
  · rw [hthread ht] at hb
    cases hb

/-- **Pushes of one body at the same time**, when every creation of the incoming file is alone: a
reader finds the body or nothing, every push that has had five steps has returned the name of the
body, no push returns anything else, and no incoming file is left behind. -/
theorem pushes_agree (build : Build) (dir : String) {body : Bytes} (hfits : Fits body) (d₀ : Disk)
    (hsane : d₀.Sane) (hfinal : ∀ b, d₀.read (bodyFile (cidOf build body)) = some b → b = body)
    (n : ℕ) (schedule : List ℕ)
    (halone : (pushes build dir body n d₀).Along noSections Disk.handle Alone schedule) :
    let P := (pushes build dir body n d₀).run noSections Disk.handle schedule
    (∀ b, P.state.read (bodyFile (cidOf build body)) = some b → b = body) ∧
    (∀ i < n, 5 ≤ schedule.count i →
      ∃ t, P.threads[i]? = some t ∧ t.rest = .ret (.ok (cidOf build body))) ∧
    (∀ (i : ℕ) t, P.threads[i]? = some t → t.rest.Finished →
      t.rest = .ret (.ok (cidOf build body))) ∧
    ((∀ (i : ℕ) t, P.threads[i]? = some t → t.rest.Finished) →
      P.state.names.lookup (incomingFile (cidOf build body)) = none ∨
        P.state.names.lookup (incomingFile (cidOf build body)) =
          d₀.names.lookup (incomingFile (cidOf build body))) := by
  intro P
  have horderly : Orderly build dir body d₀ P :=
    Pool.run_along (fun _ _ => orderly_step) halone (orderly_start build dir hfits hsane hfinal n)
  have hdone {ph : Phase} {t : Thread FileOp (Except String String)}
      (hph : InPhase build dir body ph t P.state) (hfin : t.rest.Finished) : ph = .done := by
    have hrest := hph.rest
    rw [hrest] at hfin
    cases ph with
    | done => rfl
    | _ => exact hfin.elim
  have hreturns (i : ℕ) (t : Thread FileOp (Except String String)) (ht : P.threads[i]? = some t)
      (hfin : t.rest.Finished) : t.rest = .ret (.ok (cidOf build body)) := by
    obtain ⟨ph, hph⟩ := horderly.phases i t ht
    obtain rfl := hdone hph hfin
    exact hph.rest
  refine ⟨horderly.complete, fun i hi hcount => ?_, hreturns, fun hall => ?_⟩
  · have hstart : (pushes build dir body n d₀).threads[i]? =
        some ⟨[], (storeSteps build dir body).run⟩ := by
      simp [pushes, Pool.start, hi]
    obtain ⟨t, ht, hmade⟩ := Pool.exists_thread_run (b := noSections) (h := Disk.handle) schedule
      hstart (.inr (Nat.zero_le 0))
    refine ⟨t, ht, hreturns i t ht ?_⟩
    -- a thread makes at most four calls before it is done
    by_contra hfin
    obtain ⟨ph, hph⟩ := horderly.phases i t ht
    have hlen : 5 ≤ t.made.length := hcount.trans (by simpa using hmade.resolve_left hfin)
    have hmade := hph.made
    cases ph with
    | checking => simp [show t.made = [] from hmade] at hlen
    | making => exact absurd hmade.1 (by omega)
    | creating => exact absurd hmade.1 (by omega)
    | writing x => exact absurd hmade.1 (by omega)
    | placing x => exact absurd hmade.1 (by omega)
    | done => exact hfin (by rw [hph.rest]; trivial)
  · apply horderly.clean
    intro i t ht
    obtain ⟨ph, hph⟩ := horderly.phases i t ht
    obtain rfl := hdone hph (hall i t ht)
    rw [between, show t.made.any isCreate = t.made.any isRename from hph.made, Bool.and_not_self]

end

/-- No files. -/
def Disk.empty : Disk := ⟨∅, fun _ => [], 0⟩

theorem Disk.sane_empty : Disk.empty.Sane :=
  ⟨nofun, nofun⟩

/-- Two pushes of a body; the second finds it there. -/
theorem pushes_agree_two :
    let P := (pushes .leading "" [1] 2 .empty).run noSections Disk.handle [0, 0, 0, 0, 0, 1]
    ∀ b, P.state.read (bodyFile (cidOf .leading [1])) = some b → b = [1] := by
  have halone : (pushes .leading "" [1] 2 .empty).Along noSections Disk.handle Alone
      [0, 0, 0, 0, 0, 1] := by decide +kernel
  exact (pushes_agree .leading "" (by decide) .empty Disk.sane_empty nofun 2 _ halone).1

/-- The second push creates the incoming file again while the first one has it open. When the first
one has renamed it, a reader finds an empty body; then the renaming of the second one fails. -/
theorem two_pushes_one_file :
    let P := pushes .leading "" [1] 2 .empty
    let final := bodyFile (cidOf .leading [1])
    (P.run noSections Disk.handle [0, 0, 0, 0, 1, 1, 1, 0]).state.read final = some [] ∧
    ∃ t e, (P.run noSections Disk.handle [0, 0, 0, 0, 1, 1, 1, 0, 1, 1, 1]).threads[1]? = some t ∧
      t.rest = .ret (.error e) := by
  refine ⟨by decide +kernel, ⟨_, _⟩, _, rfl, rfl⟩

end SporePeer
