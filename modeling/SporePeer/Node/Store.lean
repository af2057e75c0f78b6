import Mathlib.Data.List.Sort
import SporePeer.Node.Names
import SporePeer.Node.System

/-!
# The body store

Bodies are files `<cid>.body`, named by the hash of their contents in hexadecimal. A push stores a
body under the hash computed here; a read serves only what hashes to the name asked for. The store
doubles as the ledger of the sync subset: its bodies, oldest first.

## Main definitions

* `countHit`, `allow`: the rate limiter
* `ctEq`: the comparison of secrets
* `storeBody`, `serveBody`, `chainView`: writing, reading and listing bodies
* `enforceWritePolicy`: the gate of pushes
-/

namespace SporePeer

open Effects Text

/-- The largest body a peer may push. -/
def maxBodyBytes : ℕ := 32 * 1024 * 1024

/-- The policy of a serving node. -/
structure ServeConfig where
  /-- The bytes its bodies may take together; 0 is unlimited. -/
  maxStoreBytes : ℕ := 0
  /-- The pushes one address may make in a window; 0 is unlimited. -/
  putRate : ℕ := 0
  token : Option String := none
  /-- The knobs of the relay, on a node that is one. -/
  fabric : Option FabricConfig := none

/-! ## Limits and secrets -/

/-- One hit of an address: the new windows, and whether it is admitted. -/
def countHit (max : ℕ) (wins : Wins) (ip : String) (now : ℕ) : Wins × Bool :=
  let e := (wins.lookup ip).getD (now, 0)
  if e.1 ≠ now then (wins.insert ip (now, 1), true)
  else if max ≤ e.2 then (wins.insert ip e, false)
  else (wins.insert ip (e.1, e.2 + 1), true)

/-- `RateLimiter::allow`. A limiter with maximum 0 admits everything. -/
def allow (l : Limiter) (max : ℕ) (ip : String) (now : ℕ) : Fallible Op Bool :=
  if max = 0 then return true
  else locked (.wins l) do
    let wins ← ask (.getWins l)
    ask (.setWins l (countHit max wins ip now).1)
    return (countHit max wins ip now).2

/-- Equality of texts whose bytes are compared without an early exit. -/
def ctEq (a b : String) : Bool :=
  if a.utf8ByteSize ≠ b.utf8ByteSize then false
  else (List.zipWith (· ^^^ ·) (asBytes a) (asBytes b)).foldl (· ||| ·) 0 == 0

/-! ## Names -/

/-- The file of the body with the name `cidHex`. -/
def bodyFile (cidHex : String) : String := cidHex ++ ".body"

/-- The name under which a body is written before it is complete. -/
def incomingFile (cidHex : String) : String := ".incoming-" ++ cidHex ++ ".part"

/-- The name of a body: its hash. -/
def cidOf (build : Build) (body : Bytes) : String := Hex.encode (build.sha256 body).toList

/-! ## Writing -/

/-- The bytes of the bodies `names`, added to `total`. -/
def storeBytesOf : List String → ℕ → Fallible Op ℕ
  | [], total => return total
  | name :: rest, total =>
    if extension name = some "body" then do
      let len ← ask (.metadata name)
      storeBytesOf rest (len.elim total fun n => min (total + n) (2 ^ 64 - 1))
    else storeBytesOf rest total

/-- The bytes of all bodies. -/
def storeBytes : Fallible Op ℕ := do
  let rd ← ask .readDir
  storeBytesOf (rd.getD []) 0

/-- The gate of a push: the rate of its address, the write token, and the quota. -/
def enforceWritePolicy (cfg : ServeConfig) (ip : String) (bodyLen : ℕ) (payload : Value) :
    Fallible Op Unit := do
  let now ← ask .nowSec
  let ok ← allow .put cfg.putRate ip now
  refuseIf (ok = false) "429 put rate limit exceeded"
  let given := ((payload.get "TOKEN").bind Value.asStr).getD ""
  refuseIf (cfg.token.any fun tok => !ctEq given tok) "401 bad write token"
  if 0 < cfg.maxStoreBytes then
    let used ← storeBytes
    refuseIf (cfg.maxStoreBytes < min (used + bodyLen) (2 ^ 64 - 1)) "507 store full"

/-- `store_body`: writes a body under the hash computed here, and returns its name. -/
def storeBody (build : Build) (dir : String) (body : Bytes) : Fallible Op String := do
  refuseIf (body = []) "400 empty body"
  refuseIf (maxBodyBytes < body.length) "413 body too large"
  let cidHex := cidOf build body
  let present ← ask (.metadata (bodyFile cidHex))
  if present.isSome then return cidHex
  else
    let made ← ask .createDirAll
    orFail (made.mapError fun e => s!"dir {dir}: {e}")
    let tmp := incomingFile cidHex
    let written ← ask (.write tmp body)
    orFail (written.mapError fun e => s!"write {dir}/{tmp}: {e}")
    let renamed ← ask (.rename tmp (bodyFile cidHex))
    match renamed with
    | .error e => do
      ask (.removeFile tmp)
      throw s!"rename {dir}/{tmp}: {e}"
    | .ok () => return cidHex

/-! ## Reading -/

/-- `serve_body`: the body of that name, if it hashes to the name. -/
def serveBody (build : Build) (cidHex : String) : Fallible Op Bytes := do
  let raw ← orPanic (hexDecode (asBytes cidHex)).run
  let some raw := raw.filter fun r => r.length = 32 | throw "400 bad cid"
  let data ← ask (.read (bodyFile cidHex))
  let some data := data | throw "404 not found"
  refuseIf ((build.sha256 data).toList ≠ raw) "500 cid mismatch"
  return data

/-- A response of the cid-fetch protocol: a status byte, then the body or a text. -/
def frameOk (body : Bytes) : Bytes := 0x00 :: body

def frameErr (msg : String) : Bytes := 0x01 :: asBytes msg

/-- The modification times and hashes of the bodies among `names`. -/
def chainEntries : List String → List (ℕ × U8Array 32) → Fallible Op (List (ℕ × U8Array 32))
  | [], entries => return entries
  | name :: rest, entries =>
    if name.utf8ByteSize ≠ 64 + 5 ∨ endsWith name ".body" = false then chainEntries rest entries
    else do
      let stem ← orPanic (strSlice (asBytes name) 0 64)
      let cid ← orPanic (hexDecode stem).run
      match cid with
      | none => chainEntries rest entries
      | some cid =>
        if h : cid.length = 32 then do
          let mt ← ask (.modified name)
          chainEntries rest (entries ++ [(mt, ⟨cid, h⟩)])
        else chainEntries rest entries

/-- `chain_view`: the bodies in the order of their modification times, numbered. -/
def chainView : Fallible Op (List (ℕ × U8Array 32)) := do
  let rd ← ask .readDir
  let entries ← chainEntries (rd.getD []) []
  let sorted := entries.insertionSort fun a b => a.1 ≤ b.1
  return sorted.zipIdx.map fun (e, i) => (i, e.2)

/-! ## Comparison -/

theorem foldl_or_eq_zero {l : Bytes} {d : UInt8} :
    l.foldl (· ||| ·) d = 0 ↔ d = 0 ∧ ∀ x ∈ l, x = 0 := by
  induction l generalizing d with
  | nil => simp
  | cons x l ih =>
    rw [List.foldl_cons, ih, UInt8.or_eq_zero_iff, List.forall_mem_cons, and_assoc]

theorem forall_zipWith_xor {a b : Bytes} (h : a.length = b.length) :
    (∀ x ∈ List.zipWith (· ^^^ ·) a b, x = 0) ↔ a = b := by
  induction a generalizing b with
  | nil =>
    cases b with
    | nil => simp
    | cons y b => cases h
  | cons x a ih =>
    cases b with
    | nil => cases h
    | cons y b =>
      rw [List.zipWith_cons_cons, List.forall_mem_cons, ih (Nat.succ.inj h), List.cons.injEq,
        UInt8.xor_eq_zero_iff]

/-- The comparison without an early exit is equality. -/
theorem ctEq_iff {a b : String} : ctEq a b = true ↔ a = b := by
  unfold ctEq
  by_cases hsize : a.utf8ByteSize = b.utf8ByteSize
  · have hlen : (asBytes a).length = (asBytes b).length := by
      rw [length_asBytes, length_asBytes, hsize]
    rw [if_neg (not_not.mpr hsize), beq_iff_eq, foldl_or_eq_zero, and_iff_right rfl,
      forall_zipWith_xor hlen, asBytes_inj]
  · rw [if_pos hsize]
    refine iff_of_false Bool.false_ne_true fun he => hsize (by rw [he])

/-! ## Names of files -/

theorem bodyFile_inj {c c' : String} : bodyFile c = bodyFile c' ↔ c = c' :=
  ⟨fun h => (append_inj_of_size rfl h).1, congrArg _⟩

theorem incomingFile_inj {c c' : String} : incomingFile c = incomingFile c' ↔ c = c' := by
  refine ⟨fun h => ?_, congrArg _⟩
  have hp := congrArg asBytes (append_inj_of_size rfl h).1
  rw [asBytes_append, asBytes_append] at hp
  exact asBytes_inj.mp (List.append_cancel_left hp)

theorem bodyFile_ne_incomingFile (c c' : String) : bodyFile c ≠ incomingFile c' := fun h =>
  absurd (append_inj_of_size (a := ".body") (b := ".part") rfl h).2 (by decide)

/-- The names of bodies are those of 69 bytes that end in `.body`. -/
theorem isBody_iff {name : String} :
    ¬ (name.utf8ByteSize ≠ 64 + 5 ∨ endsWith name ".body" = false) ↔
      ∃ stem, name = bodyFile stem ∧ stem.utf8ByteSize = 64 := by
  have hsuffix : (".body" : String).utf8ByteSize = 5 := rfl
  rw [not_or, not_not, Bool.not_eq_false, endsWith_iff]
  constructor
  · rintro ⟨hsize, stem, rfl⟩
    rw [String.utf8ByteSize_append, hsuffix] at hsize
    exact ⟨stem, rfl, by omega⟩
  · rintro ⟨stem, rfl, hsize⟩
    rw [bodyFile, String.utf8ByteSize_append, hsuffix, hsize]
    exact ⟨rfl, stem, rfl⟩

/-! ## Listing -/

section

variable {σ : Type} {env : Env σ} {w : World σ}

theorem chainEntries_of_not_body {name : String}
    (h : ¬ ∃ stem, name = bodyFile stem ∧ stem.utf8ByteSize = 64) (rest : List String)
    (entries : List (ℕ × U8Array 32)) :
    chainEntries (name :: rest) entries = chainEntries rest entries := by
  rw [chainEntries, if_pos (by_contra fun hn => h (isBody_iff.mp hn))]

/-- A name of the right length is listed if it reads as 32 bytes. -/
theorem exec_chainEntries_body {stem : String} (hsize : stem.utf8ByteSize = 64)
    (rest : List String) (entries : List (ℕ × U8Array 32)) :
    exec env.handle (chainEntries (bodyFile stem :: rest) entries) w =
      match readBlid stem with
      | .error p => (w, .error p)
      | .ok none => exec env.handle (chainEntries rest entries) w
      | .ok (some cid) =>
        exec env.handle (chainEntries rest (entries ++
          [(((env.lookup w (bodyFile stem)).map (·.modified)).getD 0, cid)])) w.next := by
  have hslice : strSlice (asBytes (bodyFile stem)) 0 64 = .ok (asBytes stem) := by
    rw [← hsize]
    exact strSlice_append (c := 46) rfl (by decide)
  rw [chainEntries, if_neg (isBody_iff.mpr ⟨stem, rfl, hsize⟩), hslice, exec_orPanic_ok_bind,
    readBlid]
  rcases (hexDecode (asBytes stem)).run with p | _ | cid
  · rfl
  · rfl
  · rw [exec_orPanic_ok_bind]
    simp only [Except.map, Option.bind_some]
    by_cases hlen : cid.length = 32
    · simp only [hlen, dif_pos]
      rfl
    · simp only [hlen, dif_neg, not_false_eq_true]

end

/-! ## Calls -/

/-- The calls of the store. A body is written to the incoming file of its name, and an incoming
file becomes the body file of that name. -/
def StoreOp (build : Build) : (β : Type) → Op β → Prop
  | _, .nowSec => True
  | _, .metadata _ => True
  | _, .modified _ => True
  | _, .read _ => True
  | _, .write name content => name = incomingFile (cidOf build content)
  | _, .rename src dst => ∃ c, src = incomingFile c ∧ dst = bodyFile c
  | _, .removeFile _ => True
  | _, .createDirAll => True
  | _, .readDir => True
  | _, .lock _ => True
  | _, .unlock _ => True
  | _, .getWins l => l = .put
  | _, .setWins l _ => l = .put
  | _, _ => False

section Calls

variable {build : Build}

theorem tidy_allow {ok : (β : Type) → Op β → Prop} {l : Limiter} (hlock : ∀ m, ok _ (.lock m))
    (hunlock : ∀ m, ok _ (.unlock m)) (hget : ok _ (.getWins l)) (hset : ∀ x, ok _ (.setWins l x))
    (max : ℕ) (ip : String) (now : ℕ) : Tidy ok (allow l max ip now) := by
  unfold allow
  split
  · exact tidy_pure _
  · exact tidy_locked (hlock _) (hunlock _) <| tidy_bind (tidy_ask hget) fun _ =>
      tidy_bind (tidy_ask (hset _)) fun _ => tidy_pure _

theorem tidy_storeBytes {ok : (β : Type) → Op β → Prop} (hdir : ok _ .readDir)
    (hmeta : ∀ name, ok _ (.metadata name)) : Tidy ok storeBytes := by
  have hof (names : List String) (total : ℕ) : Tidy ok (storeBytesOf names total) := by
    induction names generalizing total with
    | nil => exact tidy_pure _
    | cons name rest ih =>
      unfold storeBytesOf
      split
      · exact tidy_bind (tidy_ask (hmeta name)) fun _ => ih _
      · exact ih _
  exact tidy_bind (tidy_ask hdir) fun _ => hof _ _

theorem tidy_enforceWritePolicy (build : Build) (cfg : ServeConfig) (ip : String) (bodyLen : ℕ)
    (payload : Value) :
    Tidy (StoreOp build) (enforceWritePolicy cfg ip bodyLen payload) := by
  refine tidy_bind (tidy_ask trivial) fun _ => tidy_bind
    (tidy_allow (fun _ => trivial) (fun _ => trivial) rfl (fun _ => rfl) _ _ _) fun _ =>
    tidy_bind (tidy_refuseIf _ _) fun _ => tidy_bind (tidy_refuseIf _ _) fun _ => ?_
  split
  · exact tidy_bind (tidy_storeBytes trivial fun _ => trivial) fun _ => tidy_refuseIf _ _
  · exact tidy_pure _

theorem tidy_storeBody (dir : String) (body : Bytes) :
    Tidy (StoreOp build) (storeBody build dir body) := by
  refine tidy_bind (tidy_refuseIf _ _) fun _ => tidy_bind (tidy_refuseIf _ _) fun _ =>
    tidy_bind (tidy_ask trivial) fun present => ?_
  split
  · exact tidy_pure _
  · refine tidy_bind (tidy_ask trivial) fun _ => tidy_bind (tidy_orFail _) fun _ =>
      tidy_bind (tidy_ask rfl) fun _ => tidy_bind (tidy_orFail _) fun _ =>
      tidy_bind (tidy_ask ⟨_, rfl, rfl⟩) fun renamed => ?_
    split
    · exact tidy_bind (tidy_ask trivial) fun _ => tidy_throw _
    · exact tidy_pure _

theorem only_serveBody {ok : (β : Type) → Op β → Prop} (hread : ∀ name, ok _ (.read name))
    (build : Build) (cidHex : String) : Only ok (serveBody build cidHex) := by
  refine only_bind (only_orPanic _) fun raw => ?_
  split
  · refine only_bind (only_ask (hread _)) fun data => ?_
    split
    · exact only_bind (only_refuseIf _ _) fun _ => only_pure _
    · exact only_throw _
  · exact only_throw _

theorem only_chainView {ok : (β : Type) → Op β → Prop} (hdir : ok _ .readDir)
    (hmodified : ∀ name, ok _ (.modified name)) : Only ok chainView := by
  have hof (names : List String) (entries : List (ℕ × U8Array 32)) :
      Only ok (chainEntries names entries) := by
    induction names generalizing entries with
    | nil => exact only_pure _
    | cons name rest ih =>
      unfold chainEntries
      split
      · exact ih _
      · refine only_bind (only_orPanic _) fun stem => only_bind (only_orPanic _) fun cid => ?_
        split
        · exact ih _
        · split
          · exact only_bind (only_ask (hmodified name)) fun _ => ih _
          · exact ih _
  exact only_bind (only_ask hdir) fun _ => only_bind (hof _ _) fun _ => only_pure _

end Calls

end SporePeer
