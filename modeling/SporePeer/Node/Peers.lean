import SporePeer.Library.Lines
import SporePeer.Node.System

/-!
# The peers file

The addresses of the peers are kept in a text file, one to a line, with comments and blank lines
between them. Adding an address and removing one rewrite the file from what was read of it.

What is written is read back, as an address that is accepted has no white space. But one that starts
with `#` is accepted and read back as a comment, so it is never on the list.

## Main definitions

* `validatePeerAddr`, `peersList`, `peersWrite`, `peersAdd`, `peersRemove`: the calls
* `Listable`, `peersIn`: what can be on the list, and what is
* `PeersCall`, `PeersCall.spec`, `peersRun`: sequences of calls, and the set they work on

## Main results

* `peersOf_peersBody`: a list that is written is read back
* `peersRun_iff`: when a sequence of calls does what it does to a set
-/

namespace SporePeer

open Effects Text

/-- `peers_path`, inside the store. -/
def peersFile : String := "peers.txt"

/-! ## Text -/

/-- `validate_peer_addr`. -/
def validatePeerAddr (addr : String) : Except String Unit :=
  if addr.toList.any fun c => isWhitespace c || c = '/' || c = '\\' then
    .error s!"peer '{addr}': whitespace and path characters are not allowed"
  else
    match rsplitOnce addr ':' with
    | none => .error s!"peer '{addr}': need host:port"
    | some (host, port) =>
      if host = "" then .error s!"peer '{addr}': empty host"
      else
        match parseU16 port with
        | none => .error s!"peer '{addr}': port must be numeric (1-65535)"
        | some port =>
          if port = 0 then .error s!"peer '{addr}': port 0 is not connectable" else .ok ()

/-- The addresses on lines, after those in `out`: no blank line, no comment, and none twice. -/
def parsePeers : List String → List String → List String
  | [], out => out
  | line :: rest, out =>
    let line := trim line
    if line = "" ∨ startsWith line "#" then parsePeers rest out
    else if line ∈ out then parsePeers rest out
    else parsePeers rest (out ++ [line])

/-- The addresses in a peers file. -/
def peersOf (text : String) : List String := parsePeers (lines text) []

/-- The text of a peers file. -/
def peersBody (list : List String) : String :=
  list.foldl (fun body p => body ++ p ++ "\n") "# spore-peer peers list: one host:port per line\n"

/-! ## Calls -/

/-- `peers_list`. A file that is missing or no text has no addresses. -/
def peersList : Fallible Op (List String) := do
  let read ← ask (.read peersFile)
  return (read.bind fromUtf8).elim [] peersOf

/-- `peers_write`. A text too long for the address space is not built. -/
def peersWrite (dir : String) (list : List String) : Fallible Op Unit := do
  let made ← ask .createDirAll
  orFail (made.mapError fun e => s!"dir {dir}: {e}")
  let body := peersBody list
  orPanic (if body.utf8ByteSize < 2 ^ 63 then .ok () else .error .overflow)
  let written ← ask (.write peersFile (asBytes body))
  orFail written

/-- `peers_add`: whether the address is new. -/
def peersAdd (dir addr : String) : Fallible Op Bool := do
  orFail (validatePeerAddr addr)
  let list ← peersList
  if addr ∈ list then return false
  else
    peersWrite dir (list ++ [addr])
    return true

/-- `peers_remove`: whether the address was listed. -/
def peersRemove (dir addr : String) : Fallible Op Bool := do
  let list ← peersList
  let kept := list.filter fun p => p ≠ addr
  if kept.length = list.length then return false
  else
    peersWrite dir kept
    return true

/-! ## The round trip -/

/-- What can be on the list: the parser neither drops nor changes it. -/
structure Listable (addr : String) : Prop where
  trimmed : trim addr = addr
  nonempty : addr ≠ ""
  noComment : startsWith addr "#" = false
  oneLine : '\n' ∉ addr.toList

section

variable {lines out list : List String} {addr : String}

/-- An address is listed once, and the listed ones are listable. By induction on the lines. -/
theorem parsePeers_listable (hlines : ∀ line ∈ lines, '\n' ∉ line.toList) (hnodup : out.Nodup)
    (hout : ∀ p ∈ out, Listable p) :
    (parsePeers lines out).Nodup ∧ ∀ p ∈ parsePeers lines out, Listable p := by
  induction lines generalizing out with
  | nil => exact ⟨hnodup, hout⟩
  | cons line rest ih =>
    rw [List.forall_mem_cons] at hlines
    rw [parsePeers]
    split
    · exact ih hlines.2 hnodup hout
    split
    · exact ih hlines.2 hnodup hout
    rename_i hkeep hnew
    rw [not_or, Bool.not_eq_true] at hkeep
    have hline : Listable (trim line) :=
      ⟨trim_trim line, hkeep.1, hkeep.2, fun hmem => hlines.1 (mem_of_mem_trim hmem)⟩
    refine ih hlines.2 ?_ ?_
    · rw [List.nodup_append_comm]
      exact List.nodup_cons.mpr ⟨hnew, hnodup⟩
    · rw [List.forall_mem_append]
      exact ⟨hout, List.forall_mem_singleton.mpr hline⟩

theorem peersOf_listable (text : String) :
    (peersOf text).Nodup ∧ ∀ p ∈ peersOf text, Listable p :=
  parsePeers_listable (fun _ => newline_not_mem_lines) List.nodup_nil nofun

theorem toList_peersBody (list : List String) :
    (peersBody list).toList = "# spore-peer peers list: one host:port per line\n".toList ++
      list.flatMap fun p => p.toList ++ ['\n'] := by
  rw [peersBody]
  generalize "# spore-peer peers list: one host:port per line\n" = body
  induction list generalizing body with
  | nil => rw [List.foldl_nil, List.flatMap_nil, List.append_nil]
  | cons p list ih =>
    rw [List.foldl_cons, ih, List.flatMap_cons, String.toList_append, String.toList_append,
      List.append_assoc, List.append_assoc, List.append_assoc]
    rfl

/-- Listable addresses are read as they are written. -/
theorem linesFrom_entries (h : ∀ p ∈ list, Listable p) :
    (linesFrom [] (list.flatMap fun p => p.toList ++ ['\n'])).map String.ofList = list := by
  induction list with
  | nil => rfl
  | cons p list ih =>
    rw [List.forall_mem_cons] at h
    have hcr : stripCr p.toList = p.toList := stripCr_of_trimmed (h.1.trimmed ▸ trimmed_trim p)
    rw [List.flatMap_cons, List.append_assoc, List.singleton_append, linesFrom_line h.1.oneLine,
      List.nil_append, hcr, List.map_cons, String.ofList_toList, ih h.2]

theorem parsePeers_entries (hlist : ∀ p ∈ list, Listable p) (hnodup : (out ++ list).Nodup) :
    parsePeers list out = out ++ list := by
  induction list generalizing out with
  | nil => rw [parsePeers, List.append_nil]
  | cons p list ih =>
    rw [List.forall_mem_cons] at hlist
    obtain ⟨hp, hlist⟩ := hlist
    have hkeep : ¬ (p = "" ∨ startsWith p "#") := by
      rw [not_or, Bool.not_eq_true]
      exact ⟨hp.nonempty, hp.noComment⟩
    have hnew : p ∉ out := fun hmem =>
      List.disjoint_of_nodup_append hnodup hmem List.mem_cons_self
    have hsplit : out ++ p :: list = (out ++ [p]) ++ list := by simp
    rw [hsplit] at hnodup
    rw [parsePeers, hp.trimmed, if_neg hkeep, if_neg hnew, ih hlist hnodup, hsplit]

/-- **A list that is written is read back.** -/
theorem peersOf_peersBody (hlist : ∀ p ∈ list, Listable p) (hnodup : list.Nodup) :
    peersOf (peersBody list) = list := by
  have hheader : '\n' ∉ "# spore-peer peers list: one host:port per line".toList := by decide
  have hsplit : "# spore-peer peers list: one host:port per line\n".toList =
      "# spore-peer peers list: one host:port per line".toList ++ ['\n'] := by decide
  have hskip : trim (String.ofList
      (stripCr "# spore-peer peers list: one host:port per line".toList)) =
        "# spore-peer peers list: one host:port per line" := by decide
  rw [peersOf, Text.lines, toList_peersBody, hsplit, List.append_assoc, List.singleton_append,
    linesFrom_line hheader, List.nil_append, List.map_cons, linesFrom_entries hlist, parsePeers,
    hskip]
  exact parsePeers_entries hlist hnodup

/-- An accepted address is listable, unless it starts as a comment does. -/
theorem listable_of_valid (hvalid : validatePeerAddr addr = .ok ())
    (hcomment : startsWith addr "#" = false) : Listable addr := by
  rw [validatePeerAddr] at hvalid
  split at hvalid
  · cases hvalid
  rename_i hchars
  have hspace : ∀ c ∈ addr.toList, isWhitespace c = false := by
    intro c hc
    by_contra hw
    refine hchars (List.any_eq_true.mpr ⟨c, hc, ?_⟩)
    rw [Bool.not_eq_false] at hw
    rw [hw, Bool.true_or, Bool.true_or]
  refine ⟨trim_of_trimmed ?_, ?_, hcomment, ?_⟩
  · rintro c (hc | hc)
    · exact hspace c (List.mem_of_mem_head? hc)
    · exact hspace c (List.mem_of_getLast? hc)
  · rintro rfl
    cases hvalid
  · intro hmem
    have := hspace '\n' hmem
    revert this
    decide

end

/-! ## Runs -/

/-- The addresses in the peers file of a directory. -/
def peersIn (dir : Table String FileData) : List String :=
  ((((dir.lookup peersFile).map FileData.content).filter fun b => b.length < 2 ^ 63).bind
    fromUtf8).elim [] peersOf

inductive PeersCall
  | add (addr : String)
  | remove (addr : String)

def PeersCall.perform (dir : String) : PeersCall → Fallible Op Bool
  | add addr => peersAdd dir addr
  | remove addr => peersRemove dir addr

/-- **The set of addresses** in the order in which they are added: what a call that returns `r`
makes of it. -/
def PeersCall.spec (list : List String) : PeersCall → Result (Except String Bool) → List String
  | add addr, .ok (.ok true) => list ++ [addr]
  | remove addr, .ok (.ok true) => list.filter fun p => p ≠ addr
  | _, _ => list

/-- A call of a run. -/
structure PeersStep (σ : Type) where
  before : World σ
  call : PeersCall
  result : Result (Except String Bool)
  after : World σ

section

variable {σ : Type} (env : Env σ) (dir : String)

def peersStep (call : PeersCall) (w : World σ) : PeersStep σ :=
  let x := exec env.handle (call.perform dir) w
  ⟨w, call, x.2, x.1⟩

/-- The calls of a run, one after another. -/
def peersRun : List PeersCall → World σ → List (PeersStep σ)
  | [], _ => []
  | call :: calls, w =>
    peersStep env dir call w :: peersRun calls (peersStep env dir call w).after

/-- The list after the call is what the set operation makes of the list before it. -/
def PeersStep.AsSet (s : PeersStep σ) : Prop :=
  ∃ list, (exec env.handle peersList s.before).2 = .ok (.ok list) ∧
    (exec env.handle peersList s.after).2 = .ok (.ok (s.call.spec list s.result))

end

/-- The call adds an accepted address that starts with `#`, and the file can be written. -/
def PeersCall.AddsComment (list : List String) : PeersCall → Prop
  | add addr => validatePeerAddr addr = .ok () ∧ startsWith addr "#" ∧
      (peersBody (list ++ [addr])).utf8ByteSize < 2 ^ 63
  | remove _ => False

section

variable {σ : Type} {env : Env σ} {dir : String} {w : World σ}

theorem peersIn_listable (dir : Table String FileData) :
    (peersIn dir).Nodup ∧ ∀ p ∈ peersIn dir, Listable p := by
  rw [peersIn]
  rcases Option.bind _ fromUtf8 with _ | text
  · exact ⟨List.nodup_nil, nofun⟩
  · exact peersOf_listable text

theorem peersIn_insert (dir : Table String FileData) {body : String}
    (hsize : body.utf8ByteSize < 2 ^ 63) (modified : ℕ) :
    peersIn (dir.insert peersFile ⟨asBytes body, modified⟩) = peersOf body := by
  have hshort : decide ((asBytes body).length < 2 ^ 63) = true := by
    rw [length_asBytes]
    exact decide_eq_true hsize
  rw [peersIn, AList.lookup_insert, Option.map_some, Option.filter_some, if_pos hshort,
    Option.bind_some, fromUtf8_asBytes, Option.elim_some]

theorem exec_peersList (hcalm : env.Calm) (w : World σ) :
    exec env.handle peersList w = (w.next, .ok (.ok (peersIn w.dir))) := by
  have hread : env.handle _ (.read peersFile) w = (w.next, env.read w peersFile) := rfl
  rw [peersList, exec_ask_bind, hread, Env.read, hcalm w.tick]
  rfl

/-- A list that is short enough is written. -/
theorem exec_peersWrite (hcalm : env.Calm) (dir : String) (list : List String) (w : World σ) :
    exec env.handle (peersWrite dir list) w =
      if (peersBody list).utf8ByteSize < 2 ^ 63 then
        ({ w.next.next with
            dir := w.dir.insert peersFile ⟨asBytes (peersBody list), env.stamp w.next.tick⟩ },
          .ok (.ok ()))
      else (w.next, .error .overflow) := by
  have hmade : env.handle _ .createDirAll w = (w.next, .ok ()) := by
    simp only [Env.handle, hcalm w.tick]
  have hwritten : env.handle _ (.write peersFile (asBytes (peersBody list))) w.next =
      ({ w.next.next with
        dir := w.dir.insert peersFile ⟨asBytes (peersBody list), env.stamp w.next.tick⟩ },
        .ok ()) := by
    simp only [Env.handle, Env.write, hcalm _]
    rfl
  rw [peersWrite, exec_ask_bind, hmade]
  dsimp only [Except.mapError]
  rw [exec_orFail_ok_bind]
  split
  · rw [exec_orPanic_ok_bind, exec_ask_bind, hwritten]
    rfl
  · rfl

theorem PeersStep.asSet_iff (hcalm : env.Calm) (s : PeersStep σ) :
    s.AsSet env ↔ peersIn s.after.dir = s.call.spec (peersIn s.before.dir) s.result := by
  rw [PeersStep.AsSet, exec_peersList hcalm, exec_peersList hcalm]
  constructor
  · rintro ⟨list, hbefore, hafter⟩
    obtain rfl := Except.ok.inj (Except.ok.inj hbefore)
    exact Except.ok.inj (Except.ok.inj hafter)
  · intro h
    exact ⟨_, rfl, congrArg _ (congrArg _ h)⟩

/-- A call that does not write leaves the list alone. -/
theorem asSet_unwritten (hcalm : env.Calm) {call : PeersCall} {w' : World σ}
    {r : Result (Except String Bool)} (hstep : exec env.handle (call.perform dir) w = (w', r))
    (hdir : w'.dir = w.dir) (hr : r ≠ .ok (.ok true)) : (peersStep env dir call w).AsSet env := by
  rw [PeersStep.asSet_iff hcalm, peersStep, hstep]
  dsimp only
  rw [hdir]
  rcases call with addr | addr <;> rcases r with p | e | _ | _ <;> first | rfl | exact absurd rfl hr

/-- A call that writes a list that is short enough is judged by what is read of it. -/
theorem asSet_written_iff (hcalm : env.Calm) {call : PeersCall} {list : List String}
    (hstep : exec env.handle (call.perform dir) w =
      exec env.handle (peersWrite dir list >>= fun _ => return true) w.next)
    (hsize : (peersBody list).utf8ByteSize < 2 ^ 63) :
    (peersStep env dir call w).AsSet env ↔
      peersOf (peersBody list) = call.spec (peersIn w.dir) (.ok (.ok true)) := by
  have hwrite := exec_peersWrite hcalm dir list w.next
  rw [if_pos hsize] at hwrite
  rw [exec_bind_ok hwrite] at hstep
  rw [PeersStep.asSet_iff hcalm, peersStep, hstep]
  dsimp only [exec_pure, World.next]
  rw [peersIn_insert _ hsize]

/-- A call that would write a list that is too long unwinds before. -/
theorem asSet_tooLong (hcalm : env.Calm) {call : PeersCall} {list : List String}
    (hstep : exec env.handle (call.perform dir) w =
      exec env.handle (peersWrite dir list >>= fun _ => return true) w.next)
    (hsize : ¬ (peersBody list).utf8ByteSize < 2 ^ 63) : (peersStep env dir call w).AsSet env := by
  have hwrite := exec_peersWrite hcalm dir list w.next
  rw [if_neg hsize] at hwrite
  rw [exec_bind_panic hwrite] at hstep
  exact asSet_unwritten hcalm hstep rfl nofun

/-- **Adding an address** does what it does to a set, unless the address is read as a comment. -/
theorem asSet_add_iff (hcalm : env.Calm) (addr : String) :
    (peersStep env dir (.add addr) w).AsSet env ↔
      ¬ PeersCall.AddsComment (peersIn w.dir) (.add addr) := by
  obtain ⟨hnodup, hlist⟩ := peersIn_listable w.dir
  have hperform : PeersCall.perform dir (.add addr) = peersAdd dir addr := rfl
  -- a refused or a listed address is not written
  rcases hvalid : validatePeerAddr addr with e | ⟨⟩
  · have hstep : exec env.handle (PeersCall.perform dir (.add addr)) w = (w, .ok (.error e)) := by
      rw [hperform, peersAdd, hvalid, exec_orFail_error_bind]
    refine iff_of_true (asSet_unwritten hcalm hstep rfl nofun) ?_
    rintro ⟨hok, -⟩
    cases hvalid.symm.trans hok
  have hstep : exec env.handle (PeersCall.perform dir (.add addr)) w =
      exec env.handle (if addr ∈ peersIn w.dir then return false
        else peersWrite dir (peersIn w.dir ++ [addr]) >>= fun _ => return true) w.next := by
    rw [hperform, peersAdd, hvalid, exec_orFail_ok_bind, exec_bind_ok (exec_peersList hcalm w)]
  by_cases hmem : addr ∈ peersIn w.dir
  · rw [if_pos hmem] at hstep
    refine iff_of_true (asSet_unwritten hcalm hstep rfl nofun) ?_
    rintro ⟨-, hcomment, -⟩
    rw [(hlist addr hmem).noComment] at hcomment
    cases hcomment
  rw [if_neg hmem] at hstep
  -- the file that is written must be one that can be read again
  by_cases hsize : (peersBody (peersIn w.dir ++ [addr])).utf8ByteSize < 2 ^ 63
  · rw [asSet_written_iff hcalm hstep hsize]
    by_cases hcomment : startsWith addr "#"
    · -- what is read has no address that starts with `#`
      refine iff_of_false (fun hread => ?_) (not_not.mpr ⟨hvalid, hcomment, hsize⟩)
      have hmem' : addr ∈ peersOf (peersBody (peersIn w.dir ++ [addr])) := by
        rw [hread]
        exact List.mem_append_right _ List.mem_cons_self
      have hno := ((peersOf_listable _).2 addr hmem').noComment
      rw [hcomment] at hno
      cases hno
    · rw [Bool.not_eq_true] at hcomment
      refine iff_of_true (peersOf_peersBody ?_ ?_) ?_
      · rw [List.forall_mem_append]
        exact ⟨hlist, List.forall_mem_singleton.mpr (listable_of_valid hvalid hcomment)⟩
      · rw [List.nodup_append_comm]
        exact List.nodup_cons.mpr ⟨hmem, hnodup⟩
      · rintro ⟨-, hcomment', -⟩
        cases hcomment.symm.trans hcomment'
  · exact iff_of_true (asSet_tooLong hcalm hstep hsize) fun h => hsize h.2.2

/-- **Removing an address** does what it does to a set. -/
theorem asSet_remove (hcalm : env.Calm) (addr : String) :
    (peersStep env dir (.remove addr) w).AsSet env := by
  obtain ⟨hnodup, hlist⟩ := peersIn_listable w.dir
  have hperform : PeersCall.perform dir (.remove addr) = peersRemove dir addr := rfl
  have hstep : exec env.handle (PeersCall.perform dir (.remove addr)) w =
      exec env.handle (
        if ((peersIn w.dir).filter fun p => p ≠ addr).length = (peersIn w.dir).length then
          return false
        else peersWrite dir ((peersIn w.dir).filter fun p => p ≠ addr) >>= fun _ => return true)
        w.next := by
    rw [hperform, peersRemove, exec_bind_ok (exec_peersList hcalm w)]
  by_cases hsame : ((peersIn w.dir).filter fun p => p ≠ addr).length = (peersIn w.dir).length
  · rw [if_pos hsame] at hstep
    exact asSet_unwritten hcalm hstep rfl nofun
  rw [if_neg hsame] at hstep
  by_cases hsize :
      (peersBody ((peersIn w.dir).filter fun p => p ≠ addr)).utf8ByteSize < 2 ^ 63
  · rw [asSet_written_iff hcalm hstep hsize]
    exact peersOf_peersBody (fun p hp => hlist p (List.mem_of_mem_filter hp)) (hnodup.filter _)
  · exact asSet_tooLong hcalm hstep hsize

theorem asSet_iff (hcalm : env.Calm) (call : PeersCall) :
    (peersStep env dir call w).AsSet env ↔ ¬ call.AddsComment (peersIn w.dir) := by
  cases call with
  | add addr => exact asSet_add_iff hcalm addr
  | remove addr => exact iff_of_true (asSet_remove hcalm addr) id

/-- **The peers file is a set** in the order of insertion, as long as no address is added that
starts with `#`. By induction on the calls. -/
theorem peersRun_iff (hcalm : env.Calm) (dir : String) (calls : List PeersCall) (w : World σ) :
    (∀ s ∈ peersRun env dir calls w, s.AsSet env) ↔
      ∀ s ∈ peersRun env dir calls w, ¬ s.call.AddsComment (peersIn s.before.dir) := by
  induction calls generalizing w with
  | nil => exact iff_of_true nofun nofun
  | cons call calls ih =>
    rw [peersRun, List.forall_mem_cons, List.forall_mem_cons, ih, asSet_iff hcalm]
    rfl

theorem call_mem_of_mem_peersRun {calls : List PeersCall} {s : PeersStep σ}
    (h : s ∈ peersRun env dir calls w) : s.call ∈ calls := by
  induction calls generalizing w with
  | nil => cases h
  | cons call calls ih =>
    rcases List.mem_cons.mp h with rfl | h
    · exact List.mem_cons_self
    · exact List.mem_cons_of_mem _ (ih h)

end

/-- An empty store to which a peer is added, and from which it is removed. -/
theorem peersRun_iff_two :
    let env : Env Unit := .still (fun p _ => (p, .error "closed")) 60
    ∀ s ∈ peersRun env "/s" [.add "10.0.0.1:8099", .remove "10.0.0.1:8099"] (World.fresh ()),
      s.AsSet env := by
  intro env
  refine (peersRun_iff (Env.still_calm _ _) _ _ _).mpr fun s hs hadds => ?_
  have hcall := call_mem_of_mem_peersRun hs
  rw [List.mem_cons, List.mem_singleton] at hcall
  rcases hcall with hcall | hcall
  · rw [hcall] at hadds
    obtain ⟨-, hcomment, -⟩ := hadds
    revert hcomment
    decide
  · rw [hcall] at hadds
    exact hadds

/-- **A peer that is not listed**: the address `#x:1` is accepted, but stands on the list neither
after the first call nor after the second. -/
theorem comment_not_listed :
    let env : Env Unit := .still (fun p _ => (p, .error "closed")) 60
    let run := peersRun env "/s" [.add "#x:1", .add "#x:1"] (World.fresh ())
    run.map PeersStep.result = [.ok (.ok true), .ok (.ok true)] ∧ ¬ ∀ s ∈ run, s.AsSet env := by
  intro env run
  refine ⟨by decide +kernel, fun h => ?_⟩
  have hfirst := h _ List.mem_cons_self
  rw [asSet_add_iff (Env.still_calm _ _)] at hfirst
  exact hfirst ⟨by decide, by decide, by decide⟩

end SporePeer
