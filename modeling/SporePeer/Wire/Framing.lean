import SporePeer.Node.System

/-!
# Frames on a stream

A frame is the length of a payload in four bytes, and the payload. The writer cuts the length off
at 32 bits; the reader refuses a length that is 0 or above 192 MiB. A payload of 4 GiB or more can
so be announced with a length that the reader accepts, and the stream is out of step from there.

## Main definitions

* `writeFrame`, `receiveFrame`: a frame written to a stream, and read from one
* `receiveFrames`: the results of reading again and again
* `received`: what these should be

## Main results

* `receiveFrame_writeFrame`: what is read of a frame that was written
* `receiveFrames_iff`: when the payloads are read back
-/

namespace SporePeer

open Effects Bytes

/-- `write_frame`: the low 32 bits of the length of a payload, and the payload. -/
def writeFrame (payload : Bytes) : Bytes := toLe 4 payload.length ++ payload

/-- `read_exact`: the next `n` bytes of a stream, and the stream behind them. -/
def readExact (n : ℕ) (s : Bytes) : Except String (Bytes × Bytes) :=
  if n ≤ s.length then .ok (s.take n, s.drop n) else .error "failed to fill whole buffer"

/-- The lengths that `read_frame` refuses. -/
def BadLength (len : ℕ) : Prop := len = 0 ∨ maxFrame < len

instance (len : ℕ) : Decidable (BadLength len) := inferInstanceAs (Decidable (_ ∨ _))

/-- `read_frame` from a stream, and the stream behind the frame. -/
def receiveFrame (s : Bytes) : Except String (Bytes × Bytes) := do
  let (lenBuf, s) ← readExact 4 s
  if BadLength (ofLe lenBuf) then throw "bad frame length"
  readExact (ofLe lenBuf) s

/-- The results of `k` reads, up to the first that fails. -/
def receiveFrames : ℕ → Bytes → List (Except String Bytes)
  | 0, _ => []
  | k + 1, s =>
    match receiveFrame s with
    | .error e => [.error e]
    | .ok (payload, rest) => .ok payload :: receiveFrames k rest

/-- The payloads up to the first of a bad length, and then the error of the read that comes upon
it, or upon the end of the stream. -/
def received : List Bytes → List (Except String Bytes)
  | [] => [.error "failed to fill whole buffer"]
  | p :: ps => if BadLength p.length then [.error "bad frame length"] else .ok p :: received ps

/-- The first of some payloads that has a bad length. -/
def firstBad (payloads : List Bytes) : Option Bytes := payloads.find? fun p => BadLength p.length

section

variable {payload rest : Bytes}

theorem readExact_append {n : ℕ} (h : n ≤ payload.length) :
    readExact n (payload ++ rest) = .ok (payload.take n, payload.drop n ++ rest) := by
  have hle : n ≤ (payload ++ rest).length := by
    rw [List.length_append]
    omega
  rw [readExact, if_pos hle, List.take_append_of_le_length h, List.drop_append_of_le_length h]

/-- What is read of a frame that was written is settled by the low 32 bits of its length. -/
theorem receiveFrame_writeFrame (payload rest : Bytes) :
    receiveFrame (writeFrame payload ++ rest) =
      if BadLength (payload.length % 2 ^ 32) then .error "bad frame length"
      else .ok (payload.take (payload.length % 2 ^ 32),
        payload.drop (payload.length % 2 ^ 32) ++ rest) := by
  have hhead : readExact 4 (writeFrame payload ++ rest) =
      .ok (toLe 4 payload.length, payload ++ rest) := by
    have hlen : (toLe 4 payload.length).length = 4 := length_toLe ..
    have h := @readExact_append (toLe 4 payload.length) (payload ++ rest) 4 hlen.ge
    rw [writeFrame, List.append_assoc, h, List.take_of_length_le hlen.le,
      List.drop_of_length_le hlen.le, List.nil_append]
  have hlen : ofLe (toLe 4 payload.length) = payload.length % 2 ^ 32 := ofLe_toLe_mod ..
  have hbody := @readExact_append payload rest _ (Nat.mod_le payload.length (2 ^ 32))
  unfold receiveFrame
  rw [hhead]
  show (if BadLength (ofLe (toLe 4 payload.length)) then throw "bad frame length"
    else readExact (ofLe (toLe 4 payload.length)) (payload ++ rest)) = _
  rw [hlen, hbody]
  rfl

/-- A length that the reader accepts fits in 32 bits. -/
theorem mod_of_not_badLength {len : ℕ} (h : ¬ BadLength len) : len % 2 ^ 32 = len := by
  rw [BadLength, maxFrame] at h
  exact Nat.mod_eq_of_lt (by omega)

theorem receiveFrame_of_fits (h : ¬ BadLength payload.length) :
    receiveFrame (writeFrame payload ++ rest) = .ok (payload, rest) := by
  rw [receiveFrame_writeFrame, mod_of_not_badLength h, if_neg h, List.take_length,
    List.drop_length, List.nil_append]

end

/-- What should be received was sent. -/
theorem mem_of_received {payloads : List Bytes} {b : Bytes} (h : .ok b ∈ received payloads) :
    b ∈ payloads := by
  induction payloads with
  | nil => cases List.mem_singleton.mp h
  | cons p ps ih =>
    rw [received] at h
    split at h
    · cases List.mem_singleton.mp h
    · rcases List.mem_cons.mp h with heq | hrest
      · rw [Except.ok.inj heq]
        exact List.mem_cons_self
      · exact List.mem_cons_of_mem p (ih hrest)

/-- One read after another gives what should be received, exactly if the first bad length is bad in
32 bits too. By induction on the payloads that were written. -/
theorem receiveFrames_eq_iff (payloads : List Bytes) :
    (∀ k, receiveFrames k (payloads.flatMap writeFrame) = (received payloads).take k) ↔
      ∀ p, firstBad payloads = some p → BadLength (p.length % 2 ^ 32) := by
  induction payloads with
  | nil =>
    refine iff_of_true (fun k => ?_) nofun
    cases k with
    | zero => rfl
    | succ k =>
      rw [received, List.take_succ_cons, List.take_nil]
      rfl
  | cons p ps ih =>
    rw [List.flatMap_cons, received, firstBad]
    by_cases hbad : BadLength p.length
    · -- the first bad payload is here, and what follows it is not read
      rw [if_pos hbad, List.find?_cons_of_pos (by simpa using hbad)]
      constructor
      · rintro h _ ⟨⟩
        have hfirst := h 1
        rw [receiveFrames, receiveFrame_writeFrame] at hfirst
        by_contra hgood
        rw [if_neg hgood] at hfirst
        cases hfirst
      · intro h k
        cases k with
        | zero => rfl
        | succ k =>
          rw [receiveFrames, receiveFrame_writeFrame, if_pos (h p rfl), List.take_succ_cons,
            List.take_nil]
    · -- a good payload comes out whole, and what follows it is as before
      rw [if_neg hbad, List.find?_cons_of_neg (by simpa using hbad), ← firstBad, ← ih]
      constructor
      · intro h k
        have hnext := h (k + 1)
        rw [receiveFrames, receiveFrame_of_fits hbad, List.take_succ_cons] at hnext
        exact (List.cons.inj hnext).2
      · intro h k
        cases k with
        | zero => rfl
        | succ k =>
          rw [receiveFrames, receiveFrame_of_fits hbad, List.take_succ_cons]
          exact congrArg _ (h k)

/-- **Frames are read back up to the first that is refused**, and nothing else is, exactly if the
length of that one is bad in 32 bits too. -/
theorem receiveFrames_iff (payloads : List Bytes) :
    (∀ k, receiveFrames k (payloads.flatMap writeFrame) = (received payloads).take k ∧
        ∀ b, .ok b ∈ receiveFrames k (payloads.flatMap writeFrame) → b ∈ payloads) ↔
      ∀ p, firstBad payloads = some p → BadLength (p.length % 2 ^ 32) := by
  rw [← receiveFrames_eq_iff]
  constructor
  · intro h k
    exact (h k).1
  · intro h k
    refine ⟨h k, fun b hb => ?_⟩
    rw [h k] at hb
    exact mem_of_received (List.mem_of_mem_take hb)

/-- A payload of 4 GiB and one byte is read as its first byte. -/
theorem long_payload_cut :
    let payload := List.replicate (2 ^ 32 + 1) (7 : UInt8)
    receiveFrames 1 ([payload].flatMap writeFrame) = [.ok [7]] ∧
      ¬ ∀ k, receiveFrames k ([payload].flatMap writeFrame) = (received [payload]).take k ∧
        ∀ b, .ok b ∈ receiveFrames k ([payload].flatMap writeFrame) → b ∈ [payload] := by
  intro payload
  have hlen : payload.length = 2 ^ 32 + 1 := List.length_replicate
  have hgood : ¬ BadLength (payload.length % 2 ^ 32) := by
    rw [hlen]
    decide
  have hread : receiveFrames 1 ([payload].flatMap writeFrame) = [.ok [7]] := by
    rw [List.flatMap_cons, receiveFrames, receiveFrame_writeFrame, if_neg hgood, hlen]
    show [Except.ok (payload.take 1)] = _
    rw [List.take_replicate]
    rfl
  refine ⟨hread, fun h => ?_⟩
  -- the one byte that is received is no payload
  have hmem := (h 1).2 [7] (by rw [hread]; exact List.mem_singleton_self _)
  have hsame := congrArg List.length (List.mem_singleton.mp hmem)
  rw [hlen] at hsame
  exact absurd hsame (by decide)

end SporePeer
