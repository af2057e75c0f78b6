import SporePeer.Node.Store

/-!
# Fetching a body

A body is fetched by its name. The answer is a status byte and then the body or the text of an
error, or, from an older node, the body alone; the hash alone tells which.

## Main definitions

* `parseFetchResponse`: the body of a response, or the error of the fetch

## Main results

* `cidOf_of_parseFetchResponse`: a body that is returned hashes to the name
* `fetch_answers`: every body and every error reach the client
-/

namespace SporePeer

open Effects Text

/-- The verdict on a response that is neither the body nor an error. -/
def tampered : String := "body sha256 does not match cid (tampered)"

/-- `parse_fetch_response`: the verified body of the response `resp` to a fetch of `cid`. -/
def parseFetchResponse (build : Build) (resp : Bytes) (cid : String) :
    Result (Except String Bytes) := do
  let expected ← (hexDecode (asBytes cid)).run
  match expected with
  | none => return .error "bad cid hex"
  | some expected =>
    if expected.length ≠ 32 then return .error "bad cid hex"
    -- a body alone, whatever it begins with
    else if (build.sha256 resp).toList = expected then return .ok resp
    else match resp with
      | 0x00 :: body =>
        if (build.sha256 body).toList ≠ expected then return .error tampered
        else return .ok body
      | 0x01 :: text => return .error (fromUtf8Lossy text)
      | _ => return .error tampered

/-- A name of a body: 64 lower-case hexadecimal digits. -/
def IsCid (cid : String) : Prop :=
  cid.length = 64 ∧ ∀ c ∈ cid.toList, c ∈ "0123456789abcdef".toList

instance (cid : String) : Decidable (IsCid cid) := inferInstanceAs (Decidable (_ ∧ _))

theorem isCid_encode (d : U8Array 32) : IsCid (Hex.encode d.toList) := by
  refine ⟨?_, Hex.mem_digits_of_mem_encode _⟩
  rw [Hex.length_encode, List.Vector.toList_length]

/-- The names are the spellings of 32 bytes. -/
theorem IsCid.exists_encode {cid : String} (h : IsCid cid) :
    ∃ d : U8Array 32, Hex.encode d.toList = cid := by
  obtain ⟨b, hb, hspell⟩ := Hex.exists_encode (n := 32) h.1 h.2
  exact ⟨⟨b, hb⟩, hspell⟩

section

variable {build : Build}

theorem cidOf_eq_encode {body : Bytes} {d : U8Array 32} :
    cidOf build body = Hex.encode d.toList ↔ (build.sha256 body).toList = d.toList :=
  Hex.encode_injective.eq_iff

/-- Under a name that spells 32 bytes, the response alone decides. -/
theorem parseFetchResponse_encode (resp : Bytes) (d : U8Array 32) :
    parseFetchResponse build resp (Hex.encode d.toList) =
      if (build.sha256 resp).toList = d.toList then .ok (.ok resp)
      else match resp with
        | 0x00 :: body =>
          if (build.sha256 body).toList ≠ d.toList then .ok (.error tampered) else .ok (.ok body)
        | 0x01 :: text => .ok (.error (fromUtf8Lossy text))
        | _ => .ok (.error tampered) := by
  rw [parseFetchResponse, hexDecode_encode]
  change (if d.toList.length ≠ 32 then _ else _) = _
  rw [if_neg (not_not.mpr d.toList_length)]
  rfl

/-- **What is fetched is authentic.** -/
theorem cidOf_of_parseFetchResponse {resp body : Bytes} {cid : String} (hcid : IsCid cid)
    (h : parseFetchResponse build resp cid = .ok (.ok body)) : cidOf build body = cid := by
  obtain ⟨d, rfl⟩ := hcid.exists_encode
  rw [parseFetchResponse_encode] at h
  rw [cidOf_eq_encode]
  split at h
  · rename_i hresp
    obtain rfl : resp = body := Except.ok.inj (Except.ok.inj h)
    exact hresp
  split at h
  · split at h
    · cases h
    · rename_i hbody
      obtain rfl := Except.ok.inj (Except.ok.inj h)
      exact not_not.mp hbody
  · cases h
  · cases h

/-- A body alone is its own response. -/
theorem parseFetchResponse_body (body : Bytes) :
    parseFetchResponse build body (cidOf build body) = .ok (.ok body) := by
  rw [cidOf, parseFetchResponse_encode, if_pos rfl]

theorem parseFetchResponse_frameOk {body : Bytes}
    (h : build.sha256 (frameOk body) ≠ build.sha256 body) :
    parseFetchResponse build (frameOk body) (cidOf build body) = .ok (.ok body) := by
  rw [cidOf, parseFetchResponse_encode, if_neg fun he => h (List.Vector.toList_injective he)]
  exact if_neg (not_not.mpr rfl)

theorem parseFetchResponse_frameErr {cid msg : String} (hcid : IsCid cid)
    (h : cidOf build (frameErr msg) ≠ cid) :
    parseFetchResponse build (frameErr msg) cid = .ok (.error msg) := by
  obtain ⟨d, rfl⟩ := hcid.exists_encode
  rw [parseFetchResponse_encode, if_neg fun he => h (cidOf_eq_encode.mpr he)]
  change Except.ok (Except.error (fromUtf8Lossy (asBytes msg))) = _
  rw [fromUtf8Lossy_asBytes]

end

section

variable {σ : Type} {env : Env σ} {build : Build} {w : World σ}

/-- A node reads the file of the name, and serves what hashes to it. -/
theorem exec_serveBody (env : Env σ) (build : Build) (w : World σ) (d : U8Array 32) :
    exec env.handle (serveBody build (Hex.encode d.toList)) w =
      (w.next, .ok (match env.read w (bodyFile (Hex.encode d.toList)) with
        | none => .error "404 not found"
        | some data =>
          if (build.sha256 data).toList ≠ d.toList then .error "500 cid mismatch"
          else .ok data)) := by
  have hlen : d.toList.length = 32 := d.toList_length
  rw [serveBody, hexDecode_encode, exec_orPanic_ok_bind]
  simp only [Option.filter_some, hlen, decide_true, if_true, exec_ask_bind, Env.handle]
  rcases env.read w (bodyFile (Hex.encode d.toList)) with _ | data
  · rfl
  dsimp only
  rw [exec_refuseIf_bind]
  split <;> rfl

/-- What is served under a name hashes to it. -/
theorem sha256_of_serveBody {blid : U8Array 32} {body : Bytes}
    (h : (exec env.handle (serveBody build (Hex.encode blid.toList)) w).2 = .ok (.ok body)) :
    build.sha256 body = blid := by
  rw [exec_serveBody] at h
  have h := Except.ok.inj h
  split at h
  · cases h
  split at h
  · cases h
  · rename_i hsha
    obtain rfl := Except.ok.inj h
    exact List.Vector.toList_injective (not_not.mp hsha)

end

/-- **Fetching.** What is fetched is authentic. A body is fetched from an older node, whose response
is the body, and from one that puts a status before it; and so is the text of an error. So the
answers of `serve_body` reach the client. -/
theorem fetch_answers (build : Build) :
    (∀ (resp body : Bytes) (cid : String), IsCid cid →
      parseFetchResponse build resp cid = .ok (.ok body) → cidOf build body = cid) ∧
    (∀ body : Bytes, parseFetchResponse build body (cidOf build body) = .ok (.ok body)) ∧
    (∀ body : Bytes, build.sha256 (frameOk body) ≠ build.sha256 body →
      parseFetchResponse build (frameOk body) (cidOf build body) = .ok (.ok body)) ∧
    (∀ msg cid : String, IsCid cid → cidOf build (frameErr msg) ≠ cid →
      parseFetchResponse build (frameErr msg) cid = .ok (.error msg)) ∧
    ∀ {σ : Type} (env : Env σ) (w : World σ) (cid : String), IsCid cid →
      ∃ r, (exec env.handle (serveBody build cid) w).2 = .ok r ∧
        match r with
        | .ok data => build.sha256 (frameOk data) ≠ build.sha256 data →
            parseFetchResponse build (frameOk data) cid = .ok (.ok data)
        | .error e => cidOf build (frameErr e) ≠ cid →
            parseFetchResponse build (frameErr e) cid = .ok (.error e) := by
  refine ⟨fun _ _ _ => cidOf_of_parseFetchResponse, parseFetchResponse_body,
    fun _ => parseFetchResponse_frameOk, fun _ _ => parseFetchResponse_frameErr,
    fun env w cid hcid => ?_⟩
  obtain ⟨d, rfl⟩ := id hcid.exists_encode
  have hexec := exec_serveBody env build w d
  refine ⟨_, congrArg Prod.snd hexec, ?_⟩
  split
  · -- a body that is served hashes to the name that was asked for
    rename_i data hdata
    intro hne
    have hserve : (exec env.handle (serveBody build (Hex.encode d.toList)) w).2 =
        .ok (.ok data) := by
      rw [hexec, hdata]
    rw [← sha256_of_serveBody hserve]
    exact parseFetchResponse_frameOk hne
  · exact parseFetchResponse_frameErr hcid

/-- A build whose hash is the start of its input. -/
def Build.leading : Build :=
  { Build.const (.replicate 32 0) with
    sha256 := fun b => ⟨(b ++ List.replicate 32 0).take 32, length_take_padded b⟩ }

/-- The body `[7]` from an older node and from a newer one, a refusal, and what a node without the
body answers. -/
theorem fetch_answers_leading :
    let build := Build.leading
    let cid := Hex.encode (7 :: List.replicate 31 0)
    cidOf build [7] = cid ∧
    parseFetchResponse build [7] (cidOf build [7]) = .ok (.ok [7]) ∧
    parseFetchResponse build (frameOk [7]) (cidOf build [7]) = .ok (.ok [7]) ∧
    parseFetchResponse build (frameErr "404 not found") cid = .ok (.error "404 not found") ∧
    ∃ r, (exec (Env.still (fun p _ => (p, .error "closed")) 60).handle (serveBody build cid)
      (.fresh ())).2 = .ok r := by
  intro build cid
  have hcid : IsCid cid := isCid_encode ⟨7 :: List.replicate 31 0, rfl⟩
  obtain ⟨hsound, hbody, hok, herr, hserve⟩ := fetch_answers build
  refine ⟨hsound [7] [7] cid hcid (by decide +kernel), hbody [7], hok [7] (by decide),
    herr _ cid hcid (by decide +kernel), ?_⟩
  obtain ⟨r, hr, -⟩ := hserve (.still (fun p _ => (p, .error "closed")) 60) (.fresh ()) cid hcid
  exact ⟨r, hr⟩

end SporePeer
