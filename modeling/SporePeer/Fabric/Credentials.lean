import SporePeer.Fabric.Derivation
import SporePeer.Fabric.Runs

/-!
# The credentials of a recipient

Who holds the seed of a contact card derives two things from it: the handle under which relays queue
pointers, and the token that drains them. Relays take both, and both tell the cards apart, as far as
the hash tells apart what they are made of.

## Main definitions

* `regTokenHex`: the token
* `Card`, `Card.handle`, `Card.hashed`: a card, its handle, and the texts that are hashed for it

## Main results

* `fabricHandle_inj`, `regTokenHex_inj`: different cards have different handles and tokens
* `credentials_separate`: relays take the credentials, and keep them apart
-/

namespace SporePeer

open Bytes Text Effects

def labelReg : Bytes := asBytes "spore/fabric/v1/reg"

/-- The token of a handle, under a nonce of the relay. -/
def regTokenHex (build : Build) (seed handle : U8Array 32) (serverNonce : String) :
    Result String := do
  let mac ← hmacSha256 build seed.toList (labelReg ++ handle.toList ++ asBytes serverNonce)
  return Hex.encode mac.toList

/-- The secret of a contact, the epoch of its prekeys, and a session. -/
structure Card where
  seed : U8Array 32
  epoch : UInt32
  sid : U8Array 8

namespace Card

variable (build : Build) (c : Card)

/-- The key that is extracted from the seed. -/
def prk : U8Array 32 := Hmac.hmac build.sha256 64 (List.replicate 32 0) c.seed.toList

/-- The context of the handle, with the number of its one block. -/
def info : Bytes := labelHandle ++ toBe 4 c.epoch.toNat ++ c.sid.toList ++ [1]

def handle : Result (U8Array 32) := fabricHandle build c.seed c.epoch c.sid

/-- The texts that are hashed for a handle. -/
def hashed : List Bytes :=
  Hmac.hashed build.sha256 64 (List.replicate 32 0) c.seed.toList ++
    Hmac.hashed build.sha256 64 (c.prk build).toList c.info

/-- The texts that are hashed for a token. -/
def tokenHashed (handle : U8Array 32) (serverNonce : String) : List Bytes :=
  Hmac.hashed build.sha256 64 c.seed.toList
    (labelReg ++ handle.toList ++ asBytes serverNonce)

end Card

section

variable {build : Build} {c c' : Card}

theorem handle_eq (build : Build) (c : Card) :
    c.handle build = .ok (Hmac.hmac build.sha256 64 (c.prk build).toList c.info) := by
  have heq := fabricHandle_eq build c.seed c.epoch c.sid
  rw [Hmac.expand_hashLen (by decide)] at heq
  rw [Card.handle]
  rcases hrun : fabricHandle build c.seed c.epoch c.sid with p | h
  · rw [hrun] at heq
    cases heq
  · rw [hrun] at heq
    exact congrArg Except.ok (List.Vector.toList_injective (Except.ok.inj heq))

theorem regTokenHex_eq (build : Build) (seed handle : U8Array 32) (serverNonce : String) :
    regTokenHex build seed handle serverNonce =
      .ok (Hex.encode (Hmac.hmac build.sha256 64 seed.toList
        (labelReg ++ handle.toList ++ asBytes serverNonce)).toList) := by
  rw [regTokenHex, hmacSha256_eq]
  rfl

theorem Card.info_inj (h : c.info = c'.info) : c.epoch = c'.epoch ∧ c.sid = c'.sid := by
  simp only [Card.info, List.append_assoc] at h
  have htail := List.append_cancel_left h
  obtain ⟨hepoch, hrest⟩ := List.append_inj htail (by rw [length_toBe, length_toBe])
  have hsid := List.append_inj_left hrest (by rw [List.Vector.toList_length,
    List.Vector.toList_length])
  refine ⟨?_, List.Vector.toList_injective hsid⟩
  have hval := congrArg ofBe hepoch
  rw [ofBe_toBe c.epoch.toNat_lt, ofBe_toBe c'.epoch.toNat_lt] at hval
  exact UInt32.toNat_inj.mp hval

/-- **Different cards have different handles.** -/
theorem fabricHandle_inj (hinj : ∀ x ∈ c.hashed build, ∀ y ∈ c'.hashed build,
      build.sha256 x = build.sha256 y → x = y)
    (h : c.handle build = c'.handle build) : c = c' := by
  rw [handle_eq, handle_eq] at h
  have hlen (d d' : U8Array 32) : d.toList.length = d'.toList.length := by
    rw [List.Vector.toList_length, List.Vector.toList_length]
  obtain ⟨hprk, hinfo⟩ := Hmac.hmac_inj (hlen _ _) (by rw [List.Vector.toList_length]; decide)
    (fun x hx y hy => hinj x (List.mem_append_right _ hx) y (List.mem_append_right _ hy))
    (Except.ok.inj h)
  obtain ⟨-, hseed⟩ := Hmac.hmac_inj rfl (by decide)
    (fun x hx y hy => hinj x (List.mem_append_left _ hx) y (List.mem_append_left _ hy))
    (List.Vector.toList_injective hprk)
  obtain ⟨hepoch, hsid⟩ := Card.info_inj hinfo
  cases c
  cases c'
  obtain rfl := List.Vector.toList_injective hseed
  cases hepoch
  cases hsid
  rfl

/-- **Different seeds, handles or nonces have different tokens.** -/
theorem regTokenHex_inj {h h' : U8Array 32} {nonce nonce' : String}
    (hinj : ∀ x ∈ c.tokenHashed build h nonce, ∀ y ∈ c'.tokenHashed build h' nonce',
      build.sha256 x = build.sha256 y → x = y)
    (htoken : regTokenHex build c.seed h nonce = regTokenHex build c'.seed h' nonce') :
    c.seed = c'.seed ∧ h = h' ∧ nonce = nonce' := by
  rw [regTokenHex_eq, regTokenHex_eq] at htoken
  have hmac := List.Vector.toList_injective (Hex.encode_injective (Except.ok.inj htoken))
  have hlen (d d' : U8Array 32) : d.toList.length = d'.toList.length := by
    rw [List.Vector.toList_length, List.Vector.toList_length]
  obtain ⟨hseed, htext⟩ := Hmac.hmac_inj (hlen _ _) (by rw [List.Vector.toList_length]; decide)
    hinj hmac
  rw [List.append_assoc, List.append_assoc] at htext
  obtain ⟨hhandle, hnonce⟩ := List.append_inj (List.append_cancel_left htext) (hlen _ _)
  exact ⟨List.Vector.toList_injective hseed, List.Vector.toList_injective hhandle,
    asBytes_inj.mp hnonce⟩

/-- A relay reads what a recipient registers, as it is. -/
theorem readFreg_credentials (build : Build) (h mac : U8Array 32) (lease : UInt64) :
    readFreg build (fregRequest h (Hex.encode mac.toList) lease.toNat) =
      .ok ⟨Hex.encode h.toList, Hex.encode mac.toList, "", lease.toNat⟩ := by
  have hhandle : ((fregRequest h (Hex.encode mac.toList) lease.toNat).get "handle").bind
      Value.asStr = some (Hex.encode h.toList) := rfl
  have htoken : ((fregRequest h (Hex.encode mac.toList) lease.toNat).get "token").bind
      Value.asStr = some (Hex.encode mac.toList) := rfl
  have hlease : ((fregRequest h (Hex.encode mac.toList) lease.toNat).get "lease").bind
      Value.asU64 = some lease := congrArg some (UInt64.ofNat_toNat)
  have hprev : ((fregRequest h (Hex.encode mac.toList) lease.toNat).get "prev_token").bind
      Value.asStr = none := rfl
  have hsize : (Hex.encode mac.toList).utf8ByteSize = 64 := by
    rw [Hex.utf8ByteSize_encode, List.Vector.toList_length]
  rw [readFreg, hhandle]
  dsimp only
  rw [Hex.decode_encode, Option.any_some, List.Vector.toList_length, htoken, hlease, hprev]
  dsimp only
  rw [if_neg (by decide), if_neg (by rw [hsize]; decide),
    Hex.toLowercase_of_decode (Hex.decode_encode _)]
  rfl

/-- **Credentials**: a recipient derives a handle and a token from every card, relays take them as
they are, and the handles are the same just for the same card, the tokens just for the same seed,
handle and nonce. -/
theorem credentials_separate (build : Build) (c c' : Card) (nonce nonce' : String) :
    ∃ h h' token token', c.handle build = .ok h ∧ c'.handle build = .ok h' ∧
      regTokenHex build c.seed h nonce = .ok token ∧
      regTokenHex build c'.seed h' nonce' = .ok token' ∧
      (∀ lease : UInt64, readFreg build (fregRequest h token lease.toNat) =
        .ok ⟨Hex.encode h.toList, token, "", lease.toNat⟩) ∧
      ((∀ x ∈ c.hashed build, ∀ y ∈ c'.hashed build, build.sha256 x = build.sha256 y → x = y) →
        (h = h' ↔ c = c')) ∧
      ((∀ x ∈ c.tokenHashed build h nonce, ∀ y ∈ c'.tokenHashed build h' nonce',
          build.sha256 x = build.sha256 y → x = y) →
        (token = token' ↔ c.seed = c'.seed ∧ h = h' ∧ nonce = nonce')) := by
  refine ⟨_, _, _, _, handle_eq build c, handle_eq build c', regTokenHex_eq _ _ _ _,
    regTokenHex_eq _ _ _ _, readFreg_credentials build _ _, fun hinj => ?_, fun hinj => ?_⟩
  · constructor
    · intro h
      exact fabricHandle_inj hinj (by rw [handle_eq, handle_eq, h])
    · rintro rfl
      rfl
  · constructor
    · intro h
      exact regTokenHex_inj hinj (by rw [regTokenHex_eq, regTokenHex_eq, h])
    · rintro ⟨hseed, hhandle, rfl⟩
      rw [hseed, hhandle]

end

/-- Two sessions of one seed have two handles, and two tokens. -/
theorem credentials_separate_two :
    let c : Card := ⟨⟨(List.range 32).map UInt8.ofNat, rfl⟩, 1, .replicate 8 1⟩
    let c' : Card := ⟨⟨(List.range 32).map UInt8.ofNat, rfl⟩, 1, .replicate 8 2⟩
    ∃ h h' token token', c.handle .trailing = .ok h ∧ c'.handle .trailing = .ok h' ∧
      regTokenHex .trailing c.seed h "n" = .ok token ∧
      regTokenHex .trailing c'.seed h' "n" = .ok token' ∧ h ≠ h' ∧ token ≠ token' := by
  intro c c'
  obtain ⟨h, h', token, token', hh, hh', ht, ht', -, hhandles, htokens⟩ :=
    credentials_separate .trailing c c' "n" "n"
  have hne : h ≠ h' := by
    intro heq
    have hsid := congrArg (fun d : Card => d.sid.toList) ((hhandles (by decide +kernel)).mp heq)
    exact absurd hsid (by decide)
  obtain rfl := Except.ok.inj ((handle_eq .trailing c).symm.trans hh)
  obtain rfl := Except.ok.inj ((handle_eq .trailing c').symm.trans hh')
  refine ⟨_, _, token, token', hh, hh', ht, ht', hne, fun heq => ?_⟩
  exact hne ((htokens (by decide +kernel)).mp heq).2.1

end SporePeer
