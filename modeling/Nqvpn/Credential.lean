import Nqvpn.Addressing
import Nqvpn.ByteCoding
import Nqvpn.Fallible
import Mathlib.Data.List.Basic
import Mathlib.Data.String.Basic
import Mathlib.Tactic.DeriveEncodable

/-!
# Member credentials

A credential is three dot-separated base64url parts: a header, the claims, and a
signature over the first two as they stand. `verify` checks everything a
credential binds; `peek` reads a claim without checking anything.

Base64 and JSON are given by a `TokenCodec`, of which only the round trips are
assumed. JSON is kept to what a credential reads: the members of an object in
order, with repetitions, or the items of an array.
-/

namespace Nqvpn

open Fallible Option

abbrev Text := List Char

inductive JsonValue
  | null
  | bool (b : Bool)
  | uint (n : Nat)
  /-- Any other number. -/
  | number (text : String)
  | str (s : String)
  /-- An array of strings. -/
  | strs (items : List String)
  /-- An object whose only member has the value `null`. -/
  | tagged (name : String)
  /-- Any other array or object. -/
  | compound (text : String)
deriving DecidableEq, Repr

namespace JsonValue

def asStr : JsonValue → Option String
  | str s => some s
  | _ => none

def asU64 : JsonValue → Option Nat
  | uint n => if n < 2 ^ 64 then some n else none
  | _ => none

def asU32 (v : JsonValue) : Option Nat := v.asU64.filter (· < 2 ^ 32)

def asStrs : JsonValue → Option (List String)
  | strs items => some items
  | _ => none

variable {n : Nat}

theorem asU64_uint (h : n < 2 ^ 64) : (uint n).asU64 = some n := if_pos h

theorem asU32_uint (h : n < 2 ^ 32) : (uint n).asU32 = some n := by
  rw [asU32, asU64_uint (Nat.lt_trans h (by decide)), filter_some, if_pos (by simpa using h)]

def asRole : JsonValue → Option Role
  | str "client" | tagged "client" => some .client
  | str "relay" | tagged "relay" => some .relay
  | _ => none

end JsonValue

inductive Json
  | obj (members : List (String × JsonValue))
  | seq (items : List JsonValue)
  | scalar (v : JsonValue)
deriving DecidableEq, Repr

namespace Json

variable {α : Type}

def required (members : List (String × JsonValue)) (name : String) (read : JsonValue → Option α) :
    Option α :=
  match members.filter (·.1 = name) with
  | [m] => read m.2
  | _ => none

def defaulted (members : List (String × JsonValue)) (name : String) (read : JsonValue → Option α)
    (dflt : α) : Option α :=
  match members.filter (·.1 = name) with
  | [] => some dflt
  | [m] => read m.2
  | _ => none

def get (v : Json) (name : String) : Option JsonValue :=
  match v with
  | obj members => ((members.filter (·.1 = name)).getLast?).map Prod.snd
  | _ => none

end Json

structure Header where
  alg : String
  typ : String
  kid : String
deriving DecidableEq, Repr

namespace Header

def toJson (h : Header) : Json := .obj [("alg", .str h.alg), ("typ", .str h.typ), ("kid", .str h.kid)]

def ofJson : Json → Option Header
  | .obj ms => do
    let alg ← Json.required ms "alg" JsonValue.asStr
    let typ ← Json.required ms "typ" JsonValue.asStr
    let kid ← Json.required ms "kid" JsonValue.asStr
    return ⟨alg, typ, kid⟩
  | .seq [alg, typ, kid] => do
    return { alg := ← alg.asStr, typ := ← typ.asStr, kid := ← kid.asStr }
  | _ => none

theorem ofJson_toJson (h : Header) : ofJson h.toJson = some h := rfl

end Header

structure Claims where
  iss : String
  aud : String
  networkId : String
  networkUuid : String
  nodeId : NodeId
  sub : String
  role : Role
  pubkey : String
  certFp : String
  prefixes : List String
  loginGen : Nat
  iat : Nat
  exp : Nat
deriving DecidableEq, Repr

def Role.text : Role → String
  | .client => "client"
  | .relay => "relay"

namespace Claims

def toJson (c : Claims) : Json := .obj
  [("iss", .str c.iss), ("aud", .str c.aud), ("network_id", .str c.networkId),
    ("network_uuid", .str c.networkUuid), ("node_id", .uint c.nodeId), ("sub", .str c.sub),
    ("role", .str c.role.text), ("pubkey", .str c.pubkey), ("cert_fp", .str c.certFp),
    ("prefixes", .strs c.prefixes), ("login_gen", .uint c.loginGen), ("iat", .uint c.iat),
    ("exp", .uint c.exp)]

/-- The derived deserializer. Only `login_gen` has a default. -/
def ofJson : Json → Option Claims
  | .obj ms => do
    let iss ← Json.required ms "iss" JsonValue.asStr
    let aud ← Json.required ms "aud" JsonValue.asStr
    let networkId ← Json.required ms "network_id" JsonValue.asStr
    let networkUuid ← Json.required ms "network_uuid" JsonValue.asStr
    let nodeId ← Json.required ms "node_id" JsonValue.asU32
    let sub ← Json.required ms "sub" JsonValue.asStr
    let role ← Json.required ms "role" JsonValue.asRole
    let pubkey ← Json.required ms "pubkey" JsonValue.asStr
    let certFp ← Json.required ms "cert_fp" JsonValue.asStr
    let prefixes ← Json.required ms "prefixes" JsonValue.asStrs
    let loginGen ← Json.defaulted ms "login_gen" JsonValue.asU64 0
    let iat ← Json.required ms "iat" JsonValue.asU64
    let exp ← Json.required ms "exp" JsonValue.asU64
    return ⟨iss, aud, networkId, networkUuid, nodeId, sub, role, pubkey, certFp, prefixes, loginGen,
      iat, exp⟩
  | .seq [iss, aud, networkId, networkUuid, nodeId, sub, role, pubkey, certFp, prefixes, loginGen,
      iat, exp] => do
    return {
      iss := ← iss.asStr, aud := ← aud.asStr, networkId := ← networkId.asStr
      networkUuid := ← networkUuid.asStr, nodeId := ← nodeId.asU32, sub := ← sub.asStr
      role := ← role.asRole, pubkey := ← pubkey.asStr, certFp := ← certFp.asStr
      prefixes := ← prefixes.asStrs, loginGen := ← loginGen.asU64, iat := ← iat.asU64
      exp := ← exp.asU64 }
  | _ => none

@[simp] theorem asRole_text (r : Role) : JsonValue.asRole (.str r.text) = some r := by
  cases r <;> rfl

def Fits (c : Claims) : Prop :=
  c.nodeId < 2 ^ 32 ∧ c.loginGen < 2 ^ 64 ∧ c.iat < 2 ^ 64 ∧ c.exp < 2 ^ 64

theorem ofJson_toJson (c : Claims) : ofJson c.toJson = (do
    let nodeId ← (JsonValue.uint c.nodeId).asU32
    let loginGen ← (JsonValue.uint c.loginGen).asU64
    let iat ← (JsonValue.uint c.iat).asU64
    let exp ← (JsonValue.uint c.exp).asU64
    return { c with nodeId, loginGen, iat, exp }) := by
  have hrole : Json.required [("iss", .str c.iss), ("aud", .str c.aud),
      ("network_id", .str c.networkId), ("network_uuid", .str c.networkUuid),
      ("node_id", .uint c.nodeId), ("sub", .str c.sub), ("role", .str c.role.text),
      ("pubkey", .str c.pubkey), ("cert_fp", .str c.certFp), ("prefixes", .strs c.prefixes),
      ("login_gen", .uint c.loginGen), ("iat", .uint c.iat), ("exp", .uint c.exp)] "role"
      JsonValue.asRole = some c.role := asRole_text c.role
  simp only [toJson, ofJson, hrole]
  rfl

variable {c : Claims}

theorem eq_of_ofJson_toJson {c' : Claims} (h : ofJson c.toJson = some c') : c' = c := by
  rw [ofJson_toJson] at h
  simp only [JsonValue.asU32, JsonValue.asU64, bind_eq_bind, bind_eq_some_iff,
    filter_eq_some_iff, ite_none_right_eq_some, some.injEq, pure_def] at h
  obtain ⟨nodeId, ⟨⟨-, rfl⟩, -⟩, loginGen, ⟨-, rfl⟩, iat, ⟨-, rfl⟩, exp, ⟨-, rfl⟩, rfl⟩ := h
  rfl

theorem ofJson_toJson_of_fits (h : c.Fits) : ofJson c.toJson = some c := by
  obtain ⟨hid, hlogin, hiat, hexp⟩ := h
  rw [ofJson_toJson, JsonValue.asU32_uint hid, JsonValue.asU64_uint hlogin,
    JsonValue.asU64_uint hiat, JsonValue.asU64_uint hexp]
  rfl

end Claims

/-- Base64url without padding, and JSON. -/
structure TokenCodec where
  encode : List UInt8 → Text
  decode : Text → Option (List UInt8)
  decode_encode : ∀ bytes, decode (encode bytes) = some bytes
  dot_not_mem_encode : ∀ bytes, '.' ∉ encode bytes
  print : Json → List UInt8
  parse : List UInt8 → Option Json
  parse_print : ∀ v, parse (print v) = some v

namespace TokenCodec

variable (codec : TokenCodec)

def write (v : Json) : Text := codec.encode (codec.print v)

def read (part : Text) : Option Json := (codec.decode part).bind codec.parse

theorem dot_not_mem_write (v : Json) : '.' ∉ codec.write v := codec.dot_not_mem_encode _

@[simp] theorem read_write (v : Json) : codec.read (codec.write v) = some v := by
  simp [read, write, codec.decode_encode, codec.parse_print]

end TokenCodec

/-! ### A codec to instantiate the model with -/

deriving instance Encodable for JsonValue

deriving instance Encodable for Json

namespace TokenCodec

/-- Each byte as a character of its own, each document as the digits of its number. -/
def numbering : TokenCodec where
  encode bytes := bytes.map fun b => Char.ofNat (256 + b.toNat)
  decode text := some (text.map fun ch => UInt8.ofNat ch.toNat)
  decode_encode bytes := by
    have hbyte (b : UInt8) : UInt8.ofNat (Char.ofNat (256 + b.toNat)).toNat = b := by
      have hlt := b.toNat_lt
      have hvalid : (256 + b.toNat).isValidChar := Or.inl (by omega)
      rw [Char.ofNat, dif_pos hvalid]
      apply UInt8.toNat_inj.mp
      change (256 + b.toNat) % 2 ^ 8 = b.toNat
      omega
    simp [List.map_map, Function.comp_def, hbyte]
  dot_not_mem_encode bytes := by
    intro hmem
    obtain ⟨b, -, hb⟩ := List.mem_map.mp hmem
    have hlt := b.toNat_lt
    have hvalid : (256 + b.toNat).isValidChar := Or.inl (by omega)
    rw [Char.ofNat, dif_pos hvalid] at hb
    have hcode : 256 + b.toNat = '.'.toNat := congrArg Char.toNat hb
    have hdot : '.'.toNat = 46 := rfl
    omega
  print := ByteCoding.print
  parse := ByteCoding.parse
  parse_print := ByteCoding.parse_print

end TokenCodec

def audience : String := "nqvpn-v1"

def leewaySecs : Nat := 120

inductive CredError
  | malformed
  | badAlg (alg : String)
  | unknownKid (kid : String)
  | badSignature
  | expired (exp now : Nat)
  | notYetValid (iat now : Nat)
  | badAud (aud : String)
  | badIss (iss : String)
  | badNetwork (networkId : String)
deriving DecidableEq, Repr

def CredError.text : CredError → String
  | malformed => "malformed token"
  | badAlg alg => s!"unsupported algorithm {alg}"
  | unknownKid kid => s!"unknown signing key id {kid}"
  | badSignature => "bad signature"
  | expired exp now => s!"expired at {exp}, now {now}"
  | notYetValid iat now =>
    s!"issued at {iat}, which is more than {leewaySecs}s ahead of now {now} — check clocks"
  | badAud aud => s!"audience mismatch: {aud}"
  | badIss iss => s!"issuer mismatch: {iss}"
  | badNetwork networkId => s!"network mismatch: {networkId}"

structure Expected where
  iss : String
  networkId : String
  networkUuid : String
deriving DecidableEq, Repr

namespace Credential

variable (codec : TokenCodec) {K : Type} (verifyStrict : K → Text → List UInt8 → Bool)

def signingInput (c : Claims) (kid : String) : Text :=
  codec.write (Header.toJson ⟨"EdDSA", "JWT", kid⟩) ++ '.' :: codec.write c.toJson

/-- `signRaw` is the signature of the issuer's key. -/
def sign (c : Claims) (kid : String) (signRaw : Text → List UInt8) : Text :=
  signingInput codec c kid ++ '.' :: codec.encode (signRaw (signingInput codec c kid))

def peek (token : Text) (field : String) : Option JsonValue :=
  ((token.splitOn '.')[1]?).bind fun p => (codec.read p).bind (·.get field)

def peekNetwork (token : Text) : Option String := (peek codec token "network_id").bind JsonValue.asStr

def peekNodeId (token : Text) : Option NodeId := (peek codec token "node_id").bind JsonValue.asU32

def verify (token : Text) (keys : List (String × K)) (expected : Expected) (now : Nat) :
    Except CredError Claims :=
  match token.splitOn '.' with
  | [h, p, s] => do
    let header ← orFail ((codec.read h).bind Header.ofJson) .malformed
    ensure (header.alg = "EdDSA") (.badAlg header.alg)
    let key ← orFail (keys.find? (·.1 = header.kid)) (.unknownKid header.kid)
    let sig ← orFail (codec.decode s) .malformed
    ensure (sig.length = 64) .malformed
    ensure (verifyStrict key.2 (h ++ '.' :: p) sig) .badSignature
    let claims ← orFail ((codec.read p).bind Claims.ofJson) .malformed
    ensure (now < satAdd claims.exp leewaySecs) (.expired claims.exp now)
    ensure (claims.iat ≤ satAdd now leewaySecs) (.notYetValid claims.iat now)
    ensure (claims.aud = audience) (.badAud claims.aud)
    ensure (claims.iss = expected.iss) (.badIss claims.iss)
    ensure (claims.networkId = expected.networkId ∧ claims.networkUuid = expected.networkUuid)
      (.badNetwork claims.networkId)
    return claims
  | _ => .error .malformed

/-- What a verified token is. -/
structure Verified (token : Text) (keys : List (String × K)) (expected : Expected) (now : Nat)
    (c : Claims) (h p s : Text) (header : Header) (key : String × K) (sig : List UInt8) : Prop where
  parts : token.splitOn '.' = [h, p, s]
  headerRead : (codec.read h).bind Header.ofJson = some header
  alg : header.alg = "EdDSA"
  keyFound : keys.find? (·.1 = header.kid) = some key
  sigRead : codec.decode s = some sig
  sigLength : sig.length = 64
  signature : verifyStrict key.2 (h ++ '.' :: p) sig = true
  claims : (codec.read p).bind Claims.ofJson = some c
  notExpired : now < satAdd c.exp leewaySecs
  notEarly : c.iat ≤ satAdd now leewaySecs
  aud : c.aud = audience
  iss : c.iss = expected.iss
  networkId : c.networkId = expected.networkId
  networkUuid : c.networkUuid = expected.networkUuid

variable {h p s token : Text} {keys : List (String × K)} {expected : Expected} {now : Nat} {c : Claims}
  {header : Header} {key : String × K} {sig : List UInt8}

theorem verify_eq_ok : verify codec verifyStrict token keys expected now = .ok c ↔
      ∃ h p s header key sig,
        Verified codec verifyStrict token keys expected now c h p s header key sig := by
  constructor
  · intro hv
    unfold verify at hv
    split at hv
    · rename_i h p s hparts
      simp only [bind_eq_ok, orFail_eq_ok, ensure_eq_ok, pure_eq_ok] at hv
      obtain ⟨header, hheader, -, halg, key, hkey, sig, hsig, -, hlen, -, hverify, claims, hclaims,
        -, hexp, -, hiat, -, haud, -, hiss, -, hnet, rfl⟩ := hv
      exact ⟨h, p, s, header, key, sig, hparts, hheader, halg, hkey, hsig, hlen, hverify, hclaims,
        hexp, hiat, haud, hiss, hnet.1, hnet.2⟩
    · cases hv
  · rintro ⟨h, p, s, header, key, sig, hv⟩
    unfold verify
    rw [hv.parts]
    simp only [bind_eq_ok, orFail_eq_ok, ensure_eq_ok, pure_eq_ok]
    exact ⟨header, hv.headerRead, (), hv.alg, key, hv.keyFound, sig, hv.sigRead, (), hv.sigLength, (),
      hv.signature, c, hv.claims, (), hv.notExpired, (), hv.notEarly, (), hv.aud, (), hv.iss, (),
      ⟨hv.networkId, hv.networkUuid⟩, rfl⟩

/-! ### Ideal signatures -/

/-- Under every listed key, the only valid signatures are over what was issued
with that key: `issued` holds the key, the key id in the header, and the claims. -/
def Ideal (keys : List (String × K)) (issued : List (K × String × Claims)) : Prop :=
  ∀ key ∈ keys, ∀ m sig, verifyStrict key.2 m sig = true →
    ∃ c kid, (key.2, kid, c) ∈ issued ∧ m = signingInput codec c kid

theorem not_mem_of_mem_splitOn {α : Type} [BEq α] [LawfulBEq α] {x : α} {l part : List α}
    (h : part ∈ l.splitOn x) : x ∉ part := by
  induction l generalizing part with
  | nil =>
    rw [List.splitOn_nil, List.mem_singleton] at h
    simp [h]
  | cons a l ih =>
    rw [List.splitOn_cons_eq_if_modifyHead] at h
    split at h
    · rcases List.mem_cons.mp h with rfl | h
      · simp
      · exact ih h
    · rename_i hne
      cases hs : l.splitOn x with
      | nil => exact absurd hs (List.splitOn_ne_nil x l)
      | cons q qs =>
        rw [hs, List.modifyHead_cons] at h
        rcases List.mem_cons.mp h with rfl | h
        · have hq : x ∉ q := ih (by simp [hs])
          have hax : x ≠ a := fun e => hne (by simp [e])
          simp [hq, hax]
        · exact ih (by simp [hs, h])

theorem append_dot_inj {h' p' : Text} (hh : '.' ∉ h) (hh' : '.' ∉ h') (heq : h ++ '.' :: p = h' ++ '.' :: p') : h = h' ∧ p = p' := by
  have hsplit := congrArg (List.splitOn '.') heq
  rw [List.splitOn_append_cons_self_of_not_mem hh, List.splitOn_append_cons_self_of_not_mem hh',
    List.cons.injEq] at hsplit
  obtain ⟨rfl, -⟩ := hsplit
  exact ⟨rfl, List.cons.inj (List.append_cancel_left heq) |>.2⟩

variable {codec verifyStrict}

/-- A verified token's claims are exactly what was issued, under the key that
verified it and with the key id in its header; its second part is their text. -/
theorem Verified.issued (hv : Verified codec verifyStrict token keys expected now c h p s header key sig)
    {issued : List (K × String × Claims)} (hideal : Ideal codec verifyStrict keys issued) :
    key ∈ keys ∧ (key.2, key.1, c) ∈ issued ∧ p = codec.write c.toJson := by
  have hkey : key ∈ keys := List.mem_of_find?_eq_some hv.keyFound
  have hkid : key.1 = header.kid := by simpa using List.find?_some hv.keyFound
  obtain ⟨c₀, kid, hissued, hinput⟩ := hideal key hkey _ _ hv.signature
  have hdot : '.' ∉ h := not_mem_of_mem_splitOn (l := token) (by simp [hv.parts])
  obtain ⟨rfl, rfl⟩ := append_dot_inj hdot (codec.dot_not_mem_write _) hinput
  have hheader := hv.headerRead
  have hclaims := hv.claims
  rw [codec.read_write, bind_some, Header.ofJson_toJson, some.injEq] at hheader
  rw [codec.read_write, bind_some] at hclaims
  obtain rfl := Claims.eq_of_ofJson_toJson hclaims
  rw [hkid, ← hheader]
  exact ⟨hkey, hissued, rfl⟩

theorem Verified.peekNetwork (hv : Verified codec verifyStrict token keys expected now c h p s header key sig)
    (hp : p = codec.write c.toJson) : Credential.peekNetwork codec token = some c.networkId := by
  subst hp
  simp only [Credential.peekNetwork, peek, hv.parts, List.getElem?_cons_succ, List.getElem?_cons_zero,
    bind_some, codec.read_write]
  rfl

theorem Verified.peekNodeId (hv : Verified codec verifyStrict token keys expected now c h p s header key sig)
    (hp : p = codec.write c.toJson) : Credential.peekNodeId codec token = some c.nodeId := by
  have hclaims := hv.claims
  subst hp
  rw [codec.read_write, bind_some] at hclaims
  simp only [Credential.peekNodeId, peek, hv.parts, List.getElem?_cons_succ,
    List.getElem?_cons_zero, bind_some, codec.read_write]
  change (JsonValue.uint c.nodeId).asU32 = some c.nodeId
  rw [Claims.ofJson_toJson] at hclaims
  obtain ⟨nodeId, hnode, hrest⟩ := bind_eq_some_iff.mp hclaims
  simp only [bind_eq_bind, bind_eq_some_iff, pure_def, some.injEq] at hrest
  obtain ⟨_, _, _, _, _, _, hc⟩ := hrest
  rw [hnode, ← hc]

theorem verify_sign (hc : c.Fits) {kid : String} {signRaw : Text → List UInt8}
    (hkey : keys.find? (·.1 = kid) = some key) (hlen : (signRaw (signingInput codec c kid)).length = 64)
    (hsig : verifyStrict key.2 (signingInput codec c kid) (signRaw (signingInput codec c kid)))
    (hexp : now < satAdd c.exp leewaySecs) (hiat : c.iat ≤ satAdd now leewaySecs) (haud : c.aud = audience) :
    verify codec verifyStrict (sign codec c kid signRaw) keys ⟨c.iss, c.networkId, c.networkUuid⟩ now =
      .ok c := by
  refine (verify_eq_ok codec verifyStrict).mpr ⟨codec.write (Header.toJson ⟨"EdDSA", "JWT", kid⟩),
    codec.write c.toJson, codec.encode (signRaw (signingInput codec c kid)),
    ⟨"EdDSA", "JWT", kid⟩, key, signRaw (signingInput codec c kid), ?_, ?_, rfl, hkey,
    codec.decode_encode _, hlen, hsig, ?_, hexp, hiat, haud, rfl, rfl, rfl⟩
  · rw [sign, signingInput, List.append_assoc, List.cons_append,
      List.splitOn_append_cons_self_of_not_mem (codec.dot_not_mem_write _),
      List.splitOn_append_cons_self_of_not_mem (codec.dot_not_mem_write _),
      List.splitOn_eq_singleton (codec.dot_not_mem_encode _)]
  · rw [codec.read_write, bind_some, Header.ofJson_toJson]
  · rw [codec.read_write, bind_some, Claims.ofJson_toJson_of_fits hc]

end Credential

end Nqvpn
