import Nqvpn.BinarySearch
import Nqvpn.Credential
import Nqvpn.NetState

/-!
# Admission

Who gets a session: the coordinator admits control connections by
`verifyCredential`, a relay admits members by `Fleet.accept`. Both choose what to
verify against from claims nobody has checked yet. The main result is that this
choice has no influence: admission is what it would be had the verified claims
themselves been used.
-/

namespace Nqvpn

open Fallible

def issuer : String := "nqvpn-coord"

/-- What the coordinator consults at admission. -/
structure AppState (K : Type) where
  networks : Std.ExtTreeMap String NetState
  verifyingKeys : List (String × K)

inductive Refusal
  | refused (reason : String)
  /-- A newer join holds the identity. -/
  | replaced (reason : String)
deriving DecidableEq, Repr

variable {K : Type} (codec : TokenCodec) (verifyStrict : K → Text → List UInt8 → Bool)

namespace AppState

def verifyCredential (st : AppState K) (token : Text) (presentedFp : String) (now : Nat) :
    Except Refusal (Claims × String) := do
  let unverifiedNet ← orFail (Credential.peekNetwork codec token) (.refused "malformed credential")
  let ns ← orFail st.networks[unverifiedNet]? (.refused s!"unknown network {unverifiedNet}")
  ensure (ns.deleted = false) (.refused s!"network {ns.cfg.networkId} was deleted")
  let id := (Credential.peekNodeId codec token).getD 0
  let picked := ns.registry.members[id]?
  let claims ← (Credential.verify codec verifyStrict token st.verifyingKeys
    ⟨issuer, unverifiedNet, ns.registry.networkUuid⟩ now).mapError
      fun e => .refused s!"credential rejected: {e.text}"
  let record ← orFail picked (.refused s!"node {claims.nodeId} is unknown")
  -- The record was picked by the unverified node id; it must be the verified one's.
  ensure (record.nodeId = claims.nodeId) (.refused
    s!"credential node id {claims.nodeId} does not match its record {record.nodeId}")
  ensure (record.disabled = false) (.refused s!"node {claims.nodeId} is disabled")
  let origin := record.replacedFrom.getD "an unknown address"
  ensure (record.loginGen ≤ claims.loginGen) (.replaced
    (s!"node {claims.nodeId} ({claims.sub}) was replaced by a newer join from {origin} " ++
      s!"(credential login_gen {claims.loginGen} < {record.loginGen})"))
  ensure (claims.certFp = presentedFp) (.refused
    s!"cert_fp mismatch: credential says {claims.certFp}, TLS presented {presentedFp}")
  return (claims, unverifiedNet)

/-- What it takes to be admitted with claims `c`, said of `c` alone. -/
structure Admits (st : AppState K) (token : Text) (presentedFp : String) (now : Nat) (c : Claims)
    (ns : NetState) (record : MemberRecord) : Prop where
  network : st.networks[c.networkId]? = some ns
  notDeleted : ns.deleted = false
  verified : Credential.verify codec verifyStrict token st.verifyingKeys
    ⟨issuer, c.networkId, ns.registry.networkUuid⟩ now = .ok c
  known : ns.registry.members[c.nodeId]? = some record
  sameNode : record.nodeId = c.nodeId
  enabled : record.disabled = false
  current : record.loginGen ≤ c.loginGen
  possession : c.certFp = presentedFp

end AppState

/-! ### Relays -/

def Snapshot.member (s : Snapshot) (id : NodeId) : Option PeerInfo :=
  BinarySearch.search PeerInfo.nodeId s.members id

def noViewGrace : Nat := 20 * 10 ^ 9

inductive SessionRefusal
  | refused (reason : String)
  | staleLogin (reason : String)
deriving DecidableEq, Repr

/-- What a relay's network consults at admission. -/
structure RelayGate (K : Type) where
  networkId : String
  networkUuid : String
  myNodeId : NodeId
  keys : List (String × K)
  /-- The coordinator refuses this relay. -/
  refused : Bool
  /-- Another instance took this relay's place. -/
  retired : Bool
  view : Snapshot

namespace RelayGate

/-- The view's verdict on verified claims; `age` is the time since the relay set
this network up. -/
def vouch (gate : RelayGate K) (c : Claims) (age : Nat) : Except SessionRefusal Unit :=
  match gate.view.member c.nodeId with
  | some m => do
    ensure (m.loginGen ≤ c.loginGen)
      (.staleLogin s!"node {c.nodeId} was replaced by a newer join")
    ensure (m.role = c.role)
      (.refused s!"node {c.nodeId} is a {m.role.text} in the view, not a {c.role.text}")
    ensure (c.role ≠ .relay ∨ gate.view.relays.any (·.relayId = c.nodeId))
      (.refused s!"relay {c.nodeId} is not in the published fleet")
  | none => do
    ensure (gate.view.members = []) (.refused s!"node {c.nodeId} is not in the network view")
    ensure (age < noViewGrace) (.refused "no network view yet")

def verify (gate : RelayGate K) (token : Text) (presentedFp : String) (now age : Nat) :
    Except SessionRefusal Claims := do
  ensure (gate.keys ≠ []) (.refused "no coordinator signing keys yet")
  let claims ← (Credential.verify codec verifyStrict token gate.keys
    ⟨issuer, gate.networkId, gate.networkUuid⟩ now).mapError
      fun e => .refused s!"credential rejected: {e.text}"
  ensure (claims.certFp = presentedFp)
    (.refused s!"cert_fp mismatch: credential {claims.certFp} vs TLS {presentedFp}")
  ensure (claims.nodeId ≠ gate.myNodeId) (.refused "a member may not connect to itself")
  ensure (gate.refused = false) (.refused "this relay is currently refused by the coordinator")
  ensure (gate.retired = false) (.refused "this relay was replaced in this network")
  gate.vouch claims age
  return claims

end RelayGate

/-- The networks a relay serves, each under its own name. -/
structure Fleet (K : Type) where
  nets : Std.ExtTreeMap String (RelayGate K)
  named : ∀ (name : String) (gate : RelayGate K), nets[name]? = some gate → gate.networkId = name

namespace Fleet

/-- Accept a session: verify against the network the credential names, then hand
the session to the network its claims name. -/
def accept (fleet : Fleet K) (token : Text) (presentedFp : String) (now age : Nat) :
    Except SessionRefusal (Claims × RelayGate K) := do
  let network ← orFail (Credential.peekNetwork codec token) (.refused "malformed credential")
  let gate ← orFail fleet.nets[network]? (.refused s!"not serving network {network.quote}")
  let claims ← gate.verify codec verifyStrict token presentedFp now age
  let net ← orFail fleet.nets[claims.networkId]?
    (.refused s!"not serving network {claims.networkId.quote}")
  return (claims, net)

end Fleet

/-! ### The peeked claims are the verified ones -/

section Soundness

variable {codec verifyStrict} {c : Claims} {issued : List (K × String × Claims)} {token : Text} {now : Nat}

theorem Credential.verify_sound {keys : List (String × K)}
    (hideal : Credential.Ideal codec verifyStrict keys issued) {expected : Expected}
    (hv : Credential.verify codec verifyStrict token keys expected now = .ok c) :
    (∃ key ∈ keys, (key.2, key.1, c) ∈ issued) ∧
      Credential.peekNetwork codec token = some c.networkId ∧
      Credential.peekNodeId codec token = some c.nodeId ∧
      now < satAdd c.exp leewaySecs ∧ c.iat ≤ satAdd now leewaySecs ∧ c.aud = audience ∧
      c.iss = expected.iss ∧ c.networkId = expected.networkId ∧
      c.networkUuid = expected.networkUuid := by
  obtain ⟨h, p, s, header, key, sig, hv⟩ := (Credential.verify_eq_ok codec verifyStrict).mp hv
  obtain ⟨hkey, hissued, hp⟩ := hv.issued hideal
  exact ⟨⟨key, hkey, hissued⟩, hv.peekNetwork hp, hv.peekNodeId hp, hv.notExpired, hv.notEarly,
    hv.aud, hv.iss, hv.networkId, hv.networkUuid⟩

variable {presentedFp : String}

theorem AppState.verifyCredential_eq_ok {st : AppState K}
    (hideal : Credential.Ideal codec verifyStrict st.verifyingKeys issued) {network : String} :
    st.verifyCredential codec verifyStrict token presentedFp now = .ok (c, network) ↔
      network = c.networkId ∧
        ∃ ns record, st.Admits codec verifyStrict token presentedFp now c ns record := by
  constructor
  · intro hok
    simp only [verifyCredential, bind_eq_ok, orFail_eq_ok, ensure_eq_ok, mapError_eq_ok, pure_eq_ok,
      Prod.mk.injEq] at hok
    obtain ⟨net, -, ns, hns, -, hdeleted, claims, hverify, record, hpicked, -, hsame, -, henabled, -,
      hcurrent, -, hfp, rfl, rfl⟩ := hok
    obtain ⟨-, -, hnode, -, -, -, -, hnetId, -⟩ := Credential.verify_sound hideal hverify
    subst hnetId
    rw [hnode, Option.getD_some] at hpicked
    exact ⟨rfl, ns, record, hns, hdeleted, hverify, hpicked, hsame, henabled, hcurrent, hfp⟩
  · rintro ⟨rfl, ns, record, ha⟩
    obtain ⟨-, hnet, hnode, -⟩ := Credential.verify_sound hideal ha.verified
    simp only [verifyCredential, bind_eq_ok, orFail_eq_ok, ensure_eq_ok, mapError_eq_ok, pure_eq_ok]
    refine ⟨c.networkId, hnet, ns, ha.network, (), ha.notDeleted, c, ha.verified, record, ?_, (),
      ha.sameNode, (), ha.enabled, (), ha.current, (), ha.possession, rfl⟩
    rw [hnode]
    exact ha.known

/-- What a relay's verdict means: the claims are verified for this network and the
presented certificate, and the view, once there is one, lists the node. -/
theorem RelayGate.verify_eq_ok {gate : RelayGate K} {age : Nat}
    (hok : gate.verify codec verifyStrict token presentedFp now age = .ok c) :
    Credential.verify codec verifyStrict token gate.keys
        ⟨issuer, gate.networkId, gate.networkUuid⟩ now = .ok c ∧
      c.certFp = presentedFp ∧ gate.refused = false ∧ gate.retired = false ∧
      (gate.view.members ≠ [] → ∃ m ∈ gate.view.members, m.nodeId = c.nodeId ∧
        m.loginGen ≤ c.loginGen ∧ m.role = c.role ∧
          (c.role = .relay → ∃ r ∈ gate.view.relays, r.relayId = c.nodeId)) := by
  simp only [verify, bind_eq_ok, ensure_eq_ok, mapError_eq_ok, pure_eq_ok] at hok
  obtain ⟨-, -, claims, hverify, -, hfp, -, -, -, hrefused, -, hretired, _, hvouch, rfl⟩ := hok
  refine ⟨hverify, hfp, hrefused, hretired, fun hview => ?_⟩
  unfold vouch at hvouch
  split at hvouch
  · rename_i m hm
    obtain ⟨hmem, hid⟩ := BinarySearch.search_eq_some _ hm
    simp only [bind_eq_ok, ensure_eq_ok] at hvouch
    obtain ⟨-, hgen, -, hrole, hfleet⟩ := hvouch
    refine ⟨m, hmem, hid, hgen, hrole, fun hrelay => ?_⟩
    simpa [hrelay] using hfleet
  · simp only [bind_eq_ok, ensure_eq_ok] at hvouch
    obtain ⟨-, hempty, -⟩ := hvouch
    exact absurd hempty hview

theorem Fleet.accept_eq_ok {fleet : Fleet K}
    (hideal : ∀ (name : String) (gate : RelayGate K), fleet.nets[name]? = some gate →
      Credential.Ideal codec verifyStrict gate.keys issued)
    {age : Nat} {gate : RelayGate K} :
    fleet.accept codec verifyStrict token presentedFp now age = .ok (c, gate) ↔
      fleet.nets[c.networkId]? = some gate ∧
        gate.verify codec verifyStrict token presentedFp now age = .ok c := by
  constructor
  · intro hok
    simp only [accept, bind_eq_ok, orFail_eq_ok, pure_eq_ok, Prod.mk.injEq] at hok
    obtain ⟨network, hpeek, picked, hpicked, claims, hverify, net, hnet, rfl, rfl⟩ := hok
    have hsound := Credential.verify_sound (hideal network picked hpicked)
      (RelayGate.verify_eq_ok hverify).1
    have hname : network = claims.networkId := Option.some.inj (hpeek.symm.trans hsound.2.1)
    subst hname
    cases hpicked.symm.trans hnet
    exact ⟨hnet, hverify⟩
  · rintro ⟨hnet, hverify⟩
    have hsound := Credential.verify_sound (hideal _ gate hnet) (RelayGate.verify_eq_ok hverify).1
    simp only [accept, bind_eq_ok, orFail_eq_ok, pure_eq_ok]
    exact ⟨c.networkId, hsound.2.1, gate, hnet, c, hverify, gate, hnet, rfl⟩

/-- The coordinator signed exactly `c`, with one of `keys`, and `now` lies in its
window. -/
structure Vouched (keys : List (String × K)) (issued : List (K × String × Claims)) (c : Claims)
    (now : Nat) : Prop where
  signed : ∃ key ∈ keys, (key.2, key.1, c) ∈ issued
  notExpired : now < satAdd c.exp leewaySecs
  notEarly : c.iat ≤ satAdd now leewaySecs
  aud : c.aud = audience
  iss : c.iss = issuer

/-- With ideal signatures, the coordinator and a relay admit a token exactly when
its verified claims entitle it, whatever the unverified ones say, and then only
claims the coordinator signed for that network, certificate and time, of a node
that is known and current. -/
theorem admission_sound {issued : List (K × String × Claims)} :
    (∀ st : AppState K, Credential.Ideal codec verifyStrict st.verifyingKeys issued →
      ∀ token presentedFp now c network,
        (st.verifyCredential codec verifyStrict token presentedFp now = .ok (c, network) ↔
          network = c.networkId ∧
            ∃ ns record, st.Admits codec verifyStrict token presentedFp now c ns record) ∧
        (st.verifyCredential codec verifyStrict token presentedFp now = .ok (c, network) →
          Vouched st.verifyingKeys issued c now ∧ c.certFp = presentedFp ∧
          ∃ ns record, st.networks[network]? = some ns ∧ c.networkId = network ∧
            c.networkUuid = ns.registry.networkUuid ∧
            ns.registry.members[c.nodeId]? = some record ∧ record.nodeId = c.nodeId ∧
            record.disabled = false ∧ record.loginGen ≤ c.loginGen)) ∧
    (∀ fleet : Fleet K, (∀ (name : String) (gate : RelayGate K), fleet.nets[name]? = some gate →
        Credential.Ideal codec verifyStrict gate.keys issued) →
      ∀ token presentedFp now age c gate,
        (fleet.accept codec verifyStrict token presentedFp now age = .ok (c, gate) ↔
          fleet.nets[c.networkId]? = some gate ∧
            gate.verify codec verifyStrict token presentedFp now age = .ok c) ∧
        (fleet.accept codec verifyStrict token presentedFp now age = .ok (c, gate) →
          Vouched gate.keys issued c now ∧ c.certFp = presentedFp ∧
          c.networkId = gate.networkId ∧ c.networkUuid = gate.networkUuid ∧
          (gate.view.members ≠ [] → ∃ m ∈ gate.view.members, m.nodeId = c.nodeId ∧
            m.loginGen ≤ c.loginGen ∧ m.role = c.role ∧
            (c.role = .relay → ∃ r ∈ gate.view.relays, r.relayId = c.nodeId)))) := by
  refine ⟨fun st hideal token presentedFp now c network => ?_,
    fun fleet hideal token presentedFp now age c gate => ?_⟩
  · refine ⟨AppState.verifyCredential_eq_ok hideal, fun hok => ?_⟩
    obtain ⟨rfl, ns, record, ha⟩ := (AppState.verifyCredential_eq_ok hideal).mp hok
    obtain ⟨hsigned, -, -, hexp, hiat, haud, hiss, -, huuid⟩ :=
      Credential.verify_sound hideal ha.verified
    exact ⟨⟨hsigned, hexp, hiat, haud, hiss⟩, ha.possession, ns, record, ha.network, rfl, huuid,
      ha.known, ha.sameNode, ha.enabled, ha.current⟩
  · refine ⟨Fleet.accept_eq_ok hideal, fun hok => ?_⟩
    obtain ⟨hnet, hverify⟩ := (Fleet.accept_eq_ok hideal).mp hok
    obtain ⟨hverified, hfp, -, -, hview⟩ := RelayGate.verify_eq_ok hverify
    obtain ⟨hsigned, -, -, hexp, hiat, haud, hiss, hid, huuid⟩ :=
      Credential.verify_sound (hideal _ gate hnet) hverified
    exact ⟨⟨hsigned, hexp, hiat, haud, hiss⟩, hfp, hid, huuid, hview⟩

end Soundness

/-! ### An admitted member -/

namespace AdmissionExample

def claims : Claims where
  iss := issuer
  aud := audience
  networkId := "acme"
  networkUuid := "u"
  nodeId := 7
  sub := "laptop"
  role := .client
  pubkey := "pk"
  certFp := "fp"
  prefixes := []
  loginGen := 3
  iat := 100
  exp := 1000

def issued : List (Unit × String × Claims) := [((), "k", claims)]

def verifyIssued (_ : Unit) (m : Text) (_ : List UInt8) : Bool :=
  m = Credential.signingInput .numbering claims "k"

def token : Text := Credential.sign .numbering claims "k" fun _ => List.replicate 64 0

def record : MemberRecord := { Registry.newRecord 7 "laptop" .client 0 with loginGen := 2 }

def registry : Registry :=
  { Registry.new "u" with members := (∅ : Std.ExtTreeMap NodeId MemberRecord).insert 7 record }

def network : NetState :=
  NetState.new (fun _ => []) ⟨"acme", [], SettingsCfg.default, ∅, ∅⟩ registry ⟨none, none⟩ 0 0

def coordinator : AppState Unit where
  networks := (∅ : Std.ExtTreeMap String NetState).insert "acme" network
  verifyingKeys := [("k", ())]

theorem ideal_issued : Credential.Ideal .numbering verifyIssued coordinator.verifyingKeys issued := by
  intro key _ m sig hm
  exact ⟨claims, "k", List.mem_singleton.mpr rfl, of_decide_eq_true hm⟩

theorem verifyCredential_token {now : Nat} (hexp : now < 1120) (hiat : 100 ≤ satAdd now leewaySecs) :
    coordinator.verifyCredential .numbering verifyIssued token "fp" now = .ok (claims, "acme") := by
  have hverify : Credential.verify .numbering verifyIssued token coordinator.verifyingKeys
      ⟨issuer, "acme", "u"⟩ now = .ok claims :=
    Credential.verify_sign ⟨by decide, by decide, by decide, by decide⟩
      (show _ = some ("k", ()) from rfl) (by simp) (by simp [verifyIssued]) hexp hiat rfl
  exact (AppState.verifyCredential_eq_ok ideal_issued).mpr ⟨rfl, network, record,
    Std.ExtTreeMap.getElem?_insert_self, rfl, hverify, Std.ExtTreeMap.getElem?_insert_self, rfl, rfl,
    by decide, rfl⟩

end AdmissionExample

open AdmissionExample in
theorem admission_sound_laptop :
    coordinator.verifyCredential .numbering verifyIssued token "fp" 500 = .ok (claims, "acme") ∧
      Vouched coordinator.verifyingKeys issued claims 500 := by
  have hok := @verifyCredential_token 500 (by decide) (by decide)
  exact ⟨hok, ((admission_sound.1 coordinator ideal_issued token "fp" 500 claims "acme").2 hok).1⟩

end Nqvpn
