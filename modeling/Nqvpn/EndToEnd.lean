import Nqvpn.EngineLedger
import Nqvpn.TransitionSystem

/-!
# Engines on a hostile network

Any number of engines, and between them a network that belongs to the adversary.
It sees every frame and decides what is delivered to whom, when and how often; it
may deliver any bytes, except that a cryptographic message in them has to be one an
engine has sent, or one it can make with the static keys it holds. Engines come and
go: a restarted process is a new engine with the same key.

What an engine writes to its device as coming from a peer was sealed by an engine of
that peer, for this node and in this network, and no sealed packet is written twice,
whatever happens to the sessions in between.
-/

namespace Nqvpn

open SessionTable Engine RoutedHeader List

/-- A packet an engine wrote to its device. -/
structure Write where
  engine : Nat
  /-- The peer it is attributed to and the message it came in; none if the engine
  returned a packet of its own device. -/
  origin : Option (NodeId × Message)
  packet : Packet
  /-- The peer table at that moment. -/
  peers : PeerTable

/-- The engines, and the record of everything they did. -/
structure Net where
  engines : List Engine
  /-- The next ephemeral key to be drawn. -/
  next : Nat
  wire : List Message
  /-- The keys that an engine's peer table has ever held for a node. -/
  vouched : List (Nat × NodeId × Key)
  /-- Which engine sealed which packet, and for whom. -/
  sealed : List ((Nat × NodeId) × SealedPacket)
  written : List Write

inductive NetEvent
  | spawn (myNodeId : NodeId) (networkUuid : String) (key : Key) (peers : PeerTable) (mtu : Nat)
      (lanes : UInt8)
  | outbound (b : Nat) (packet : Packet) (now : Nat) (clock : Tai64n)
  | deliver (b : Nat) (datagram : Datagram) (now : Nat) (clock : Tai64n)
  | expire (b : Nat) (now : Nat)
  | reconcile (b : Nat) (kind : EndpointKind) (view : Snapshot) (exits : List (IpNet × NodeId))
  | setMine (b : Nat) (hosts nets : List IpNet)
  | setPolicy (b : Nat) (policy : RoutePolicy)
  | setTrace (b : Nat) (target : Option IpAddr)

def EngineEffect.message? : EngineEffect → Option Message
  | send f _ | sendCounted f _ => some f.message
  | _ => none

namespace Net

variable (codec : EngineCodec) (bad : Key → Bool)

def empty : Net := ⟨[], 0, [], [], [], []⟩

/-- The keys a table holds, on record for engine `b`. -/
def vouchedIn (b : Nat) (peers : PeerTable) : List (Nat × NodeId × Key) :=
  peers.peers.toList.filterMap fun x => (decodePubkey codec.base64 x.2.pubkey).map (b, x.1, ·)

/-- A message that can be on its way: sent before, or made with a key in the
adversary's hands. -/
def Known (st : Net) (m : Message) : Prop := m ∈ st.wire ∨ m.forgeable bad = true

instance decidableKnown (st : Net) (m : Message) : Decidable (st.Known bad m) :=
  inferInstanceAs (Decidable (_ ∨ _))

/-- Engine `b` makes a call. -/
def call (st : Net) (b : Nat) (e : Engine) (origin : Option (NodeId × Message))
    (result : Engine × List EngineEffect) : Net where
  engines := st.engines.set b result.1
  next := st.next + 1
  wire := result.2.filterMap EngineEffect.message? ++ st.wire
  vouched := vouchedIn codec b result.1.peers ++ st.vouched
  sealed := (sentPackets result.2).map (fun x => ((b, x.1), x.2)) ++ st.sealed
  written := (writtenPackets result.2).map (fun packet => ⟨b, origin, packet, e.peers⟩) ++ st.written

def originOf (datagram : Datagram) : Option (NodeId × Message) :=
  (parse datagram).bind fun h => (messageIn codec datagram).map (h.srcId, ·)

def step (st : Net) : NetEvent → Option Net
  | .spawn myNodeId networkUuid key peers mtu lanes =>
    some { st with
      engines := st.engines ++ [new myNodeId networkUuid key peers mtu lanes]
      vouched := vouchedIn codec st.engines.length peers ++ st.vouched }
  | .outbound b packet now clock =>
    st.engines[b]?.map fun e => st.call codec b e none (e.outbound codec packet ⟨now, clock, st.next⟩)
  | .deliver b datagram now clock =>
    if ∀ m ∈ messageIn codec datagram, st.Known bad m then
      st.engines[b]?.map fun e =>
        st.call codec b e (originOf codec datagram) (e.inbound codec datagram ⟨now, clock, st.next⟩)
    else none
  | .expire b now => st.engines[b]?.map fun e => st.call codec b e none (e.expireSessions now)
  | .reconcile b kind view exits =>
    st.engines[b]?.map fun e => st.call codec b e none (e.reconcile codec kind view exits, [])
  | .setMine b hosts nets =>
    st.engines[b]?.map fun e =>
      st.call codec b e none ({ e with peers := e.peers.setMine hosts nets }, [])
  | .setPolicy b policy =>
    st.engines[b]?.map fun e =>
      st.call codec b e none ({ e with peers := e.peers.setPolicy policy }, [])
  | .setTrace b target => st.engines[b]?.map fun e => st.call codec b e none (e.setTrace target, [])

def system : TransitionSystem Net NetEvent where
  Initial st := st = empty
  step := step codec bad

variable {st' : Net} {event : NetEvent} {a : NodeId} {c : SealedPacket} {origin : Option (NodeId × Message)}
  {result : Engine × List EngineEffect} {opens : List (NodeId × SealedPacket)} {vouched : NodeId → Key → Prop}
  {B : Engine} {f : OutFrame}

variable {codec bad} in
theorem reachable_step {st : Net} (h : (system codec bad).Reachable st)
    (hstep : st.step codec bad event = some st') : (system codec bad).Reachable st' :=
  h.of_step hstep

/-! ### The ledger of all engines -/

/-- The sessions engine `i.1` holds for peer `i.2`. -/
def live (st : Net) (i : Nat × NodeId) : List PairSession :=
  st.engines[i.1]?.elim [] fun e => e.sessions.slotsOf i.2

/-- Which sessions engine `i.1` may ever have had with peer `i.2`. -/
def May (st : Net) (i : Nat × NodeId) (initiator : Bool) (first : Initiation) : Prop :=
  ∃ e, st.engines[i.1]? = some e ∧ e.Binds (fun a key => (i.1, a, key) ∈ st.vouched) i.2 initiator first

def stamp (w : Write) : Option ((Nat × NodeId) × Message) := w.origin.map fun o => ((w.engine, o.1), o.2)

/-- `L` is what the engines have done to their sessions. -/
structure Accounts (st : Net) (L : Ledger (Nat × NodeId)) : Prop where
  live : L.live = st.live
  next : L.next = st.next
  sealed : L.sealed.Perm st.sealed
  inv : L.Inv st.May
  known : ∀ x ∈ L.opened, st.Known bad (.sealed x.2)
  written : (st.written.filterMap stamp).Sublist (L.opened.map fun x => (x.1, .sealed x.2))

structure Inv (st : Net) : Prop where
  accounts : ∃ L, st.Accounts bad L
  onWire : ∀ c, .sealed c ∈ st.wire → ∃ i, (i, c) ∈ st.sealed
  vouches : ∀ b e a key, st.engines[b]? = some e → e.Knows codec a key → (b, a, key) ∈ st.vouched
  filtered : ∀ w ∈ st.written, ∀ a m, w.origin = some (a, m) → w.peers.checkIngress a w.packet = .accept ∧
    ∃ c, m = .sealed c ∧ c.plaintext = w.packet

variable {codec bad} {st : Net} {b : Nat} {e : Engine}

theorem mem_vouchedIn {peers : PeerTable} {key : Key} (h : peers.pubkeyOf codec.base64 a = some key) : (b, a, key) ∈ vouchedIn codec b peers := by
  obtain ⟨p, hp, hkey⟩ := Option.bind_eq_some_iff.mp h
  refine mem_filterMap.mpr ⟨(a, p), Std.ExtTreeMap.mem_toList_iff_getElem?_eq_some.mpr hp, ?_⟩
  rw [hkey]
  rfl

theorem sealed_mem_sentPackets {effects : List EngineEffect}
    (h : .sealed c ∈ effects.filterMap EngineEffect.message?) : ∃ a, (a, c) ∈ sentPackets effects := by
  obtain ⟨effect, heffect, hmessage⟩ := mem_filterMap.mp h
  have hsent (f : OutFrame) (lane : UInt8) (hf : f.message = .sealed c)
      (hs : effect.sealed? = (EngineEffect.send f lane).sealed?) :
      ∃ a, (a, c) ∈ sentPackets effects := by
    rw [EngineEffect.sealed?, hf] at hs
    exact ⟨f.header.dstId, mem_filterMap.mpr ⟨effect, heffect, hs⟩⟩
  cases effect with
  | send f lane | sendCounted f lane => exact hsent f lane (Option.some.inj hmessage) rfl
  | tunWrite packet | count counter => cases hmessage

theorem May.mono
    (hengines : ∀ (k : Nat) (e : Engine), st.engines[k]? = some e → ∃ e', st'.engines[k]? = some e' ∧ e'.identity = e.identity)
    (hvouched : st.vouched ⊆ st'.vouched) {i : Nat × NodeId} {role : Bool} {first : Initiation}
    (h : st.May i role first) : st'.May i role first := by
  obtain ⟨e, he, hbinds⟩ := h
  obtain ⟨e', he', hid⟩ := hengines i.1 e he
  exact ⟨e', he', hbinds.mono hid fun key hk => hvouched hk⟩

theorem live_set (he : st.engines[b]? = some e) (e' : Engine) (i : Nat × NodeId) :
    (st.engines.set b e')[i.1]?.elim [] (fun e => e.sessions.slotsOf i.2) =
      if i.1 = b then e'.sessions.slotsOf i.2 else st.live i := by
  have hlt : b < st.engines.length := (List.getElem?_eq_some_iff.mp he).1
  by_cases hi : i.1 = b
  · rw [if_pos hi, hi, List.getElem?_set_self hlt]
    rfl
  · rw [if_neg hi, List.getElem?_set_ne (Ne.symm hi)]
    rfl

theorem live_concat {e : Engine} (hnew : e.sessions = .default) (i : Nat × NodeId) :
    st.live i = (st.engines ++ [e])[i.1]?.elim [] (fun e => e.sessions.slotsOf i.2) := by
  rw [live]
  rcases Nat.lt_trichotomy i.1 st.engines.length with hlt | heq | hgt
  · rw [getElem?_append_left hlt]
  · rw [heq, getElem?_concat_length, getElem?_eq_none le_rfl]
    simp [hnew, SessionTable.slotsOf, SessionTable.default]
  · rw [getElem?_eq_none hgt.le, getElem?_eq_none (by simpa using hgt)]

theorem Accounts.call {L : Ledger (Nat × NodeId)} (h : st.Accounts bad L)
    (hvouches : ∀ b e a key, st.engines[b]? = some e → e.Knows codec a key → (b, a, key) ∈ st.vouched)
    (he : st.engines[b]? = some e) (hid : result.1.identity = e.identity)
    (hacts : Acts (e.Binds (e.Knows codec)) st.next e.sessions result.1.sessions (sentPackets result.2) opens)
    (hknown : ∀ x ∈ opens, st.Known bad (.sealed x.2))
    (hwritten : (((writtenPackets result.2).map fun packet => Write.mk b origin packet e.peers).filterMap stamp).Sublist (opens.map fun x => ((b, x.1), .sealed x.2))) :
    ∃ L', (st.call codec b e origin result).Accounts bad L' := by
  have hlt : b < st.engines.length := (List.getElem?_eq_some_iff.mp he).1
  obtain ⟨sealed', hsteps, hperm⟩ := hacts [] []
  have hmay : ∀ i role first, st.May i role first →
      (st.call codec b e origin result).May i role first := by
    refine fun i role first => May.mono (fun k e₀ hk => ?_) (List.subset_append_right _ _)
    by_cases hkb : k = b
    · subst hkb
      rw [he, Option.some.injEq] at hk
      exact ⟨result.1, List.getElem?_set_self hlt, hk ▸ hid⟩
    · exact ⟨e₀, by rw [← hk]; exact List.getElem?_set_ne (Ne.symm hkb), rfl⟩
  have hok : ∀ a role first, e.Binds (e.Knows codec) a role first →
      (st.call codec b e origin result).May (b, a) role first := fun a role first hbinds =>
    hmay _ _ _ ⟨e, he, hbinds.mono rfl fun key hk => hvouches b e a key he hk⟩
  have hstart : (e.sessions.ledger st.next [] []).among b st.live L.sealed L.opened = L := by
    have hlive : (fun i : Nat × NodeId => if i.1 = b then e.sessions.slotsOf i.2 else st.live i) =
        L.live := by
      rw [h.live]
      funext i
      split_ifs with hi
      · rw [Net.live, hi, he]
        rfl
      · rfl
    simp [Ledger.among, ledger, hlive, ← h.next]
  have hinv := (h.inv.mono hmay).steps (hstart ▸ hsteps.among hok)
  refine ⟨_, ⟨?_, rfl, ?_, hinv, ?_, ?_⟩⟩
  · funext i
    exact (live_set he result.1 i).symm
  · rw [List.append_nil] at hperm
    exact (hperm.map _).append h.sealed
  · intro x hx
    have hold : st.Known bad (.sealed x.2) := by
      rcases List.mem_append.mp hx with hx | hx
      · rw [List.append_nil] at hx
        obtain ⟨y, hy, rfl⟩ := List.mem_map.mp hx
        exact hknown y hy
      · exact h.known x hx
    exact hold.imp_left (List.mem_append_right _)
  · rw [Net.call, List.filterMap_append, Ledger.among, ledger]
    simp only [List.append_nil, List.map_append, List.map_map]
    exact hwritten.append h.written

/-- A call of one engine that opens only what can be on its way, and writes only what
it opened and let through. -/
theorem Inv.call (h : st.Inv codec bad) (he : st.engines[b]? = some e) (hid : result.1.identity = e.identity)
    (hacts : Acts (e.Binds (e.Knows codec)) st.next e.sessions result.1.sessions (sentPackets result.2) opens)
    (hknown : ∀ x ∈ opens, st.Known bad (.sealed x.2))
    (hwritten : origin = none ∨ writtenPackets result.2 = [] ∨ ∃ a c, origin = some (a, .sealed c) ∧ opens = [(a, c)] ∧ writtenPackets result.2 = [c.plaintext] ∧ e.peers.checkIngress a c.plaintext = .accept) :
    (st.call codec b e origin result).Inv codec bad := by
  have hlt : b < st.engines.length := (List.getElem?_eq_some_iff.mp he).1
  obtain ⟨L, hL⟩ := h.accounts
  refine ⟨hL.call h.vouches he hid hacts hknown ?_, fun c hc => ?_, fun k e₀ a key hk hknows => ?_,
    fun w hw a m ho => ?_⟩
  · rcases hwritten with rfl | hnone | ⟨a, c, rfl, rfl, hpackets, -⟩
    · have hstamps : ((writtenPackets result.2).map fun packet =>
          Write.mk b none packet e.peers).filterMap stamp = [] := by
        rw [List.filterMap_map]
        exact List.filterMap_eq_nil_iff.mpr fun packet _ => rfl
      rw [hstamps]
      exact List.nil_sublist _
    · rw [hnone]
      exact List.nil_sublist _
    · rw [hpackets]
      exact List.Sublist.refl _
  · rcases List.mem_append.mp hc with hc | hc
    · obtain ⟨a, ha⟩ := sealed_mem_sentPackets hc
      exact ⟨(b, a), List.mem_append_left _ (List.mem_map.mpr ⟨(a, c), ha, rfl⟩)⟩
    · obtain ⟨i, hi⟩ := h.onWire c hc
      exact ⟨i, List.mem_append_right _ hi⟩
  · by_cases hkb : k = b
    · subst hkb
      have hk' : some result.1 = some e₀ := (List.getElem?_set_self hlt).symm.trans hk
      cases hk'
      exact List.mem_append_left _ (mem_vouchedIn hknows)
    · have hk' : st.engines[k]? = some e₀ := (List.getElem?_set_ne (Ne.symm hkb)).symm.trans hk
      exact List.mem_append_right _ (h.vouches k e₀ a key hk' hknows)
  · rcases List.mem_append.mp hw with hw | hw
    · obtain ⟨packet, hpacket, rfl⟩ := List.mem_map.mp hw
      rcases hwritten with rfl | hnone | ⟨a', c, rfl, rfl, hpackets, haccept⟩
      · cases ho
      · rw [hnone] at hpacket
        cases hpacket
      · rw [hpackets, List.mem_singleton] at hpacket
        cases ho
        subst hpacket
        exact ⟨haccept, c, rfl, rfl⟩
    · exact h.filtered w hw a m ho

theorem Inv.empty : (empty).Inv codec bad where
  accounts := ⟨⟨fun _ => [], 0, [], []⟩, rfl, rfl, Perm.refl _, ⟨⟨by simp, by simp, by simp,
    by simp⟩, by simp, by simp, by simp, by simp, by simp, by simp, by simp, by simp⟩, by simp,
    Sublist.refl _⟩
  onWire _ h := (nomatch h)
  vouches _ _ _ _ h := (nomatch h)
  filtered _ h := (nomatch h)

theorem Inv.spawn (h : st.Inv codec bad) (myNodeId : NodeId) (networkUuid : String) (key : Key)
    (peers : PeerTable) (mtu : Nat) (lanes : UInt8) : Inv codec bad { st with
      engines := st.engines ++ [new myNodeId networkUuid key peers mtu lanes]
      vouched := vouchedIn codec st.engines.length peers ++ st.vouched } := by
  set st' : Net := { st with
    engines := st.engines ++ [new myNodeId networkUuid key peers mtu lanes]
    vouched := vouchedIn codec st.engines.length peers ++ st.vouched } with hst'
  have hengines {k : Nat} {e : Engine} (hk : st'.engines[k]? = some e) :
      st.engines[k]? = some e ∨ k = st.engines.length ∧ e = .new myNodeId networkUuid key peers mtu lanes := by
    rcases Nat.lt_trichotomy k st.engines.length with hlt | rfl | hgt
    · exact .inl ((List.getElem?_append_left hlt).symm.trans hk)
    · simp only [hst', List.getElem?_concat_length, Option.some.injEq] at hk
      exact .inr ⟨rfl, hk.symm⟩
    · have hlen : st'.engines.length ≤ k := by simpa [hst'] using hgt
      rw [List.getElem?_eq_none hlen] at hk
      cases hk
  obtain ⟨L, hL⟩ := h.accounts
  refine ⟨⟨L, ⟨?_, hL.next, hL.sealed, hL.inv.mono fun i role first => May.mono (fun k e hk => ?_)
    (List.subset_append_right _ _), hL.known, hL.written⟩⟩, h.onWire, fun k e a key' hk hknows => ?_,
    h.filtered⟩
  · rw [hL.live]
    funext i
    exact live_concat rfl i
  · have hlt : k < st.engines.length := (List.getElem?_eq_some_iff.mp hk).1
    exact ⟨e, (List.getElem?_append_left hlt).trans hk, rfl⟩
  · rcases hengines hk with hold | ⟨rfl, rfl⟩
    · exact List.mem_append_right _ (h.vouches k e a key' hold hknows)
    · exact List.mem_append_left _ (mem_vouchedIn hknows)

theorem Inv.deliver (h : st.Inv codec bad) (he : st.engines[b]? = some e) {datagram : Datagram}
    (hsent : ∀ m ∈ messageIn codec datagram, st.Known bad m) (now : Nat) (clock : Tai64n) :
    (st.call codec b e (originOf codec datagram)
      (e.inbound codec datagram ⟨now, clock, st.next⟩)).Inv codec bad := by
  obtain ⟨opens, hacts, hopens, hwritten⟩ := e.acts_inbound codec datagram ⟨now, clock, st.next⟩
  refine h.call he (e.same_inbound codec datagram _).1 hacts (fun x hx => ?_) ?_
  · exact hsent _ (hopens x hx)
  · rcases hwritten with hnone | ⟨hdr, c, hparse, hop, hmsg, hpackets, haccept⟩
    · exact .inr (.inl hnone)
    · refine .inr (.inr ⟨hdr.srcId, c, ?_, hop, hpackets, haccept⟩)
      simp [originOf, hparse, hmsg]

theorem Inv.step (h : st.Inv codec bad) (hstep : st.step codec bad event = some st') : st'.Inv codec bad := by
  -- Settings and views may drop sessions but do nothing with them.
  have hsettled {b : Nat} {e e' : Engine} (he : st.engines[b]? = some e) (hid : e'.identity = e.identity)
      (hquiet : Quiet (e.Binds (e.Knows codec)) e.sessions e'.sessions []) :
      (st.call codec b e none (e', [])).Inv codec bad :=
    h.call he hid hquiet.acts (by simp) (.inl rfl)
  cases event with
  | spawn myNodeId networkUuid key peers mtu lanes =>
    cases hstep
    exact h.spawn myNodeId networkUuid key peers mtu lanes
  | outbound b packet now clock =>
    obtain ⟨e, he, rfl⟩ := Option.map_eq_some_iff.mp hstep
    exact h.call he (e.same_outbound codec packet _).1
      (e.acts_outbound codec packet ⟨now, clock, st.next⟩) (by simp) (.inl rfl)
  | deliver b datagram now clock =>
    simp only [Net.step] at hstep
    split_ifs at hstep with hsent
    obtain ⟨e, he, rfl⟩ := Option.map_eq_some_iff.mp hstep
    exact h.deliver he hsent now clock
  | expire b now =>
    obtain ⟨e, he, rfl⟩ := Option.map_eq_some_iff.mp hstep
    refine h.call he rfl (Quiet.acts ?_) (by simp) (.inl rfl)
    have hnone : sentPackets (e.expireSessions now).2 = [] :=
      filterMap_eq_nil_iff.mpr (by simp [expireSessions, EngineEffect.sealed?])
    rw [hnone]
    exact e.quiet_expireSessions now
  | reconcile b kind view exits =>
    obtain ⟨e, he, rfl⟩ := Option.map_eq_some_iff.mp hstep
    exact hsettled he (e.identity_reconcile codec kind view exits)
      (e.quiet_reconcile codec kind view exits)
  | setMine b hosts nets | setPolicy b policy | setTrace b target =>
    obtain ⟨e, he, rfl⟩ := Option.map_eq_some_iff.mp hstep
    exact hsettled he rfl (.of_eq rfl)

theorem inv_of_reachable (h : (system codec bad).Reachable st) : st.Inv codec bad :=
  h.invariant (fun _ hinit => hinit ▸ Inv.empty) fun _ _ _ hinv hstep => hinv.step hstep

/-! ### What a run guarantees -/

theorem Binds.agree {vouched' : NodeId → Key → Prop} {A : Engine} {d : NodeId}
    (hA : A.Binds vouched d c.fromInitiator c.transcript.first)
    (hB : B.Binds vouched' a (!c.fromInitiator) c.transcript.first) :
    A.myNodeId = a ∧ d = B.myNodeId ∧ A.networkUuid = B.networkUuid ∧ vouched' a A.key := by
  cases hrole : c.fromInitiator with
  | true =>
    rw [hrole] at hA hB
    obtain ⟨hkey, hpro, -⟩ := hA
    obtain ⟨-, hpro', hvouched⟩ := hB
    obtain ⟨huuid, hinit, hresp⟩ := (Prologue.mk.injEq ..).mp (hpro.symm.trans hpro')
    exact ⟨hinit, hresp, huuid, hkey ▸ hvouched⟩
  | false =>
    rw [hrole] at hA hB
    obtain ⟨hkey, hpro, -⟩ := hA
    obtain ⟨-, hpro', hvouched⟩ := hB
    obtain ⟨huuid, hinit, hresp⟩ := (Prologue.mk.injEq ..).mp (hpro.symm.trans hpro')
    exact ⟨hresp, hinit, huuid, hkey ▸ hvouched⟩

theorem Binds.not_forgeable (hB : B.Binds vouched a (!c.fromInitiator) c.transcript.first)
    (hkey : bad B.key = false) (hvouched : ∀ key, vouched a key → bad key = false) :
    (NoiseIK.Message.sealed c).forgeable bad = false := by
  cases hrole : c.fromInitiator with
  | true | false =>
    rw [hrole] at hB
    simp [NoiseIK.Message.forgeable, NoiseIK.Message.first, hB.1, hkey, hvouched _ hB.2.2]

/-- In every state the engines and the adversary can reach: no packet is sealed twice
and none is written twice; a packet written as coming from `a` has a source that `a`
owned and a destination that was the engine's own; and if the adversary holds neither
the engine's key nor one that was ever vouched to it for `a`, then an engine of node
`a` in the same network sealed the packet for this node. -/
theorem delivery_authentic_and_once (h : (system codec bad).Reachable st) :
    (st.sealed.map (·.2)).Nodup ∧ (st.written.filterMap fun w => w.origin.map (·.2)).Nodup ∧
      ∀ w ∈ st.written, ∀ a m, w.origin = some (a, m) →
        (∃ src dst, w.packet.parseInnerAddrs = some (src, dst) ∧ w.peers.ownerOf src = some a ∧
          w.peers.owns dst = true) ∧
        ∃ B, st.engines[w.engine]? = some B ∧ (bad B.key = false →
          (∀ key, (w.engine, a, key) ∈ st.vouched → bad key = false) →
          ∃ k A c, st.engines[k]? = some A ∧ A.myNodeId = a ∧ A.networkUuid = B.networkUuid ∧
            (w.engine, a, A.key) ∈ st.vouched ∧ ((k, B.myNodeId), c) ∈ st.sealed ∧
            m = .sealed c ∧ c.plaintext = w.packet) := by
  obtain ⟨⟨L, hL⟩, honWire, -, hfiltered⟩ := inv_of_reachable h
  refine ⟨(hL.sealed.map _).nodup_iff.mp hL.inv.sealedOnce, ?_, fun w hw a m ho => ?_⟩
  · have hmessages : (L.opened.map fun x => (.sealed x.2 : Message)).Nodup := by
      have := hL.inv.openedOnce.map (f := fun c => (.sealed c : Message)) fun c c' hc => by
        cases hc
        rfl
      rwa [map_map] at this
    have hstamp : (fun w : Write => w.origin.map (·.2)) = fun w => (stamp w).map (·.2) := by
      funext w
      rw [stamp, Option.map_map]
      rfl
    have hsub := hL.written.map (·.2)
    rw [map_map, map_filterMap, ← hstamp] at hsub
    exact hmessages.sublist hsub
  · obtain ⟨haccept, c, rfl, hpacket⟩ := hfiltered w hw a m ho
    refine ⟨PeerTable.checkIngress_eq_accept.mp haccept, ?_⟩
    have hopened : ((w.engine, a), c) ∈ L.opened := by
      have hin := hL.written.subset (mem_filterMap.mpr ⟨w, hw, by rw [stamp, ho]; rfl⟩)
      obtain ⟨⟨i, c'⟩, hx, hxe⟩ := mem_map.mp hin
      simp only [Prod.mk.injEq, NoiseIK.Message.sealed.injEq] at hxe
      obtain ⟨rfl, rfl⟩ := hxe
      exact hx
    obtain ⟨B, hB, hbinds⟩ := hL.inv.openedBound _ hopened
    refine ⟨B, hB, fun hkey hvouched => ?_⟩
    have hsent : NoiseIK.Message.sealed c ∈ st.wire := by
      rcases hL.known _ hopened with hwire | hforged
      · exact hwire
      · rw [Binds.not_forgeable hbinds hkey hvouched] at hforged
        cases hforged
    obtain ⟨⟨k, d⟩, hsealed⟩ := honWire c hsent
    obtain ⟨A, hA, hbindsA⟩ := hL.inv.sealedBound _ (hL.sealed.mem_iff.mpr hsealed)
    obtain ⟨hnode, rfl, huuid, hvouchedA⟩ := Binds.agree hbindsA hbinds
    exact ⟨k, A, c, hA, hnode, huuid, hvouchedA, hsealed, rfl, hpacket⟩

/-! ### Honest delivery -/

/-- A frame as engines send them: a handshake message, or a packet with its counter. -/
def FrameFits (f : OutFrame) : Prop :=
  f.header.Fits ∧ (f.header.kind = tHandshake ↔ f.ctr = none) ∧ ∀ ctr ∈ f.ctr, ctr < 2 ^ 64

instance (h : RoutedHeader) : Decidable h.Fits := inferInstanceAs (Decidable (_ ∧ _))

instance : Decidable (FrameFits f) := inferInstanceAs (Decidable (_ ∧ _))

theorem drop_bytes (f : OutFrame) : (f.bytes codec.message).drop routedHeaderLen =
    f.ctr.elim [] (BigEndian.toBytes 8) ++ codec.message.write f.message :=
  drop_left' f.header.length_write

theorem messageIn_bytes (hf : FrameFits f) :
    messageIn codec (f.bytes codec.message) = some f.message := by
  obtain ⟨hfits, hkind, -⟩ := hf
  rw [messageIn, drop_bytes, OutFrame.bytes, parse_write_append hfits]
  cases hctr : f.ctr with
  | none => simp [hkind.mpr hctr, codec.message.read_write]
  | some ctr =>
    have hdata : f.header.kind ≠ tHandshake := fun h => by simp [hkind.mp h] at hctr
    simp [hdata, codec.message.read_write]

def receive (codec : EngineCodec) (e : Engine) (f : OutFrame) (r : Reading) : Engine × List EngineEffect :=
  match f.ctr with
  | none => e.onHandshake codec f.header.srcId (some f.message) r
  | some ctr => e.onData f.header.srcId ctr (some f.message) r.now

theorem inbound_bytes (hf : FrameFits f) (hdst : f.header.dstId = e.myNodeId) (r : Reading) : e.inbound codec (f.bytes codec.message) r = receive codec e f r := by
  obtain ⟨hfits, hkind, hctr⟩ := hf
  have hparse : parse (f.bytes codec.message) = some f.header :=
    parse_write_append hfits _
  have hnote := head?_ne_note hparse
  simp only [inbound, if_neg hnote, hparse, hdst, ne_eq, not_true, if_false, drop_bytes]
  cases hc : f.ctr with
  | none => simp [receive, hc, hkind.mpr hc, codec.message.read_write]
  | some ctr =>
    have hdata : f.header.kind ≠ tHandshake := fun h => by simp [hkind.mp h] at hc
    have hlt : ctr < 256 ^ 8 := hctr ctr hc
    simp [receive, hc, hdata, codec.message.read_write, BigEndian.ofBytes_toBytes hlt]

theorem step_deliver_bytes (hf : FrameFits f) (he : st.engines[b]? = some e)
    (hdst : f.header.dstId = e.myNodeId) (hsent : f.message ∈ st.wire) {now : Nat} {clock : Tai64n}
    (hresult : receive codec e f ⟨now, clock, st.next⟩ = result) :
    st.step codec bad (.deliver b (f.bytes codec.message) now clock) =
      some (st.call codec b e (some (f.header.srcId, f.message)) result) := by
  have hmessage : messageIn codec (f.bytes codec.message) = some f.message := messageIn_bytes hf
  have hknown : ∀ m ∈ messageIn codec (f.bytes codec.message), st.Known bad m := by
    rw [hmessage]
    rintro m ⟨⟩
    exact .inl hsent
  have horigin : originOf codec (f.bytes codec.message) = some (f.header.srcId, f.message) := by
    rw [originOf, hmessage, OutFrame.bytes, parse_write_append hf.1]
    rfl
  rw [Net.step, if_pos hknown, he, Option.map_some, horigin, inbound_bytes hf hdst, hresult]

namespace DeliveryExample

def keyA : Key := replicate 32 1
def keyB : Key := replicate 32 2

def numbering : EngineCodec := ⟨fun text => some (if text = "a" then keyA else keyB), .numbering⟩

def addrA : IpAddr := .v4 0x0a000001#32
def addrB : IpAddr := .v4 0x0a000002#32

def members : List PeerInfo :=
  [⟨1, "a", .client, [.host addrA], "a", true, 0⟩, ⟨2, "b", .client, [.host addrB], "b", true, 0⟩]

def table (id : NodeId) (host : IpNet) : PeerTable :=
  ((PeerTable.new id).setMine [host] []).replaceAll members

def nodeA : Engine := .new 1 "u" keyA (table 1 (.host addrA)) 1500 1
def nodeB : Engine := .new 2 "u" keyB (table 2 (.host addrB)) 1500 1

def packet : Packet := [0x45, 0, 0, 20, 0, 0, 0, 0, 64, 17, 0, 0, 10, 0, 0, 1, 10, 0, 0, 2]

def first : Initiation := ⟨keyA, keyB, ⟨"u", 1, 2⟩, Tai64n.toBytes ⟨100, 0⟩, 0⟩
def sealedPacket : SealedPacket := ⟨⟨first, 1⟩, true, 0, packet⟩

def initiationFrame : OutFrame := ⟨.new tHandshake 1 2 packet.traceId, none, .initiation first⟩
def replyFrame : OutFrame := ⟨.new tHandshake 2 1 0, none, .reply ⟨first, 1⟩⟩
def dataFrame : OutFrame := ⟨.new tData 1 2 packet.traceId, some 0, .sealed sealedPacket⟩

def reading (ephemeral : Nat) : Reading := ⟨100, ⟨100, 0⟩, ephemeral⟩

def initiated := nodeA.outbound numbering packet (reading 0)
def answered := nodeB.onHandshake numbering 1 (some (.initiation first)) (reading 1)
def completed := initiated.1.onHandshake numbering 2 (some (.reply ⟨first, 1⟩)) (reading 2)
def arrived := answered.1.onData 1 0 (some (.sealed sealedPacket)) 100

def spawned : Net :=
  ⟨[nodeA, nodeB], 0, [],
    vouchedIn numbering 1 nodeB.peers ++ (vouchedIn numbering 0 nodeA.peers ++ []), [], []⟩

def initiatedNet : Net := spawned.call numbering 0 nodeA none initiated
def answeredNet : Net := initiatedNet.call numbering 1 nodeB (some (1, .initiation first)) answered
def completedNet : Net :=
  answeredNet.call numbering 0 initiated.1 (some (2, .reply ⟨first, 1⟩)) completed
def arrivedNet : Net := completedNet.call numbering 1 answered.1 (some (1, .sealed sealedPacket)) arrived

theorem reach_deliver {st : Net} {b : Nat} {e : Engine} (h : (system numbering fun _ => false).Reachable st)
    (f : OutFrame) (he : st.engines[b]? = some e)
    (hf : FrameFits f ∧ f.header.dstId = e.myNodeId ∧ f.message ∈ st.wire) :
    (system numbering fun _ => false).Reachable (st.call numbering b e (some (f.header.srcId, f.message))
      (receive numbering e f (reading st.next))) :=
  reachable_step h (step_deliver_bytes hf.1 he hf.2.1 hf.2.2 rfl)

theorem reachable_arrivedNet : (system numbering fun _ => false).Reachable arrivedNet := by
  have hempty : (system numbering fun _ => false).Reachable empty :=
    TransitionSystem.Reachable.of_initial rfl
  have hspawned := (hempty.of_step (e := .spawn 1 "u" keyA nodeA.peers 1500 1) rfl).of_step
    (e := .spawn 2 "u" keyB nodeB.peers 1500 1) rfl
  have hinitiated : (system numbering fun _ => false).Reachable initiatedNet :=
    hspawned.of_step (e := .outbound 0 packet 100 ⟨100, 0⟩) rfl
  have hanswered : (system numbering fun _ => false).Reachable answeredNet :=
    reach_deliver hinitiated (b := 1) initiationFrame rfl (by decide +kernel)
  have hcompleted : (system numbering fun _ => false).Reachable completedNet :=
    reach_deliver hanswered (b := 0) replyFrame rfl (by decide +kernel)
  exact reach_deliver hcompleted (b := 1) dataFrame rfl (by decide +kernel)

end DeliveryExample

open DeliveryExample in
/-- Node 2 has written the packet of node 1, once. -/
theorem delivery_authentic_and_once_packet :
    (system numbering fun _ => false).Reachable arrivedNet ∧
      arrivedNet.written.map (·.origin) = [some (1, .sealed sealedPacket)] ∧
      arrivedNet.written.map (·.packet) = [packet] ∧
      (arrivedNet.written.filterMap fun w => w.origin.map (·.2)).Nodup :=
  ⟨reachable_arrivedNet, by decide +kernel, by decide +kernel,
    (delivery_authentic_and_once reachable_arrivedNet).2.1⟩

/-- Two sessions of one transcript are the two ends of one channel, between the nodes that each takes
the other for, in one network and under keys vouched to each. -/
theorem sessions_agree (h : (system codec bad).Reachable st) {i j : Nat × NodeId} {s s' : PairSession}
    {t : Transcript} {n n' : Nat} (hs : s ∈ st.live i) (hs' : s' ∈ st.live j)
    (ht : s.stage = .transport t n) (ht' : s'.stage = .transport t n') :
    i = j ∧ s = s' ∨ s.initiator ≠ s'.initiator ∧ ∃ A B, st.engines[i.1]? = some A ∧
      st.engines[j.1]? = some B ∧ A.myNodeId = j.2 ∧ B.myNodeId = i.2 ∧ A.networkUuid = B.networkUuid ∧
      (i.1, i.2, B.key) ∈ st.vouched ∧ (j.1, j.2, A.key) ∈ st.vouched := by
  obtain ⟨⟨L, hL⟩, -⟩ := inv_of_reachable h
  have hplaced := hL.inv.placed
  rw [hL.live] at hplaced
  by_cases hrole : s.initiator = s'.initiator
  · have huid : s.uid = s'.uid := by simp [PairSession.uid, ht, ht', hrole]
    obtain rfl : i = j := by
      by_contra hij
      exact hplaced.apart i j hij s hs s' hs' huid
    exact .inl ⟨rfl, inj_on_of_nodup_map (hplaced.nodup i) hs hs' huid⟩
  · have hother : (!s.initiator) = s'.initiator := Bool.not_eq.mpr hrole
    obtain ⟨A, hA, hbindsA⟩ := hplaced.bound i s hs
    obtain ⟨B, hB, hbindsB⟩ := hplaced.bound j s' hs'
    simp only [PairSession.first, ht, ht'] at hbindsA hbindsB
    obtain ⟨hid, -, huuid, hA'⟩ := Binds.agree (c := ⟨t, s.initiator, 0, []⟩) hbindsA (hother ▸ hbindsB)
    obtain ⟨hid', -, -, hB'⟩ := Binds.agree (c := ⟨t, s'.initiator, 0, []⟩) hbindsB (by simpa [← hother] using hbindsA)
    exact .inr ⟨hrole, A, B, hA, hB, hid, hid', huuid, hB', hA'⟩

open DeliveryExample in
theorem sessions_agree_arrived : ∃ s ∈ arrivedNet.live (0, 2), ∃ s' ∈ arrivedNet.live (1, 1),
    s.initiator ≠ s'.initiator := by
  refine ⟨_, mem_cons_self, _, mem_cons_self, ?_⟩
  rcases sessions_agree (i := (0, 2)) (j := (1, 1)) reachable_arrivedNet mem_cons_self mem_cons_self
    rfl rfl with ⟨hij, -⟩ | ⟨hroles, -⟩
  · cases hij
  · exact hroles

end Net

end Nqvpn
