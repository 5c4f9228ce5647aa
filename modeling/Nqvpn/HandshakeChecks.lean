import Nqvpn.HandshakeClock

/-!
# The timestamp check

A responder checks the timestamp of a first handshake message once the message is known to come from the
published key. What a run of a responder checks from one key is a list of checks against one watermark, as long
as no reconciliation takes the watermark away. With the timestamps of the sender this says what becomes of its
handshakes, in whatever order they arrive and however often.
-/

namespace Nqvpn

open Watermark SessionTable Option

def EngineEffect.verdict? : EngineEffect → Option Bool
  | count .handshakesCompleted => some true
  | count .dropStaleHandshake => some false
  | _ => none

def verdict (effects : List EngineEffect) : Option Bool := effects.findSome? EngineEffect.verdict?

namespace Engine

variable {codec : EngineCodec} {e : Engine} {peer : NodeId}

/-- A first handshake message we do not look at: it is not from the published key, or a handshake of our own is
in flight and we do not give way. -/
def Ignores (codec : EngineCodec) (e : Engine) (peer : NodeId) (m : Initiation) : Prop :=
  ¬ Initiates codec e peer m ∨ (e.awaited peer).isSome = true ∧ peer ≤ e.myNodeId

/-- A handshake message moves no watermark, or it is a first one and its timestamp was checked. -/
def Checked (codec : EngineCodec) (e : Engine) (peer : NodeId) (msg : Option Message)
    (result : Engine × List EngineEffect) : Prop :=
  (∀ m, msg = some (.initiation m) → e.Ignores codec peer m ∧ verdict result.2 = none) ∧
      result.1.sessions.lastHandshakeTs = e.sessions.lastHandshakeTs ∨
    ∃ m, msg = some (.initiation m) ∧
      verdict result.2 = some (passes (e.sessions.lastHandshakeTs peer m.initiator) (stampOf m)) ∧
      result.1.sessions.lastHandshakeTs = fun id key =>
        if id = peer ∧ key = m.initiator then after (e.sessions.lastHandshakeTs peer m.initiator) (stampOf m)
        else e.sessions.lastHandshakeTs id key

variable {e' : Engine} {msg : Option Message} {result : Engine × List EngineEffect} {m : Initiation}

theorem Checked.yield (h : e'.Checked codec peer msg result) (hlower : e'.myNodeId < peer)
    (hinitiates : ∀ m, Initiates codec e peer m → Initiates codec e' peer m)
    (hmarks : e'.sessions.lastHandshakeTs = e.sessions.lastHandshakeTs) :
    e.Checked codec peer msg (result.1, .count .handshakesYielded :: result.2) := by
  rcases h with ⟨hignored, hsame⟩ | ⟨m, hm, hverdict, hmoved⟩
  · refine .inl ⟨fun m hm => ⟨.inl fun hi => ?_, (hignored m hm).2⟩, hsame.trans hmarks⟩
    rcases (hignored m hm).1 with hnot | ⟨-, hhigher⟩
    · exact hnot (hinitiates m hi)
    · exact Nat.not_lt.mpr hhigher hlower
  · rw [hmarks] at hverdict hmoved
    exact .inr ⟨m, hm, hverdict, hmoved⟩

theorem Heeds.checked {r : Reading} {es : List EngineEffect} (h : Heeds codec peer r msg e e' es) : e.Checked codec peer msg (e', es) := by
  induction h with
  | held hhigher hawaited =>
    exact .inl ⟨fun m _ => ⟨.inr ⟨by rw [hawaited, isSome_some], hhigher⟩, rfl⟩, rfl⟩
  | refused _ hc hnot =>
    refine .inl ⟨fun m hm => ⟨.inl (hnot m hm), ?_⟩, rfl⟩
    rcases hc with rfl | rfl <;> rfl
  | @stale e m _ hm _ hstale =>
    have hpass : passes (e.sessions.lastHandshakeTs peer m.initiator) (stampOf m) = false := by
      rw [passes, stampOf, hstale, Bool.not_true]
    have hsame : after (e.sessions.lastHandshakeTs peer m.initiator) (stampOf m) =
        e.sessions.lastHandshakeTs peer m.initiator := by
      rw [after, hpass]
      rfl
    refine .inr ⟨m, hm, by rw [hpass]; rfl, ?_⟩
    funext id key
    rw [hsame]
    split_ifs with hid
    · rw [hid.1, hid.2]
    · rfl
  | yieldedNext hlower _ _ _ ih | yieldedFirst hlower _ _ _ ih => exact ih.yield hlower (fun _ hi => hi) rfl
  | completed _ _ _ hread hsends | replaced _ _ hread hsends =>
    exact .inl ⟨fun m hm => absurd hm (readReply_initiation hread), hsends.marks⟩
  | @answered e _ m _ _ _ hm _ hnew _ hmarks hsends =>
    have hpass : passes (e.sessions.lastHandshakeTs peer m.initiator) (stampOf m) := by
      rw [passes, stampOf, Bool.eq_false_iff.mpr hnew, Bool.not_false]
    refine .inr ⟨m, hm, by rw [hpass]; rfl, ?_⟩
    rw [after, hpass]
    exact hsends.marks.trans hmarks

/-! ### The calls that check nothing -/

theorem lastHandshakeTs_outbound (codec : EngineCodec) (e : Engine) (packet : Packet) (r : Reading) :
    (e.outbound codec packet r).1.sessions.lastHandshakeTs = e.sessions.lastHandshakeTs := by
  cases howner : e.ownerFor packet with
  | none => rw [(outbound_of_no_owner codec r howner).1]
  | some owner =>
    obtain ⟨mid, es, es', hsends, hasks, -⟩ := forwards_outbound codec howner r
    exact hasks.marks.trans hsends.marks

theorem lastHandshakeTs_reconcile (codec : EngineCodec) (kind : EndpointKind) (e : Engine) (view : Snapshot)
    (exits : List (IpNet × NodeId)) (key : Key) :
    (e.reconcile codec kind view exits).sessions.lastHandshakeTs peer key = e.sessions.lastHandshakeTs peer key ∨
      (e.reconcile codec kind view exits).sessions.lastHandshakeTs peer key = none := by
  cases kind with
  | relay => exact .inl rfl
  | client =>
    rw [sessions_reconcile_client]
    simp only [syncPeers, syncView, lastHandshakeTs_foldl_forget]
    split_ifs
    · exact .inr rfl
    · exact .inl rfl
    · exact .inr rfl

variable (codec) in
def initiationIn (peer : NodeId) (key : Key) (datagram : Datagram) : Option Initiation :=
  (RoutedHeader.parse datagram).bind fun h =>
    match messageIn codec datagram with
    | some (.initiation m) => if h.kind = tHandshake ∧ h.srcId = peer ∧ m.initiator = key then some m else none
    | _ => none

theorem initiationIn_eq_some {key : Key} {datagram : Datagram} {h : RoutedHeader}
    (hparse : RoutedHeader.parse datagram = some h) : initiationIn codec peer key datagram = some m ↔
      messageIn codec datagram = some (.initiation m) ∧ h.kind = tHandshake ∧ h.srcId = peer ∧ m.initiator = key := by
  rw [initiationIn, hparse, bind_some]
  constructor
  · intro hm
    split at hm
    · rename_i first hfirst
      split_ifs at hm with hfrom
      cases hm
      exact ⟨hfirst, hfrom⟩
    · cases hm
  · rintro ⟨hfirst, hfrom⟩
    rw [hfirst]
    exact if_pos hfrom

theorem checked_inbound (codec : EngineCodec) (e : Engine) (peer : NodeId) (key : Key) (datagram : Datagram)
    (r : Reading) :
    ((∀ m, initiationIn codec peer key datagram = some m → verdict (e.inbound codec datagram r).2 = none) ∧
      (e.inbound codec datagram r).1.sessions.lastHandshakeTs peer key = e.sessions.lastHandshakeTs peer key) ∨
    ∃ m, initiationIn codec peer key datagram = some m ∧
      verdict (e.inbound codec datagram r).2 = some (passes (e.sessions.lastHandshakeTs peer key) (stampOf m)) ∧
      (e.inbound codec datagram r).1.sessions.lastHandshakeTs peer key =
        after (e.sessions.lastHandshakeTs peer key) (stampOf m) := by
  cases receives_inbound codec e datagram r with
  | nothing notes hsame hcounts =>
    refine .inl ⟨fun _ _ => List.findSome?_eq_none_iff.mpr fun x hx => ?_, by rw [hsame]⟩
    rcases hcounts x hx with rfl | rfl <;> rfl
  | @handshake h hparse _ hkind hheeds =>
    rcases hheeds.checked with ⟨hignored, hsame⟩ | ⟨m, hm, hverdict, hmoved⟩
    · refine .inl ⟨fun m hin => ?_, congrFun (congrFun hsame peer) key⟩
      exact (hignored m ((initiationIn_eq_some hparse).mp hin).1).2
    · rw [hmoved]
      by_cases hfrom : h.srcId = peer ∧ m.initiator = key
      · obtain ⟨rfl, rfl⟩ := hfrom
        exact .inr ⟨m, (initiationIn_eq_some hparse).mpr ⟨hm, hkind, rfl, rfl⟩, hverdict, if_pos ⟨rfl, rfl⟩⟩
      · refine .inl ⟨fun m' hin => ?_, if_neg fun hsame => hfrom ⟨hsame.1.symm, hsame.2.symm⟩⟩
        obtain ⟨hfirst, -, hfrom'⟩ := (initiationIn_eq_some hparse).mp hin
        rw [hm] at hfirst
        cases hfirst
        exact absurd hfrom' hfrom
  | @data h hparse _ hkind hreads =>
    refine .inl ⟨fun m hin => ?_, congrFun (congrFun hreads.marks peer) key⟩
    exact absurd ((initiationIn_eq_some hparse).mp hin).2.1 hkind

end Engine

/-! ### Runs of the responder -/

namespace TimedEngine

section

variable (codec : EngineCodec) (peer : NodeId) (key : Key)

/-- The first handshake message of the key whose timestamp a call checks, with the verdict. -/
def judged (x : TimedEngine) : EngineCall → Option (Initiation × Bool)
  | .inbound datagram clock ephemeral =>
    (Engine.initiationIn codec peer key datagram).bind fun m =>
      (verdict (x.effects codec (.inbound datagram clock ephemeral))).map fun v => (m, v)
  | _ => none

def judgements : TimedEngine → List EngineCall → List (Initiation × Bool)
  | _, [] => []
  | x, call :: calls =>
    (x.judged codec peer key call).toList ++ ((x.step codec call).map fun y => y.judgements calls).getD []

def NeverReset : TimedEngine → List EngineCall → Prop
  | _, [] => True
  | x, call :: calls => ∀ y, x.step codec call = some y →
    (y.engine.sessions.lastHandshakeTs peer key = none → x.engine.sessions.lastHandshakeTs peer key = none) ∧
      y.NeverReset calls

end

variable {codec : EngineCodec} {peer : NodeId} {key : Key} {x y : TimedEngine} {call : EngineCall}

theorem judged_inbound (x : TimedEngine) (datagram : Datagram) (clock : Tai64n) (ephemeral : Nat) :
    x.judged codec peer key (.inbound datagram clock ephemeral) =
      (Engine.initiationIn codec peer key datagram).bind fun m =>
        (verdict (x.engine.inbound codec datagram ⟨x.now, clock, ephemeral⟩).2).map fun v => (m, v) :=
  rfl

theorem judged_step (hs : x.step codec call = some y)
    (hkept : y.engine.sessions.lastHandshakeTs peer key = none → x.engine.sessions.lastHandshakeTs peer key = none) :
    (x.judged codec peer key call = none ∧
      y.engine.sessions.lastHandshakeTs peer key = x.engine.sessions.lastHandshakeTs peer key) ∨
    ∃ m, x.judged codec peer key call =
        some (m, passes (x.engine.sessions.lastHandshakeTs peer key) (stampOf m)) ∧
      y.engine.sessions.lastHandshakeTs peer key =
        after (x.engine.sessions.lastHandshakeTs peer key) (stampOf m) := by
  cases call with
  | inbound datagram clock ephemeral =>
    cases hs
    rcases x.engine.checked_inbound codec peer key datagram ⟨x.now, clock, ephemeral⟩ with
      ⟨hignored, hsame⟩ | ⟨m, hm, hverdict, hmoved⟩
    · refine .inl ⟨?_, hsame⟩
      rw [judged_inbound]
      cases hm : Engine.initiationIn codec peer key datagram with
      | none => rfl
      | some m => rw [bind_some, hignored m hm, map_none]
    · refine .inr ⟨m, ?_, hmoved⟩
      rw [judged_inbound, hm, bind_some, hverdict, map_some]
  | outbound packet clock ephemeral =>
    cases hs
    exact .inl ⟨rfl, congrFun (congrFun (x.engine.lastHandshakeTs_outbound codec packet _) peer) key⟩
  | reconcile kind view exits =>
    cases hs
    refine .inl ⟨rfl, ?_⟩
    rcases x.engine.lastHandshakeTs_reconcile codec kind view exits key with hsame | hnone
    · exact hsame
    · exact hnone.trans (hkept hnone).symm
  | pass secs | expire | setMine hosts nets | setPolicy policy | setTrace target =>
    cases hs
    exact .inl ⟨rfl, rfl⟩

theorem judgements_cons (hs : x.step codec call = some y) (calls : List EngineCall) :
    x.judgements codec peer key (call :: calls) =
      (x.judged codec peer key call).toList ++ y.judgements codec peer key calls := by
  rw [judgements, hs]
  rfl

theorem checks_judgements {calls : List EngineCall} (h : x.NeverReset codec peer key calls) :
    Checks stampOf (x.engine.sessions.lastHandshakeTs peer key) (x.judgements codec peer key calls) := by
  induction calls generalizing x with
  | nil => trivial
  | cons call calls ih =>
    cases hs : x.step codec call with
    | none => cases call <;> cases hs
    | some y =>
      obtain ⟨hkept, hrest⟩ := h y hs
      rw [judgements_cons hs]
      rcases judged_step hs hkept with ⟨hnone, hsame⟩ | ⟨m, hm, hmoved⟩
      · rw [hnone, ← hsame]
        exact ih hrest
      · rw [hm]
        exact ⟨rfl, hmoved ▸ ih hrest⟩

theorem judged_bytes {f : OutFrame} {m : Initiation} (hf : Net.FrameFits f) (hctr : f.ctr = none)
    (hm : f.message = .initiation m) (hdst : f.header.dstId = x.engine.myNodeId)
    (hlooks : ¬ x.engine.Ignores codec f.header.srcId m) (clock : Tai64n) (ephemeral : Nat) :
    x.judged codec f.header.srcId m.initiator (.inbound (f.bytes codec.message) clock ephemeral) =
      some (m, passes (x.engine.sessions.lastHandshakeTs f.header.srcId m.initiator) (stampOf m)) := by
  have hparse : RoutedHeader.parse (f.bytes codec.message) = some f.header :=
    RoutedHeader.parse_write_append hf.1 _
  have hin : Engine.initiationIn codec f.header.srcId m.initiator (f.bytes codec.message) = some m := by
    refine (Engine.initiationIn_eq_some hparse).mpr ⟨?_, hf.2.1.mpr hctr, rfl, rfl⟩
    rw [Net.messageIn_bytes hf, hm]
  rw [judged_inbound, hin, bind_some, Net.inbound_bytes hf hdst, Net.receive, hctr, hm]
  rcases (x.engine.heeds_onHandshake codec f.header.srcId (some (.initiation m)) ⟨x.now, clock, ephemeral⟩).checked with
    ⟨hignored, -⟩ | ⟨m', hm', hverdict, -⟩
  · exact absurd (hignored m rfl).1 hlooks
  · cases hm'
    rw [hverdict, map_some]

/-! ### Delivery -/

/-- The timestamps of a new engine's handshakes increase exactly as long as the largest one is not left behind,
and so in every run with no more than a billion of them. They travel as bytes in the same order. A responder
that keeps its watermark accepts what it checks in the order sent, and refuses what it checks again or after a
later one; and it checks every one it looks at. -/
theorem handshake_timestamps (codec : EngineCodec) {x : TimedEngine} (hx : (system codec).Initial x) {calls : List EngineCall}
    (hcalls : ∀ call ∈ calls, call.Timely) :
    (((x.initiations codec calls).map stampOf).Pairwise (· < ·) ↔
      Tai64n.largest ∉ ((x.initiations codec calls).map stampOf).dropLast) ∧
    ((x.initiations codec calls).length ≤ 10 ^ 9 + 1 →
      ((x.initiations codec calls).map stampOf).Pairwise (· < ·)) ∧
    (∀ m ∈ x.initiations codec calls, m.payload = (stampOf m).toBytes) ∧
    (∀ m ∈ x.initiations codec calls, ∀ m' ∈ x.initiations codec calls,
      m.payload < m'.payload ↔ stampOf m < stampOf m') ∧
    ∀ (y : TimedEngine) (peer : NodeId) (key : Key) (calls' : List EngineCall),
      y.NeverReset codec peer key calls' →
      Tai64n.largest ∉ ((x.initiations codec calls).map stampOf).dropLast →
      (((y.judgements codec peer key calls').map (·.1)).Sublist (x.initiations codec calls) →
        (∀ mark, y.engine.sessions.lastHandshakeTs peer key = some mark →
          ∀ m ∈ x.initiations codec calls, mark < stampOf m) →
        ∀ j ∈ y.judgements codec peer key calls', j.2 = true) ∧
      (∀ before j rest, y.judgements codec peer key calls' = before ++ j :: rest →
        (∃ u ∈ before, u.1 = j.1 ∨ [j.1, u.1].Sublist (x.initiations codec calls)) → j.2 = false) ∧
      ∀ (f : OutFrame) (m : Initiation) (clock : Tai64n) (ephemeral : Nat), Net.FrameFits f → f.ctr = none →
        f.message = .initiation m → f.header.srcId = peer → m.initiator = key →
        f.header.dstId = y.engine.myNodeId → ¬ y.engine.Ignores codec peer m →
        ∃ v, y.judged codec peer key (.inbound (f.bytes codec.message) clock ephemeral) = some (m, v) := by
  obtain ⟨myNodeId, networkUuid, secret, peers, mtu, lanes, hnew⟩ := hx
  have hlast : x.engine.lastTs = .zero := by rw [hnew]; rfl
  obtain ⟨⟨clocks, hclocks, hdates⟩, hpayloads⟩ :=
    initiations_dated codec x (hlast ▸ ⟨by decide, by decide⟩) hcalls
  rw [hlast] at hdates
  have hpairwise : ((x.initiations codec calls).map stampOf).Pairwise (· < ·) ↔
      Tai64n.largest ∉ ((x.initiations codec calls).map stampOf).dropLast := by
    rw [hdates]
    exact Tai64n.pairwise_dated hclocks
  refine ⟨hpairwise, fun hlength => ?_, fun m hm => (hpayloads m hm).2, fun m hm m' hm' => ?_, ?_⟩
  · rw [hpairwise, hdates]
    refine Tai64n.largest_not_mem_dated hclocks ?_
    rw [← hdates, List.length_map]
    exact hlength
  · obtain ⟨hproper, hpayload⟩ := hpayloads m hm
    obtain ⟨hproper', hpayload'⟩ := hpayloads m' hm'
    conv_lhs => rw [hpayload, hpayload']
    exact hproper.fits.toBytes_lt_iff hproper'.fits
  · intro y peer key calls' hkept hlargest
    have hchecks := checks_judgements hkept
    have hsent := List.pairwise_map.mp (hpairwise.mpr hlargest)
    refine ⟨fun hsub hmark => ?_, fun before j rest hrun hlate => ?_, ?_⟩
    · have horder := List.pairwise_map.mp (hsent.sublist hsub)
      refine hchecks.all_pass (fun j hj => ?_) horder
      have hmem : j.1 ∈ x.initiations codec calls := hsub.subset (List.mem_map_of_mem hj)
      cases hheld : y.engine.sessions.lastHandshakeTs peer key with
      | none => rfl
      | some mark => exact passes_some.mpr (hmark mark hheld j.1 hmem)
    · obtain ⟨u, hu, hlater⟩ := hlate
      rw [hrun] at hchecks
      refine hchecks.refuses hu ?_
      rcases hlater with hsame | hsub
      · rw [hsame]
      · exact (List.pairwise_pair.mp (hsent.sublist hsub)).le
    · rintro f m clock ephemeral hf hctr hm rfl rfl hdst hlooks
      exact ⟨_, judged_bytes hf hctr hm hdst hlooks clock ephemeral⟩

namespace ClockExample

open Net.DeliveryExample

def begins : List EngineCall := [.outbound packet ⟨100, 0⟩ 0]

def delivery (ephemeral : Nat) : EngineCall :=
  .inbound (initiationFrame.bytes numbering.message) ⟨100, 0⟩ ephemeral

def replied : TimedEngine := ⟨(nodeB.onHandshake numbering 1 (some (.initiation first)) ⟨100, ⟨100, 0⟩, 1⟩).1, 100⟩
def refused : TimedEngine :=
  ⟨(replied.engine.onHandshake numbering 1 (some (.initiation first)) ⟨100, ⟨100, 0⟩, 2⟩).1, 100⟩

theorem step_delivery {x : TimedEngine} (hid : x.engine.myNodeId = 2) (ephemeral : Nat) :
    x.step numbering (delivery ephemeral) = some ⟨(x.engine.onHandshake numbering 1 (some (.initiation first))
      ⟨x.now, ⟨100, 0⟩, ephemeral⟩).1, x.now⟩ :=
  SilenceExample.step_frame (f := initiationFrame) (by decide +kernel) hid.symm ⟨100, 0⟩ ephemeral

theorem judged_delivery {x : TimedEngine} (hid : x.engine.myNodeId = 2) (hkey : x.engine.key = keyB)
    (huuid : x.engine.networkUuid = "u") (hpeers : x.engine.peers.pubkeyOf numbering.base64 1 = some keyA)
    (hfree : x.engine.awaited 1 = none) (ephemeral : Nat) :
    x.judged numbering 1 keyA (delivery ephemeral) =
      some (first, passes (x.engine.sessions.lastHandshakeTs 1 keyA) (stampOf first)) := by
  refine judged_bytes (f := initiationFrame) (by decide +kernel) rfl rfl hid.symm ?_ _ _
  rintro (hnot | ⟨hsome, -⟩)
  · refine hnot ⟨hkey.symm, ?_, hpeers⟩
    rw [huuid, hid]
    rfl
  · rw [show initiationFrame.header.srcId = 1 from rfl, hfree] at hsome
    cases hsome

end ClockExample

open ClockExample Net.DeliveryExample in
/-- The message of node 1 is accepted when it arrives, and refused when it arrives again. -/
theorem handshake_timestamps_delivery :
    (⟨nodeA, 100⟩ : TimedEngine).initiations numbering begins = [first] ∧
      (⟨nodeB, 100⟩ : TimedEngine).judgements numbering 1 keyA [delivery 1, delivery 2] =
        [(first, true), (first, false)] := by
  have hsent : (⟨nodeA, 100⟩ : TimedEngine).initiations numbering begins = [first] := by decide +kernel
  refine ⟨hsent, ?_⟩
  have htimely : ∀ call ∈ begins, call.Timely := by
    rintro call hcall clock hclock
    cases List.mem_singleton.mp hcall
    cases hclock
    exact ⟨by decide, by decide⟩
  have hfirst : (⟨nodeB, 100⟩ : TimedEngine).step numbering (delivery 1) = some replied := step_delivery rfl 1
  have hagain : replied.step numbering (delivery 2) = some refused := step_delivery (by decide +kernel) 2
  have hjudged := judged_delivery (x := ⟨nodeB, 100⟩) rfl rfl rfl (by decide +kernel) (by decide +kernel) 1
  have hjudged' := judged_delivery (x := replied) (by decide +kernel) (by decide +kernel) (by decide +kernel)
    (by decide +kernel) (by decide +kernel) 2
  have hrun : (⟨nodeB, 100⟩ : TimedEngine).judgements numbering 1 keyA [delivery 1, delivery 2] =
      [(first, passes none (stampOf first)),
        (first, passes (replied.engine.sessions.lastHandshakeTs 1 keyA) (stampOf first))] := by
    rw [judgements_cons hfirst, hjudged, judgements_cons hagain, hjudged']
    rfl
  have hkept : (⟨nodeB, 100⟩ : TimedEngine).NeverReset numbering 1 keyA [delivery 1, delivery 2] := by
    intro y hy
    cases hfirst.symm.trans hy
    refine ⟨fun _ => rfl, fun z hz => ?_⟩
    cases hagain.symm.trans hz
    have hheld : (refused.engine.sessions.lastHandshakeTs 1 keyA).isSome := by decide +kernel
    exact ⟨fun hnone => by simp [hnone] at hheld, trivial⟩
  obtain ⟨-, -, -, -, hdeliver⟩ := handshake_timestamps numbering (x := ⟨nodeA, 100⟩)
    ⟨1, "u", keyA, nodeA.peers, 1500, 1, rfl⟩ htimely
  obtain ⟨-, hrefuses, -⟩ := hdeliver ⟨nodeB, 100⟩ 1 keyA [delivery 1, delivery 2] hkept (by rw [hsent]; simp)
  have hsecond := hrefuses [(first, passes none (stampOf first))] _ [] hrun ⟨_, List.mem_singleton_self _, .inl rfl⟩
  rw [hrun]
  rfl

namespace ClockExample

open Net.DeliveryExample

def late : Tai64n := ⟨2 ^ 64 - 2, 999999999⟩

def round : List EngineCall := [.outbound packet late 0, .pass handshakeTimeoutSecs, .expire]

def rounds : Nat → List EngineCall
  | 0 => []
  | n + 1 => round ++ rounds n

theorem timely_rounds (n : Nat) : ∀ call ∈ rounds n, call.Timely := by
  induction n with
  | zero => exact fun _ h => (nomatch h)
  | succ n ih =>
    have hround : ∀ call ∈ round, call.Timely := by
      intro call hcall clock hclock
      simp only [round, List.mem_cons, List.not_mem_nil, or_false] at hcall
      rcases hcall with rfl | rfl | rfl
      · cases hclock
        exact ⟨by decide, by decide⟩
      · cases hclock
      · cases hclock
    intro call hcall
    rcases List.mem_append.mp hcall with hcall | hcall
    · exact hround call hcall
    · exact ih call hcall

/-- Node 1 without a session. -/
structure Alone (x : TimedEngine) : Prop where
  peers : x.engine.peers = nodeA.peers
  mtu : x.engine.mtu = 1500
  sessions : ∀ id : NodeId, x.engine.sessions.sessions[id]? = none

variable {x : TimedEngine}

theorem Alone.outbound (h : Alone x) (r : Reading) :
    x.engine.outbound numbering packet r = x.engine.queueFor numbering 2 packet r := by
  have haddrs : packet.parseInnerAddrs = some (addrA, addrB) := by decide +kernel
  have hmine : nodeA.peers.isMineHost addrB = false := by decide +kernel
  have howner : nodeA.peers.ownerOf addrB = some 2 := by decide +kernel
  have hget : x.engine.sessions.get 2 = none := by rw [SessionTable.get, h.sessions 2, bind_none]
  unfold Engine.outbound
  rw [h.mtu, if_neg (by decide), haddrs, h.peers]
  simp [hmine, howner, hget]

theorem expire_initiateAt {t : SessionTable} (hnone : ∀ id : NodeId, t.sessions[id]? = none) (key pk : Key)
    (uuid : String) (peer me now : Nat) (ts : Tai64n) (ephemeral : Nat) (id : NodeId) :
    ((t.initiateAt key peer pk uuid me now ts ephemeral).1.expire (now + handshakeTimeoutSecs)).1.sessions[id]? =
      none := by
  set s := (PairSession.initiateAt key peer pk uuid me now ts ephemeral).1 with hs
  have hkeeps : PeerSessions.keeps (now + handshakeTimeoutSecs) s = false := by
    simp [hs, PairSession.initiateAt, PeerSessions.keeps, PairSession.isStaleHandshake, PairSession.isReady]
  rw [sessions_expire, initiateAt, sessions_setEntry]
  split_ifs
  · have hentry : t.entry peer = .default := by
      rw [entry, hnone peer]
      rfl
    simp [hentry, PeerSessions.default, PeerSessions.expire, ← hs, filter_some, hkeeps, PeerSessions.isEmpty]
  · rw [hnone id]
    rfl

theorem Alone.round (h : Alone x) (hlast : x.engine.lastTs.Proper) :
    ∃ y m, Alone y ∧ y.engine.lastTs = Tai64n.after x.engine.lastTs late ∧
      stampOf m = Tai64n.after x.engine.lastTs late ∧
      ∀ calls, x.initiations numbering (round ++ calls) = m :: y.initiations numbering calls := by
  have hlate : late.Timely := ⟨by decide, by decide⟩
  have hhas : x.engine.sessions.has 2 = false := by rw [has, h.sessions 2, any_none]
  have hkey : x.engine.peers.pubkeyOf numbering.base64 2 = some keyB := by
    rw [h.peers]
    decide +kernel
  set queued := x.engine.sessions.queue 2 packet
  set started := queued.1.initiateAt x.engine.key 2 keyB x.engine.networkUuid x.engine.myNodeId x.now
    (x.engine.nextTs late) 0
  have hout : x.engine.outbound numbering packet ⟨x.now, late, 0⟩ =
      ({ x.engine with sessions := started.1, lastTs := x.engine.nextTs late },
        (if queued.2 then [] else [.count .dropQueueFull]) ++
          x.engine.startedEffects 2 packet (some started.2)) := by
    rw [h.outbound]
    unfold Engine.queueFor
    simp only [hhas, hkey, Bool.false_eq_true, if_false]
    rfl
  set sent : Engine := { x.engine with sessions := started.1, lastTs := x.engine.nextTs late }
  refine ⟨⟨(sent.expireSessions (x.now + handshakeTimeoutSecs)).1, x.now + handshakeTimeoutSecs⟩, started.2,
    ⟨h.peers, h.mtu, fun id => ?_⟩, rfl, ?_, fun calls => ?_⟩
  · exact expire_initiateAt (t := queued.1) h.sessions _ _ _ _ _ _ _ _ id
  · exact Tai64n.fromPayload_toBytes (hlast.after hlate).fits
  · have hoffer : x.step numbering (.outbound packet late 0) = some ⟨sent, x.now⟩ := by rw [step, hout]
    have hsent : sentInitiations (x.effects numbering (.outbound packet late 0)) = [started.2] := by
      rw [effects, hout, sentInitiations_append]
      cases queued.2 <;> rfl
    have hswept : sentInitiations (effects numbering ⟨sent, x.now + handshakeTimeoutSecs⟩ .expire) = [] :=
      sentInitiations_counts _ _
    have hwait : step numbering ⟨sent, x.now⟩ (.pass handshakeTimeoutSecs) =
        some ⟨sent, x.now + handshakeTimeoutSecs⟩ := rfl
    have hsweep : step numbering ⟨sent, x.now + handshakeTimeoutSecs⟩ .expire =
        some ⟨(sent.expireSessions (x.now + handshakeTimeoutSecs)).1, x.now + handshakeTimeoutSecs⟩ := rfl
    rw [ClockExample.round, List.cons_append, initiations_cons hoffer, hsent, List.cons_append, List.cons_append,
      initiations_cons hwait, List.cons_append, initiations_cons hsweep, hswept]
    rfl

theorem initiations_rounds (h : Alone x) (hlast : x.engine.lastTs.Proper) (n : Nat) :
    (x.initiations numbering (rounds n)).length = n ∧
      ∀ m ∈ x.initiations numbering (rounds n), late ≤ stampOf m := by
  induction n generalizing x with
  | zero => exact ⟨rfl, nofun⟩
  | succ n ih =>
    have hlate : late.Timely := ⟨by decide, by decide⟩
    obtain ⟨y, m, hy, hlasty, hstamp, hrun⟩ := h.round hlast
    obtain ⟨hlength, hall⟩ := ih hy (hlasty ▸ hlast.after hlate)
    rw [rounds, hrun]
    refine ⟨congrArg Nat.succ hlength, List.forall_mem_cons.mpr ⟨?_, hall⟩⟩
    rw [hstamp]
    by_cases hmax : x.engine.lastTs = .largest
    · rw [hmax]
      decide
    · rcases le_or_gt late x.engine.lastTs with hle | hlt
      · exact hle.trans ((hlast.lt_after_iff hlate).mpr hmax).le
      · exact (if_neg hlt.not_ge).ge

-- The second before the last ends at once, and the last one has a billion timestamps.
theorem length_le_of_pairwise {stamps : List Tai64n} (h : stamps.Pairwise (· < ·))
    (hall : ∀ ts ∈ stamps, ts.Proper ∧ late ≤ ts) : stamps.length ≤ 10 ^ 9 + 1 := by
  set value := fun ts : Tai64n => ts.secs * 10 ^ 9 + ts.nanos
  have hvalues : (stamps.map value).Pairwise (· < ·) := by
    refine List.pairwise_map.mpr (h.imp_of_mem fun ha hb hlt => ?_)
    have hnanos := (hall _ ha).1.2
    rcases Tai64n.lt_iff.mp hlt with hsecs | ⟨hsecs, hlt⟩ <;> simp only [value] <;> omega
  have hsub : (stamps.map value).toFinset ⊆ Finset.Ico (value late) (2 ^ 64 * 10 ^ 9) := by
    intro n hn
    obtain ⟨ts, hts, rfl⟩ := List.mem_map.mp (List.mem_toFinset.mp hn)
    obtain ⟨⟨hsecs, hnanos⟩, hle⟩ := hall ts hts
    have hlower : value late ≤ value ts := by
      rcases hle.eq_or_lt with rfl | hlt
      · exact le_rfl
      · have hcases := Tai64n.lt_iff.mp hlt
        simp only [value, late] at hcases ⊢
        omega
    exact Finset.mem_Ico.mpr ⟨hlower, by simp only [value]; omega⟩
  have hcard := Finset.card_le_card hsub
  rw [List.toFinset_card_of_nodup (hvalues.imp ne_of_lt), List.length_map, Nat.card_Ico] at hcard
  exact hcard

end ClockExample

open ClockExample Net.DeliveryExample in
/-- Node 1 begins a billion and two handshakes by a clock that shows the second before the last, and the last
second runs out. -/
theorem timestamps_run_out :
    ∃ calls : List EngineCall, (system numbering).Initial ⟨nodeA, 100⟩ ∧ (∀ call ∈ calls, call.Timely) ∧
      ¬ (((⟨nodeA, 100⟩ : TimedEngine).initiations numbering calls).map stampOf).Pairwise (· < ·) := by
  have halone : Alone ⟨nodeA, 100⟩ := ⟨rfl, rfl, fun _ => Std.ExtTreeMap.getElem?_empty⟩
  have hzero : (⟨nodeA, 100⟩ : TimedEngine).engine.lastTs.Proper := ⟨by decide, by decide⟩
  obtain ⟨hlength, hlate⟩ := initiations_rounds halone hzero (10 ^ 9 + 2)
  refine ⟨rounds (10 ^ 9 + 2), ⟨1, "u", keyA, nodeA.peers, 1500, 1, rfl⟩, timely_rounds _, fun hpairwise => ?_⟩
  have hle := length_le_of_pairwise hpairwise fun ts hts => ?_
  · rw [List.length_map, hlength] at hle
    omega
  · obtain ⟨m, hm, rfl⟩ := List.mem_map.mp hts
    exact ⟨((initiations_dated numbering _ hzero (timely_rounds _)).2 m hm).1, hlate m hm⟩

end TimedEngine

end Nqvpn
