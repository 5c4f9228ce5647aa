import Nqvpn.SessionActs
import Nqvpn.SessionSweep

/-!
# The session table as a state machine

Over whole runs of an engine: the replaced session is an established one whose counter stands still, nothing
is ever sealed on a replacement that waits, packets are sealed on established sessions in use only, and a
handshake of ours begins only where no replacement is in place. The sweep leaves what it should, and lists the
peers whose handshake timed out.
-/

namespace Nqvpn

open KeyedList Option

namespace SessionTable

open PeerSessions

/-- What a call did that sealed the packets `out`. -/
structure Call (now : Nat) (out : List (NodeId × SealedPacket)) (t t' : SessionTable) : Prop where
  /-- A packet was sealed on the session in use with its peer, an established one. -/
  sealed : ∀ x ∈ out, ∃ p s, t'.sessions[x.1]? = some p ∧ p.current = some s ∧ s.isReady = true ∧ s.Sealed x.2
  /-- The replaced session is as it was, its counter too. -/
  previous : ∀ (a : NodeId) p' q, t'.sessions[a]? = some p' → p'.previous = some q →
    ∃ p, t.sessions[a]? = some p ∧ p.Retires now q
  /-- A replacement has been there before, or has sealed nothing. -/
  next : ∀ (a : NodeId) p' n, t'.sessions[a]? = some p' → p'.next = some n →
    n.Unused ∨ ∃ p, t.sessions[a]? = some p ∧ p.next = some n
  /-- A handshake begins only where no replacement was in place. -/
  flight : ∀ (a : NodeId) s, InFlight t'.sessions[a]? s →
    InFlight t.sessions[a]? s ∨ ∀ p, t.sessions[a]? = some p → p.next = none

variable {now : Nat} {out : List (NodeId × SealedPacket)} {t t' : SessionTable}

theorem Seals.sealed_current (h : Seals out t t') (x : NodeId × SealedPacket) (hx : x ∈ out) :
    ∃ p s, t'.sessions[x.1]? = some p ∧ p.current = some s ∧ s.isReady ∧ s.Sealed x.2 := by
  obtain ⟨p, hp, s, hs, hsealed⟩ := h.sealed x hx
  exact ⟨p, s, hp, hs, hsealed.isReady, hsealed⟩

theorem Heard.call (h : Heard now out t t') : Call now out t t' := by
  obtain ⟨mid, htakes, hseals⟩ := h
  have htakes' (a : NodeId) := (htakes a).sealed (hseals.entries a)
  exact ⟨hseals.sealed_current, fun a p' q hp' hq => (htakes' a).previous p' hp' q hq,
    fun a p' n hp' hn => (htakes' a).next p' hp' n hn, fun a s hs => .inl ((htakes' a).flight s hs)⟩

end SessionTable

namespace PeerSessions

variable {now : Nat} {o o' : Option PeerSessions} {p : PeerSessions} {s n : PairSession}

theorem Begins.previous (h : Begins o o') {q : PairSession × Nat} (hp : o' = some p) (hq : p.previous = some q) :
    ∃ p₀, o = some p₀ ∧ p₀.previous = some q := by
  cases h with
  | nothing => exact ⟨p, hp, hq⟩
  | rekey =>
    cases hp
    exact ⟨_, rfl, hq⟩
  | first =>
    cases hp
    cases o with
    | none => cases hq
    | some p₀ => exact ⟨p₀, rfl, hq⟩

theorem Begins.next (h : Begins o o') (hp : o' = some p) (hn : p.next = some n) :
    n.Unused ∨ ∃ p₀, o = some p₀ ∧ p₀.next = some n := by
  cases h with
  | nothing => exact .inr ⟨p, hp, hn⟩
  | rekey _ hunready =>
    cases hp
    cases hn
    exact .inl (PairSession.unused_of_unready hunready)
  | first =>
    cases hp
    cases hn

theorem Begins.flight (h : Begins o o') (hs : InFlight o' s) : InFlight o s ∨ ∀ p, o = some p → p.next = none := by
  cases h with
  | nothing => exact .inl hs
  | rekey hnext =>
    right
    rintro p ⟨⟩
    exact hnext
  | first hnone => exact .inr fun p hp => (hnone p hp).2

theorem next_of_sealedTo (h : Rel SealedTo o o') (hnext : ∀ p, o' = some p → p.next = none) :
    ∀ p, o = some p → p.next = none := by
  rintro p ⟨⟩
  cases h with
  | some hto => exact hto.next.symm.trans (hnext _ rfl)

end PeerSessions

namespace SessionTable

open PeerSessions

variable {now : Nat} {out : List (NodeId × SealedPacket)} {t t' : SessionTable}

theorem Sent.call (h : Sent out t t') : Call now out t t' := by
  obtain ⟨mid, hseals, hbegins⟩ := h
  have htakes (a : NodeId) : Takes now t.sessions[a]? mid.sessions[a]? := (Takes.refl _).sealed (hseals.entries a)
  refine ⟨fun x hx => ?_, fun a p' q hp' hq => ?_, fun a p' n hp' hn => ?_, fun a s hs => ?_⟩
  · obtain ⟨p, s, hp, hs, hready, hsealed⟩ := hseals.sealed_current x hx
    have hbegin := hbegins x.1
    rw [hp] at hbegin
    generalize t'.sessions[x.1]? = o at hbegin ⊢
    cases hbegin with
    | nothing => exact ⟨p, s, rfl, hs, hready, hsealed⟩
    | rekey => exact ⟨_, s, rfl, hs, hready, hsealed⟩
    | first hnone =>
      rw [(hnone p rfl).1] at hs
      cases hs
  · obtain ⟨p, hp, hprevious⟩ := (hbegins a).previous hp' hq
    exact (htakes a).previous p hp q hprevious
  · rcases (hbegins a).next hp' hn with hunused | ⟨p, hp, hnext⟩
    · exact .inl hunused
    · exact (htakes a).next p hp n hnext
  · rcases (hbegins a).flight hs with hflight | hnone
    · exact .inl ((htakes a).flight s hflight)
    · exact .inr (next_of_sealedTo (hseals.entries a) hnone)

theorem takes_expire (t : SessionTable) (now : Nat) (a : NodeId) :
    Takes now t.sessions[a]? (t.expire now).1.sessions[a]? := by
  have hentry : ∀ p' ∈ (t.expire now).1.sessions[a]?, ∃ p ∈ t.sessions[a]?, Swept now p p' := by
    intro p' hp'
    obtain ⟨p, hp, rfl, -⟩ := sessions_expire_eq_some.mp hp'
    exact ⟨p, hp, expire_swept p now⟩
  refine ⟨fun p' hp' q hq => ?_, fun p' hp' n hn => ?_, ?_⟩
  · obtain ⟨p, hp, hswept⟩ := hentry p' hp'
    rw [mem_def, hswept.previous] at hq
    exact ⟨p, hp, retires_self (filter_eq_some_iff.mp hq).1⟩
  · obtain ⟨p, hp, hswept⟩ := hentry p' hp'
    exact .inr ⟨p, hp, (hswept.next n hn).2⟩
  · rintro s ⟨hunready, p', hp', hslot⟩
    obtain ⟨p, hp, hswept⟩ := hentry p' hp'
    refine ⟨hunready, p, hp, ?_⟩
    rcases hslot with hcurrent | hnext
    · exact (hswept.current s hcurrent).2
    · exact .inr (hswept.next s hnext).2

theorem drops_sync {o : Option PeerSessions} {want : Option Key} :
    Drops o ((o.map (·.sync want)).filter (!·.isEmpty)) := by
  intro p' hp'
  obtain ⟨p, hp, rfl⟩ := map_eq_some_iff.mp (filter_eq_some_iff.mp hp').1
  exact ⟨p, hp, fun c hc => (filter_eq_some_iff.mp hc).1, fun n hn => (filter_eq_some_iff.mp hn).1,
    fun q hq => (filter_eq_some_iff.mp hq).1⟩

/-! ### The sweep's list -/

/-- The peers as the sweep lists them, in the order it comes to them: once for each handshake that timed out. -/
def timeouts (entries : List (NodeId × PeerSessions)) (now : Nat) : List NodeId :=
  entries.flatMap fun x =>
    (if x.2.current.any (·.isStaleHandshake now) then [x.1] else []) ++
      if x.2.next.any (·.isStaleHandshake now) then [x.1] else []

variable {entries : List (NodeId × PeerSessions)} {a : NodeId}

theorem mem_timeouts : a ∈ timeouts entries now ↔ ∃ p, (a, p) ∈ entries ∧ p.timedOut now := by
  simp only [timeouts, List.mem_flatMap, List.mem_append, List.mem_ite_nil_right, List.mem_singleton,
    PeerSessions.timedOut, Bool.or_eq_true]
  constructor
  · rintro ⟨⟨b, p⟩, hmem, ⟨hstale, rfl⟩ | ⟨hstale, rfl⟩⟩
    · exact ⟨p, hmem, .inl hstale⟩
    · exact ⟨p, hmem, .inr hstale⟩
  · rintro ⟨p, hmem, hstale | hstale⟩
    · exact ⟨(a, p), hmem, .inl ⟨hstale, rfl⟩⟩
    · exact ⟨(a, p), hmem, .inr ⟨hstale, rfl⟩⟩

theorem timedOut_iff {p : PeerSessions} : p.timedOut now ↔
    ∃ s, InFlight (some p) s ∧ handshakeTimeoutSecs ≤ now - s.establishedAt := by
  simp only [PeerSessions.timedOut, Bool.or_eq_true, any_eq_true, PairSession.isStaleHandshake,
    Bool.and_eq_true, Bool.not_eq_true', decide_eq_true_eq]
  constructor
  · rintro (⟨s, hs, hunready, hold⟩ | ⟨s, hs, hunready, hold⟩)
    · exact ⟨s, ⟨hunready, p, rfl, .inl hs⟩, hold⟩
    · exact ⟨s, ⟨hunready, p, rfl, .inr hs⟩, hold⟩
  · rintro ⟨s, ⟨hunready, _, ⟨⟩, hs | hs⟩, hold⟩
    · exact .inl ⟨s, hs, hunready, hold⟩
    · exact .inr ⟨s, hs, hunready, hold⟩

theorem mem_expire : a ∈ (t.expire now).2 ↔
    ∃ s, InFlight t.sessions[a]? s ∧ handshakeTimeoutSecs ≤ now - s.establishedAt := by
  have hlisted : a ∈ (t.expire now).2 ↔ ∃ p, t.sessions[a]? = some p ∧ p.timedOut now := by
    simp [expire, Std.ExtTreeMap.mem_toList_iff_getElem?_eq_some]
  rw [hlisted]
  constructor
  · rintro ⟨p, hp, htimed⟩
    rw [hp]
    exact timedOut_iff.mp htimed
  · rintro ⟨s, ⟨hunready, p, hp, hslot⟩, hold⟩
    exact ⟨p, hp, timedOut_iff.mpr ⟨s, ⟨hunready, p, rfl, hslot⟩, hold⟩⟩

theorem canonical_expire (t : SessionTable) (now : Nat) : Canonical id (t.expire now).2 :=
  Canonical.map ((canonical_toList t.sessions).filter _) Prod.fst fun _ _ => rfl

theorem sortDedup_timeouts (h : entries.Perm t.sessions.toList) :
    sortDedup id (timeouts entries now) = (t.expire now).2 := by
  refine (canonical_sortDedup Function.injective_id _).ext (canonical_expire t now) fun a => ?_
  rw [mem_sortDedup, mem_timeouts]
  simp [expire, Std.ExtTreeMap.mem_toList_iff_getElem?_eq_some, h.mem_iff]

end SessionTable

/-! ### Runs -/

namespace TimedEngine

open SessionTable PeerSessions

variable (codec : EngineCodec) in
def effects (x : TimedEngine) : EngineCall → List EngineEffect
  | .outbound packet clock ephemeral => (x.engine.outbound codec packet ⟨x.now, clock, ephemeral⟩).2
  | .inbound datagram clock ephemeral => (x.engine.inbound codec datagram ⟨x.now, clock, ephemeral⟩).2
  | .expire => (x.engine.expireSessions x.now).2
  | .reconcile .client view exits => (x.engine.reconcileView codec view exits).2
  | .reconcile .relay _ _ => []
  | .pass _ => []
  | .setMine _ _ => []
  | .setPolicy _ => []
  | .setTrace _ => []

variable {codec : EngineCodec} {x y : TimedEngine} {call : EngineCall}

theorem sentPackets_counts {α : Type} (l : List α) (c : EngineCounter) :
    sentPackets (l.map fun _ => EngineEffect.count c) = [] := by
  induction l with
  | nil => rfl
  | cons _ l ih => exact ih

theorem call_step (hs : x.step codec call = some y) :
    Call x.now (sentPackets (x.effects codec call)) x.engine.sessions y.engine.sessions := by
  cases call with
  | pass secs | setMine hosts nets | setPolicy policy | setTrace target =>
    cases hs
    exact (Heard.of_eq rfl).call
  | outbound packet clock ephemeral =>
    cases hs
    exact (Engine.sent_outbound packet _).call
  | inbound datagram clock ephemeral =>
    cases hs
    exact (Engine.heard_inbound datagram ⟨x.now, clock, ephemeral⟩).call
  | expire =>
    cases hs
    change Call x.now (sentPackets (x.engine.expireSessions x.now).2) x.engine.sessions
      (x.engine.sessions.expire x.now).1
    rw [Engine.expireSessions, sentPackets_counts]
    exact Heard.call ⟨_, takes_expire _ _, .of_eq rfl⟩
  | reconcile kind view exits =>
    cases hs
    have hquiet : sentPackets (x.effects codec (.reconcile kind view exits)) = [] := by
      cases kind with
      | client => exact sentPackets_counts _ _
      | relay => rfl
    rw [hquiet]
    refine Heard.call ⟨_, fun a => ?_, .of_eq rfl⟩
    rcases x.engine.sessions_reconcile codec kind view exits with hsame | ⟨want, hsync⟩
    · rw [hsame]
      exact .refl _
    · rw [hsync a]
      exact drops_sync.takes x.now

/-- Every replaced session is an established one, and nothing was ever sealed on a replacement. -/
def Settled (x : TimedEngine) : Prop :=
  ∀ (a : NodeId) (p : PeerSessions), x.engine.sessions.sessions[a]? = some p →
    (∀ q, p.previous = some q → q.1.isReady = true) ∧ ∀ n, p.next = some n → n.Unused

theorem Settled.step (h : x.Settled) (hs : x.step codec call = some y) : y.Settled := by
  have hcall := call_step hs
  refine fun a p' hp' => ⟨fun q hq => ?_, fun n hn => ?_⟩
  · obtain ⟨p, hp, ⟨s, hprevious, hsame⟩ | ⟨-, hready, -⟩⟩ := hcall.previous a p' q hp' hq
    · have hready : s.isReady := (h a p hp).1 _ hprevious
      rw [hsame]
      exact hready
    · exact hready
  · rcases hcall.next a p' n hp' hn with hunused | ⟨p, hp, hnext⟩
    · exact hunused
    · exact (h a p hp).2 n hnext

theorem settled_of_reachable (h : (system codec).Reachable x) : x.Settled := by
  refine h.invariant (fun s hs => ?_) (fun s e s' hsettled he => hsettled.step he)
  obtain ⟨myNodeId, networkUuid, key, peers, mtu, lanes, hnew⟩ := hs
  intro a p hp
  rw [hnew] at hp
  simp [Engine.new, SessionTable.default] at hp

/-- In every state of a run each replaced session is established and nothing was sealed on a replacement; every
call seals on established sessions in use only, leaves the counters of replaced sessions alone, and starts a
handshake only where no replacement is in place; and every sweep leaves young handshakes, replaced sessions within
their grace, no answer unused for want of a session, and no empty entry, and lists the peers of the handshakes that
timed out in order, whatever order it came to them in. -/
theorem session_table_machine (hreach : (system codec).Reachable x) :
    x.Settled ∧
    (∀ call y, x.step codec call = some y →
      Call x.now (sentPackets (x.effects codec call)) x.engine.sessions y.engine.sessions) ∧
    ∀ now,
      (∀ (a : NodeId) (p : PeerSessions), (x.engine.sessions.expire now).1.sessions[a]? = some p →
        p.isEmpty = false ∧
        (∀ s, InFlight (some p) s → now - s.establishedAt < handshakeTimeoutSecs) ∧
        (∀ q, p.previous = some q → now - q.2 < previousGraceSecs) ∧
        (p.next.any (·.isReady) = true → p.current.isSome = true)) ∧
      (x.engine.sessions.expire now).2.Pairwise (· < ·) ∧
      (∀ a, a ∈ (x.engine.sessions.expire now).2 ↔
        ∃ s, InFlight x.engine.sessions.sessions[a]? s ∧ handshakeTimeoutSecs ≤ now - s.establishedAt) ∧
      ∀ entries, entries.Perm x.engine.sessions.sessions.toList →
        sortDedup id (timeouts entries now) = (x.engine.sessions.expire now).2 := by
  refine ⟨settled_of_reachable hreach, fun call y hs => call_step hs, fun now => ⟨fun a p' hp' => ?_, ?_, ?_, ?_⟩⟩
  · obtain ⟨p, -, rfl, hempty⟩ := sessions_expire_eq_some.mp hp'
    have hswept := expire_swept p now
    refine ⟨hempty, ?_, fun q hq => ?_, hswept.waits⟩
    · rintro s ⟨hunready, _, ⟨⟩, hslot⟩
      have hkept : keeps now s := hslot.elim (fun h => (hswept.current s h).1) fun h => (hswept.next s h).1
      exact fresh_of_keeps hkept hunready
    · rw [hswept.previous, filter_eq_some_iff] at hq
      exact of_decide_eq_true hq.2
  · exact canonical_expire _ now
  · exact fun a => mem_expire
  · exact fun entries hperm => sortDedup_timeouts hperm

open SweepExample SilenceExample Net.DeliveryExample in
/-- A replaced session in a run of node 1. -/
theorem session_table_machine_confirmed :
    ∃ p q, confirmed.engine.sessions.sessions[2]? = some p ∧ p.previous = some q ∧ q.1.isReady = true := by
  have hheld : confirmed.engine.sessions.sessions[2]?.any (fun p => p.previous.isSome) := by
    decide +kernel
  obtain ⟨p, hp, hsome⟩ := (any_eq_true _ _).mp hheld
  obtain ⟨q, hq⟩ := isSome_iff_exists.mp hsome
  exact ⟨p, q, hp, hq, ((session_table_machine reachable_confirmed).1 2 p hp).1 q hq⟩

end TimedEngine

end Nqvpn
