import Nqvpn.Engine

/-!
# Revocation by the view

An endpoint that has reconciled a view should hold nothing the view no longer
vouches for: no session for a node outside it or under another key, no queue for
an absent node, no watermark of a login that has been replaced. A client reconciles
through `Engine.syncPeers`, which guarantees all of it. A relay in its endpoint
role replaces the peer table only, so what it held before stays.
-/

namespace Nqvpn

open List Option

inductive EndpointKind
  | client
  | relay
deriving DecidableEq, Repr

def Engine.reconcile (codec : EngineCodec) (kind : EndpointKind) (e : Engine) (view : Snapshot)
    (exits : List (IpNet × NodeId)) : Engine :=
  match kind with
  | .client => (e.reconcileView codec view exits).1
  | .relay => LocalEndpoint.sync e view

def Snapshot.entryOf (view : Snapshot) (id : NodeId) : Option PeerInfo :=
  view.members.findRev? fun m => m.nodeId = id

def Snapshot.keyOf (codec : EngineCodec) (view : Snapshot) (id : NodeId) : Option Key :=
  (view.entryOf id).bind fun m => decodePubkey codec.base64 m.pubkey

namespace Engine

def Relogged (e : Engine) (view : Snapshot) (id : NodeId) : Prop :=
  ∃ old m, e.peers.peers[id]? = some old ∧ view.entryOf id = some m ∧
    (old.loginGen ≠ m.loginGen ∨ old.pubkey ≠ m.pubkey)

/-- What `after` holds is vouched for by the view; `before` is the engine that
reconciled it. -/
structure Vouches (codec : EngineCodec) (view : Snapshot) (before after : Engine) : Prop where
  slots : ∀ id p, after.sessions.sessions[id]? = some p →
    ∀ s ∈ p.slots, view.keyOf codec id = some s.peerStatic
  queues : ∀ id q, after.sessions.pending[id]? = some q → ∃ m ∈ view.members, m.nodeId = id
  watermarks : ∀ id, before.Relogged view id → ∀ key, after.sessions.lastHandshakeTs id key = none

/-- What an engine holds for a node that the view revokes. -/
inductive HoldsRevoked (codec : EngineCodec) (e : Engine) (view : Snapshot) (id : NodeId) : Prop
  | session {p : PeerSessions} {s : PairSession} : e.sessions.sessions[id]? = some p → s ∈ p.slots →
      view.keyOf codec id ≠ some s.peerStatic → HoldsRevoked codec e view id
  | queue {q : List Packet} : e.sessions.pending[id]? = some q → (∀ m ∈ view.members, m.nodeId ≠ id) →
      HoldsRevoked codec e view id
  | watermark {key : Key} {ts : Tai64n} : e.Relogged view id →
      e.sessions.lastHandshakeTs id key = some ts → HoldsRevoked codec e view id

end Engine

/-! ### Bringing the table in line -/

theorem PeerSessions.mem_slots_sync {p : PeerSessions} {want : Option Key} {s : PairSession}
    (h : s ∈ (p.sync want).slots) : want = some s.peerStatic := by
  simp only [slots, sync, mem_append, mem_toList, filter_eq_some_iff,
    map_eq_some_iff, decide_eq_true_eq] at h
  rcases h with ⟨-, hs⟩ | ⟨-, hs⟩ | ⟨q, ⟨-, hq⟩, rfl⟩
  · exact hs
  · exact hs
  · exact hq

namespace SessionTable

variable (t : SessionTable) (published : Std.ExtTreeMap NodeId (Option Key)) (id : NodeId)

theorem sessions_syncView : (t.syncView published).1.sessions[id]? =
    (t.sessions[id]?.map fun p => p.sync published[id]?.join).filter fun p => !p.isEmpty := by
  simp [syncView]

theorem pending_syncView {q : List Packet} (h : (t.syncView published).1.pending[id]? = some q) :
    (published[id]?.join).isSome := by
  simp only [syncView, Std.ExtTreeMap.getElem?_filter', filter_eq_some_iff,
    Bool.and_eq_true] at h
  exact h.2.1

theorem lastHandshakeTs_foldl_forget (ids : List NodeId) (key : Key) :
    (ids.foldl forgetHandshakeTs t).lastHandshakeTs id key =
      if id ∈ ids then none else t.lastHandshakeTs id key := by
  induction ids generalizing t with
  | nil => simp
  | cons a ids ih =>
    rw [foldl_cons, ih]
    by_cases hid : id = a <;> simp [forgetHandshakeTs, hid]

end SessionTable

namespace Engine

variable (codec : EngineCodec) (e : Engine) (view : Snapshot)

theorem keyOf_of_published {id : NodeId} {key : Key}
    (h : (e.published codec view.members)[id]?.join = some key) : view.keyOf codec id = some key := by
  rw [published, KeyedList.getElem?_collect, join_eq_some_iff, map_eq_some_iff] at h
  obtain ⟨m, hm, hkey⟩ := h
  have hother : m.nodeId = id ∧ m.nodeId ≠ e.myNodeId := by
    rw [findRev?_eq_find?_reverse] at hm
    have hmem := mem_of_find?_eq_some hm
    have hid := find?_some hm
    simp only [mem_reverse, mem_filter, decide_eq_true_eq] at hmem hid
    exact ⟨hid, hmem.2⟩
  have hentry : view.entryOf id = some m := by
    rw [Snapshot.entryOf, ← hm, findRev?_eq_find?_reverse, findRev?_eq_find?_reverse,
      ← filter_reverse, find?_filter]
    congr 1
    funext x
    by_cases hx : x.nodeId = id
    · simp [hx, ← hother.1, hother.2]
    · simp [hx]
  rw [Snapshot.keyOf, hentry]
  exact hkey

theorem relogged_of_relogged {id : NodeId} (h : e.Relogged view id) :
    id ∈ e.relogged view.members := by
  obtain ⟨old, m, hold, hm, hne⟩ := h
  rw [Snapshot.entryOf, findRev?_eq_find?_reverse] at hm
  have hid : m.nodeId = id := by simpa using find?_some hm
  have hmem := mem_of_find?_eq_some hm
  rw [mem_reverse] at hmem
  refine mem_map.mpr ⟨m, mem_filter.mpr ⟨hmem, ?_⟩, hid⟩
  rw [hid, hold]
  simpa using hne

theorem vouches_syncPeers : Vouches codec view e (e.syncPeers codec view.members).1 where
  slots id p hp s hs := by
    simp only [syncPeers, SessionTable.sessions_syncView, filter_eq_some_iff,
      map_eq_some_iff] at hp
    obtain ⟨⟨p₀, -, rfl⟩, -⟩ := hp
    exact e.keyOf_of_published codec view (PeerSessions.mem_slots_sync hs)
  queues id q hq := by
    obtain ⟨key, hkey⟩ := isSome_iff_exists.mp (SessionTable.pending_syncView _ _ _ hq)
    obtain ⟨m, hm, -⟩ := bind_eq_some_iff.mp (e.keyOf_of_published codec view hkey)
    rw [Snapshot.entryOf, findRev?_eq_find?_reverse] at hm
    exact ⟨m, mem_reverse.mp (mem_of_find?_eq_some hm), by simpa using find?_some hm⟩
  watermarks id hid key := by
    have hforgot := e.sessions.lastHandshakeTs_foldl_forget id (e.relogged view.members) key
    rw [if_pos (e.relogged_of_relogged view hid)] at hforgot
    change (if _ then _ else none) = none
    rw [hforgot, ite_self]

/-- The MTU and the exits concern other parts of the engine. -/
theorem sessions_reconcile_client (exits : List (IpNet × NodeId)) :
    (e.reconcile codec .client view exits).sessions = (e.syncPeers codec view.members).1.sessions := by
  simp only [reconcile, reconcileView]
  split_ifs <;> rfl

/-- After a reconcile everything the endpoint holds is vouched for by the view
exactly when the endpoint is a client, or a relay that held nothing revoked. -/
theorem reconcile_vouches_iff (kind : EndpointKind) (exits : List (IpNet × NodeId)) :
    Vouches codec view e (e.reconcile codec kind view exits) ↔
      kind = .client ∨ ∀ id, ¬ e.HoldsRevoked codec view id := by
  cases kind with
  | client =>
    have hsessions := e.sessions_reconcile_client codec view exits
    obtain ⟨hslots, hqueues, hmarks⟩ := e.vouches_syncPeers codec view
    refine ⟨fun _ => .inl rfl, fun _ => ⟨?_, ?_, ?_⟩⟩
    · rwa [hsessions]
    · rwa [hsessions]
    · rwa [hsessions]
  | relay =>
    constructor
    · rintro ⟨hslots, hqueues, hmarks⟩
      refine .inr fun id hid => ?_
      cases hid with
      | session hp hs hne => exact hne (hslots id _ hp _ hs)
      | queue hq hne =>
        obtain ⟨m, hm, hid⟩ := hqueues id _ hq
        exact hne m hm hid
      | @watermark key ts hlog hts =>
        have hnone := hmarks id hlog key
        rw [show (e.reconcile codec .relay view exits).sessions = e.sessions from rfl, hts] at hnone
        cases hnone
    · rintro (hkind | hall)
      · cases hkind
      · refine ⟨fun id p hp s hs => ?_, fun id q hq => ?_, fun id hlog key => ?_⟩
        · by_contra hne
          exact hall id (.session hp hs hne)
        · by_contra hne
          exact hall id (.queue hq fun m hm hid => hne ⟨m, hm, hid⟩)
        · cases hts : e.sessions.lastHandshakeTs id key with
          | none => exact hts
          | some ts => exact absurd (.watermark hlog hts) (hall id)

namespace RevocationExample

def numbering : EngineCodec := ⟨fun _ => none, .numbering⟩

def session : PairSession :=
  { stage := .transport ⟨⟨[2], [1], ⟨"u", 2, 1⟩, [], 0⟩, 1⟩ 0, peer := 2, initiator := false,
    replay := .default, establishedAt := 100, messages := 0 }

def relay : Engine :=
  { Engine.new 1 "u" [1] (PeerTable.new 1) 1500 1 with
    sessions := SessionTable.default.installResponder 2 session }

end RevocationExample

open RevocationExample in
/-- The relay reconciles a view without members and keeps its session with node 2. -/
theorem relay_keeps_session_of_absent_node :
    (relay.reconcile numbering .relay .default []).sessions.get 2 = some session ∧
      Snapshot.default.members = [] ∧
      ¬ Vouches numbering .default relay
        (relay.reconcile numbering .relay .default []) := by
  have hentry : relay.sessions.sessions[2]? = some { PeerSessions.default with
      current := some session } := by
    simp only [relay, SessionTable.installResponder, SessionTable.sessions_setEntry, if_true]
    simp [SessionTable.entry, SessionTable.default, PeerSessions.default]
  refine ⟨?_, rfl, fun h => ?_⟩
  · change relay.sessions.get 2 = some session
    rfl
  · have hkey := h.slots 2 _ hentry session (by simp [PeerSessions.slots])
    cases hkey

end Engine

end Nqvpn
