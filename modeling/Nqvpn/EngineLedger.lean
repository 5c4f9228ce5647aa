import Nqvpn.EngineActs
import Nqvpn.ViewRevocation
import Nqvpn.SessionLedger

/-!
# Engines refine the ledger

Every call of an engine is a sequence of ledger steps on the sessions in its table:
the packets it seals are those it sends, and the one packet it may open is the one
it was given. The places are the peers.
-/

namespace Nqvpn

open PeerSessions EngineEffect List Option

namespace PeerSessions

variable (p : PeerSessions)

theorem slots_promote (now : Nat) : (p.promote now).slots.Subperm p.slots := by
  unfold promote
  split
  · exact Subperm.refl _
  · rename_i new hnext
    cases hc : p.current with
    | none => simp [slots, hnext, hc, Subperm.refl]
    | some old =>
      cases hready : old.isReady with
      | false =>
        simp only [slots, hnext, hc, filter_some, hready, Bool.false_eq_true, if_false,
          map_none, none_or, toList_some, toList_none, nil_append,
          cons_append]
        exact (sublist_cons_self old _).subperm
      | true =>
        simp only [slots, hnext, hc, filter_some, hready, if_true, map_some,
          some_or, toList_some, toList_none, nil_append, cons_append]
        exact (Perm.swap old new []).subperm.trans
          (((nil_sublist _).cons_cons new).cons_cons old).subperm

variable (s : PairSession)

theorem slots_setNext :
    (slots { p with next := some s }).Subperm (s :: p.slots) := by
  have hmiddle : (slots { p with next := some s }).Perm
      (s :: (p.current.toList ++ (p.previous.map (·.1)).toList)) := perm_middle
  refine hmiddle.subperm.trans (Sublist.subperm (Sublist.cons_cons s ?_))
  exact (Sublist.refl _).append (sublist_append_right _ _)

theorem slots_setCurrent :
    (slots { p with current := some s }).Subperm (s :: p.slots) :=
  Sublist.subperm (Sublist.cons_cons s (sublist_append_right _ _))

theorem slots_startOver :
    (slots { p with current := some s, next := none, awaitingSince := none }).Subperm
      (s :: p.slots) :=
  Sublist.subperm (Sublist.cons_cons s
    ((sublist_append_right _ _).trans (sublist_append_right _ _)))

theorem toList_filter_sublist {α : Type} (o : Option α) (f : α → Bool) :
    (o.filter f).toList.Sublist o.toList := by
  cases o with
  | none => exact Sublist.refl _
  | some x =>
    cases hx : f x with
    | false | true => simp [filter_some, hx]

variable {p p' : PeerSessions} {ctr now : Nat} {msg : Option Message} {v : Packet}

theorem slots_subperm {q : PeerSessions} (hcurrent : q.current.toList.Sublist p.current.toList)
    (hnext : q.next.toList.Sublist p.next.toList) (hprevious : q.previous.toList.Sublist p.previous.toList) : q.slots.Subperm p.slots := by
  have hprevious' : (q.previous.map (·.1)).toList.Sublist (p.previous.map (·.1)).toList := by
    simpa [toList_map] using hprevious.map Prod.fst
  exact (hcurrent.append (hnext.append hprevious')).subperm

theorem slots_sync (want : Option Key) : (p.sync want).slots.Subperm p.slots :=
  slots_subperm (toList_filter_sublist _ _) (toList_filter_sublist _ _) (toList_filter_sublist _ _)

theorem slots_expire (now : Nat) : (p.expire now).slots.Subperm p.slots := by
  have hswept : (slots { p with
      current := p.current.filter (keeps now), next := p.next.filter (keeps now) }).Subperm p.slots :=
    slots_subperm (toList_filter_sublist _ _) (toList_filter_sublist _ _) (Sublist.refl _)
  have hgrace (q : PeerSessions) : (slots { q with
      previous := q.previous.filter fun x => now - x.2 < previousGraceSecs }).Subperm q.slots :=
    slots_subperm (Sublist.refl _) (Sublist.refl _) (toList_filter_sublist _ _)
  refine (hgrace _).trans ?_
  split_ifs
  · exact (slots_promote _ now).trans hswept
  · exact hswept

theorem unsealAny_cases (h : p.unsealAny ctr msg now = .ok (p', v)) : ∃ s s', s.unsealFrame ctr msg = .ok (s', v) ∧
      (p.current = some s ∧ p' = { p with current := some s' } ∨
        p.next = some s ∧ p' = { p with next := some s' }.promote now ∨
          ∃ retired, p.previous = some (s, retired) ∧ p' = { p with previous := some (s', retired) }) := by
  unfold unsealAny at h
  dsimp only at h
  split at h
  · rename_i s' v' hcurrent
    cases h
    obtain ⟨s, hs, hopen⟩ := map_eq_some_iff.mp hcurrent
    exact ⟨s, s', hopen, .inl ⟨(filter_eq_some_iff.mp hs).1, rfl⟩⟩
  · split at h
    · rename_i s' v' hnext
      cases h
      obtain ⟨s, hs, hopen⟩ := map_eq_some_iff.mp hnext
      exact ⟨s, s', hopen, .inr (.inl ⟨(filter_eq_some_iff.mp hs).1, rfl⟩)⟩
    · split at h
      · rename_i q v' hprevious
        cases h
        obtain ⟨⟨s, retired⟩, hs, hmap⟩ := map_eq_some_iff.mp hprevious
        cases hopen : s.unsealFrame ctr msg with
        | error err =>
          simp only [hopen] at hmap
          cases hmap
        | ok r =>
          simp only [hopen] at hmap
          cases hmap
          exact ⟨s, r.1, hopen, .inr (.inr ⟨retired, (filter_eq_some_iff.mp hs).1, rfl⟩)⟩
      · cases h

/-- An opened frame was sealed for one of the slots; that slot is written back, and
sessions may be moved or dropped. -/
theorem unsealAny_eq_ok (h : p.unsealAny ctr msg now = .ok (p', v)) : ∃ s s' rest, p.slots.Perm (s :: rest) ∧
      s.unsealFrame ctr msg = .ok (s', v) ∧ p'.slots.Subperm (s' :: rest) := by
  obtain ⟨s, s', hopen, hslot⟩ := unsealAny_cases h
  rcases hslot with ⟨hc, rfl⟩ | ⟨hn, rfl⟩ | ⟨retired, hp, rfl⟩
  · refine ⟨s, s', p.next.toList ++ (p.previous.map (·.1)).toList, ?_, hopen, ?_⟩
    · simp [slots, hc]
    · exact Subperm.refl _
  · refine ⟨s, s', p.current.toList ++ (p.previous.map (·.1)).toList, ?_, hopen, ?_⟩
    · simp only [slots, hn, toList_some, cons_append, nil_append]
      exact perm_middle
    · refine (slots_promote _ now).trans (Perm.subperm ?_)
      exact perm_middle
  · refine ⟨s, s', p.current.toList ++ p.next.toList, ?_, hopen, Perm.subperm ?_⟩
    · simp only [slots, hp, map_some, toList_some, ← append_assoc]
      exact perm_append_singleton s _
    · simp only [slots, map_some, toList_some, ← append_assoc]
      exact perm_append_singleton s' _

end PeerSessions

namespace SessionTable

def slotsOf (t : SessionTable) (peer : NodeId) : List PairSession :=
  t.sessions[peer]?.elim [] slots

def ledger (t : SessionTable) (next : Nat) (sealed opened : List (NodeId × SealedPacket)) :
    Ledger NodeId :=
  ⟨t.slotsOf, next, sealed, opened⟩

variable (t : SessionTable) (peer : NodeId)

theorem slotsOf_setEntry (p : PeerSessions) :
    (t.setEntry peer p).slotsOf = Function.update t.slotsOf peer p.slots := by
  funext a
  by_cases ha : a = peer
  · subst ha
    simp [slotsOf, sessions_setEntry]
  · simp [slotsOf, sessions_setEntry, Function.update_of_ne ha, Ne.symm ha]

variable {p : PeerSessions} {s : PairSession} {ctr : Nat} {transcript : Transcript}

theorem slotsOf_modifyPeer (f : PeerSessions → PeerSessions)
    (hp : t.sessions[peer]? = some p) :
    (t.modifyPeer peer f).slotsOf = Function.update t.slotsOf peer (f p).slots := by
  funext a
  by_cases ha : a = peer
  · subst ha
    simp [slotsOf, sessions_modifyPeer, hp]
  · simp [slotsOf, sessions_modifyPeer, Function.update_of_ne ha, Ne.symm ha]

theorem slotsOf_entry : (t.entry peer).slots = t.slotsOf peer := by
  unfold entry slotsOf
  cases t.sessions[peer]? with
  | none | some p => rfl

theorem slotsOf_modifyPeer_subperm
    {f : PeerSessions → PeerSessions} (hf : ∀ p, (f p).slots.Subperm p.slots) (a : NodeId) :
    ((t.modifyPeer peer f).slotsOf a).Subperm (t.slotsOf a) := by
  unfold slotsOf
  rw [sessions_modifyPeer]
  split_ifs with ha
  · subst ha
    cases t.sessions[peer]? with
    | none => exact Subperm.refl _
    | some p => exact hf p
  · exact Subperm.refl _

@[simp] theorem slotsOf_noteSent (now : Nat) :
    (t.noteSent peer now).slotsOf = t.slotsOf := by
  funext a
  unfold slotsOf noteSent
  rw [sessions_modifyPeer]
  split_ifs with ha
  · subst ha
    cases t.sessions[peer]? with
    | none | some p => rfl
  · rfl

theorem slotsOf_put {peer : NodeId} (h : t.get peer = some s) :
    ∃ rest, t.slotsOf peer = s :: rest ∧
      ∀ s', (t.put peer s').slotsOf = Function.update t.slotsOf peer (s' :: rest) := by
  obtain ⟨p, hp, hc⟩ := bind_eq_some_iff.mp h
  refine ⟨p.next.toList ++ (p.previous.map (·.1)).toList, ?_, fun s' => ?_⟩
  · simp [slotsOf, hp, slots, hc]
  · rw [put, slotsOf_modifyPeer t peer _ hp]
    rfl

/-! ### Tables acting on their sessions -/

open Ledger

/-- The table becomes another by ledger steps that seal the packets `out`, in some
order, and draw no key. -/
def Quiet (ok : NodeId → Bool → Initiation → Prop) (t t' : SessionTable)
    (out : List (NodeId × SealedPacket)) : Prop :=
  ∀ n sealed opened, ∃ sealed', Steps ok (t.ledger n sealed opened) (t'.ledger n sealed' opened) ∧
    sealed'.Perm (out ++ sealed)

/-- The same for a whole call, which may use the one key it is given and may open
the packets `opens`. -/
def Acts (ok : NodeId → Bool → Initiation → Prop) (key : Nat) (t t' : SessionTable)
    (out opens : List (NodeId × SealedPacket)) : Prop :=
  ∀ sealed opened, ∃ sealed',
    Steps ok (t.ledger key sealed opened) (t'.ledger (key + 1) sealed' (opens ++ opened)) ∧
      sealed'.Perm (out ++ sealed)

variable {ok : NodeId → Bool → Initiation → Prop} {t t' t'' : SessionTable}
  {out out' opens : List (NodeId × SealedPacket)} {key : Nat} {peer : NodeId}

theorem Quiet.of_subperm (h : ∀ a, (t'.slotsOf a).Subperm (t.slotsOf a)) : Quiet ok t t' [] :=
  fun _ sealed _ => ⟨sealed, .single (.keep h), Perm.refl _⟩

theorem Quiet.of_eq (h : t'.slotsOf = t.slotsOf) : Quiet ok t t' [] :=
  .of_subperm fun a => by rw [h]

theorem Quiet.trans (h : Quiet ok t t' out) (h' : Quiet ok t' t'' out') :
    Quiet ok t t'' (out ++ out') := by
  intro n sealed opened
  obtain ⟨sealed₁, hsteps, hperm⟩ := h n sealed opened
  obtain ⟨sealed₂, hsteps', hperm'⟩ := h' n sealed₁ opened
  refine ⟨sealed₂, hsteps.trans hsteps', ?_⟩
  calc sealed₂.Perm (out' ++ sealed₁) := hperm'
    Perm _ (out' ++ (out ++ sealed)) := hperm.append_left out'
    Perm _ (out ++ (out' ++ sealed)) := by
      rw [← append_assoc, ← append_assoc]
      exact perm_append_comm.append_right sealed
    Perm _ (out ++ out' ++ sealed) := by rw [append_assoc]

theorem Quiet.perm (h : Quiet ok t t' out) (hp : out.Perm out') : Quiet ok t t' out' := by
  intro n sealed opened
  obtain ⟨sealed₁, hsteps, hperm⟩ := h n sealed opened
  exact ⟨sealed₁, hsteps, hperm.trans (hp.append_right sealed)⟩

theorem Quiet.acts (h : Quiet ok t t' out) : Acts ok key t t' out [] := by
  intro sealed opened
  obtain ⟨sealed', hsteps, hperm⟩ := h key sealed opened
  exact ⟨sealed', hsteps.tail .drawn, hperm⟩

theorem Quiet.trans_acts (h : Quiet ok t t' out) (h' : Acts ok key t' t'' out' opens) :
    Acts ok key t t'' (out ++ out') opens := by
  intro sealed opened
  obtain ⟨sealed₁, hsteps, hperm⟩ := h key sealed opened
  obtain ⟨sealed₂, hsteps', hperm'⟩ := h' sealed₁ opened
  refine ⟨sealed₂, hsteps.trans hsteps', (hperm'.trans (hperm.append_left out')).trans ?_⟩
  rw [← append_assoc]
  exact perm_append_comm.append_right sealed

theorem Acts.trans_quiet (h : Acts ok key t t' out opens) (h' : Quiet ok t' t'' out') :
    Acts ok key t t'' (out ++ out') opens := by
  intro sealed opened
  obtain ⟨sealed₁, hsteps, hperm⟩ := h sealed opened
  obtain ⟨sealed₂, hsteps', hperm'⟩ := h' (key + 1) sealed₁ (opens ++ opened)
  refine ⟨sealed₂, hsteps.trans hsteps', (hperm'.trans (hperm.append_left out')).trans ?_⟩
  rw [← append_assoc]
  exact perm_append_comm.append_right sealed

theorem update_subperm (live : NodeId → List PairSession) {l l' : List PairSession}
    (h : l.Subperm l') (a : NodeId) :
    (Function.update live peer l a).Subperm (Function.update live peer l' a) := by
  by_cases ha : a = peer
  · subst ha
    rwa [Function.update_self, Function.update_self]
  · rw [Function.update_of_ne ha, Function.update_of_ne ha]

theorem ledger_eq {live : NodeId → List PairSession} (h : t.slotsOf = live) (n : Nat)
    (sealed opened : List (NodeId × SealedPacket)) :
    t.ledger n sealed opened = ⟨live, n, sealed, opened⟩ := by
  rw [ledger, h]

theorem quiet_seal {s' : PairSession} {packet : Packet} {c : SealedPacket} (hget : t.get peer = some s)
    (hseal : s.sealPacket packet = some (s', ctr, c)) :
    Quiet ok t (t.put peer s') [(peer, c)] := by
  intro n sealed opened
  obtain ⟨rest, hslots, hput⟩ := t.slotsOf_put hget
  refine ⟨(peer, c) :: sealed, .single ?_, Perm.refl _⟩
  rw [ledger_eq (hput s')]
  exact .sealed (Perm.of_eq hslots) hseal

theorem quiet_finish (hget : t.get peer = some s) (hstage : s.stage = .handshake transcript.first)
    (hrole : s.initiator) :
    Quiet ok t (t.put peer { s with stage := .transport transcript 0 }) [] := by
  intro n sealed opened
  obtain ⟨rest, hslots, hput⟩ := t.slotsOf_put hget
  refine ⟨sealed, .single ?_, Perm.refl _⟩
  rw [ledger_eq (hput _)]
  exact .finish transcript (Perm.of_eq hslots) hstage hrole

theorem quiet_finish_next (hnext : t.nextInFlight peer = some s)
    (hstage : s.stage = .handshake transcript.first) (hrole : s.initiator) :
    Quiet ok t (t.putNext peer { s with stage := .transport transcript 0 }) [] := by
  intro n sealed opened
  obtain ⟨p, hp, hs⟩ := bind_eq_some_iff.mp hnext
  have hn : p.next = some s := (filter_eq_some_iff.mp hs).1
  have hslots : (t.slotsOf peer).Perm
      (s :: (p.current.toList ++ (p.previous.map (·.1)).toList)) := by
    simp only [slotsOf, hp, elim_some, slots, hn, toList_some,
      cons_append, nil_append]
    exact perm_middle
  refine ⟨sealed, .tail (.single (.finish transcript hslots hstage hrole)) ?_, Perm.refl _⟩
  rw [putNext, ledger_eq (slotsOf_modifyPeer t peer _ hp)]
  refine .keep (update_subperm _ (Perm.subperm ?_))
  exact perm_middle

variable (ok) in
theorem unsealFrame_eq_ok {now : Nat} {msg : Option Message} {inner : Packet}
    (h : t.unsealFrame peer ctr msg now = .ok (t', inner)) :
    ∃ c, msg = some (.sealed c) ∧ c.plaintext = inner ∧ ∀ n sealed opened,
      Steps ok (t.ledger n sealed opened) (t'.ledger n sealed ((peer, c) :: opened)) := by
  unfold unsealFrame at h
  cases hp : t.sessions[peer]? with
  | none => simp [hp] at h
  | some p =>
    simp only [hp] at h
    split at h
    · rename_i p' v hany
      cases h
      obtain ⟨s, s', rest, hslots, hopen, hsub⟩ := unsealAny_eq_ok hany
      obtain ⟨transcript, m, -, -, rfl, -⟩ := PairSession.unsealFrame_eq_ok hopen
      refine ⟨_, rfl, rfl, fun n sealed opened => ?_⟩
      have hlive : ((t.ledger n sealed opened).live peer).Perm (s :: rest) := by
        simpa [ledger, slotsOf, hp] using hslots
      refine .tail (.single (.opened hlive hopen)) ?_
      rw [ledger_eq (slotsOf_setEntry t peer _)]
      exact .keep (update_subperm _ hsub)
    · cases h
    · cases h

theorem acts_start (hok : ok peer s.initiator s.first) (hu : s.uid = key) (hr : s.replay = .default)
    (hsub : p.slots.Subperm (s :: t.slotsOf peer)) : Acts ok key t (t.setEntry peer p) [] [] := by
  intro sealed opened
  refine ⟨sealed, ?_, Perm.refl _⟩
  rw [ledger_eq (slotsOf_setEntry t peer p)]
  exact .tail (.single (.start peer s hok hu hr)) (.keep (update_subperm _ hsub))

end SessionTable

/-! ### Calls -/

def EngineEffect.sealed? : EngineEffect → Option (NodeId × SealedPacket)
  | send f _ | sendCounted f _ =>
    match f.message with
    | .sealed c => some (f.header.dstId, c)
    | _ => none
  | _ => none

def EngineEffect.written? : EngineEffect → Option Packet
  | tunWrite packet => some packet
  | _ => none

def sentPackets (effects : List EngineEffect) : List (NodeId × SealedPacket) :=
  effects.filterMap sealed?

def writtenPackets (effects : List EngineEffect) : List Packet :=
  effects.filterMap written?

namespace Engine

open SessionTable

/-- Which sessions an engine may have with a peer: from an initiation of its own to
a key `vouched` for the peer, or of such a key to its own. -/
def Binds (vouched : NodeId → Key → Prop) (e : Engine) (peer : NodeId) (initiator : Bool)
    (first : Initiation) : Prop :=
  if initiator then
    first.initiator = e.key ∧ first.prologue = ⟨e.networkUuid, e.myNodeId, peer⟩ ∧
      vouched peer first.responder
  else
    first.responder = e.key ∧ first.prologue = ⟨e.networkUuid, peer, e.myNodeId⟩ ∧
      vouched peer first.initiator

def Knows (codec : EngineCodec) (e : Engine) (peer : NodeId) (key : Key) : Prop :=
  e.peers.pubkeyOf codec.base64 peer = some key

variable (e : Engine)

@[simp] theorem dstId_frame (kind : UInt8) (dst : NodeId) (m : Message)
    (ctr : Option Nat) (packet : Packet) : (e.frame kind dst m ctr packet).header.dstId = dst := by
  unfold frame
  dsimp only
  split_ifs <;> rfl

variable (peer : NodeId)

@[simp] theorem sealed?_sendCounted_dataFrame (c : SealedPacket)
    (ctr : Nat) (packet : Packet) (lane : UInt8) :
    (sendCounted (e.dataFrame peer c ctr packet) lane).sealed? = some (peer, c) := by
  simp [sealed?, dataFrame, show ∀ kind dst m ctr packet,
    (e.frame kind dst m ctr packet).message = m from fun _ _ _ _ _ => rfl]

@[simp] theorem sealed?_send_dataFrame (c : SealedPacket) (ctr : Nat)
    (packet : Packet) (lane : UInt8) :
    (send (e.dataFrame peer c ctr packet) lane).sealed? = some (peer, c) :=
  e.sealed?_sendCounted_dataFrame peer c ctr packet lane

@[simp] theorem sentPackets_startedEffects (packet : Packet)
    (first : Option Initiation) : sentPackets (e.startedEffects peer packet first) = [] := by
  cases first with
  | none | some first => rfl

theorem sentPackets_append (effects effects' : List EngineEffect) :
    sentPackets (effects ++ effects') = sentPackets effects ++ sentPackets effects' :=
  filterMap_append

section Calls

variable {ok : NodeId → Bool → Initiation → Prop} {codec : EngineCodec} {e e' : Engine} {peer : NodeId} {now : Nat}
  {r : Reading} {msg : Option Message} {es : List EngineEffect}

theorem Sends.quiet (h : Sends peer now e e' es) : Quiet ok e.sessions e'.sessions (sentPackets es) := by
  induction h with
  | nothing e => exact .of_eq rfl
  | counted c _ ih | queued _ _ ih => exact ih
  | @sealed _ _ _ _ packet ctr c x es hget hseal hx _ ih =>
    have hsent : sentPackets (x :: es) = (peer, c) :: sentPackets es := by
      obtain ⟨lane, rfl | rfl⟩ := hx <;> simp [sentPackets]
    rw [hsent]
    exact (quiet_seal hget hseal).trans ih
  | noted _ ih => exact (Quiet.of_eq (slotsOf_noteSent _ peer now)).trans ih

theorem Asks.acts (h : Asks codec peer r e e' es) :
    Acts (Binds (Knows codec e) e) r.ephemeral e.sessions e'.sessions (sentPackets es) [] := by
  cases h with
  | nothing => exact (Quiet.of_eq rfl).acts
  | @rekey p c pk packet hpk =>
    refine acts_start (s := (PairSession.initiateAt e.key peer pk e.networkUuid e.myNodeId r.now
      (e.nextTs r.clock) r.ephemeral).1) ⟨rfl, rfl, hpk⟩ rfl rfl ?_
    rw [← slotsOf_entry]
    exact slots_setNext _ _
  | @first pk packet hpk =>
    refine acts_start (s := (PairSession.initiateAt e.key peer pk e.networkUuid e.myNodeId r.now
      (e.nextTs r.clock) r.ephemeral).1) ⟨rfl, rfl, hpk⟩ rfl rfl ?_
    rw [← slotsOf_entry]
    exact slots_startOver _ _

variable {t : Transcript}

theorem quiet_completed {s : PairSession} (hfirst : e.sessions.firstInFlight peer = some s)
    (hstage : s.stage = .handshake t.first) :
    Quiet ok e.sessions (e.sessions.put peer { s with stage := .transport t 0 }) [] := by
  obtain ⟨hget, hflight⟩ := filter_eq_some_iff.mp hfirst
  exact quiet_finish hget hstage (Bool.and_eq_true_iff.mp hflight).2

theorem quiet_replaced {n : PairSession} (hnext : e.sessions.nextInFlight peer = some n)
    (hstage : n.stage = .handshake t.first) :
    Quiet ok e.sessions ((e.sessions.putNext peer { n with stage := .transport t 0 }).promote peer now) [] := by
  obtain ⟨p, -, hn⟩ := bind_eq_some_iff.mp hnext
  have hflight := (filter_eq_some_iff.mp hn).2
  exact (quiet_finish_next hnext hstage (Bool.and_eq_true_iff.mp hflight).1).trans
    (.of_subperm (slotsOf_modifyPeer_subperm _ peer fun q => q.slots_promote now))

theorem acts_answered {m : Initiation} {t : SessionTable} (hm : Initiates codec e peer m)
    (ht : t.sessions = (e.sessions.installResponder peer (answering peer m r)).sessions) :
    Acts (Binds (Knows codec e) e) r.ephemeral e.sessions t [] [] := by
  have hinstalled : Acts (Binds (Knows codec e) e) r.ephemeral e.sessions
      (e.sessions.installResponder peer (answering peer m r)) [] [] := by
    refine acts_start (s := answering peer m r) hm rfl rfl ?_
    rw [← slotsOf_entry]
    split_ifs
    · exact slots_setNext { e.sessions.entry peer with awaitingSince := none } _
    · exact slots_setCurrent { e.sessions.entry peer with awaitingSince := none } _
  refine hinstalled.trans_quiet (Quiet.of_eq ?_)
  funext a
  rw [slotsOf, slotsOf, ht]

theorem Heeds.acts (h : Heeds codec peer r msg e e' es) :
    Acts (Binds (Knows codec e) e) r.ephemeral e.sessions e'.sessions (sentPackets es) [] := by
  induction h with
  | held | refused | stale => exact (Quiet.of_eq rfl).acts
  | @yieldedNext e _ _ _ _ _ _ _ ih =>
    have hdropped : Quiet (Binds (Knows codec e) e) e.sessions (e.sessions.dropNext peer) [] :=
      .of_subperm (slotsOf_modifyPeer_subperm _ peer fun q =>
        slots_subperm (Sublist.refl _) (nil_sublist _) (Sublist.refl _))
    exact hdropped.trans_acts ih
  | @yieldedFirst e _ _ _ _ _ _ _ ih =>
    have hremoved : Quiet (Binds (Knows codec e) e) e.sessions ((e.sessions.takePending peer).1.remove peer) [] := by
      refine .of_subperm fun a => ?_
      simp only [slotsOf, remove, takePending, Std.ExtTreeMap.getElem?_erase, compare_eq_iff_eq]
      split_ifs
      · exact nil_subperm
      · exact Subperm.refl _
    exact hremoved.trans_acts ih
  | completed _ hfirst hstage _ hsends => exact ((quiet_completed hfirst hstage).trans hsends.quiet).acts
  | replaced hnext hstage _ hsends hperm =>
    exact (((quiet_replaced hnext hstage).trans hsends.quiet).perm (hperm.filterMap _).symm).acts
  | answered _ _ hm _ ht _ hsends => exact (acts_answered hm ht).trans_quiet hsends.quiet

theorem acts_outbound (codec : EngineCodec) (e : Engine) (packet : Packet) (r : Reading) :
    Acts (Binds (Knows codec e) e) r.ephemeral e.sessions (e.outbound codec packet r).1.sessions
      (sentPackets (e.outbound codec packet r).2) [] := by
  cases howner : e.ownerFor packet with
  | none =>
    obtain ⟨hsame, heffects⟩ := outbound_of_no_owner codec r howner
    have hnone : sentPackets (e.outbound codec packet r).2 = [] := by
      refine filterMap_eq_nil_iff.mpr fun x hx => ?_
      rcases heffects x hx with ⟨c, rfl⟩ | rfl <;> rfl
    rw [hsame, hnone]
    exact (Quiet.of_eq rfl).acts
  | some owner =>
    obtain ⟨mid, es, es', hsends, hasks, heffects⟩ := forwards_outbound codec howner r
    rw [heffects, sentPackets_append]
    have hacts := hasks.acts
    rw [hsends.only] at hacts
    exact hsends.quiet.trans_acts hacts

/-! ### What reaches the device -/

theorem writtenPackets_append (effects effects' : List EngineEffect) :
    writtenPackets (effects ++ effects') = writtenPackets effects ++ writtenPackets effects' :=
  filterMap_append

theorem Sends.written (h : Sends peer now e e' es) : writtenPackets es = [] := by
  induction h with
  | nothing => rfl
  | counted _ _ ih | noted _ ih | queued _ _ ih => exact ih
  | sealed _ _ hx _ ih => obtain ⟨lane, rfl | rfl⟩ := hx <;> exact ih

theorem Heeds.written (h : Heeds codec peer r msg e e' es) : writtenPackets es = [] := by
  induction h with
  | held | refused | stale => rfl
  | yieldedNext _ _ _ _ ih | yieldedFirst _ _ _ _ ih => exact ih
  | completed _ _ _ _ hsends | answered _ _ _ _ _ _ hsends => exact hsends.written
  | replaced _ _ _ hsends hperm =>
    have hsame : (writtenPackets _).Perm (writtenPackets _) := hperm.filterMap written?
    rw [hsends.written] at hsame
    exact hsame.eq_nil

theorem Reads.acts {ctr : Nat} {result : Engine × List EngineEffect} (h : e.Reads peer ctr msg now result)
    (codec : EngineCodec) (key : Nat) :
    ∃ opens, Acts (Binds (Knows codec e) e) key e.sessions result.1.sessions (sentPackets result.2) opens ∧
      (∀ x ∈ opens, msg = some (.sealed x.2)) ∧
      (writtenPackets result.2 = [] ∨ ∃ c, opens = [(peer, c)] ∧ msg = some (.sealed c) ∧
        writtenPackets result.2 = [c.plaintext] ∧ e.peers.checkIngress peer c.plaintext = .accept) := by
  rcases h with ⟨hsame, c, heffects⟩ | ⟨t, inner, es, es', hopen, hsends, heffects, hes'⟩
  · rw [hsame, heffects]
    exact ⟨[], (Quiet.of_eq rfl).acts, by simp, .inl rfl⟩
  · obtain ⟨c, hmsg, rfl, hsteps⟩ := unsealFrame_eq_ok (Binds (Knows codec e) e) hopen
    have hnone : sentPackets es' = [] := by
      rcases hes' with rfl | rfl | ⟨rfl, -⟩ <;> rfl
    rw [heffects, sentPackets_append, hnone, append_nil, writtenPackets_append, hsends.written]
    refine ⟨[(peer, c)], fun sealed opened => ?_, by simp [hmsg], ?_⟩
    · obtain ⟨sealed', hrest, hperm⟩ := hsends.quiet key sealed ((peer, c) :: opened)
      exact ⟨sealed', ((hsteps key sealed opened).trans hrest).tail .drawn, hperm⟩
    · rcases hes' with rfl | rfl | ⟨rfl, haccept⟩
      · exact .inl rfl
      · exact .inl rfl
      · exact .inr ⟨c, rfl, hmsg, rfl, haccept⟩

/-- A datagram: one packet is opened at most, and it is written to the device only if
the datagram carried it and it passed the filter. -/
theorem acts_inbound (codec : EngineCodec) (e : Engine) (datagram : Datagram) (r : Reading) :
    ∃ opens, Acts (Binds (Knows codec e) e) r.ephemeral e.sessions
        (e.inbound codec datagram r).1.sessions (sentPackets (e.inbound codec datagram r).2) opens ∧
      (∀ x ∈ opens, messageIn codec datagram = some (.sealed x.2)) ∧
      (writtenPackets (e.inbound codec datagram r).2 = [] ∨
        ∃ h c, RoutedHeader.parse datagram = some h ∧ opens = [(h.srcId, c)] ∧
          messageIn codec datagram = some (.sealed c) ∧
          writtenPackets (e.inbound codec datagram r).2 = [c.plaintext] ∧
          e.peers.checkIngress h.srcId c.plaintext = .accept) := by
  cases receives_inbound codec e datagram r with
  | nothing notes hsame hcounts =>
    have hsent : sentPackets (e.inbound codec datagram r).2 = [] :=
      filterMap_eq_nil_iff.mpr fun x hx => by rcases hcounts x hx with rfl | rfl <;> rfl
    have hwritten : writtenPackets (e.inbound codec datagram r).2 = [] :=
      filterMap_eq_nil_iff.mpr fun x hx => by rcases hcounts x hx with rfl | rfl <;> rfl
    rw [hsame, hsent]
    exact ⟨[], (Quiet.of_eq rfl).acts, by simp, .inl hwritten⟩
  | handshake _ _ _ hheeds => exact ⟨[], hheeds.acts, by simp, .inl hheeds.written⟩
  | @data h hparse _ _ hreads =>
    obtain ⟨opens, hacts, hopened, hwritten⟩ := hreads.acts codec r.ephemeral
    refine ⟨opens, hacts, hopened, hwritten.imp_right ?_⟩
    rintro ⟨c, hopens, hmsg, hpackets, haccept⟩
    exact ⟨h, c, hparse, hopens, hmsg, hpackets, haccept⟩

end Calls

variable {ok : NodeId → Bool → Initiation → Prop} (codec : EngineCodec) (e : Engine)

/-! ### Sweeps and views -/

theorem slotsOf_filter_map_subperm {t t' : SessionTable} {f : NodeId → PeerSessions → PeerSessions}
    (hf : ∀ a p, (f a p).slots.Subperm p.slots)
    (h : t'.sessions = (t.sessions.map f).filter fun _ p => !p.isEmpty) (a : NodeId) :
    (t'.slotsOf a).Subperm (t.slotsOf a) := by
  rw [slotsOf, slotsOf, h, Std.ExtTreeMap.getElem?_filter', Std.ExtTreeMap.getElem?_map]
  cases t.sessions[a]? with
  | none => exact Subperm.refl _
  | some p =>
    rw [map_some, filter_some]
    split_ifs
    · exact hf a p
    · exact nil_subperm

theorem quiet_expireSessions (now : Nat) :
    Quiet ok e.sessions (e.expireSessions now).1.sessions [] :=
  .of_subperm (slotsOf_filter_map_subperm (fun _ p => p.slots_expire now) rfl)

theorem slotsOf_foldl_forget (ids : List NodeId) (t : SessionTable) :
    (ids.foldl forgetHandshakeTs t).slotsOf = t.slotsOf := by
  induction ids generalizing t with
  | nil => rfl
  | cons a ids ih => exact ih _

theorem quiet_syncPeers (members : List PeerInfo) :
    Quiet ok e.sessions (e.syncPeers codec members).1.sessions [] := by
  have hforgotten : Quiet ok e.sessions
      ((e.relogged members).foldl forgetHandshakeTs e.sessions) [] :=
    .of_eq (slotsOf_foldl_forget _ _)
  exact hforgotten.trans (.of_subperm
    (slotsOf_filter_map_subperm (fun _ p => p.slots_sync _) rfl))

theorem quiet_reconcile (kind : EndpointKind) (view : Snapshot) (exits : List (IpNet × NodeId)) :
    Quiet ok e.sessions (e.reconcile codec kind view exits).sessions [] := by
  cases kind with
  | relay => exact .of_eq rfl
  | client =>
    rw [sessions_reconcile_client]
    exact e.quiet_syncPeers codec view.members

/-! ### Who an engine is -/

def identity (e : Engine) : NodeId × String × Key := (e.myNodeId, e.networkUuid, e.key)

theorem Binds.mono {vouched vouched' : NodeId → Key → Prop} {e e' : Engine} {a : NodeId} {role : Bool}
    {first : Initiation} (hid : e'.identity = e.identity)
    (hvouched : ∀ key, vouched a key → vouched' a key) (h : e.Binds vouched a role first) :
    e'.Binds vouched' a role first := by
  simp only [identity, Prod.mk.injEq] at hid
  obtain ⟨hnode, huuid, hkey⟩ := hid
  cases role with
  | true | false => exact ⟨hkey ▸ h.1, by rw [hnode, huuid]; exact h.2.1, hvouched _ h.2.2⟩

/-- Nothing but a view or a setting changes the peer table, and nothing at all the
identity. -/
def Same (e e' : Engine) : Prop := e'.identity = e.identity ∧ e'.peers = e.peers

variable {codec e} in
theorem Receives.same {datagram : Datagram} {r : Reading} {result : Engine × List EngineEffect}
    (h : Receives codec e datagram r result) : e.Same result.1 := by
  cases h with
  | nothing _ hsame =>
    rw [hsame]
    exact ⟨rfl, rfl⟩
  | handshake _ _ _ hheeds =>
    rw [hheeds.only]
    exact ⟨rfl, rfl⟩
  | data _ _ _ hreads =>
    rcases hreads with ⟨hsame, -⟩ | ⟨t, inner, es, es', -, hsends, -⟩
    · rw [hsame]
      exact ⟨rfl, rfl⟩
    · rw [hsends.only]
      exact ⟨rfl, rfl⟩

theorem same_inbound (datagram : Datagram) (r : Reading) : e.Same (e.inbound codec datagram r).1 :=
  (receives_inbound codec e datagram r).same

theorem same_outbound (packet : Packet) (r : Reading) : e.Same (e.outbound codec packet r).1 := by
  cases howner : e.ownerFor packet with
  | none =>
    rw [(outbound_of_no_owner codec r howner).1]
    exact ⟨rfl, rfl⟩
  | some owner =>
    obtain ⟨mid, es, es', hsends, hasks, -⟩ := forwards_outbound codec howner r
    rw [hasks.only, hsends.only]
    exact ⟨rfl, rfl⟩

theorem identity_reconcile (kind : EndpointKind) (view : Snapshot) (exits : List (IpNet × NodeId)) :
    (e.reconcile codec kind view exits).identity = e.identity := by
  cases kind with
  | relay => rfl
  | client =>
    unfold reconcile reconcileView
    dsimp only
    split_ifs <;> rfl

end Engine

end Nqvpn
