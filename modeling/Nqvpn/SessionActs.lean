import Nqvpn.SilentPeer

/-!
# What a call seals, hears and begins

A call of the engine does two kinds of things to the slots of its peer. It hears or begins something, which
seals nothing; and it seals packets, which advances the session in use and nothing else. Data and handshakes
are heard first and answered after; a packet from the device is sealed first, and a handshake begins after.
-/

namespace Nqvpn

open Option

namespace PairSession

def Sealed (s : PairSession) (c : SealedPacket) : Prop :=
  ∃ n, s.stage = .transport c.transcript n ∧ s.initiator = c.fromInitiator ∧ c.counter < n

def Unused (s : PairSession) : Prop := ∀ t n, s.stage = .transport t n → n = 0

/-- A session, and the same after it sealed some packets. -/
inductive Advances : PairSession → PairSession → Prop
  | same (s : PairSession) : Advances s s
  | sealed {s s' : PairSession} {t : Transcript} {n n' : Nat} : s.stage = .transport t n →
      s'.stage = .transport t n' → n ≤ n' → s'.initiator = s.initiator → Advances s s'

variable {s s' s'' : PairSession}

theorem Advances.trans (h : Advances s s') (h' : Advances s' s'') : Advances s s'' := by
  cases h with
  | same => exact h'
  | sealed hs hs' hle hrole =>
    cases h' with
    | same => exact .sealed hs hs' hle hrole
    | sealed ht ht' hle' hrole' =>
      obtain ⟨rfl, rfl⟩ := Stage.transport.inj (hs'.symm.trans ht)
      exact .sealed hs ht' (hle.trans hle') (hrole'.trans hrole)

theorem Advances.eq_of_unready (h : Advances s s') (hunready : s'.isReady = false) : s' = s := by
  cases h with
  | same => rfl
  | sealed _ hs' => simp [isReady, hs'] at hunready

variable {c : SealedPacket}

theorem Sealed.advances (h : s.Sealed c) (ha : Advances s s') : s'.Sealed c := by
  obtain ⟨n, hstage, hrole, hlt⟩ := h
  cases ha with
  | same => exact ⟨n, hstage, hrole, hlt⟩
  | sealed hs hs' hle hrole' =>
    obtain ⟨rfl, rfl⟩ := Stage.transport.inj (hs.symm.trans hstage)
    exact ⟨_, hs', hrole'.trans hrole, hlt.trans_le hle⟩

theorem Sealed.isReady (h : s.Sealed c) : s.isReady := by
  obtain ⟨n, hstage, -⟩ := h
  simp [PairSession.isReady, hstage]

theorem advances_sealPacket {packet : Packet} {ctr : Nat} (h : s.sealPacket packet = some (s', ctr, c)) : Advances s s' ∧ s'.Sealed c := by
  obtain ⟨t, hs, hs', hrole, -, rfl⟩ := sealPacket_eq_some h
  exact ⟨.sealed hs hs' (Nat.le_succ ctr) hrole, ctr + 1, hs', hrole, Nat.lt_succ_self ctr⟩

theorem unused_of_unready (h : s.isReady = false) : s.Unused := by
  intro t n hstage
  simp [isReady, hstage] at h

end PairSession

namespace PeerSessions

def InFlight (o : Option PeerSessions) (s : PairSession) : Prop :=
  s.isReady = false ∧ ∃ p ∈ o, p.current = some s ∨ p.next = some s

/-- `q` is the replaced session once more, with another window at most, or the session in use that is
retired now, just as it was. -/
def Retires (now : Nat) (p : PeerSessions) (q : PairSession × Nat) : Prop :=
  (∃ s, p.previous = some (s, q.2) ∧ q.1 = { s with replay := q.1.replay }) ∨
    p.current = some q.1 ∧ q.1.isReady = true ∧ q.2 = now

/-- Packets are sealed on the session in use. -/
structure SealedTo (p p' : PeerSessions) : Prop where
  current : Rel PairSession.Advances p.current p'.current
  next : p'.next = p.next
  previous : p'.previous = p.previous

def Drops (o o' : Option PeerSessions) : Prop :=
  ∀ p' ∈ o', ∃ p ∈ o, (∀ c, p'.current = some c → p.current = some c) ∧
    (∀ n, p'.next = some n → p.next = some n) ∧ ∀ q, p'.previous = some q → p.previous = some q

/-- Something is heard or dropped; nothing is sealed, and no handshake of ours begins. -/
structure Takes (now : Nat) (o o' : Option PeerSessions) : Prop where
  previous : ∀ p' ∈ o', ∀ q ∈ p'.previous, ∃ p ∈ o, p.Retires now q
  next : ∀ p' ∈ o', ∀ n ∈ p'.next, n.Unused ∨ ∃ p ∈ o, p.next = some n
  flight : ∀ s, InFlight o' s → InFlight o s

/-- A handshake of ours begins, if any: a replacement where none is in place, or a first one where there
is nothing at all. -/
inductive Begins : Option PeerSessions → Option PeerSessions → Prop
  | nothing (o : Option PeerSessions) : Begins o o
  | rekey {p : PeerSessions} {n : PairSession} : p.next = none → n.isReady = false →
      Begins (some p) (some { p with next := some n })
  | first {o : Option PeerSessions} {n : PairSession} : (∀ p ∈ o, p.current = none ∧ p.next = none) →
      n.isReady = false →
      Begins o (some { o.getD .default with current := some n, next := none, awaitingSince := none })

variable {now : Nat} {p p' : PeerSessions} {o o' o'' : Option PeerSessions} {s n : PairSession}

theorem retires_self {q : PairSession × Nat} (h : p.previous = some q) : p.Retires now q :=
  .inl ⟨q.1, h, rfl⟩

theorem Takes.refl (o : Option PeerSessions) : Takes now o o :=
  ⟨fun p hp _ hq => ⟨p, hp, retires_self hq⟩, fun p hp _ hn => .inr ⟨p, hp, hn⟩, fun _ hs => hs⟩

theorem SealedTo.refl (p : PeerSessions) : SealedTo p p := by
  refine ⟨?_, rfl, rfl⟩
  cases p.current with
  | none => exact .none
  | some c => exact .some (.same c)

theorem SealedTo.trans {p'' : PeerSessions} (h : SealedTo p p') (h' : SealedTo p' p'') : SealedTo p p'' := by
  refine ⟨?_, h'.next.trans h.next, h'.previous.trans h.previous⟩
  have hcurrent := h.current
  have hcurrent' := h'.current
  revert hcurrent hcurrent'
  generalize p.current = a, p'.current = b, p''.current = c
  rintro (⟨hab⟩ | _) (⟨hbc⟩ | _)
  · exact .some (hab.trans hbc)
  · exact .none

/-! ### Hearing -/

variable (now) in
theorem Drops.takes (h : Drops o o') : Takes now o o' := by
  refine ⟨fun p' hp' q hq => ?_, fun p' hp' n hn => ?_, fun s hs => ?_⟩
  · obtain ⟨p, hp, -, -, hprevious⟩ := h p' hp'
    exact ⟨p, hp, retires_self (hprevious q hq)⟩
  · obtain ⟨p, hp, -, hnext, -⟩ := h p' hp'
    exact .inr ⟨p, hp, hnext n hn⟩
  · obtain ⟨hunready, p', hp', hslot⟩ := hs
    obtain ⟨p, hp, hcurrent, hnext, -⟩ := h p' hp'
    exact ⟨hunready, p, hp, hslot.imp (hcurrent s) (hnext s)⟩

theorem Drops.trans_takes (hdrop : Drops o o') (h : Takes now o' o'') : Takes now o o'' := by
  refine ⟨fun p'' hp'' q hq => ?_, fun p'' hp'' n hn => ?_, fun s hs => ?_⟩
  · obtain ⟨p', hp', hretires⟩ := h.previous p'' hp'' q hq
    obtain ⟨p, hp, hcurrent, -, hprevious⟩ := hdrop p' hp'
    refine ⟨p, hp, hretires.imp ?_ fun hc => ⟨hcurrent _ hc.1, hc.2⟩⟩
    rintro ⟨s, hs, hsame⟩
    exact ⟨s, hprevious _ hs, hsame⟩
  · refine (h.next p'' hp'' n hn).imp_right ?_
    rintro ⟨p', hp', hn'⟩
    obtain ⟨p, hp, -, hnext, -⟩ := hdrop p' hp'
    exact ⟨p, hp, hnext n hn'⟩
  · exact (hdrop.takes now).flight s (h.flight s hs)

theorem Takes.of_entry (hprevious : ∀ q, p'.previous = some q → p.Retires now q)
    (hnext : ∀ n, p'.next = some n → n.Unused ∨ p.next = some n)
    (hflight : ∀ s, s.isReady = false → p'.current = some s ∨ p'.next = some s →
      p.current = some s ∨ p.next = some s) : Takes now (some p) (some p') := by
  refine ⟨fun _ hp' q hq => ?_, fun _ hp' n hn => ?_, ?_⟩
  · cases hp'
    exact ⟨p, rfl, hprevious q hq⟩
  · cases hp'
    exact (hnext n hn).imp_right fun h => ⟨p, rfl, h⟩
  · rintro s ⟨hunready, _, hp', hslot⟩
    cases hp'
    exact ⟨hunready, p, rfl, hflight s hunready hslot⟩

theorem Takes.setCurrent (p : PeerSessions) (hs : s.isReady) (awaitingSince : Option Nat) :
    Takes now (some p) (some { p with current := some s, awaitingSince }) := by
  refine .of_entry (fun _ hq => retires_self hq) (fun _ => .inr) ?_
  rintro s' hunready (hcurrent | hnext)
  · obtain rfl : s = s' := some.inj hcurrent
    simp [hs] at hunready
  · exact .inr hnext

theorem Takes.setNext (p : PeerSessions) (hs : s.isReady) (hunused : s.Unused) (awaitingSince : Option Nat) :
    Takes now (some p) (some { p with next := some s, awaitingSince }) := by
  refine .of_entry (fun _ hq => retires_self hq) (fun n hn => .inl (some.inj hn ▸ hunused)) ?_
  rintro s' hunready (hcurrent | hnext)
  · exact .inl hcurrent
  · obtain rfl : s = s' := some.inj hnext
    simp [hs] at hunready

theorem Takes.promoted (p : PeerSessions) (hs : s.isReady) :
    Takes now (some p) (some { { p with next := some s }.promote now with awaitingSince := none }) := by
  refine .of_entry (fun q hq => ?_) (fun _ hn => (nomatch hn)) ?_
  · rcases or_eq_some_iff.mp hq with hcurrent | ⟨-, hprevious⟩
    · obtain ⟨c, hc, rfl⟩ := map_eq_some_iff.mp hcurrent
      obtain ⟨hget, hready⟩ := filter_eq_some_iff.mp hc
      exact .inr ⟨hget, hready, rfl⟩
    · exact retires_self hprevious
  · rintro s' hunready (hcurrent | hnext)
    · obtain rfl : s = s' := some.inj hcurrent
      simp [hs] at hunready
    · cases hnext

theorem Takes.opened {ctr : Nat} {msg : Option Message} {v : Packet} (h : p.unsealAny ctr msg now = .ok (p', v)) :
    Takes now (some p) (some { p' with awaitingSince := none }) := by
  obtain ⟨s, s', hopen, hslot⟩ := unsealAny_cases h
  have hs' := isReady_of_unsealFrame hopen
  rcases hslot with ⟨-, rfl⟩ | ⟨-, rfl⟩ | ⟨retired, hprevious, rfl⟩
  · exact .setCurrent p hs' none
  · exact .promoted p hs'
  · obtain ⟨t, n, -, -, -, hwindow⟩ := PairSession.unsealFrame_eq_ok hopen
    refine .of_entry (fun q hq => ?_) (fun _ => .inr) fun _ _ => id
    obtain rfl : (s', retired) = q := some.inj hq
    exact .inl ⟨s, hprevious, by rw [hwindow]⟩

theorem Takes.answered (o : Option PeerSessions) (hs : s.isReady) (hunused : s.Unused) :
    Takes now o (some ((o.getD .default).answered s)) := by
  have hentry : Takes now (some (o.getD .default)) (some ((o.getD .default).answered s)) := by
    unfold PeerSessions.answered
    dsimp only
    split_ifs
    · exact .setNext _ hs hunused none
    · exact .setCurrent _ hs none
  cases o with
  | some p => exact hentry
  | none =>
    -- There was nothing, which is no more than an empty entry.
    refine ⟨fun p' hp' q hq => ?_, fun p' hp' n hn => ?_, fun s hs => ?_⟩
    · obtain ⟨p, hp, hretires⟩ := hentry.previous p' hp' q hq
      cases hp
      rcases hretires with ⟨s, hs, -⟩ | ⟨hc, -⟩ <;> simp [PeerSessions.default] at *
    · refine .inl ((hentry.next p' hp' n hn).resolve_right ?_)
      rintro ⟨p, hp, hnext⟩
      cases hp
      cases hnext
    · obtain ⟨-, p, hp, hslot⟩ := hentry.flight s hs
      cases hp
      rcases hslot with h | h <;> cases h

theorem Takes.sealed (h : Takes now o o') (hsealed : Rel SealedTo o' o'') : Takes now o o'' := by
  refine ⟨fun p'' hp'' q hq => ?_, fun p'' hp'' n hn => ?_, ?_⟩
  · cases hp''
    cases hsealed with
    | some hp => exact h.previous _ rfl q (hp.previous ▸ hq)
  · cases hp''
    cases hsealed with
    | some hp => exact h.next _ rfl n (hp.next ▸ hn)
  · rintro s ⟨hunready, p'', hp'', hslot⟩
    cases hp''
    cases hsealed with
    | @some p' _ hp =>
      refine h.flight s ⟨hunready, p', rfl, ?_⟩
      rcases hslot with hcurrent | hnext
      · have hrel := hp.current
        rw [hcurrent] at hrel
        generalize hc : p'.current = c at hrel
        cases hrel with
        | some hadvances => exact .inl (by rw [hadvances.eq_of_unready hunready])
      · exact .inr (hp.next ▸ hnext)

end PeerSessions

namespace SessionTable

open PeerSessions

/-- Packets are sealed, each on the session in use with its peer. -/
structure Seals (out : List (NodeId × SealedPacket)) (t t' : SessionTable) : Prop where
  entries : ∀ a : NodeId, Rel SealedTo t.sessions[a]? t'.sessions[a]?
  sealed : ∀ x ∈ out, ∃ p ∈ t'.sessions[x.1]?, ∃ s ∈ p.current, s.Sealed x.2

def Heard (now : Nat) (out : List (NodeId × SealedPacket)) (t t' : SessionTable) : Prop :=
  ∃ mid : SessionTable, (∀ a : NodeId, Takes now t.sessions[a]? mid.sessions[a]?) ∧ Seals out mid t'

def Sent (out : List (NodeId × SealedPacket)) (t t' : SessionTable) : Prop :=
  ∃ mid : SessionTable, Seals out t mid ∧ ∀ a : NodeId, Begins mid.sessions[a]? t'.sessions[a]?

variable {now : Nat} {out out' : List (NodeId × SealedPacket)} {t t' t'' : SessionTable} {peer : NodeId}
  {s s' : PairSession}

theorem rel_sealedTo_refl (o : Option PeerSessions) : Rel SealedTo o o := by
  cases o with
  | none => exact .none
  | some p => exact .some (.refl p)

theorem Seals.of_eq (h : t'.sessions = t.sessions) : Seals [] t t' := by
  refine ⟨fun a => ?_, fun _ hx => (nomatch hx)⟩
  rw [h]
  exact rel_sealedTo_refl _

theorem Seals.trans (h : Seals out t t') (h' : Seals out' t' t'') : Seals (out ++ out') t t'' := by
  refine ⟨fun a => ?_, fun x hx => ?_⟩
  · have hfirst := h.entries a
    have hsecond := h'.entries a
    revert hfirst hsecond
    generalize t.sessions[a]? = o, t'.sessions[a]? = o', t''.sessions[a]? = o''
    rintro (⟨hp⟩ | _) (⟨hp'⟩ | _)
    · exact .some (hp.trans hp')
    · exact .none
  · rcases List.mem_append.mp hx with hx | hx
    · -- The session that sealed it has advanced since.
      obtain ⟨p, hp, s, hs, hsealed⟩ := h.sealed x hx
      have hentry := h'.entries x.1
      rw [mem_def.mp hp] at hentry
      generalize ho : t''.sessions[x.1]? = o at hentry ⊢
      cases hentry with
      | @some _ p' hto =>
        have hcurrent := hto.current
        rw [mem_def.mp hs] at hcurrent
        generalize hc : p'.current = c at hcurrent
        cases hcurrent with
        | @some _ s' hadvances => exact ⟨p', rfl, s', hc, hsealed.advances hadvances⟩
    · exact h'.sealed x hx

theorem Seals.perm (h : Seals out t t') (hsub : out' ⊆ out) : Seals out' t t' :=
  ⟨h.entries, fun x hx => h.sealed x (hsub hx)⟩

theorem seals_noteSent (t : SessionTable) (peer : NodeId) (now : Nat) : Seals [] t (t.noteSent peer now) := by
  refine ⟨fun a => ?_, fun _ hx => (nomatch hx)⟩
  rw [noteSent, sessions_modifyPeer]
  split_ifs with ha
  · subst ha
    cases t.sessions[peer]? with
    | none => exact .none
    | some p =>
      have hp := SealedTo.refl p
      exact .some ⟨hp.current, rfl, rfl⟩
  · exact rel_sealedTo_refl _

theorem seals_put (hget : t.get peer = some s) (hadvances : s.Advances s')
    (hout : ∀ x ∈ out, x.1 = peer ∧ s'.Sealed x.2) : Seals out t (t.put peer s') := by
  obtain ⟨p, hp, hcurrent⟩ := bind_eq_some_iff.mp hget
  have hput : (t.put peer s').sessions[peer]? = some { p with current := some s' } := by
    rw [put, sessions_modifyPeer, if_pos rfl, hp, map_some]
  refine ⟨fun a => ?_, fun x hx => ?_⟩
  · by_cases ha : peer = a
    · subst ha
      rw [hp, hput]
      refine .some ⟨?_, rfl, rfl⟩
      rw [hcurrent]
      exact .some hadvances
    · rw [put, sessions_modifyPeer, if_neg ha]
      exact rel_sealedTo_refl _
  · obtain ⟨hpeer, hsealed⟩ := hout x hx
    rw [hpeer, hput]
    exact ⟨_, rfl, s', rfl, hsealed⟩

theorem takes_modifyPeer {f : PeerSessions → PeerSessions}
    (hf : ∀ p, t.sessions[peer]? = some p → Takes now (some p) (some (f p))) (a : NodeId) :
    Takes now t.sessions[a]? (t.modifyPeer peer f).sessions[a]? := by
  rw [sessions_modifyPeer]
  split_ifs with ha
  · subst ha
    cases hp : t.sessions[peer]? with
    | none => exact .refl none
    | some p => exact hf p hp
  · exact .refl _

theorem takes_setEntry {p : PeerSessions} (hp : Takes now t.sessions[peer]? (some p)) (a : NodeId) :
    Takes now t.sessions[a]? (t.setEntry peer p).sessions[a]? := by
  rw [sessions_setEntry]
  split_ifs with ha
  · subst ha
    exact hp
  · exact .refl _

theorem Seals.heard (h : Seals out t t') : Heard now out t t' := ⟨t, fun _ => .refl _, h⟩

theorem Heard.of_eq (h : t'.sessions = t.sessions) : Heard now [] t t' := (Seals.of_eq h).heard

theorem Heard.after_drops (hdrop : ∀ a : NodeId, Drops t.sessions[a]? t'.sessions[a]?)
    (h : Heard now out t' t'') : Heard now out t t'' := by
  obtain ⟨mid, htakes, hseals⟩ := h
  exact ⟨mid, fun a => (hdrop a).trans_takes (htakes a), hseals⟩

end SessionTable

namespace Engine

open SessionTable PeerSessions

variable {codec : EngineCodec} {e : Engine} {peer : NodeId} {now : Nat}
variable {e' : Engine} {es : List EngineEffect} {r : Reading} {msg : Option Message}

theorem Sends.seals (h : Sends peer now e e' es) :
    Seals (sentPackets es) e.sessions e'.sessions := by
  induction h with
  | nothing => exact .of_eq rfl
  | counted _ _ ih => exact ih
  | @sealed _ _ _ _ packet ctr c x es hget hseal hx _ ih =>
    have hsent : sentPackets (x :: es) = [(peer, c)] ++ sentPackets es := by
      obtain ⟨lane, rfl | rfl⟩ := hx <;> simp [sentPackets]
    obtain ⟨hadvances, hsealed⟩ := PairSession.advances_sealPacket hseal
    rw [hsent]
    refine Seals.trans (seals_put hget hadvances fun y hy => ?_) ih
    obtain rfl : y = (peer, c) := List.mem_singleton.mp hy
    exact ⟨rfl, hsealed⟩
  | noted _ ih => exact (seals_noteSent _ peer now).trans ih
  | queued _ _ ih => exact ⟨ih.entries, ih.sealed⟩

theorem Asks.begins (h : Asks codec peer r e e' es) (a : NodeId) : Begins e.sessions.sessions[a]? e'.sessions.sessions[a]? ∧ sentPackets es = [] := by
  cases h with
  | nothing => exact ⟨.nothing _, rfl⟩
  | rekey packet _ hp _ _ hnext =>
    refine ⟨?_, sentPackets_startedEffects ..⟩
    change Begins _ (e.sessions.setEntry peer _).sessions[a]?
    rw [sessions_setEntry]
    split_ifs with ha
    · subst ha
      rw [SessionTable.entry, hp, getD_some]
      exact .rekey hnext rfl
    · exact .nothing _
  | first packet _ hhas =>
    refine ⟨?_, sentPackets_startedEffects ..⟩
    change Begins _ (e.sessions.setEntry peer _).sessions[a]?
    rw [sessions_setEntry]
    split_ifs with ha
    · subst ha
      refine .first (fun p hp => ?_) rfl
      rw [SessionTable.has, mem_def.mp hp, any_some, Bool.or_eq_false_iff] at hhas
      simpa using hhas
    · exact .nothing _

theorem sent_outbound (packet : Packet) (r : Reading) :
    Sent (sentPackets (e.outbound codec packet r).2) e.sessions (e.outbound codec packet r).1.sessions := by
  cases howner : e.ownerFor packet with
  | none =>
    obtain ⟨hsame, heffects⟩ := outbound_of_no_owner codec r howner
    have hnone : sentPackets (e.outbound codec packet r).2 = [] := by
      refine List.filterMap_eq_nil_iff.mpr fun x hx => ?_
      rcases heffects x hx with ⟨c, rfl⟩ | rfl <;> rfl
    rw [hsame, hnone]
    exact ⟨e.sessions, .of_eq rfl, fun _ => .nothing _⟩
  | some owner =>
    obtain ⟨mid, es, es', hsends, hasks, heffects⟩ := forwards_outbound codec howner r
    rw [heffects, sentPackets_append, (hasks.begins owner).2, List.append_nil]
    exact ⟨mid.sessions, hsends.seals, fun a => (hasks.begins a).1⟩

/-! ### Hearing -/

theorem drops_remove (t : SessionTable) (peer a : NodeId) :
    Drops t.sessions[a]? ((t.takePending peer).1.remove peer).sessions[a]? := by
  intro p hp
  simp only [remove, takePending, Std.ExtTreeMap.getElem?_erase, compare_eq_iff_eq, mem_def] at hp
  split_ifs at hp
  exact ⟨p, hp, fun _ h => h, fun _ h => h, fun _ h => h⟩

theorem drops_dropNext (t : SessionTable) (peer a : NodeId) :
    Drops t.sessions[a]? (t.dropNext peer).sessions[a]? := by
  intro p' hp'
  rw [mem_def, dropNext, sessions_modifyPeer] at hp'
  split_ifs at hp' with ha
  · subst ha
    obtain ⟨p, hp, rfl⟩ := map_eq_some_iff.mp hp'
    exact ⟨p, hp, fun _ h => h, fun n h => (not_mem_none n h).elim, fun _ h => h⟩
  · exact ⟨p', hp', fun _ h => h, fun _ h => h, fun _ h => h⟩

theorem Heeds.heard (h : Heeds codec peer r msg e e' es) : Heard r.now (sentPackets es) e.sessions e'.sessions := by
  induction h with
  | held | refused | stale => exact .of_eq rfl
  | yieldedNext _ _ _ _ ih => exact .after_drops (drops_dropNext _ peer) ih
  | yieldedFirst _ _ _ _ ih => exact .after_drops (drops_remove _ peer) ih
  | completed _ _ _ _ hsends =>
    exact ⟨_, takes_modifyPeer fun p _ => .setCurrent p rfl p.awaitingSince, hsends.seals⟩
  | replaced _ _ _ hsends hperm =>
    refine ⟨_, fun a => ?_, hsends.seals.perm (hperm.filterMap EngineEffect.sealed?).subset⟩
    rw [promote_putNext]
    exact takes_modifyPeer (fun p _ => .promoted p rfl) a
  | answered _ _ _ _ ht _ hsends =>
    refine ⟨_, fun a => ?_, hsends.seals⟩
    rw [ht]
    exact takes_setEntry (.answered _ rfl fun t n hstage => (Stage.transport.inj hstage).2.symm) a

theorem Reads.heard {ctr : Nat} {result : Engine × List EngineEffect} (h : e.Reads peer ctr msg now result) : Heard now (sentPackets result.2) e.sessions result.1.sessions := by
  rcases h with ⟨hsame, c, heffects⟩ | ⟨t, inner, es, es', hopen, hsends, heffects, hes'⟩
  · rw [hsame, heffects]
    exact .of_eq rfl
  · have hnone : sentPackets es' = [] := by
      rcases hes' with rfl | rfl | ⟨rfl, -⟩ <;> rfl
    obtain ⟨p, p', hp, hany, rfl⟩ := unsealFrame_entry hopen
    rw [heffects, sentPackets_append, hnone, List.append_nil]
    refine ⟨_, takes_setEntry ?_, hsends.seals⟩
    rw [hp]
    exact .opened hany

theorem heard_inbound (datagram : Datagram) (r : Reading) :
    Heard r.now (sentPackets (e.inbound codec datagram r).2) e.sessions (e.inbound codec datagram r).1.sessions := by
  cases receives_inbound codec e datagram r with
  | nothing notes hsame hcounts =>
    have hnone : sentPackets (e.inbound codec datagram r).2 = [] := by
      refine List.filterMap_eq_nil_iff.mpr fun x hx => ?_
      rcases hcounts x hx with rfl | rfl <;> rfl
    rw [hsame, hnone]
    exact .of_eq rfl
  | handshake _ _ _ hheeds => exact hheeds.heard
  | data _ _ _ hreads => exact hreads.heard

end Engine

end Nqvpn
