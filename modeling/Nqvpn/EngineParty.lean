import Nqvpn.EngineSeat
import Nqvpn.EndToEnd

/-!
# An engine plays a party of the abstract protocol

`Seat.Plays` relates what an engine holds for a peer to a party, and `Spells` the
frames between the two to letters. What an engine does with a packet from its device
is a sequence of acts of the party.
-/

namespace Nqvpn

open Handover SessionTable EngineEffect NoiseIK List

/-- The two ends of a direction: ids, static keys and the network. -/
structure Direction where
  src : NodeId
  dst : NodeId
  srcKey : Key
  dstKey : Key
  uuid : String
deriving DecidableEq, Repr

namespace Direction

def flip (ρ : Direction) : Direction := ⟨ρ.dst, ρ.src, ρ.dstKey, ρ.srcKey, ρ.uuid⟩

/-- Two different ids that fit the wire. -/
structure Valid (ρ : Direction) : Prop where
  ne : ρ.src ≠ ρ.dst
  src_lt : ρ.src < 2 ^ 32
  dst_lt : ρ.dst < 2 ^ 32

theorem Valid.flip {ρ : Direction} (h : ρ.Valid) : ρ.flip.Valid := ⟨h.ne.symm, h.dst_lt, h.src_lt⟩

end Direction

abbrev EngineLetter := Letter Initiation Transcript Packet
abbrev EngineParty := Party Initiation Transcript Packet

def payload (packet : Packet) : Option Packet := if packet.isEmpty then none else some packet

theorem payload_of_pos {packet : Packet} (h : 0 < packet.length) : payload packet = some packet := by
  unfold payload
  rw [if_neg]
  intro hempty
  rw [List.isEmpty_iff] at hempty
  rw [hempty] at h
  exact absurd h (by simp)

def Tai64n.Fits (ts : Tai64n) : Prop := ts.secs < 2 ^ 64 ∧ ts.nanos < 2 ^ 32

theorem Tai64n.fromPayload_toBytes {ts : Tai64n} (h : ts.Fits) :
    Tai64n.fromPayload ts.toBytes = ts := by
  obtain ⟨secs, nanos⟩ := ts
  obtain ⟨hs, hn⟩ := h
  have hsecs : BigEndian.ofBytes (BigEndian.toBytes 8 secs) = secs :=
    BigEndian.ofBytes_toBytes (w := 8) hs
  have hnanos : BigEndian.ofBytes (BigEndian.toBytes 4 nanos) = nanos :=
    BigEndian.ofBytes_toBytes (w := 4) hn
  have hlen : (BigEndian.toBytes 8 secs).length = 8 := BigEndian.length_toBytes ..
  have hlen' : (BigEndian.toBytes 4 nanos).length = 4 := BigEndian.length_toBytes ..
  have htake : (BigEndian.toBytes 8 secs ++ BigEndian.toBytes 4 nanos).take 8 =
      BigEndian.toBytes 8 secs := take_left' hlen
  have hdrop : ((BigEndian.toBytes 8 secs ++ BigEndian.toBytes 4 nanos).drop 8).take 4 =
      BigEndian.toBytes 4 nanos := by
    exact take_of_length_le hlen'.le
  simp only [fromPayload, toBytes, length_append, hlen, hlen', htake, hdrop, hsecs, hnanos]
  simp

/-! ### Frames -/

/-- A cryptographic message that stands for a letter. -/
inductive Written (ρ : Direction) : Option Nat → Message → EngineLetter → Prop
  | ask {i : Initiation} (initiator : i.initiator = ρ.srcKey) (responder : i.responder = ρ.dstKey)
    (prologue : i.prologue = ⟨ρ.uuid, ρ.src, ρ.dst⟩) : Written ρ none (.initiation i) (.ask i)
  | answer (t : Transcript) : Written ρ none (.reply t) (.answer t)
  | data {t : Transcript} {b : Bool} {n : Nat} {packet : Packet} (side : Side ρ.src ρ.dst t b)
    (hn : n < 2 ^ 64) (hlen : packet.length + tagLen ≤ maxMessage) :
    Written ρ (some n) (.sealed ⟨t, b, n, packet⟩) (.data t n (payload packet))

/-- A frame that stands for a letter. -/
structure Spells (ρ : Direction) (f : OutFrame) (c : EngineLetter) : Prop where
  fits : Net.FrameFits f
  src : f.header.srcId = ρ.src
  dst : f.header.dstId = ρ.dst
  written : Written ρ f.ctr f.message c

theorem Packet.traceId_lt (packet : Packet) : packet.traceId < 2 ^ 32 := by
  unfold traceId
  split
  · exact UInt32.toNat_lt _
  · decide

def EngineEffect.frame? : EngineEffect → Option OutFrame
  | send f _ | sendCounted f _ => some f
  | _ => none

/-- The frames of a call that go to `peer`. -/
def sentTo (peer : NodeId) (effects : List EngineEffect) : List OutFrame :=
  (effects.filterMap frame?).filter (·.header.dstId = peer)

variable (peer : NodeId)

@[simp] theorem sentTo_nil : sentTo peer [] = [] := rfl

@[simp] theorem sentTo_append (es es' : List EngineEffect) :
    sentTo peer (es ++ es') = sentTo peer es ++ sentTo peer es' := by
  simp [sentTo]

@[simp] theorem sentTo_count (c : EngineCounter) (es : List EngineEffect) :
    sentTo peer (.count c :: es) = sentTo peer es := rfl

variable {f : OutFrame} {peer : NodeId}

theorem sentTo_send (hf : f.header.dstId = peer) (lane : UInt8) (es : List EngineEffect) : sentTo peer (.send f lane :: es) = f :: sentTo peer es := by
  simp [sentTo, frame?, hf]

theorem sentTo_sendCounted (hf : f.header.dstId = peer) (lane : UInt8) (es : List EngineEffect) :
    sentTo peer (.sendCounted f lane :: es) = f :: sentTo peer es := by
  simp [sentTo, frame?, hf]

theorem sentTo_eq_nil {es : List EngineEffect}
    (h : ∀ e ∈ es, ∀ f ∈ e.frame?, f.header.dstId ≠ peer) : sentTo peer es = [] := by
  rw [sentTo, filter_eq_nil_iff]
  intro f hf
  obtain ⟨e, he, hef⟩ := mem_filterMap.mp hf
  simpa using h e he f hef

def EngineCounter.isDrop : EngineCounter → Bool
  | dropNoRoute | dropNoSession | dropQueueFull | dropSealFailed | dropReplay | dropIngress
  | dropOversize | dropKeyMismatch | dropStaleHandshake | dropMalformed => true
  | _ => false

def EngineEffect.isDrop : EngineEffect → Bool
  | count c => c.isDrop
  | _ => false

/-! ### Seats -/

/-- A slot of the table stands for a slot of the party. -/
inductive Stands (me peer : NodeId) :
    Option PairSession → Option (Slot Initiation Transcript) → Prop
  | empty : Stands me peer none none
  | asked {s : PairSession} {f : Initiation} (stage : s.stage = .handshake f)
    (initiator : s.initiator = true) (side : f.prologue.initiator = me)
    (replay : s.replay = .default) : Stands me peer (some s) (some (.asked f))
  | ready {s : PairSession} {l : Line Transcript} (h : s.Bears me peer l) :
    Stands me peer (some s) (some (.ready l))

variable {me peer : NodeId} {o : Option PairSession} {slot : Option (Slot Initiation Transcript)}
  {l : Line Transcript}

theorem Stands.asking (h : Stands me peer o slot) :
    o.filter (fun s => s.initiator && !s.isReady) = none ∧ (∀ f, slot ≠ some (.asked f)) ∨
      ∃ s f, o = some s ∧ slot = some (.asked f) ∧ s.stage = .handshake f ∧ s.initiator ∧
        f.prologue.initiator = me ∧ s.replay = .default ∧
        o.filter (fun s => s.initiator && !s.isReady) = some s := by
  cases h with
  | empty => exact .inl ⟨rfl, by simp⟩
  | asked stage initiator side replay =>
    refine .inr ⟨_, _, rfl, rfl, stage, initiator, side, replay, ?_⟩
    simp [Option.filter, PairSession.isReady, stage, initiator]
  | ready hs => exact .inl ⟨by simp [Option.filter, hs.isReady], by simp⟩

theorem Stands.of_none (h : Stands me peer o none) : o = none := by
  cases h
  rfl

theorem Stands.slot_of_none (h : Stands me peer none slot) : slot = none := by
  cases h
  rfl

theorem Stands.of_ready (h : Stands me peer o (some (.ready l))) : ∃ s, o = some s ∧ s.Bears me peer l := by
  cases h with
  | ready hs => exact ⟨_, rfl, hs⟩

theorem Stands.of_asked {f : Initiation} (h : Stands me peer o (some (.asked f))) :
    ∃ s, o = some s ∧ s.stage = .handshake f ∧ s.initiator ∧ f.prologue.initiator = me ∧
      s.replay = .default := by
  cases h with
  | asked stage initiator side replay => exact ⟨_, rfl, stage, initiator, side, replay⟩

theorem Stands.unready (h : Stands me peer o slot) (hl : ∀ l, slot ≠ some (.ready l)) :
    o.filter (·.isReady) = none := by
  cases h with
  | empty => rfl
  | asked stage => simp [Option.filter, PairSession.isReady, stage]
  | ready => exact absurd rfl (hl _)

def Queueable (packet : Packet) : Prop :=
  0 < packet.length ∧ packet.length + tagLen ≤ maxMessage

/-- The seat is that of the party, at a time when the session before still opens. -/
structure Seat.Plays (σ : Seat) (me peer : NodeId) (now : Nat) (p : EngineParty) : Prop where
  current : Stands me peer σ.current p.current
  next : Stands me peer σ.next p.next
  previous : ∀ k, p.previous = some k → ∃ q, σ.previous = some q ∧
    now - q.2 < previousGraceSecs ∧ q.1.Bears me peer k
  queue : σ.queue = p.queue
  queueable : ∀ packet ∈ σ.queue, Queueable packet
  room : σ.queue.length ≤ pendingLimit

variable {σ : Seat} {now : Nat} {p : EngineParty}

theorem Seat.Plays.ready (h : σ.Plays me peer now p) (hl : p.current = some (.ready l)) :
    ∃ s, σ.current = some s ∧ s.Bears me peer l := by
  have hc := h.current
  rw [hl] at hc
  exact hc.of_ready

/-- An engine at the start of a direction, which knows the key at its end. -/
structure Engine.Serves (codec : EngineCodec) (e : Engine) (ρ : Direction) : Prop where
  id : e.myNodeId = ρ.src
  key : e.key = ρ.srcKey
  uuid : e.networkUuid = ρ.uuid
  knows : e.peers.pubkeyOf codec.base64 ρ.dst = some ρ.dstKey

namespace Engine

variable {codec : EngineCodec} {e : Engine} {ρ : Direction}

theorem Serves.withSessions (h : e.Serves codec ρ) (t : SessionTable) (ts : Tai64n) :
    Serves codec { e with sessions := t, lastTs := ts } ρ :=
  { h with }

/-- The engine holds for the other end of a direction what the party holds. -/
structure Enacts (codec : EngineCodec) (ρ : Direction) (now : Nat) (e : Engine) (p : EngineParty) : Prop where
  valid : ρ.Valid
  serves : e.Serves codec ρ
  plays : (e.sessions.seat ρ.dst).Plays ρ.src ρ.dst now p

theorem Enacts.become (h : e.Enacts codec ρ now p) {t : SessionTable} {p' : EngineParty}
    (hp : (t.seat ρ.dst).Plays ρ.src ρ.dst now p') : Enacts codec ρ now { e with sessions := t } p' :=
  ⟨h.valid, h.serves.withSessions t e.lastTs, hp⟩

theorem Enacts.noteSent (h : e.Enacts codec ρ now p) :
    Enacts codec ρ now { e with sessions := e.sessions.noteSent ρ.dst now } p :=
  h.become ((e.sessions.seat_noteSent ρ.dst now).symm ▸ h.plays)

def Utters (ρ : Direction) (effects : List EngineEffect) (w : List EngineLetter) : Prop :=
  Forall₂ (Spells ρ) (sentTo ρ.dst effects) w

variable {es : List EngineEffect} {owner : NodeId} {e' : Engine}

theorem Utters.append {es' : List EngineEffect} {w w' : List EngineLetter} (h : Utters ρ es w)
    (h' : Utters ρ es' w') : Utters ρ (es ++ es') (w ++ w') := by
  unfold Utters at *
  rw [sentTo_append]
  exact rel_append h h'

theorem utters_nil : Utters ρ [] [] := Forall₂.nil

@[simp] theorem srcId_frame (e : Engine) (kind : UInt8) (dst : NodeId) (m : Message)
    (ctr : Option Nat) (packet : Packet) :
    (e.frame kind dst m ctr packet).header.srcId = e.myNodeId := by
  unfold frame
  dsimp only
  split_ifs <;> rfl

theorem kind_frame (e : Engine) (kind : UInt8) (dst : NodeId) (m : Message) (ctr : Option Nat)
    (packet : Packet) : (e.frame kind dst m ctr packet).header.kind = kind := by
  unfold frame
  dsimp only
  split_ifs <;> rfl

theorem trace_frame (e : Engine) (kind : UInt8) (dst : NodeId) (m : Message) (ctr : Option Nat)
    (packet : Packet) : (e.frame kind dst m ctr packet).header.trace = packet.traceId := by
  unfold frame
  dsimp only
  split_ifs <;> rfl

theorem spells_frame (hρ : ρ.Valid) (hs : e.Serves codec ρ) {ctr : Option Nat} {m : Message}
    {c : EngineLetter} (hw : Written ρ ctr m c) (packet : Packet) :
    Spells ρ (e.frame (if ctr = none then tHandshake else tData) ρ.dst m ctr packet) c := by
  have hfits :
      Net.FrameFits (e.frame (if ctr = none then tHandshake else tData) ρ.dst m ctr packet) := by
    refine ⟨⟨?_, ?_, ?_, ?_⟩, ?_, ?_⟩
    · rw [kind_frame]
      split_ifs
      · exact .inr rfl
      · exact .inl rfl
    · rw [srcId_frame, hs.id]
      exact hρ.src_lt
    · rw [dstId_frame]
      exact hρ.dst_lt
    · rw [trace_frame]
      exact packet.traceId_lt
    · rw [kind_frame]
      change _ ↔ ctr = none
      by_cases hctr : ctr = none
      · simp [hctr]
      · simp only [hctr, iff_false]
        decide
    · change ∀ n ∈ ctr, n < 2 ^ 64
      cases hw with
      | ask | answer => simp
      | data side hn hlen => simpa using hn
  exact ⟨hfits, (e.srcId_frame ..).trans hs.id, e.dstId_frame .., hw⟩

theorem utters_data (hρ : ρ.Valid) (hs : e.Serves codec ρ) {t : Transcript} {b : Bool} {n : Nat}
    {packet : Packet} (side : Side ρ.src ρ.dst t b) (hn : n < 2 ^ 64)
    (hlen : packet.length + tagLen ≤ maxMessage) (lane : UInt8) :
    Utters ρ [.sendCounted (e.dataFrame ρ.dst ⟨t, b, n, packet⟩ n packet) lane]
        [.data t n (payload packet)] ∧
      Utters ρ [.send (e.dataFrame ρ.dst ⟨t, b, n, packet⟩ n packet) lane]
        [.data t n (payload packet)] := by
  have hspell := spells_frame hρ hs (Written.data side hn hlen) packet
  have hdst : (e.dataFrame ρ.dst ⟨t, b, n, packet⟩ n packet).header.dstId = ρ.dst := hspell.dst
  unfold Utters
  rw [sentTo_sendCounted hdst, sentTo_send hdst]
  exact ⟨.cons hspell .nil, .cons hspell .nil⟩

theorem utters_started (hρ : ρ.Valid) (hs : e.Serves codec ρ) {i : Initiation}
    (hw : Written ρ none (.initiation i) (.ask i)) (packet : Packet) :
    Utters ρ (e.startedEffects ρ.dst packet (some i)) [.ask i] := by
  have hspell := spells_frame hρ hs hw packet
  unfold Utters startedEffects
  rw [sentTo_count, sentTo_send (e.dstId_frame ..)]
  exact .cons hspell .nil

/-! ### A packet from the device -/

variable {r : Reading} {packet : Packet}

/-- A call leaves the seat as the party is left, and its frames are the letters. -/
structure Conducts (ρ : Direction) (now : Nat) (result : Engine × List EngineEffect)
    (q : EngineParty × List EngineLetter) : Prop where
  plays : (result.1.sessions.seat ρ.dst).Plays ρ.src ρ.dst now q.1
  utters : Utters ρ result.2 q.2

def stamps (w : List EngineLetter) : List Tai64n :=
  w.filterMap fun c => match c with
    | .ask i => some (Tai64n.fromPayload i.payload)
    | _ => none

@[simp] theorem stamps_nil : stamps [] = [] := rfl

@[simp] theorem stamps_append (w w' : List EngineLetter) :
    stamps (w ++ w') = stamps w ++ stamps w' :=
  filterMap_append

/-- The handshake that the letters begin, if any, carries what the engine's clock then shows. -/
def Stamped (e : Engine) (clock : Tai64n) (e' : Engine) (w : List EngineLetter) : Prop :=
  stamps w = [] ∨ stamps w = [e.nextTs clock] ∧ e'.lastTs = e.nextTs clock

def opening (e : Engine) (ρ : Direction) (r : Reading) : Initiation :=
  { initiator := ρ.srcKey, responder := ρ.dstKey, prologue := ⟨ρ.uuid, ρ.src, ρ.dst⟩,
    payload := (e.nextTs r.clock).toBytes, ephemeral := r.ephemeral }

theorem opening_written (e : Engine) (ρ : Direction) (r : Reading) :
    Written ρ none (.initiation (e.opening ρ r)) (.ask (e.opening ρ r)) :=
  .ask rfl rfl rfl

theorem stamps_opening (hts : (e.nextTs r.clock).Fits) :
    stamps [.ask (e.opening ρ r)] = [e.nextTs r.clock] :=
  congrArg (fun ts => [ts]) (Tai64n.fromPayload_toBytes hts)

theorem Serves.initiateAt (hs : e.Serves codec ρ) (r : Reading) :
    PairSession.initiateAt e.key ρ.dst ρ.dstKey e.networkUuid e.myNodeId r.now (e.nextTs r.clock)
        r.ephemeral =
      ({ stage := .handshake (e.opening ρ r), peer := ρ.dst, initiator := true, replay := .default,
         establishedAt := r.now, messages := 0 }, e.opening ρ r) := by
  rw [PairSession.initiateAt, hs.key, hs.uuid, hs.id]
  rfl

variable {peer : NodeId}

theorem next_of_rekeyDue {t : SessionTable} {now : Nat}
    (h : t.rekeyDue peer now) : (t.seat peer).next = none := by
  obtain ⟨p, c, hp, -, -, hnext⟩ := entry_of_rekeyDue h
  rw [seat, entry, hp]
  exact hnext

section Conduct

variable (he : e.Enacts codec ρ r.now p) (hts : (e.nextTs r.clock).Fits)

include he hts

theorem renew_conducts (packet : Packet) (hl : p.current = some (.ready l)) {e₀ : Engine}
    (h₀ : e₀.Serves codec ρ) {started : Engine × Option Initiation}
    (h : (if e.sessions.rekeyDue ρ.dst r.now then e.startRekey codec ρ.dst r else (e, none)) =
      started) :
    ∃ q, p.Does q ∧ q.1.accepted = p.accepted ∧ Stamped e r.clock started.1 q.2 ∧
      Conducts ρ r.now (started.1, e₀.startedEffects ρ.dst packet started.2) q := by
  have hp := he.plays
  split_ifs at h with hdue
  · have hnext : p.next = none := by
      have hn := hp.next
      rw [next_of_rekeyDue hdue] at hn
      exact hn.slot_of_none
    have hstart : e.startRekey codec ρ.dst r =
        ({ e with
          sessions := e.sessions.setEntry ρ.dst { e.sessions.entry ρ.dst with
            next := some { stage := .handshake (e.opening ρ r), peer := ρ.dst, initiator := true,
                           replay := .default, establishedAt := r.now, messages := 0 } }
          lastTs := e.nextTs r.clock }, some (e.opening ρ r)) := by
      simp [startRekey, he.serves.knows, initiateRekey, he.serves.initiateAt]
    have hask : p.ask (e.opening ρ r) =
        some ({ p with next := some (.asked (e.opening ρ r)) }, [.ask (e.opening ρ r)]) :=
      Party.ask_eq_some.mpr ⟨hnext, .inr ⟨l, hl, rfl⟩⟩
    rw [hstart] at h
    subst h
    refine ⟨_, .ask .idle hask, rfl, .inr ⟨stamps_opening hts, rfl⟩, ?_,
      utters_started he.valid h₀ (e.opening_written ρ r) packet⟩
    rw [seat_setEntry]
    exact { hp with next := .asked rfl rfl rfl rfl }
  · subst h
    exact ⟨(p, []), .idle, rfl, .inl rfl, hp, utters_nil⟩

theorem sendOn_conducts (hl : p.current = some (.ready l)) {s : PairSession}
    (hc : (e.sessions.seat ρ.dst).current = some s) (hb : s.Bears ρ.src ρ.dst l) (hq : Queueable packet) :
    ∃ q, p.Does q ∧
      q.1.accepted = p.accepted ++
        (if (e.sendOn codec ρ.dst s packet r).2.all (!·.isDrop) then [packet] else []) ∧
      Stamped e r.clock (e.sendOn codec ρ.dst s packet r).1 q.2 ∧
      Conducts ρ r.now (e.sendOn codec ρ.dst s packet r) q := by
  have hstarted (o : Option Initiation) :
      (e.startedEffects ρ.dst packet o).all (!·.isDrop) := by
    cases o <;> rfl
  have hp := he.plays
  unfold sendOn
  by_cases hseal : PairSession.CanSeal l packet
  · obtain ⟨s', hs', hb'⟩ := hb.sealPacket hseal
    simp only [hs']
    have hseat : ((e.sessions.put ρ.dst s').noteSent ρ.dst r.now).seat ρ.dst =
        { e.sessions.seat ρ.dst with current := some s' } := by
      rw [seat_noteSent, seat_put _ _ hc]
    have hsend : p.Does _ := .send .idle (Party.send_of_ready hl (payload packet))
    have hp' : (((e.sessions.put ρ.dst s').noteSent ρ.dst r.now).seat ρ.dst).Plays ρ.src ρ.dst r.now
        { p with
          current := some (.ready { l with sent := l.sent + 1 })
          accepted := p.accepted ++ (payload packet).toList } := by
      rw [hseat]
      exact { hp with current := .ready hb' }
    obtain ⟨q, hdoes, hacc, hstamp, hcond⟩ := renew_conducts (he.become hp') hts packet rfl he.serves rfl
    have hdata := (utters_data he.valid he.serves hb.side (hseal.1.trans (by decide)) hseal.2
      (packet.laneFor e.lanes)).1
    refine ⟨_, hsend.trans hdoes, ?_, hstamp, hcond.plays, hdata.append hcond.utters⟩
    rw [all_append, hstarted]
    simp [hacc, payload_of_pos hq.1, isDrop]
  · simp only [hb.sealPacket_eq_none hseal]
    obtain ⟨q, hdoes, hacc, hstamp, hcond⟩ := renew_conducts he.noteSent hts packet hl he.serves rfl
    have hdropped : Utters ρ [.count .dropSealFailed] [] := utters_nil
    refine ⟨q, hdoes, ?_, hstamp, hcond.plays, hdropped.append hcond.utters⟩
    rw [hacc]
    exact (append_nil _).symm

theorem queueFor_conducts (hl : ∀ l, p.current ≠ some (.ready l)) (hnext : p.current = none → p.next = none)
    (hq : Queueable packet) (hroom : p.queue.length < pendingLimit) :
    ∃ q, p.Does q ∧
      q.1.accepted = p.accepted ++
        (if (e.queueFor codec ρ.dst packet r).2.all (!·.isDrop) then [packet] else []) ∧
      Stamped e r.clock (e.queueFor codec ρ.dst packet r).1 q.2 ∧
      Conducts ρ r.now (e.queueFor codec ρ.dst packet r) q := by
  have hp := he.plays
  have hroom' : (e.sessions.seat ρ.dst).queue.length < pendingLimit := hp.queue ▸ hroom
  obtain ⟨hseat, hkept⟩ := e.sessions.seat_queue ρ.dst packet hroom'
  have hqueueable : ∀ x ∈ (e.sessions.seat ρ.dst).queue ++ [packet], Queueable x := by
    intro x hx
    rcases mem_append.mp hx with hx | hx
    · exact hp.queueable x hx
    · obtain rfl := mem_singleton.mp hx
      exact hq
  have hlength : ((e.sessions.seat ρ.dst).queue ++ [packet]).length ≤ pendingLimit := by
    simpa using hroom'
  have hqueue : (e.sessions.seat ρ.dst).queue ++ [packet] = p.queue ++ [packet] := by rw [hp.queue]
  have hcurrent := hp.current
  have hnext' := hp.next
  unfold queueFor
  simp only [hkept, if_true, has_eq_seat]
  cases hslot : p.current with
  | none =>
    rw [hslot] at hcurrent
    rw [hnext hslot] at hnext'
    simp only [hcurrent.of_none, hnext'.of_none, Option.isSome_none, Bool.or_self, Bool.false_eq_true,
      if_false, he.serves.knows, initiateAt, he.serves.initiateAt, nil_append]
    have hask : p.ask (e.opening ρ r) =
        some ({ p with current := some (.asked (e.opening ρ r)) }, [.ask (e.opening ρ r)]) :=
      Party.ask_eq_some.mpr ⟨hnext hslot, .inl ⟨hslot, rfl⟩⟩
    have henqueue : Party.enqueue { p with current := some (.asked (e.opening ρ r)) } packet =
        some ({ p with
          current := some (.asked (e.opening ρ r))
          queue := p.queue ++ [packet]
          accepted := p.accepted ++ [packet] }, []) :=
      Party.enqueue_eq_some.mpr ⟨_, rfl, rfl⟩
    refine ⟨_, .enqueue (.ask .idle hask) henqueue, rfl, .inr ⟨stamps_opening hts, rfl⟩, ?_,
      utters_started he.valid he.serves (e.opening_written ρ r) packet⟩
    rw [seat_setEntry, hseat]
    refine ⟨.asked rfl rfl rfl rfl, ?_, hp.previous, hqueue, hqueueable, hlength⟩
    exact (hnext hslot).symm ▸ .empty
  | some slot =>
    cases slot with
    | ready l => exact absurd hslot (hl l)
    | asked f =>
      rw [hslot] at hcurrent
      obtain ⟨s, hc, -⟩ := hcurrent.of_asked
      simp only [hc, Option.isSome_some, Bool.true_or, if_true]
      have henqueue : p.enqueue packet =
          some ({ p with queue := p.queue ++ [packet], accepted := p.accepted ++ [packet] }, []) :=
        Party.enqueue_eq_some.mpr ⟨f, hslot, rfl⟩
      refine ⟨_, .enqueue .idle henqueue, rfl, .inl rfl, ?_, utters_nil⟩
      rw [hseat]
      exact ⟨hp.current, hp.next, hp.previous, hqueue, hqueueable, hlength⟩

end Conduct

theorem length_pos_of_owner (h : e.ownerFor packet = some owner) : 0 < packet.length := by
  cases packet with
  | nil =>
    unfold ownerFor at h
    split_ifs at h
    cases h
  | cons b bs => exact Nat.succ_pos _

theorem silent_cons {x : EngineEffect} (hx : ∀ f ∈ x.frame?, f.header.dstId ≠ peer)
    (h : sentTo peer es = []) : sentTo peer (x :: es) = [] := by
  refine (sentTo_append peer [x] es).trans ?_
  have hone : sentTo peer [x] = [] := sentTo_eq_nil (by simpa using hx)
  rw [h, hone]
  rfl

theorem Sends.passesBy {now : Nat} (h : Sends owner now e e' es) (ha : owner ≠ peer) :
    e'.sessions.seat peer = e.sessions.seat peer ∧ sentTo peer es = [] := by
  induction h with
  | nothing e => exact ⟨rfl, rfl⟩
  | counted c _ ih => exact ih
  | @sealed e _ _ _ _ _ _ _ _ _ _ hx _ ih =>
    refine ⟨ih.1.trans (e.sessions.seat_modifyPeer_of_ne peer _ ha), silent_cons ?_ ih.2⟩
    obtain ⟨lane, rfl | rfl⟩ := hx <;> simp [frame?, dataFrame, ha]
  | @noted e _ _ _ ih => exact ⟨ih.1.trans (e.sessions.seat_noteSent peer now), ih.2⟩
  | queued hothers _ ih =>
    exact ⟨ih.1.trans (seat_congr peer rfl (hothers peer (Ne.symm ha))), ih.2⟩

theorem Asks.passesBy (h : Asks codec owner r e e' es) (ha : owner ≠ peer) :
    e'.sessions.seat peer = e.sessions.seat peer ∧ sentTo peer es = [] := by
  have hstarted (packet : Packet) (first : Initiation) :
      sentTo peer (e.startedEffects owner packet (some first)) = [] :=
    sentTo_eq_nil (by simp [startedEffects, frame?, ha])
  cases h with
  | nothing => exact ⟨rfl, rfl⟩
  | rekey | first => exact ⟨e.sessions.seat_setEntry_of_ne peer _ ha, hstarted _ _⟩

/-- A packet from the device changes the sessions and the clock of handshakes, and no watermark. -/
theorem outbound_frame (codec : EngineCodec) (e : Engine) (packet : Packet) (r : Reading) :
    ∃ t ts, (e.outbound codec packet r).1 = { e with sessions := t, lastTs := ts } ∧
      (ts = e.lastTs ∨ ts = e.nextTs r.clock) ∧ t.lastHandshakeTs = e.sessions.lastHandshakeTs := by
  cases howner : e.ownerFor packet with
  | none =>
    rw [(outbound_of_no_owner codec r howner).1]
    exact ⟨_, _, rfl, .inl rfl, rfl⟩
  | some owner =>
    obtain ⟨mid, es, es', hsends, hasks, -⟩ := forwards_outbound codec howner r
    have hmarks := hasks.marks.trans hsends.marks
    have hmid := hsends.only
    generalize (e.outbound codec packet r).1 = e' at hasks hmarks ⊢
    cases hasks with
    | nothing => exact ⟨mid.sessions, e.lastTs, hmid, .inl rfl, hmarks⟩
    | rekey | first =>
      rw [hmid] at hmarks ⊢
      exact ⟨_, _, rfl, .inr rfl, hmarks⟩

/-- The packets a call has taken on for `peer`: those it owns and does not count as
dropped. -/
def acceptedFor (codec : EngineCodec) (e : Engine) (peer : NodeId) (packet : Packet) (r : Reading) :
    List Packet :=
  if e.ownerFor packet = some peer ∧ (e.outbound codec packet r).2.all (!·.isDrop) then [packet]
  else []

variable (packet) in
theorem outbound_conducts (he : e.Enacts codec ρ r.now p) (hts : (e.nextTs r.clock).Fits)
    (hnext : p.current = none → p.next = none)
    (hlen : packet.length + tagLen ≤ maxMessage) (hroom : p.queue.length < pendingLimit) :
    ∃ q, p.Does q ∧ q.1.accepted = p.accepted ++ e.acceptedFor codec ρ.dst packet r ∧
      Stamped e r.clock (e.outbound codec packet r).1 q.2 ∧
      Conducts ρ r.now (e.outbound codec packet r) q := by
  -- What is for someone else leaves the party idle.
  have hidle (hnot : e.acceptedFor codec ρ.dst packet r = [])
      (hseat : (e.outbound codec packet r).1.sessions.seat ρ.dst = e.sessions.seat ρ.dst)
      (hsilent : sentTo ρ.dst (e.outbound codec packet r).2 = []) :
      ∃ q, p.Does q ∧ q.1.accepted = p.accepted ++ e.acceptedFor codec ρ.dst packet r ∧
        Stamped e r.clock (e.outbound codec packet r).1 q.2 ∧
        Conducts ρ r.now (e.outbound codec packet r) q := by
    refine ⟨(p, []), .idle, by rw [hnot, append_nil], .inl rfl, hseat.symm ▸ he.plays, ?_⟩
    unfold Utters
    rw [hsilent]
    exact .nil
  cases howner : e.ownerFor packet with
  | none =>
    obtain ⟨hsame, heffects⟩ := outbound_of_no_owner codec r howner
    refine hidle (by simp [acceptedFor, howner]) (by rw [hsame]) (sentTo_eq_nil fun x hx f hf => ?_)
    rcases heffects x hx with ⟨c, rfl⟩ | rfl <;> cases hf
  | some owner =>
    by_cases ha : owner = ρ.dst
    · subst ha
      have haccepted : e.acceptedFor codec ρ.dst packet r =
          if (e.outbound codec packet r).2.all (!·.isDrop) then [packet] else [] := by
        simp [acceptedFor, howner]
      have hq : Queueable packet := ⟨length_pos_of_owner howner, hlen⟩
      rw [haccepted, outbound_of_owner codec r howner, e.sessions.get_eq_seat ρ.dst]
      by_cases hready : ∃ l, p.current = some (.ready l)
      · obtain ⟨l, hl⟩ := hready
        obtain ⟨s, hc, hb⟩ := he.plays.ready hl
        have hf : (e.sessions.seat ρ.dst).current.filter (·.isReady) = some s := by
          simp [hc, Option.filter, hb.isReady]
        rw [hf]
        exact sendOn_conducts he hts hl hc hb hq
      · have hl : ∀ l, p.current ≠ some (.ready l) := fun l hl => hready ⟨l, hl⟩
        rw [he.plays.current.unready hl]
        exact queueFor_conducts he hts hl hnext hq hroom
    · obtain ⟨mid, es, es', hsends, hasks, heffects⟩ := forwards_outbound codec howner r
      obtain ⟨hseat, hsilent⟩ := hsends.passesBy ha
      obtain ⟨hseat', hsilent'⟩ := hasks.passesBy ha
      refine hidle (by simp [acceptedFor, howner, ha]) (hseat'.trans hseat) ?_
      rw [heffects, sentTo_append, hsilent, hsilent']
      rfl

end Engine

end Nqvpn
