import Nqvpn.EngineReceipt

/-!
# Two engines facing each other

Two engines with the frames that are under way between them, related to the two
parties of the abstract protocol. A packet from a device and the arrival of a frame
keep the relation; once nothing is under way, both engines send on the same session
and have written what the other one accepted.
-/

namespace Nqvpn

open Handover Engine List

/-- One engine, the frames it has sent and the other one has not received, and the
packets it accepted for it and wrote from it. -/
structure End where
  engine : Engine
  out : List OutFrame
  accepted : List Packet
  written : List Packet

/-- How one end relates to its party, and its clock to the other engine's memory. -/
structure End.Plays (codec : EngineCodec) (now drawn : Nat) (ρ : Direction) (x : End) (other : Engine)
    (p : EngineParty) (w : List EngineLetter) : Prop where
  serves : x.engine.Serves codec ρ
  plays : (x.engine.sessions.seat ρ.dst).Plays ρ.src ρ.dst now p
  spelled : Forall₂ (Spells ρ) x.out w
  accepted : p.accepted = x.accepted
  written : x.written = p.opened.filter (x.engine.peers.checkIngress ρ.dst · = .accept)
  held : ∀ t, p.Holds t → t.ephemeral < drawn
  answered : ∀ t, .answer t ∈ w → t.ephemeral < drawn
  increasing : (stamps w).Pairwise (· < ·)
  recent : ∀ ts ∈ stamps w, ts ≤ x.engine.lastTs ∧
    ∀ mark, other.sessions.lastHandshakeTs ρ.src ρ.srcKey = some mark → mark < ts
  remembered : ∀ mark, other.sessions.lastHandshakeTs ρ.src ρ.srcKey = some mark →
    mark ≤ x.engine.lastTs
  nanos : x.engine.lastTs.nanos < 10 ^ 9

/-- Two ends whose parties are as they should be. -/
structure Meets (codec : EngineCodec) (now drawn : Nat) (ρ : Direction) (x y : End)
    (p : EngineParty) (w : List EngineLetter) (q : EngineParty) (v : List EngineLetter) : Prop where
  mine : x.Plays codec now drawn ρ y.engine p w
  theirs : y.Plays codec now drawn ρ.flip x.engine q v
  sound : Sound NoiseIK.Transcript.first (decide (ρ.src < ρ.dst)) ⟨p, w, q, v⟩

variable {codec : EngineCodec} {now drawn : Nat} {ρ : Direction} {x y : End} {p q : EngineParty}
  {w v : List EngineLetter}

theorem Meets.swap (hρ : ρ.Valid) (h : Meets codec now drawn ρ x y p w q v) :
    Meets codec now drawn ρ.flip y x q v p w := by
  refine ⟨h.theirs, h.mine, ?_⟩
  have hyields : decide (ρ.flip.src < ρ.flip.dst) = !decide (ρ.src < ρ.dst) := by
    change decide (ρ.dst < ρ.src) = _
    have hne := hρ.ne
    rcases Nat.lt_or_gt_of_ne hne with hlt | hlt
    · simp [hlt, Nat.lt_asymm hlt]
    · simp [hlt, Nat.lt_asymm hlt]
  rw [hyields]
  exact h.sound.swap

/-! ### Beginnings -/

/-- An end that holds its end of a session with the other one, or none, and has nothing
to do. -/
structure End.Rests (codec : EngineCodec) (drawn : Nat) (ρ : Direction) (x : End) (other : Engine)
    (line : Option (Line Transcript)) : Prop where
  serves : x.engine.Serves codec ρ
  current : Stands ρ.src ρ.dst (x.engine.sessions.seat ρ.dst).current (line.map .ready)
  next : (x.engine.sessions.seat ρ.dst).next = none
  queue : (x.engine.sessions.seat ρ.dst).queue = []
  out : x.out = []
  accepted : x.accepted = []
  written : x.written = []
  drawn : ∀ l ∈ line, l.session.ephemeral < drawn
  remembered : ∀ mark, other.sessions.lastHandshakeTs ρ.src ρ.srcKey = some mark →
    mark ≤ x.engine.lastTs
  nanos : x.engine.lastTs.nanos < 10 ^ 9

theorem End.Rests.plays {line : Option (Line Transcript)} {other : Engine}
    (h : x.Rests codec drawn ρ other line) (now : Nat) :
    x.Plays codec now drawn ρ other (.resting line) [] where
  serves := h.serves
  plays :=
    { current := h.current
      next := by
        rw [h.next]
        exact .empty
      previous := by simp [Party.resting]
      queue := h.queue
      queueable := by simp [h.queue]
      room := by simp [h.queue] }
  spelled := by
    rw [h.out]
    exact .nil
  accepted := h.accepted.symm
  written := h.written
  held := by
    rintro t ⟨l, hl | hl, rfl⟩
    · cases line with
      | none => cases hl
      | some l' =>
        cases hl
        exact h.drawn l rfl
    · cases hl
  answered := by simp
  increasing := .nil
  recent := by simp
  remembered := h.remembered
  nanos := h.nanos

theorem Meets.rest {l m : Option (Line Transcript)} (hx : x.Rests codec drawn ρ y.engine l)
    (hy : y.Rests codec drawn ρ.flip x.engine m) (h : Shared l m) (now : Nat) :
    Meets codec now drawn ρ x y (.resting l) [] (.resting m) [] :=
  ⟨hx.plays now, hy.plays now, h.sound⟩

/-! ### Clocks -/

theorem Tai64n.lt_iff {a b : Tai64n} :
    a < b ↔ a.secs < b.secs ∨ a.secs = b.secs ∧ a.nanos < b.nanos :=
  Prod.Lex.toLex_lt_toLex

theorem Engine.lt_nextTs (e : Engine) {clock : Tai64n} (hsecs : (e.nextTs clock).secs < 2 ^ 64 - 1) :
    e.lastTs < e.nextTs clock := by
  unfold nextTs at hsecs ⊢
  split_ifs at hsecs ⊢ with hle
  · rw [Tai64n.lt_iff]
    unfold Tai64n.succ at hsecs ⊢
    split_ifs at hsecs ⊢
    · simp only [lt_min_iff] at hsecs ⊢
      omega
    · exact .inr ⟨rfl, Nat.lt_succ_self _⟩
  · exact not_le.mp hle

theorem Engine.nanos_nextTs (e : Engine) {clock : Tai64n} (hclock : clock.nanos < 10 ^ 9)
    (hlast : e.lastTs.nanos < 10 ^ 9) : (e.nextTs clock).nanos < 10 ^ 9 := by
  unfold nextTs
  split_ifs
  · unfold Tai64n.succ
    split_ifs
    · exact Nat.pow_pos (by decide)
    · change e.lastTs.nanos + 1 < 10 ^ 9
      omega
  · exact hclock

/-! ### Steps -/

theorem End.Plays.beside {drawn' : Nat} {other other' : Engine}
    (h : x.Plays codec now drawn ρ other p w) (hle : drawn ≤ drawn')
    (hmark : other'.sessions.lastHandshakeTs ρ.src ρ.srcKey =
      other.sessions.lastHandshakeTs ρ.src ρ.srcKey) :
    x.Plays codec now drawn' ρ other' p w :=
  { h with
    held := fun t ht => (h.held t ht).trans_le hle
    answered := fun t ht => (h.answered t ht).trans_le hle
    recent := fun ts hts => by rw [hmark]; exact h.recent ts hts
    remembered := by rw [hmark]; exact h.remembered }

def End.outbound (codec : EngineCodec) (x : End) (peer : NodeId) (packet : Packet) (r : Reading) :
    End where
  engine := (x.engine.outbound codec packet r).1
  out := x.out ++ sentTo peer (x.engine.outbound codec packet r).2
  accepted := x.accepted ++ x.engine.acceptedFor codec peer packet r
  written := x.written

def End.inbound (codec : EngineCodec) (x : End) (peer : NodeId) (f : OutFrame) (r : Reading) : End where
  engine := (x.engine.inbound codec (f.bytes codec.message) r).1
  out := x.out ++ sentTo peer (x.engine.inbound codec (f.bytes codec.message) r).2
  accepted := x.accepted
  written := x.written ++ writtenPackets (x.engine.inbound codec (f.bytes codec.message) r).2

theorem Meets.outbound (hρ : ρ.Valid) (h : Meets codec now drawn ρ x y p w q v) {clock : Tai64n}
    (hclock : clock.nanos < 10 ^ 9) (hsecs : (x.engine.nextTs clock).secs < 2 ^ 64 - 1)
    {packet : Packet} (hlen : packet.length + NoiseIK.tagLen ≤ NoiseIK.maxMessage)
    (hroom : (x.engine.sessions.seat ρ.dst).queue.length < pendingLimit) :
    ∃ p' w', Meets codec now (drawn + 1) ρ (x.outbound codec ρ.dst packet ⟨now, clock, drawn⟩) y
      p' w' q v := by
  have hm := h.mine
  have hnanos := x.engine.nanos_nextTs hclock hm.nanos
  have hlt := x.engine.lt_nextTs hsecs
  have hfits : (x.engine.nextTs clock).Fits := ⟨by omega, by omega⟩
  have hqueue : p.queue.length < pendingLimit := hm.plays.queue ▸ hroom
  obtain ⟨r, hdoes, haccepted, hstamped, hcond⟩ := outbound_conducts packet
    (r := ⟨now, clock, drawn⟩) ⟨hρ, hm.serves, hm.plays⟩ hfits h.sound.linked.next_of_none hlen hqueue
  obtain ⟨t, ts, hout, hts, hmarks⟩ := x.engine.outbound_frame codec packet ⟨now, clock, drawn⟩
  have hlast : x.engine.lastTs ≤ ts ∧ ts.nanos < 10 ^ 9 := by
    rcases hts with rfl | rfl
    · exact ⟨le_refl _, hm.nanos⟩
    · exact ⟨hlt.le, hnanos⟩
  have hplays := hcond.plays
  rw [hout] at hstamped hplays
  refine ⟨r.1, w ++ r.2, ?_, ?_, h.sound.does hdoes⟩
  · unfold End.outbound
    rw [hout]
    refine ⟨hm.serves.withSessions t ts, hplays, rel_append hm.spelled hcond.utters, ?_, ?_, ?_, ?_,
      ?_, ?_, fun mark hmark => (hm.remembered mark hmark).trans hlast.1, hlast.2⟩
    · rw [haccepted, hm.accepted]
    · rw [hdoes.opened]
      exact hm.written
    · exact fun t ht => (hm.held t (hdoes.holds.1 t ht)).trans (Nat.lt_succ_self _)
    · intro t ht
      rcases mem_append.mp ht with ht | ht
      · exact (hm.answered t ht).trans (Nat.lt_succ_self _)
      · exact absurd ht (hdoes.holds.2 t)
    · rw [stamps_append]
      refine pairwise_append.mpr ⟨hm.increasing, ?_, fun a ha b hb => ?_⟩
      · rcases hstamped with hs | ⟨hs, -⟩ <;> rw [hs] <;> simp
      · rcases hstamped with hs | ⟨hs, -⟩ <;> rw [hs] at hb
        · cases hb
        · rw [mem_singleton.mp hb]
          exact (hm.recent a ha).1.trans_lt hlt
    · intro ts' hts'
      rw [stamps_append, mem_append] at hts'
      rcases hts' with hts' | hts'
      · exact ⟨(hm.recent ts' hts').1.trans hlast.1, (hm.recent ts' hts').2⟩
      · rcases hstamped with hs | ⟨hs, hl⟩ <;> rw [hs] at hts'
        · cases hts'
        · rw [mem_singleton.mp hts']
          exact ⟨hl.ge, fun mark hmark => (hm.remembered mark hmark).trans_lt hlt⟩
  · refine h.theirs.beside (Nat.le_succ drawn) ?_
    unfold End.outbound
    rw [hout]
    exact congrFun₂ hmarks _ _

def question : EngineLetter → Initiation
  | .ask i => i
  | .answer t => t.first
  | .data t _ _ => t.first

theorem Meets.inbound (hρ : ρ.Valid) (h : Meets codec now drawn ρ x y p w q v) (clock : Tai64n)
    {f : OutFrame} {rest : List OutFrame} (hout : y.out = f :: rest) :
    ∃ p' w' v', Meets codec now (drawn + 1) ρ (x.inbound codec ρ.dst f ⟨now, clock, drawn⟩)
      { y with out := rest } p' w' q v' := by
  have hm := h.mine
  have hspelled := h.theirs.spelled
  rw [hout] at hspelled
  obtain ⟨c, v', hf, hrest, rfl⟩ := forall₂_cons_left_iff.mp hspelled
  -- The session to answer with is new, because its ephemeral key is.
  have hfits : p.Fits NoiseIK.Transcript.first ⟨question c, drawn⟩ c := by
    refine ⟨fun i hi => by rw [hi]; rfl, fun l hl hsame => ?_⟩
    have hlt := hm.held l.session ⟨l, .inl hl, rfl⟩
    rw [← hsame] at hlt
    exact Nat.lt_irrefl drawn hlt
  obtain ⟨r, htake, hsound⟩ := h.sound.take rfl hfits
  have hnew : ∀ i, c = .ask i → (x.engine.sessions.lastHandshakeTs ρ.dst ρ.dstKey).any
      (Tai64n.fromPayload i.payload ≤ ·) = false := by
    rintro i rfl
    have hrecent := (h.theirs.recent _ (mem_cons_self ..)).2
    cases hmark : x.engine.sessions.lastHandshakeTs ρ.dst ρ.dstKey with
    | none => rfl
    | some mark => simpa using hrecent mark hmark
  obtain ⟨honly, hmark, hwritten, r', hdoes, haccepted, hquiet, hcond⟩ :=
    receive_conducts (r := ⟨now, clock, drawn⟩) ⟨hρ, hm.serves, hm.plays⟩ hf hnew htake
  have hreceive : x.engine.inbound codec (f.bytes codec.message) ⟨now, clock, drawn⟩ =
      Net.receive codec x.engine f ⟨now, clock, drawn⟩ :=
    Net.inbound_bytes hf.fits (hf.dst.trans hm.serves.id.symm) _
  obtain ⟨hacc, hop, -⟩ := Party.take_packets htake
  obtain ⟨hholds, hanswers⟩ := Party.take_holds htake
  have hstamps : stamps (w ++ (r.2 ++ r'.2)) = stamps w := by
    have hasks : stamps r.2 = [] := by
      rw [stamps, filterMap_eq_nil_iff]
      intro c' hc'
      cases c' with
      | ask i => exact absurd hc' (Party.ask_notMem_of_take htake i)
      | answer t | data t n x => rfl
    rw [stamps_append, stamps_append, hasks, hquiet, append_nil, append_nil]
  have hplays := hcond.plays
  refine ⟨r'.1, w ++ (r.2 ++ r'.2), v', ?_, ?_, ?_⟩
  · unfold End.inbound
    rw [hreceive, honly]
    refine ⟨hm.serves.withSessions _ x.engine.lastTs, hplays, rel_append hm.spelled hcond.utters,
      ?_, ?_, ?_, ?_, ?_, ?_, hm.remembered, hm.nanos⟩
    · rw [haccepted, hacc]
      exact hm.accepted
    · rw [hdoes.opened, hop, filter_append, ← hm.written, hwritten]
    · intro t ht
      rcases hholds t (hdoes.holds.1 t ht) with ht | rfl | rfl
      · exact (hm.held t ht).trans (Nat.lt_succ_self _)
      · exact Nat.lt_succ_self _
      · exact (h.theirs.answered t mem_cons_self).trans (Nat.lt_succ_self _)
    · intro t ht
      rcases mem_append.mp ht with ht | ht
      · exact (hm.answered t ht).trans (Nat.lt_succ_self _)
      · rcases mem_append.mp ht with ht | ht
        · rw [hanswers t ht]
          exact Nat.lt_succ_self _
        · exact absurd ht (hdoes.holds.2 t)
    · rw [hstamps]
      exact hm.increasing
    · rw [hstamps]
      exact hm.recent
  · have ht := h.theirs
    have hincreasing := ht.increasing
    refine ⟨ht.serves, ht.plays, hrest, ht.accepted, ht.written,
      fun t hh => (ht.held t hh).trans (Nat.lt_succ_self _),
      fun t hh => (ht.answered t (mem_cons_of_mem c hh)).trans (Nat.lt_succ_self _), ?_, ?_, ?_,
      ht.nanos⟩
    · exact hincreasing.sublist (Sublist.filterMap _ (sublist_cons_self c v'))
    · intro ts hts
      have hts' : ts ∈ stamps (c :: v') :=
        (Sublist.filterMap _ (sublist_cons_self c v')).mem hts
      refine ⟨(ht.recent ts hts').1, fun mark hm' => ?_⟩
      unfold End.inbound at hm'
      rw [hreceive] at hm'
      rcases hmark with hsame | ⟨i, rfl, hi⟩
      · exact (ht.recent ts hts').2 mark (hsame.symm.trans hm')
      · cases hi.symm.trans hm'
        exact (pairwise_cons.mp hincreasing).1 ts hts
    · intro mark hm'
      unfold End.inbound at hm'
      rw [hreceive] at hm'
      rcases hmark with hsame | ⟨i, rfl, hi⟩
      · exact ht.remembered mark (hsame.symm.trans hm')
      · cases hi.symm.trans hm'
        exact (ht.recent _ mem_cons_self).1
  · have hdone := hsound.does hdoes
    simpa [Pair.read, Pair.emit] using hdone

/-! ### The end -/

/-- The session an engine seals packets for `peer` with. -/
def Engine.sendsOn (e : Engine) (peer : NodeId) : Option Transcript :=
  (e.sessions.get peer).bind fun s => match s.stage with
    | .handshake _ => none
    | .transport transcript _ => some transcript

theorem Seat.Plays.sendsOn {e : Engine} (h : (e.sessions.seat ρ.dst).Plays ρ.src ρ.dst now p) :
    (∀ l, p.current = some (.ready l) → e.sendsOn ρ.dst = some l.session) ∧
      (p.current = none → e.sendsOn ρ.dst = none) := by
  unfold Engine.sendsOn
  rw [SessionTable.get_eq_seat]
  refine ⟨fun l hl => ?_, fun hnone => ?_⟩
  · obtain ⟨s, hs, hb⟩ := h.ready hl
    simp [hs, hb.stage]
  · have hc := h.current
    rw [hnone] at hc
    generalize (e.sessions.seat ρ.dst).current = o at hc ⊢
    cases hc
    rfl

theorem Meets.drained (h : Meets codec now drawn ρ x y p w q v) (hx : x.out = []) (hy : y.out = []) :
    x.engine.sendsOn ρ.dst = y.engine.sendsOn ρ.src ∧
      (x.engine.sendsOn ρ.dst = none → x.accepted = [] ∧ y.accepted = []) ∧
      y.written = x.accepted.filter (y.engine.peers.checkIngress ρ.src · = .accept) ∧
      x.written = y.accepted.filter (x.engine.peers.checkIngress ρ.dst · = .accept) := by
  have hw : w = [] := by
    have hspelled := h.mine.spelled
    rw [hx] at hspelled
    exact forall₂_nil_left_iff.mp hspelled
  have hv : v = [] := by
    have hspelled := h.theirs.spelled
    rw [hy] at hspelled
    exact forall₂_nil_left_iff.mp hspelled
  obtain ⟨hsent, hreceived⟩ := h.sound.arrived hw hv
  have hwritten := h.mine.written
  have hwritten' := h.theirs.written
  rw [hreceived, h.theirs.accepted] at hwritten
  rw [hsent, h.mine.accepted] at hwritten'
  obtain ⟨hready, hnone⟩ := h.mine.plays.sendsOn
  obtain ⟨hready', hnone'⟩ := h.theirs.plays.sendsOn
  obtain ⟨-, -, ⟨hc, hc', ha, ha'⟩ | ⟨l, m, hl, hm, hsame⟩⟩ := h.sound.linked.drained hw hv
  · refine ⟨(hnone hc).trans (hnone' hc').symm, fun _ => ?_, hwritten', hwritten⟩
    exact ⟨h.mine.accepted.symm.trans ha, h.theirs.accepted.symm.trans ha'⟩
  · have hours := hready l hl
    have hsends : x.engine.sendsOn ρ.dst = y.engine.sendsOn ρ.src := by
      rw [hours, hsame]
      exact (hready' m hm).symm
    refine ⟨hsends, fun hnot => ?_, hwritten', hwritten⟩
    rw [hours] at hnot
    cases hnot

end Nqvpn
