import Nqvpn.SilentPeer

/-!
# The periodic sweep

The sweep drops established sessions past the hard deadline and handshakes that timed out, and puts an
unconfirmed answer to use when nothing else is left. The session that was replaced it drops only when
its grace has run out, however old it is: the hard deadline is not hard for that one.
-/

namespace Nqvpn

open Option

namespace PeerSessions

variable {p : PeerSessions} {now : Nat}

/-- What the sweep leaves of a peer. -/
structure Swept (now : Nat) (p p' : PeerSessions) : Prop where
  current : ∀ c, p'.current = some c → keeps now c = true ∧ (p.current = some c ∨ p.next = some c)
  next : ∀ n, p'.next = some n → keeps now n = true ∧ p.next = some n
  /-- A ready answer waits only while there is something else to send on. -/
  waits : p'.next.any (·.isReady) = true → p'.current.isSome = true
  previous : p'.previous = p.previous.filter fun q => now - q.2 < previousGraceSecs

theorem expire_swept (p : PeerSessions) (now : Nat) : Swept now p (p.expire now) := by
  have hkept {o : Option PairSession} {s : PairSession} (h : o.filter (keeps now) = some s) :
      keeps now s ∧ o = some s := (filter_eq_some_iff.mp h).symm
  unfold expire
  cases hcurrent : p.current.filter (keeps now) with
  | some c =>
    refine ⟨fun c' hc' => ?_, fun n hn => hkept hn, fun _ => rfl, rfl⟩
    obtain rfl : c = c' := some.inj hc'
    exact ⟨(hkept hcurrent).1, .inl (hkept hcurrent).2⟩
  | none =>
    cases hnext : p.next.filter (keeps now) with
    | none => exact ⟨by simp, by simp, by simp, rfl⟩
    | some n =>
      by_cases hready : n.isReady
      · -- Only the answer is left: it takes over.
        simp only [isNone_none, any_some, hready, Bool.and_self, if_true, promote]
        refine ⟨fun c hc => ?_, by simp, by simp, rfl⟩
        obtain rfl : n = c := some.inj hc
        exact ⟨(hkept hnext).1, .inr (hkept hnext).2⟩
      · simp only [isNone_none, any_some, hready, Bool.and_false, Bool.false_eq_true, if_false]
        refine ⟨by simp, fun n' hn' => ?_, fun h => ?_, rfl⟩
        · obtain rfl : n = n' := some.inj hn'
          exact hkept hnext
        · exact absurd h (by simp [hready])

theorem mustExpire_of_keeps {s : PairSession} (h : keeps now s) (hready : s.isReady) :
    s.mustExpire now = false := by
  simp only [keeps, hready, Bool.true_and, Bool.and_eq_true, Bool.not_eq_true'] at h
  exact h.1

theorem fresh_of_keeps {s : PairSession} (h : keeps now s) (hunready : s.isReady = false) :
    now - s.establishedAt < handshakeTimeoutSecs := by
  simp only [keeps, PairSession.isStaleHandshake, hunready, Bool.false_and, Bool.not_false, Bool.true_and,
    Bool.not_eq_true', decide_eq_false_iff_not, Nat.not_le] at h
  exact h

end PeerSessions

namespace SessionTable

open PeerSessions

variable {t : SessionTable} {now : Nat} {peer : NodeId} {p p' : PeerSessions}

theorem sessions_expire_eq_some : (t.expire now).1.sessions[peer]? = some p' ↔
    ∃ p, t.sessions[peer]? = some p ∧ p.expire now = p' ∧ p'.isEmpty = false := by
  rw [sessions_expire, filter_eq_some_iff, map_eq_some_iff]
  constructor
  · rintro ⟨⟨p, hp, rfl⟩, hempty⟩
    exact ⟨p, hp, rfl, by simpa using hempty⟩
  · rintro ⟨p, hp, rfl, hempty⟩
    exact ⟨⟨p, hp, rfl⟩, by simpa using hempty⟩

/-- After the sweep no established session is past the hard deadline, in any slot, exactly if no peer has a
replaced session past it whose grace is still running. -/
theorem hard_deadline_iff (t : SessionTable) (now : Nat) :
    (∀ (peer : NodeId) (p : PeerSessions), (t.expire now).1.sessions[peer]? = some p →
      ∀ s ∈ p.slots, s.isReady = true → s.mustExpire now = false) ↔
    ∀ (peer : NodeId) (p : PeerSessions) (s : PairSession) (retired : Nat), t.sessions[peer]? = some p →
      p.previous = some (s, retired) → now - retired < previousGraceSecs → s.isReady = true →
        s.mustExpire now = false := by
  constructor
  · intro h peer p s retired hp hprevious hgrace hready
    have hkept : (p.expire now).previous = some (s, retired) := by
      rw [(expire_swept p now).previous, hprevious, filter_some, if_pos (decide_eq_true hgrace)]
    refine h peer (p.expire now) (sessions_expire_eq_some.mpr ⟨p, hp, rfl, ?_⟩) s ?_ hready
    · simp [isEmpty, hkept]
    · exact mem_slots.mpr (.inr (.inr ⟨retired, hkept⟩))
  · intro h peer p' hp' s hs hready
    obtain ⟨p, hp, rfl, -⟩ := sessions_expire_eq_some.mp hp'
    have hswept := expire_swept p now
    rcases mem_slots.mp hs with hcurrent | hnext | ⟨retired, hprevious⟩
    · exact mustExpire_of_keeps (hswept.current s hcurrent).1 hready
    · exact mustExpire_of_keeps (hswept.next s hnext).1 hready
    · rw [hswept.previous, filter_eq_some_iff] at hprevious
      exact h peer p s retired hp hprevious.1 (of_decide_eq_true hprevious.2) hready

end SessionTable

/-! ### A session that outlives the deadline -/

namespace TimedEngine

namespace SweepExample

open SilenceExample Net.DeliveryExample

/-- Almost three minutes into its session with node 2, node 1 answers a new handshake of node 2. -/
def answered : TimedEngine :=
  ⟨(established.engine.onHandshake numbering 2 (some (.initiation asked)) ⟨279, ⟨279, 0⟩, 6⟩).1, 279⟩

def confirmation : OutFrame := ⟨.new tData 2 1 0, some 0, .sealed ⟨⟨asked, 6⟩, true, 0, []⟩⟩

def confirmed : TimedEngine :=
  ⟨(answered.engine.onData 2 0 (some (.sealed ⟨⟨asked, 6⟩, true, 0, []⟩)) 279).1, 279⟩

theorem reachable_confirmed : (system numbering).Reachable ⟨confirmed.engine, 280⟩ := by
  have hlate : (system numbering).Reachable ⟨established.engine, 279⟩ :=
    reachable_established.of_step (e := .pass 179) rfl
  have hanswered : (system numbering).Reachable answered :=
    hlate.of_step (step_frame (f := askedFrame) (by decide +kernel) rfl ⟨279, 0⟩ 6)
  have hconfirmed : (system numbering).Reachable confirmed :=
    hanswered.of_step (step_frame (f := confirmation) (by decide +kernel) rfl ⟨279, 0⟩ 7)
  exact hconfirmed.of_step (e := .pass 1) rfl

end SweepExample

open SweepExample SilenceExample Net.DeliveryExample in
/-- The session that node 1 established at time 100 is replaced a second before its deadline. The sweep at
the deadline keeps it, ready to open frames. -/
theorem replaced_session_outlives_deadline :
    (system numbering).Reachable ⟨confirmed.engine, 280⟩ ∧
      ∃ p s, (confirmed.engine.sessions.expire 280).1.sessions[2]? = some p ∧ s ∈ p.slots ∧
        s.isReady = true ∧ s.mustExpire 280 = true := by
  refine ⟨reachable_confirmed, ?_⟩
  have hswept : (confirmed.engine.sessions.expire 280).1.sessions[2]?.any
      (fun p => p.slots.any fun s => s.isReady && s.mustExpire 280) := by
    decide +kernel
  obtain ⟨p, hp, hany⟩ := (any_eq_true _ _).mp hswept
  obtain ⟨s, hs, hold⟩ := List.any_eq_true.mp hany
  exact ⟨p, s, hp, hs, Bool.and_eq_true_iff.mp hold⟩

end TimedEngine

end Nqvpn
