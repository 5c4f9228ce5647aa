import Nqvpn.TransitionSystem
import Mathlib.Algebra.Order.Ring.Nat

/-!
# The member process

A member runs three kinds of tasks that share a `LinkHandle`: the control loop
(hold a session with the coordinator, re-join when it is lost), the renewal task
(join again before the credential expires), and the uplink or mesh tasks, which
learn from relays that another instance has taken the member's place. A join
request is made by one retry loop that both joining tasks call; each attempt is
handed to a pool of blocking threads and sent from there.

The events of the system are the steps of the tasks, in any interleaving, with
every answer of the coordinator and of relays as an argument.
-/

namespace Nqvpn

def closeStaleLogin : Nat := 11

namespace Member

/-- What the tasks of one member share. -/
structure LinkHandle where
  refresh : Option String := none
  /-- Why the member was replaced, once it was. -/
  stop : Option String := none
  /-- An unconsumed wake-up of `stop`. -/
  stopNotified : Bool := false
  refused : Bool := false
deriving DecidableEq, Repr

def LinkHandle.replaced (h : LinkHandle) (reason : String) : LinkHandle :=
  { h with stop := h.stop.or (some reason), stopNotified := true }

structure JoinResponse where
  credential : String
  /-- Absent when the coordinator's address cannot be formed. -/
  controlAddr : Option String
  renewAfterSecs : Nat
deriving DecidableEq, Repr

inductive JoinAnswer
  | accepted (r : JoinResponse)
  | rejected (terminal : Bool)
  /-- The blocking task itself failed. -/
  | crashed
deriving DecidableEq, Repr

structure Retry where
  transient : Nat := 0
  refused : Nat := 0
deriving DecidableEq, Repr

/-- Seconds until the next attempt after `consecutive` failures of a kind. -/
def retryDelay (terminal : Bool) (consecutive : Nat) : Nat :=
  if terminal then min (2 ^ (min (max consecutive 1) 16 - 1)) 30
  else min (2 ^ min consecutive 3) 5

def satSucc (n : Nat) : Nat := min (n + 1) (2 ^ 32 - 1)

def Retry.failed (s : Retry) (terminal : Bool) : Retry × Nat :=
  if terminal then
    ({ s with refused := satSucc s.refused }, retryDelay true (satSucc s.refused))
  else ({ s with transient := satSucc s.transient }, retryDelay false (satSucc s.transient))

/-! ### The join loop -/

/-- Where a call of the join loop stands: about to hand over an attempt, waiting
for its outcome, or asleep before the next. -/
inductive JoinPc
  | asking (s : Retry)
  | awaiting (s : Retry)
  | pausing (s : Retry) (wait : Nat)
deriving DecidableEq, Repr

/-- What an outcome makes of the loop: another attempt after a wait, or a return.
The flag is what the loop reports to the owner about being refused. -/
def joinAnswered (s : Retry) : JoinAnswer → (JoinPc ⊕ JoinResponse) × Option Bool
  | .accepted r => (.inr r, if 0 < s.refused then some false else none)
  | .rejected terminal =>
    (.inl (.pausing (s.failed terminal).1 (s.failed terminal).2),
      if terminal ∧ s.refused = 0 then some true else none)
  | .crashed => (.inl (.pausing s 5), none)

/-! ### The tasks -/

inductive ControlPc
  /-- The head of the loop. -/
  | head
  | session
  /-- Asleep after a lost session, or about to re-join at once. -/
  | backingOff (healthy reconfigured : Bool)
  | joining (j : JoinPc)
  | exited (reason : String)
deriving DecidableEq, Repr

inductive RenewalPc
  | sleeping (wait : Nat)
  | joining (j : JoinPc)
  | ended
deriving DecidableEq, Repr

inductive UplinkPc
  | head
  | dialing
  | attached
  | returned
deriving DecidableEq, Repr

/-- The tasks that join. -/
inductive Task
  | control
  | renewal
deriving DecidableEq, Repr

structure Process where
  handle : LinkHandle := {}
  credential : String
  controlAddr : String
  /-- The control loop's wait before its next re-join, in seconds. -/
  delay : Nat := 1
  control : ControlPc := .head
  renewal : RenewalPc
  uplink : UplinkPc := .head
  /-- Attempts handed to the blocking pool and not started. -/
  pool : List Task := []
  /-- Requests sent to the coordinator, latest first, and whether a stop was on
  record when each was sent. -/
  sent : List (Task × Bool) := []
deriving DecidableEq, Repr

/-- How a control session ends. -/
inductive SessionEnd
  | ok
  | lost
  /-- The coordinator closed it: another instance joined. -/
  | replaced (reason : String)
  | reconfigured
  /-- `stop` woke the session. -/
  | stopped
deriving DecidableEq, Repr

inductive DialAnswer
  | attached
  | refused (code : Nat) (reason : String)
  | failed
deriving DecidableEq, Repr

inductive Event
  | controlHead
  | sessionEnded (ending : SessionEnd) (healthy : Bool)
  | controlWake
  | renewalWake
  /-- A joining task hands an attempt to the pool. -/
  | ask (t : Task)
  /-- A thread of the pool sends it. -/
  | send (t : Task)
  | answered (t : Task) (a : JoinAnswer)
  /-- A joining task wakes for its next attempt. -/
  | retry (t : Task)
  | uplinkHead (dials : Bool)
  | dialed (relay : String) (a : DialAnswer)
  | uplinkEnded (relay : String) (close : Option (Nat × String))
  /-- A peer relay calls a mesh login stale; the login generations are the one of
  our credential and the one the view publishes for us. -/
  | meshStale (peer reason : String) (ours published : Option Nat)
deriving DecidableEq, Repr

namespace Process

/-- `run_member` returns; the renewal task is aborted with it. -/
def exit (p : Process) (reason : String) : Process :=
  { p with control := .exited reason, renewal := .ended }

def replaced (p : Process) (reason : String) : Process :=
  { p with handle := p.handle.replaced reason }
variable (p : Process)

def joinPc : Task → Option JoinPc
  | .control => match p.control with
    | .joining j => some j
    | _ => none
  | .renewal => match p.renewal with
    | .joining j => some j
    | _ => none

def setJoinPc (t : Task) (j : JoinPc) : Process :=
  match t with
  | .control => { p with control := .joining j }
  | .renewal => { p with renewal := .joining j }

def joined (t : Task) (r : JoinResponse) : Process :=
  let p := { p with credential := r.credential, controlAddr := r.controlAddr.getD p.controlAddr }
  match t with
  | .control => { p with control := .head }
  | .renewal =>
    { p with
      renewal := .sleeping r.renewAfterSecs
      handle := { p.handle with refresh := some r.credential } }

def reportRefused (report : Option Bool) : Process :=
  { p with handle := { p.handle with refused := report.getD p.handle.refused } }

def sessionEnded (healthy : Bool) : SessionEnd → Option Process
  | .ok | .lost => some { p with control := .backingOff healthy false }
  | .reconfigured => some { p with control := .backingOff healthy true }
  | .replaced reason => some ((p.replaced reason).exit reason)
  | .stopped =>
    if p.handle.stopNotified then
      let reason := p.handle.stop.getD "stopped"
      some (({ p with handle := { p.handle with stopNotified := false } }.replaced reason).exit reason)
    else none

def controlWake (healthy reconfigured : Bool) : Process :=
  let p := { p with delay := if healthy || reconfigured then 1 else min (p.delay * 2) 5 }
  match p.handle.stop with
  | some reason => p.exit reason
  | none => { p with control := .joining (.asking {}) }

def step : Event → Option Process
  | .controlHead => match p.control with
    | .head => match p.handle.stop with
      | some reason => some (p.exit reason)
      | none => some { p with control := .session }
    | _ => none
  | .sessionEnded ending healthy => match p.control with
    | .session => p.sessionEnded healthy ending
    | _ => none
  | .controlWake => match p.control with
    | .backingOff healthy reconfigured => some (p.controlWake healthy reconfigured)
    | _ => none
  | .renewalWake => match p.renewal with
    | .sleeping _ =>
      some { p with renewal := if p.handle.stop.isSome then .ended else .joining (.asking {}) }
    | _ => none
  | .ask t => match p.joinPc t with
    | some (.asking s) => some { p.setJoinPc t (.awaiting s) with pool := t :: p.pool }
    | _ => none
  | .send t =>
    if t ∈ p.pool then
      some { p with pool := p.pool.erase t, sent := (t, p.handle.stop.isSome) :: p.sent }
    else none
  | .answered t a => match p.joinPc t with
    | some (.awaiting s) =>
      if t ∈ p.pool then none
      else
        let p := p.reportRefused (joinAnswered s a).2
        match (joinAnswered s a).1 with
        | .inl j => some (p.setJoinPc t j)
        | .inr r => some (p.joined t r)
    | _ => none
  | .retry t => match p.joinPc t with
    | some (.pausing s _) => some (p.setJoinPc t (.asking s))
    | _ => none
  | .uplinkHead dials => match p.uplink with
    | .head =>
      if p.handle.stop.isSome then some { p with uplink := .returned }
      else if p.handle.refused || !dials then some p
      else some { p with uplink := .dialing }
    | _ => none
  | .dialed relay a => match p.uplink, a with
    | .dialing, .attached => some { p with uplink := .attached }
    | .dialing, .failed => some { p with uplink := .head }
    | .dialing, .refused code reason =>
      if code = closeStaleLogin then
        some { p.replaced s!"relay {relay} says: {reason}" with uplink := .returned }
      else some { p with uplink := .head }
    | _, _ => none
  | .uplinkEnded relay close => match p.uplink with
    | .attached => match close with
      | some (code, reason) =>
        if code = closeStaleLogin then
          some { p.replaced s!"relay {relay} says: {reason}" with uplink := .returned }
        else some { p with uplink := .head }
      | none => some { p with uplink := .head }
    | _ => none
  | .meshStale peer reason ours published => match ours, published with
    | some ours, some published =>
      if ours < published then
        some (p.replaced
          s!"relay {peer} says: {reason} (the view agrees: login_gen {published} > ours {ours})")
      else some p
    | _, _ => some p

def Calm : Prop := ∀ t, p.joinPc t = none

def RecordsStop (e : Event) : Prop :=
  p.handle.stop = none ∧ (p.step e).any (fun p' => p'.handle.stop.isSome) = true

def NoJoinAfterStop : Prop := ∀ r ∈ p.sent, r.2 = false

end Process

/-- A member process from the start of `run_member` on. -/
def memberSystem : TransitionSystem Process Event where
  Initial p := p.handle = {} ∧ p.control = .head ∧ (∃ wait, p.renewal = .sleeping wait) ∧
    p.uplink = .head ∧ p.pool = [] ∧ p.sent = []
  step := Process.step

namespace Process

/-- What the condition on stops keeps: attempts in the pool belong to tasks that
wait for them, and after a stop no task is inside the join loop. -/
structure Inv (p : Process) : Prop where
  pooled : ∀ t ∈ p.pool, ∃ s, p.joinPc t = some (.awaiting s)
  calm : p.handle.stop.isSome → p.Calm
  clean : p.NoJoinAfterStop

variable {p p' : Process} {t u : Task}

theorem Inv.pool_eq_nil (h : p.Inv) (hc : p.Calm) : p.pool = [] := by
  refine List.eq_nil_iff_forall_not_mem.mpr fun t ht => ?_
  obtain ⟨s, hs⟩ := h.pooled t ht
  rw [hc t] at hs
  cases hs

theorem Inv.of_same (h : p.Inv) (hpool : p'.pool = p.pool) (hsent : p'.sent = p.sent)
    (hpc : ∀ t, p'.joinPc t = p.joinPc t) (hcalm : p'.handle.stop.isSome → p.handle.stop.isSome ∨ p.Calm) : p'.Inv := by
  refine ⟨fun t ht => ?_, fun hstop t => ?_, fun r hr => h.clean r (hsent ▸ hr)⟩
  · rw [hpc]
    exact h.pooled t (hpool ▸ ht)
  · rw [hpc]
    rcases hcalm hstop with hs | hc
    · exact h.calm hs t
    · exact hc t

theorem Inv.of_calm (h : p.Inv) (hc : p.Calm) (hpool : p'.pool = p.pool) (hsent : p'.sent = p.sent)
    (hc' : p'.Calm) : p'.Inv := by
  refine ⟨fun t ht => ?_, fun _ => hc', fun r hr => h.clean r (hsent ▸ hr)⟩
  rw [hpool, h.pool_eq_nil hc] at ht
  cases ht

/-- At most `t` is elsewhere in the join loop. -/
structure Moves (p p' : Process) (t : Task) : Prop where
  stop : p'.handle.stop = p.handle.stop
  sent : p'.sent = p.sent
  others : ∀ u, u ≠ t → p'.joinPc u = p.joinPc u

theorem Inv.of_task (h : p.Inv) (hlive : p.handle.stop = none) (hout : t ∉ p.pool) (hm : p.Moves p' t)
    (hpool : p'.pool = p.pool ∨ p'.pool = t :: p.pool ∧ ∃ s, p'.joinPc t = some (.awaiting s)) : p'.Inv := by
  have hold (u : Task) (hu : u ∈ p.pool) : ∃ s, p'.joinPc u = some (.awaiting s) := by
    rw [hm.others u fun e => hout (e ▸ hu)]
    exact h.pooled u hu
  refine ⟨fun u hu => ?_, fun hs => ?_, fun r hr => h.clean r (hm.sent ▸ hr)⟩
  · rcases hpool with hpool | ⟨hpool, hawait⟩ <;> rw [hpool] at hu
    · exact hold u hu
    · rcases List.mem_cons.mp hu with rfl | hu
      · exact hawait
      · exact hold u hu
  · rw [hm.stop, hlive] at hs
    cases hs

theorem Inv.live (h : p.Inv) {j : JoinPc} (hj : p.joinPc t = some j) :
    p.handle.stop = none := by
  by_contra hstop
  have hcalm := h.calm (Option.isSome_iff_ne_none.mpr hstop) t
  rw [hcalm] at hj
  cases hj

theorem Inv.not_pooled (h : p.Inv) (hj : ∀ s, p.joinPc t ≠ some (.awaiting s)) : t ∉ p.pool := by
  intro ht
  obtain ⟨s, hs⟩ := h.pooled t ht
  exact hj s hs

theorem exit_calm (p : Process) (reason : String) : (p.exit reason).Calm := by
  intro t
  cases t <;> rfl

@[simp] theorem joinPc_setJoinPc_self (p : Process) (t : Task) (j : JoinPc) :
    (p.setJoinPc t j).joinPc t = some j := by
  cases t <;> rfl

theorem setJoinPc_moves (p : Process) (t : Task) (j : JoinPc) : p.Moves (p.setJoinPc t j) t := by
  cases t <;> refine ⟨rfl, rfl, fun u hu => ?_⟩ <;> cases u <;> first | rfl | exact absurd rfl hu

theorem joined_moves (p : Process) (t : Task) (r : JoinResponse) : p.Moves (p.joined t r) t := by
  cases t <;> refine ⟨rfl, rfl, fun u hu => ?_⟩ <;> cases u <;> first | rfl | exact absurd rfl hu

theorem Inv.setJoinPc (h : p.Inv) (hlive : p.handle.stop = none) (hout : t ∉ p.pool) (j : JoinPc) :
    (p.setJoinPc t j).Inv :=
  h.of_task hlive hout (p.setJoinPc_moves t j) (.inl (by cases t <;> rfl))

theorem Inv.sessionEnded (h : p.Inv) (hcontrol : p.control = .session)
    (hcalm : p'.handle.stop.isSome → p.handle.stop.isSome ∨ p.Calm) {ending : SessionEnd} {healthy : Bool}
    (hs : p.sessionEnded healthy ending = some p') : p'.Inv := by
  have hstay (healthy reconfigured : Bool) :
      { p with control := .backingOff healthy reconfigured : Process }.Inv := by
    refine h.of_same rfl rfl (fun t => ?_) (fun hstop => .inl hstop)
    cases t with
    | control => simp [joinPc, hcontrol]
    | renewal => rfl
  have hleave (hstop : p'.handle.stop.isSome) : p.Calm := by
    rcases hcalm hstop with hs | hc
    · exact h.calm hs
    · exact hc
  cases ending with
  | ok | lost | reconfigured =>
    cases hs
    exact hstay _ _
  | replaced reason =>
    cases hs
    have hc := hleave (by simp [exit, replaced, LinkHandle.replaced])
    exact h.of_calm hc rfl rfl (exit_calm _ _)
  | stopped =>
    simp only [Process.sessionEnded] at hs
    split_ifs at hs
    cases hs
    have hc := hleave (by simp [exit, replaced, LinkHandle.replaced])
    exact h.of_calm hc rfl rfl (exit_calm _ _)

theorem Inv.step {e : Event} (h : p.Inv) (hcond : p.RecordsStop e → p.Calm) (hs : p.step e = some p') : p'.Inv := by
  have hcalm (hstop : p'.handle.stop.isSome) : p.handle.stop.isSome ∨ p.Calm := by
    by_cases hnone : p.handle.stop = none
    · exact .inr (hcond ⟨hnone, by rw [hs]; exact hstop⟩)
    · exact .inl (Option.isSome_iff_ne_none.mpr hnone)
  cases e <;> simp only [Process.step] at hs
  case controlHead =>
    split at hs
    · rename_i hcontrol
      split at hs
      · rename_i reason hstop
        cases hs
        exact h.of_calm (h.calm (by simp [hstop])) rfl rfl (exit_calm _ _)
      · cases hs
        refine h.of_same rfl rfl (fun t => ?_) hcalm
        cases t with
        | control => simp [joinPc, hcontrol]
        | renewal => rfl
    · cases hs
  case sessionEnded ending healthy =>
    split at hs
    · rename_i hcontrol
      exact h.sessionEnded hcontrol hcalm hs
    · cases hs
  case controlWake =>
    split at hs <;> cases hs
    rename_i healthy reconfigured hcontrol
    have hdelay : { p with delay := if healthy || reconfigured then 1 else min (p.delay * 2) 5 }.Inv :=
      h.of_same rfl rfl (fun t => by cases t <;> rfl) .inl
    simp only [Process.controlWake]
    split
    · rename_i reason hstop
      exact h.of_calm (h.calm (by simpa using congrArg Option.isSome hstop)) rfl rfl (exit_calm _ _)
    · rename_i hstop
      refine Inv.setJoinPc (t := .control) hdelay hstop (h.not_pooled fun s => ?_) _
      simp [joinPc, hcontrol]
  case renewalWake =>
    split at hs <;> cases hs
    rename_i wait hrenewal
    by_cases hstop : p.handle.stop.isSome
    · refine h.of_calm (h.calm hstop) rfl rfl fun t => ?_
      cases t with
      | control => exact h.calm hstop .control
      | renewal => simp [joinPc, hstop]
    · rw [if_neg hstop]
      exact h.setJoinPc (t := .renewal) (Option.not_isSome_iff_eq_none.mp hstop)
        (h.not_pooled fun s => by simp [joinPc, hrenewal]) _
  case ask t =>
    split at hs <;> cases hs
    rename_i s hj
    exact h.of_task (h.live hj) (h.not_pooled fun s' => by simp [hj]) { p.setJoinPc_moves t (.awaiting s) with }
      (.inr ⟨rfl, s, p.joinPc_setJoinPc_self t _⟩)
  case send t =>
    split_ifs at hs with ht
    cases hs
    obtain ⟨s, hj⟩ := h.pooled t ht
    have hstop := h.live hj
    refine ⟨fun u hu => h.pooled u (List.mem_of_mem_erase hu), fun hsome => ?_, fun r hr => ?_⟩
    · exact absurd hsome (by simp [hstop])
    · rcases List.mem_cons.mp hr with rfl | hr
      · simp [hstop]
      · exact h.clean r hr
  case answered t a =>
    split at hs
    · rename_i s hj
      split_ifs at hs with ht
      -- What the loop reports about being refused touches neither task.
      have hreport : (p.reportRefused (joinAnswered s a).2).Inv :=
        h.of_same rfl rfl (fun u => by cases u <;> rfl) (fun hstop => .inl hstop)
      split at hs
      · cases hs
        exact hreport.setJoinPc (h.live hj) ht _
      · rename_i r _
        cases hs
        exact hreport.of_task (h.live hj) ht (joined_moves _ t r) (.inl (by cases t <;> rfl))
    · cases hs
  case retry t =>
    split at hs <;> cases hs
    rename_i s wait hj
    exact h.setJoinPc (h.live hj) (h.not_pooled fun s' => by simp [hj]) _
  case uplinkHead =>
    split at hs
    · split_ifs at hs <;> cases hs <;> exact h.of_same rfl rfl (fun t => by cases t <;> rfl) hcalm
    · cases hs
  case dialed | meshStale =>
    split at hs <;> (try split_ifs at hs) <;> cases hs <;>
      exact h.of_same rfl rfl (fun t => by cases t <;> rfl) hcalm
  case uplinkEnded =>
    split at hs
    · split at hs <;> (try split_ifs at hs) <;> cases hs <;>
        exact h.of_same rfl rfl (fun t => by cases t <;> rfl) hcalm
    · cases hs

end Process

/-- In every run in which a stop is put on record only while no task is inside
the join loop, no request is sent after it. -/
theorem no_join_after_calm_stop {p : Process}
    (h : memberSystem.ReachableWith (fun p e => p.RecordsStop e → p.Calm) p) :
    p.NoJoinAfterStop := by
  refine (h.invariant (P := Process.Inv) (fun p hp => ?_) fun p e p' hinv hc he => hinv.step hc he).clean
  obtain ⟨hhandle, -, -, -, hpool, hsent⟩ := hp
  refine ⟨fun t ht => ?_, fun hstop => ?_, fun r hr => ?_⟩
  · rw [hpool] at ht
    cases ht
  · simp [hhandle] at hstop
  · rw [hsent] at hr
    cases hr

def fresh : Process := { credential := "c", controlAddr := "coord:1", renewal := .sleeping 600 }

theorem fresh_initial : memberSystem.Initial fresh := ⟨rfl, rfl, ⟨600, rfl⟩, rfl, rfl, rfl⟩

/-- A relay refuses the stale login while the control session is up: the session
is woken and the process ends without another request. -/
theorem no_join_after_calm_stop_in_session : ∃ p : Process,
    memberSystem.run fresh [.controlHead, .uplinkHead true,
      .dialed "r1" (.refused closeStaleLogin "newer join"), .sessionEnded .stopped true] = some p ∧
    p.control = .exited "relay r1 says: newer join" ∧ p.NoJoinAfterStop := by
  have hnone : ∀ (p : Process) (e : Event), (p.step e).any (fun p' => p'.handle.stop.isSome) = false →
      p.RecordsStop e → p.Calm := fun p e hf hr => by simp [hr.2] at hf
  refine ⟨_, rfl, rfl, no_join_after_calm_stop ?_⟩
  refine .step (e := .sessionEnded .stopped true) (.step (e := .dialed "r1"
    (.refused closeStaleLogin "newer join")) (.step (e := .uplinkHead true) (.step (e := .controlHead)
      (.initial fresh_initial) (hnone _ _ rfl) rfl) (hnone _ _ rfl) rfl) ?_ rfl) ?_ rfl
  · rintro - (_ | _) <;> rfl
  · rintro - (_ | _) <;> rfl

/-- The control loop has lost its session and an attempt to join again has failed;
before the next one a relay refuses the stale login. -/
def replacedWhileRetrying : List Event :=
  [.controlHead, .sessionEnded .lost false, .controlWake, .ask .control, .send .control,
    .answered .control (.rejected false), .uplinkHead true,
    .dialed "r1" (.refused closeStaleLogin "newer join"),
    .retry .control, .ask .control, .send .control]

/-- The next attempt is sent all the same. -/
theorem join_sent_after_stop : ∃ p, memberSystem.run fresh replacedWhileRetrying = some p ∧
    memberSystem.Reachable p ∧ p.handle.stop = some "relay r1 says: newer join" ∧
    ¬ p.NoJoinAfterStop := by
  refine ⟨_, rfl, (TransitionSystem.Reachable.of_initial fresh_initial).of_run
    (show memberSystem.run fresh replacedWhileRetrying = some _ from rfl), rfl, fun h => ?_⟩
  exact absurd (h (.control, true) List.mem_cons_self) (by decide)

end Member

end Nqvpn
