import Nqvpn.MemberLoop

/-!
# The refusal flag and the coordinator's last word

Both joining tasks of a member write one flag, and each decides from the count of
its own retry loop whether there is anything to write. An answer of the coordinator
waits until the task it belongs to gets to it, so the order in which answers are
processed need not be the order in which they were given.
-/

namespace Nqvpn.Member

open Option

/-- What an answer says about the member. A failure that is only retried says nothing. -/
def JoinAnswer.verdict : JoinAnswer → Option Bool
  | .accepted _ => some true
  | .rejected true => some false
  | .rejected false => none
  | .crashed => none

/-- The latest verdict given to either task, and whether that task has processed it. -/
structure LastWord where
  task : Task
  accepted : Bool
  processed : Bool
deriving DecidableEq, Repr

/-- An answer to task `t`, whose loop stands at `s`, is in keeping with the last word:
an acceptance that is the last word finds the flag down, or the refusals it ends in the
task's own count; the first refusal in a task's count does not follow an acceptance
already processed. -/
def JoinAnswer.InKeeping (s : Retry) (t : Task) (w : LastWord) (refused : Bool) : JoinAnswer → Prop
  | .accepted _ => w.task = t → refused = true → 0 < s.refused
  | .rejected true => s.refused = 0 → ¬ (w.accepted = true ∧ w.processed = true)
  | .rejected false => True
  | .crashed => True

/-- The last word after task `t` has processed an answer. -/
def LastWord.after (w : LastWord) (t : Task) (a : JoinAnswer) : LastWord :=
  if w.task = t ∧ a.verdict ≠ none then { w with processed := true } else w

/-- A member and the answers under way to its tasks. -/
structure Dialogue where
  member : Process
  unprocessed : Task → Option JoinAnswer := fun _ => none
  last : Option LastWord := none

inductive DialogueEvent
  /-- A step of the member that processes no answer. -/
  | run (e : Event)
  /-- The coordinator answers an attempt that was sent. -/
  | answer (t : Task) (a : JoinAnswer)
  /-- The task gets to the answer. -/
  | process (t : Task)
deriving DecidableEq, Repr

def Event.isAnswered : Event → Bool
  | .answered _ _ => true
  | _ => false

namespace Process

variable {p p' : Process}

theorem step_refused {e : Event} (he : e.isAnswered = false) (hs : p.step e = some p') : p'.handle.refused = p.handle.refused := by
  cases e
  case answered t a => exact (nomatch he)
  all_goals simp only [step] at hs
  case controlHead =>
    split at hs
    · split at hs <;> cases hs <;> rfl
    · cases hs
  case sessionEnded ending healthy =>
    split at hs
    · cases ending with
      | ok | lost | reconfigured | replaced reason =>
        cases hs
        rfl
      | stopped =>
        simp only [sessionEnded] at hs
        split_ifs at hs
        cases hs
        rfl
    · cases hs
  case controlWake =>
    split at hs <;> cases hs
    simp only [controlWake]
    split <;> rfl
  case renewalWake =>
    split at hs <;> cases hs
    rfl
  case ask t | retry t =>
    split at hs <;> cases hs
    cases t <;> rfl
  case send t =>
    split_ifs at hs
    cases hs
    rfl
  case uplinkHead dials =>
    split at hs
    · split_ifs at hs <;> cases hs <;> rfl
    · cases hs
  case dialed relay a | meshStale peer reason ours published =>
    split at hs <;> (try split_ifs at hs) <;> cases hs <;> rfl
  case uplinkEnded relay close =>
    split at hs
    · split at hs <;> (try split_ifs at hs) <;> cases hs <;> rfl
    · cases hs

theorem step_answered {t : Task} {a : JoinAnswer} (hs : p.step (.answered t a) = some p') :
    ∃ s, p.joinPc t = some (.awaiting s) ∧
      p'.handle.refused = (joinAnswered s a).2.getD p.handle.refused := by
  simp only [step] at hs
  split at hs
  · rename_i s hj
    split_ifs at hs
    refine ⟨s, hj, ?_⟩
    split at hs <;> cases hs <;> cases t <;> rfl
  · cases hs

end Process

namespace Dialogue

def isRefused (d : Dialogue) : Bool := d.member.handle.refused

def step (d : Dialogue) : DialogueEvent → Option Dialogue
  | .run e =>
    if e.isAnswered then none else (d.member.step e).map fun p => { d with member := p }
  | .answer t a => match d.member.joinPc t with
    | some (.awaiting _) =>
      if t ∈ d.member.pool ∨ d.unprocessed t ≠ none then none
      else some { d with
        unprocessed := Function.update d.unprocessed t (some a)
        last := (a.verdict.map fun v => ⟨t, v, false⟩).or d.last }
    | _ => none
  | .process t => (d.unprocessed t).bind fun a =>
    (d.member.step (.answered t a)).map fun p =>
      { member := p
        unprocessed := Function.update d.unprocessed t none
        last := d.last.map (·.after t a) }

def Cleared (d : Dialogue) : Prop :=
  ∀ w, d.last = some w → w.accepted = true → w.processed = true → d.isRefused = false

/-- Whatever task `t` is about to process is in keeping with the last word. -/
def InKeeping (d : Dialogue) (t : Task) : Prop :=
  ∀ a s w, d.unprocessed t = some a → d.member.joinPc t = some (.awaiting s) → d.last = some w →
    a.InKeeping s t w d.isRefused

/-- An unprocessed verdict of the task the last word went to is that word. -/
structure Inv (d : Dialogue) : Prop where
  word : ∀ t a v w, d.unprocessed t = some a → a.verdict = some v → d.last = some w →
    w.task = t → w.accepted = v ∧ w.processed = false
  cleared : d.Cleared

end Dialogue

namespace Dialogue

variable {d d' : Dialogue} {t : Task} {a : JoinAnswer}

theorem step_run {e : Event} (hs : d.step (.run e) = some d') :
    d'.unprocessed = d.unprocessed ∧ d'.last = d.last ∧ d'.isRefused = d.isRefused := by
  simp only [step] at hs
  split_ifs at hs with he
  obtain ⟨p, hp, rfl⟩ := map_eq_some_iff.mp hs
  exact ⟨rfl, rfl, Process.step_refused (Bool.eq_false_iff.mpr he) hp⟩

theorem step_answer (hs : d.step (.answer t a) = some d') :
    d'.unprocessed = Function.update d.unprocessed t (some a) ∧
      d'.last = (a.verdict.map fun v => ⟨t, v, false⟩).or d.last ∧ d'.isRefused = d.isRefused := by
  simp only [step] at hs
  split at hs
  · split_ifs at hs
    cases hs
    exact ⟨rfl, rfl, rfl⟩
  · cases hs

theorem step_process (hs : d.step (.process t) = some d') :
    ∃ a s, d.unprocessed t = some a ∧ d.member.joinPc t = some (.awaiting s) ∧
      d'.isRefused = (joinAnswered s a).2.getD d.isRefused ∧
      d'.unprocessed = Function.update d.unprocessed t none ∧
      d'.last = d.last.map (·.after t a) := by
  obtain ⟨a, ha, hs⟩ := bind_eq_some_iff.mp hs
  obtain ⟨p, hp, rfl⟩ := map_eq_some_iff.mp hs
  obtain ⟨s, hj, hrefused⟩ := Process.step_answered hp
  exact ⟨a, s, ha, hj, hrefused, rfl, rfl⟩

/-- One answer, processed: the flag it leaves agrees with the last word exactly when the
answer was in keeping with it. `hword` says that a verdict to the task of the last word is
that word. -/
theorem agrees_after_iff {s : Retry} {w : LastWord} {refused : Bool}
    (hword : ∀ v, a.verdict = some v → w.task = t → w.accepted = v ∧ w.processed = false)
    (hbefore : w.accepted → w.processed → refused = false) :
    ((w.after t a).accepted → (w.after t a).processed →
      (joinAnswered s a).2.getD refused = false) ↔ a.InKeeping s t w refused := by
  cases a with
  | accepted r =>
    by_cases ht : w.task = t
    · obtain ⟨hacc, -⟩ := hword true rfl ht
      cases refused <;> by_cases hcount : 0 < s.refused <;>
        simp [LastWord.after, JoinAnswer.verdict, JoinAnswer.InKeeping, joinAnswered, ht, hacc, hcount]
    · have hflag : w.accepted → w.processed →
          (joinAnswered s (.accepted r)).2.getD refused = false := fun hacc hproc => by
        rw [hbefore hacc hproc, joinAnswered]
        split_ifs <;> rfl
      simpa [LastWord.after, JoinAnswer.InKeeping, ht] using hflag
  | rejected terminal =>
    cases terminal with
    | false => simpa [LastWord.after, JoinAnswer.verdict, JoinAnswer.InKeeping, joinAnswered] using hbefore
    | true =>
      by_cases ht : w.task = t
      · obtain ⟨hacc, -⟩ := hword false rfl ht
        simp [LastWord.after, JoinAnswer.verdict, JoinAnswer.InKeeping, ht, hacc]
      · by_cases hcount : s.refused = 0
        · simp [LastWord.after, JoinAnswer.InKeeping, joinAnswered, ht, hcount]
        · simpa [LastWord.after, JoinAnswer.InKeeping, joinAnswered, ht, hcount] using hbefore
  | crashed => simpa [LastWord.after, JoinAnswer.verdict, JoinAnswer.InKeeping, joinAnswered] using hbefore

/-- Processing an answer keeps the flag in line with the last word exactly when that
answer is in keeping with it. -/
theorem Inv.process_cleared_iff (h : d.Inv) (hs : d.step (.process t) = some d') : d'.Cleared ↔ d.InKeeping t := by
  obtain ⟨a, s, ha, hj, hrefused, -, hlast⟩ := step_process hs
  have hiff (w : LastWord) (hw : d.last = some w) :
      ((w.after t a).accepted → (w.after t a).processed →
        (joinAnswered s a).2.getD d.isRefused = false) ↔ a.InKeeping s t w d.isRefused :=
    agrees_after_iff (fun v hv ht => h.word t a v w ha hv hw ht) (h.cleared w hw)
  constructor
  · intro hc a' s' w ha' hj' hw
    cases ha.symm.trans ha'
    obtain rfl : s = s' := by simpa [hj] using hj'
    refine (hiff w hw).mp fun hacc hproc => ?_
    rw [← hrefused]
    exact hc (w.after t a) (by rw [hlast, hw, map_some]) hacc hproc
  · intro hk w' hw' hacc hproc
    rw [hlast] at hw'
    obtain ⟨w, hw, rfl⟩ := map_eq_some_iff.mp hw'
    rw [hrefused]
    exact (hiff w hw).mpr (hk a s w ha hj hw) hacc hproc

theorem after_task (w : LastWord) (t : Task) (a : JoinAnswer) : (w.after t a).task = w.task := by
  unfold LastWord.after
  split_ifs <;> rfl

theorem Inv.step {e : DialogueEvent} (h : d.Inv) (hkeep : ∀ t, e = .process t → d.InKeeping t)
    (hs : d.step e = some d') : d'.Inv := by
  cases e with
  | run e =>
    obtain ⟨hun, hlast, hrefused⟩ := step_run hs
    refine ⟨by rw [hun, hlast]; exact h.word, ?_⟩
    rw [Cleared, hlast, hrefused]
    exact h.cleared
  | answer t a =>
    obtain ⟨hun, hlast, hrefused⟩ := step_answer hs
    cases hverdict : a.verdict with
    | none =>
      rw [hverdict, map_none, none_or] at hlast
      refine ⟨fun u a' v w ha' hv hw hu => ?_, fun w hw => ?_⟩
      · have hut : u ≠ t := by
          rintro rfl
          rw [hun, Function.update_self] at ha'
          cases ha'
          rw [hverdict] at hv
          cases hv
        rw [hun, Function.update_of_ne hut] at ha'
        exact h.word u a' v w ha' hv (hlast ▸ hw) hu
      · rw [hrefused]
        exact h.cleared w (hlast ▸ hw)
    | some v' =>
      rw [hverdict, map_some, some_or] at hlast
      refine ⟨fun u a' v w ha' hv hw hu => ?_, fun w hw _ hproc => ?_⟩ <;> cases hlast.symm.trans hw
      · subst hu
        rw [hun, Function.update_self] at ha'
        cases ha'
        exact ⟨some.inj (hverdict.symm.trans hv), rfl⟩
      · cases hproc
  | process t =>
    refine ⟨?_, (h.process_cleared_iff hs).mpr (hkeep t rfl)⟩
    obtain ⟨a, s, ha, hj, -, hun, hlast⟩ := step_process hs
    intro u a' v w' ha' hv hw' hu
    rw [hun] at ha'
    -- Only the other task can still have an answer waiting.
    have hut : u ≠ t := fun hut => by
      rw [hut, Function.update_self] at ha'
      cases ha'
    rw [Function.update_of_ne hut] at ha'
    rw [hlast] at hw'
    obtain ⟨w, hw, rfl⟩ := map_eq_some_iff.mp hw'
    rw [after_task] at hu
    have hne : w.after t a = w := if_neg fun h => hut (hu.symm.trans h.1)
    rw [hne]
    exact h.word u a' v w ha' hv hw hu

end Dialogue

end Nqvpn.Member
