import Nqvpn.MemberLoop

/-!
# What a refused client carries

When the coordinator refuses a member, the joining task that hears of it raises the
flag and then runs the refusal hook, which closes the member's data sessions. The
tasks that make data sessions look at the flag once, before they dial or when they
verify, and register the session later. Here the hook is cut into its steps, and so
is the uplink task of a client.
-/

namespace Nqvpn.Refused

open Member (Task)

/-- What the joining tasks keep: the flag, the refusal hook each of them may be
running, and whether the member is barred, that is, a hook has returned and no join
was accepted since. -/
structure Standing (H : Type) where
  refused : Bool := false
  hooks : Task → Option H := fun _ => none
  barred : Bool := false

namespace Standing

variable {H : Type} (s : Standing H)

def Quiet : Prop := ∀ t, s.hooks t = none

def refuse [DecidableEq H] (t : Task) (entry : H) : Option (Standing H) :=
  if s.hooks t = none then
    some { s with refused := true, hooks := Function.update s.hooks t (some entry) }
  else none

def advance (t : Task) (h : H) : Standing H := { s with hooks := Function.update s.hooks t (some h) }

def finish (t : Task) : Standing H :=
  { s with hooks := Function.update s.hooks t none, barred := true }

/-- A join is accepted; a task that counted refusals itself reports so and takes the
flag down. -/
def accept [DecidableEq H] (t : Task) (reports : Bool) : Option (Standing H) :=
  if s.hooks t = none then some { s with refused := s.refused && !reports, barred := false }
  else none

/-- One hook runs at a time, and none runs or has run with the flag down. -/
structure Inv : Prop where
  raised : ∀ t, s.hooks t ≠ none → s.refused = true
  raisedBarred : s.barred = true → s.refused = true
  single : ∀ t u, s.hooks t ≠ none → s.hooks u ≠ none → t = u

variable {s}
variable {t u : Task} {s' : Standing H} {p : H}

theorem hooks_update_ne_none {hooks : Task → Option H} {h : Option H} (hu : Function.update hooks t h u ≠ none) : u = t ∧ h ≠ none ∨ u ≠ t ∧ hooks u ≠ none := by
  by_cases hut : u = t
  · subst hut
    rw [Function.update_self] at hu
    exact .inl ⟨rfl, hu⟩
  · rw [Function.update_of_ne hut] at hu
    exact .inr ⟨hut, hu⟩

theorem hooks_update {hooks : Task → Option H} {q : H} (hrest : ∀ v, v ≠ t → hooks v = none)
    (hu : Function.update hooks t (some p) u = some q) : u = t ∧ q = p := by
  rw [Function.update_apply] at hu
  split_ifs at hu with hut
  · exact ⟨hut, (Option.some.inj hu).symm⟩
  · exact absurd (hrest u hut) (by simp [hu])

theorem Inv.refuse [DecidableEq H] {entry : H} (hq : s.Quiet) (hs : s.refuse t entry = some s') : s'.Inv ∧ s' = { s with
      refused := true, hooks := Function.update s.hooks t (some entry) } := by
  unfold Standing.refuse at hs
  split_ifs at hs
  cases hs
  refine ⟨⟨fun _ _ => rfl, fun _ => rfl, fun u v hu hv => ?_⟩, rfl⟩
  rcases hooks_update_ne_none hu with ⟨hu, -⟩ | ⟨-, hu⟩
  · rcases hooks_update_ne_none hv with ⟨hv, -⟩ | ⟨-, hv⟩
    · exact hu.trans hv.symm
    · exact absurd (hq v) hv
  · exact absurd (hq u) hu

theorem Inv.advance (h : s.Inv) (ht : s.hooks t = some p) (p' : H) :
    (s.advance t p').Inv := by
  have hrun : s.hooks t ≠ none := by simp [ht]
  have hback {u : Task} (hu : (s.advance t p').hooks u ≠ none) : s.hooks u ≠ none := by
    rcases hooks_update_ne_none hu with ⟨rfl, -⟩ | ⟨-, hu⟩
    · exact hrun
    · exact hu
  exact ⟨fun u hu => h.raised u (hback hu), h.raisedBarred,
    fun u v hu hv => h.single u v (hback hu) (hback hv)⟩

theorem Inv.hooks_advance (h : s.Inv) {p' q : H} (ht : s.hooks t = some p)
    (hu : (s.advance t p').hooks u = some q) : u = t ∧ q = p' :=
  hooks_update (fun v hv => not_not.mp fun hrun => hv (h.single v t hrun (by simp [ht]))) hu

theorem Inv.finish (h : s.Inv) (ht : s.hooks t = some p) :
    (s.finish t).Inv ∧ (s.finish t).Quiet := by
  have hrun : s.hooks t ≠ none := by simp [ht]
  have hquiet : (s.finish t).Quiet := by
    intro u
    by_contra hu
    rcases hooks_update_ne_none hu with ⟨-, hn⟩ | ⟨hne, hu⟩
    · exact hn rfl
    · exact hne (h.single u t hu hrun)
  exact ⟨⟨fun u hu => absurd (hquiet u) hu, fun _ => h.raised t hrun,
    fun u _ hu => absurd (hquiet u) hu⟩, hquiet⟩

theorem Inv.accept [DecidableEq H] (h : s.Inv) {reports : Bool} (hq : reports → s.Quiet)
    (hs : s.accept t reports = some s') :
    s'.Inv ∧ s'.hooks = s.hooks ∧ s'.barred = false ∧ (s'.refused → s.refused) := by
  unfold Standing.accept at hs
  split_ifs at hs
  cases hs
  refine ⟨⟨fun u hu => ?_, fun hb => (nomatch hb), h.single⟩, rfl, rfl, fun hr => ?_⟩
  · have hsilent : reports = false := Bool.eq_false_iff.mpr fun hr => hu (hq hr u)
    simp [h.raised u hu, hsilent]
  · exact (Bool.and_eq_true_iff.mp hr).1

end Standing

/-! ### A client -/

/-- The steps of a client's hook: take the session out of the slot, clear the slot,
close what was taken. -/
inductive ClientHook
  | entered
  | took (held : Option Nat)
  | cleared (held : Option Nat)
deriving DecidableEq, Repr

/-- The uplink task: choosing a relay and dialing it, holding a session that is not
in the slot yet, running it, and clearing the slot after it ended. -/
inductive UplinkTask
  | head
  | dialing
  | opened (id : Nat)
  | running (id : Nat)
  | detaching
deriving DecidableEq, Repr

structure Client where
  standing : Standing ClientHook := {}
  slot : Option Nat := none
  task : UplinkTask := .head
  /-- Sessions someone has called `close` on. -/
  closing : List Nat := []
  nextId : Nat := 0

inductive ClientEvent
  | check
  | dialFailed
  | dialed
  | attach
  | ended
  | detach
  /-- Closed for another reason, or by the relay. -/
  | close (id : Nat)
  | refuse (t : Task)
  | hookTake (t : Task)
  | hookClear (t : Task)
  | hookClose (t : Task)
  | accept (t : Task) (reports : Bool)
deriving DecidableEq, Repr

namespace Client

def step (c : Client) : ClientEvent → Option Client
  | .check => match c.task with
    | .head => if c.standing.refused then some c else some { c with task := .dialing }
    | _ => none
  | .dialFailed => match c.task with
    | .dialing => some { c with task := .head }
    | _ => none
  | .dialed => match c.task with
    | .dialing => some { c with task := .opened c.nextId, nextId := c.nextId + 1 }
    | _ => none
  | .attach => match c.task with
    | .opened id => some { c with task := .running id, slot := some id }
    | _ => none
  | .ended => match c.task with
    | .running _ => some { c with task := .detaching }
    | _ => none
  | .detach => match c.task with
    | .detaching => some { c with task := .head, slot := none }
    | _ => none
  | .close id => some { c with closing := id :: c.closing }
  | .refuse t => (c.standing.refuse t .entered).map fun s => { c with standing := s }
  | .hookTake t => match c.standing.hooks t with
    | some .entered => some { c with standing := c.standing.advance t (.took c.slot) }
    | _ => none
  | .hookClear t => match c.standing.hooks t with
    | some (.took held) =>
      some { c with standing := c.standing.advance t (.cleared held), slot := none }
    | _ => none
  | .hookClose t => match c.standing.hooks t with
    | some (.cleared held) =>
      some { c with standing := c.standing.finish t, closing := held.toList ++ c.closing }
    | _ => none
  | .accept t reports => (c.standing.accept t reports).map fun s => { c with standing := s }

def openSession (c : Client) : Option Nat :=
  match c.task with
  | .opened id | .running id => some id
  | .head | .dialing | .detaching => none

def CarriesNothing (c : Client) : Prop :=
  c.standing.barred = true → ∀ id, c.openSession = some id → id ∈ c.closing

/-- The uplink task is between looking at the flag and putting a session in the slot. -/
def InFlight (c : Client) : Prop := c.task = .dialing ∨ ∃ id, c.task = .opened id

/-- A refusal finds no dial under way and no other hook; the flag is not taken down
under a hook. -/
def Orderly (c : Client) : ClientEvent → Prop
  | .refuse _ => ¬ c.InFlight ∧ c.standing.Quiet
  | .accept _ reports => reports = true → c.standing.Quiet
  | _ => True

def Live (c : Client) (id : Nat) : Prop := c.task = .running id ∧ id ∉ c.closing

structure Inv (c : Client) : Prop where
  standing : c.standing.Inv
  grounded : c.standing.refused = true → ¬ c.InFlight
  /-- Until a hook takes it, a live session is in the slot. -/
  slotted : (∀ t, c.standing.hooks t = none ∨ c.standing.hooks t = some .entered) →
    ∀ id, c.Live id → c.slot = some id
  /-- From then on the hook has it. -/
  held : ∀ t held, c.standing.hooks t = some (.took held) ∨ c.standing.hooks t = some (.cleared held) →
    ∀ id, c.Live id → held = some id
  done : c.standing.barred = true → ∀ id, ¬ c.Live id

variable {c c' : Client}

theorem Inv.carriesNothing (h : c.Inv) : c.CarriesNothing := by
  intro hb id hid
  have hground := h.grounded (h.standing.raisedBarred hb)
  unfold openSession at hid
  split at hid <;> cases hid
  · exact absurd (.inr ⟨_, ‹_›⟩) hground
  · exact not_not.mp fun hc => h.done hb _ ⟨‹_›, hc⟩

theorem Inv.of_live (h : c.Inv) (hstanding : c'.standing = c.standing)
    (hflight : c.standing.refused → ¬ c'.InFlight)
    (hlive : ∀ id, c'.Live id → c.Live id ∧ c'.slot = c.slot) : c'.Inv := by
  refine ⟨hstanding ▸ h.standing, hstanding ▸ hflight, fun hq id hid => ?_,
    fun t held ht id hid => ?_, fun hb id hid => ?_⟩
  · rw [(hlive id hid).2]
    exact h.slotted (hstanding ▸ hq) id (hlive id hid).1
  · exact h.held t held (hstanding ▸ ht) id (hlive id hid).1
  · exact h.done (hstanding ▸ hb) id (hlive id hid).1

theorem Inv.step {e : ClientEvent} (h : c.Inv) (ho : c.Orderly e) (hs : c.step e = some c') : c'.Inv := by
  cases e <;> simp only [Client.step] at hs
  case check =>
    split at hs
    · split_ifs at hs with hr <;> cases hs
      · exact h
      · exact h.of_live rfl (fun hr' => absurd hr' hr) fun id hid => (nomatch hid.1)
    · cases hs
  case dialFailed | ended | detach =>
    split at hs <;> cases hs
    exact h.of_live rfl (fun _ => by rintro (h | ⟨_, h⟩) <;> exact (nomatch h))
      fun id hid => (nomatch hid.1)
  case dialed =>
    split at hs <;> cases hs
    rename_i htask
    exact h.of_live rfl (fun hr => absurd (.inl htask) (h.grounded hr))
      fun id hid => (nomatch hid.1)
  case attach =>
    split at hs <;> cases hs
    rename_i id htask
    -- The flag is down, so no hook runs and the client is not barred.
    have hflag : c.standing.refused ≠ true := fun hr => h.grounded hr (.inr ⟨id, htask⟩)
    refine ⟨h.standing, fun hr => absurd hr hflag, fun _ id' hid => ?_, fun t held ht => ?_,
      fun hb => absurd (h.standing.raisedBarred hb) hflag⟩
    · cases hid.1
      rfl
    · refine absurd (h.standing.raised t fun hn => ?_) hflag
      rcases ht with ht | ht <;> exact absurd (hn.symm.trans ht) (by simp)
  case close id =>
    cases hs
    exact h.of_live rfl h.grounded fun id' hid =>
      ⟨⟨hid.1, fun hc => hid.2 (List.mem_cons_of_mem _ hc)⟩, rfl⟩
  case refuse t =>
    obtain ⟨s, hrefuse, rfl⟩ := Option.map_eq_some_iff.mp hs
    obtain ⟨hstanding, rfl⟩ := Standing.Inv.refuse ho.2 hrefuse
    refine ⟨hstanding, fun _ => ho.1, fun _ id hid => ?_, fun u held hu => ?_, h.done⟩
    · exact h.slotted (fun u => .inl (ho.2 u)) id hid
    · rcases hu with hu | hu <;> exact (nomatch (Standing.hooks_update (fun v _ => ho.2 v) hu).2)
  case hookTake t =>
    split at hs <;> cases hs
    rename_i ht
    have hslot (id : Nat) (hid : c.Live id) : c.slot = some id := by
      refine h.slotted (fun u => ?_) id hid
      by_cases hu : c.standing.hooks u = none
      · exact .inl hu
      · exact .inr (h.standing.single u t hu (by simp [ht]) ▸ ht)
    refine ⟨h.standing.advance ht _, h.grounded, fun _ id hid => hslot id hid,
      fun u held hu id hid => ?_, h.done⟩
    rcases hu with hu | hu
    · obtain ⟨-, hheld⟩ := h.standing.hooks_advance ht hu
      rw [ClientHook.took.inj hheld]
      exact hslot id hid
    · exact (nomatch (h.standing.hooks_advance ht hu).2)
  case hookClear t =>
    split at hs <;> cases hs
    rename_i held ht
    refine ⟨h.standing.advance ht _, h.grounded, fun hq => ?_, fun u held' hu id hid => ?_, h.done⟩
    · have := hq t
      simp [Standing.advance] at this
    · rcases hu with hu | hu
      · exact (nomatch (h.standing.hooks_advance ht hu).2)
      · obtain ⟨-, hheld⟩ := h.standing.hooks_advance ht hu
        rw [ClientHook.cleared.inj hheld]
        exact h.held t held (.inl ht) id hid
  case hookClose t =>
    split at hs <;> cases hs
    rename_i held ht
    obtain ⟨hstanding, hquiet⟩ := h.standing.finish ht
    -- The hook held the live session, and has closed it.
    have hnone (id : Nat) : ¬ ({ c with
        standing := c.standing.finish t, closing := held.toList ++ c.closing } : Client).Live id := by
      rintro ⟨htask, hid⟩
      have hlive : c.Live id := ⟨htask, fun hc => hid (List.mem_append_right _ hc)⟩
      refine hid (List.mem_append_left _ ?_)
      rw [h.held t held (.inr ht) id hlive]
      exact List.mem_singleton_self id
    refine ⟨hstanding, h.grounded, fun _ id hid => absurd hid (hnone id),
      fun u held' hu => ?_, fun _ => hnone⟩
    have hu' : (c.standing.finish t).hooks u = none := hquiet u
    rcases hu with hu | hu <;> simp [hu'] at hu
  case accept t reports =>
    obtain ⟨s, haccept, rfl⟩ := Option.map_eq_some_iff.mp hs
    obtain ⟨hstanding, hhooks, hbarred, hrefused⟩ := h.standing.accept ho haccept
    refine ⟨hstanding, fun hr => h.grounded (hrefused hr), fun hq id hid => ?_,
      fun u held hu id hid => ?_, fun hb => ?_⟩
    · exact h.slotted (hhooks ▸ hq) id hid
    · exact h.held u held (hhooks ▸ hu) id hid
    · exact absurd (hbarred.symm.trans hb) (by simp)

end Client

def clientSystem : TransitionSystem Client ClientEvent where
  Initial c := c = {}
  step := Client.step

theorem client_inv {c : Client} (h : clientSystem.ReachableWith Client.Orderly c) :
    c.Inv := by
  refine h.invariant (fun c hc => ?_) fun c e c' hinv ho hs => hinv.step ho hs
  subst hc
  exact ⟨⟨fun _ hu => absurd rfl hu, fun hb => (nomatch hb), fun _ _ hu => absurd rfl hu⟩,
    fun hr => (nomatch hr), fun _ id hid => (nomatch hid.1), fun _ _ _ id hid => (nomatch hid.1),
    fun hb => (nomatch hb)⟩

end Nqvpn.Refused
