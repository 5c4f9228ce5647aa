import Nqvpn.TransitionSystem

/-!
# Programs that call their surroundings

A program is a finite tree of calls: what it does next depends on the answer. The surroundings
change with every answered call, and drift by themselves between two calls. `Holds` says of a
program that an invariant is true of the surroundings at every instant at which the program could
be stopped, and a postcondition when it returns. A crash machine runs such programs one call at a
time, stops them anywhere and starts afresh from what the surroundings kept.
-/

inductive CallProgram (Call : Type) (Answer : Call → Type) (α : Type) : Type
  | pure (result : α)
  | call (c : Call) (next : Answer c → CallProgram Call Answer α)

/-- What the surroundings may do by themselves in any number of steps. -/
structure Drift (σ : Type) where
  Leads : σ → σ → Prop
  refl : ∀ s, Leads s s
  trans : ∀ {s t u}, Leads s t → Leads t u → Leads s u

namespace CallProgram

variable {Call : Type} {Answer : Call → Type} {α β σ : Type}

def bind : CallProgram Call Answer α → (α → CallProgram Call Answer β) → CallProgram Call Answer β
  | pure a, f => f a
  | call c next, f => call c fun answer => (next answer).bind f

instance instMonad : Monad (CallProgram Call Answer) where
  pure := pure
  bind := bind

def ask (c : Call) : CallProgram Call Answer (Answer c) := call c pure

section
variable (exec : (c : Call) → Answer c → σ → Option σ)

/-- The run in which every call gets the oracle's answer, if those answers are possible. -/
def run (oracle : (c : Call) → σ → Answer c) : CallProgram Call Answer α → σ → Option (α × σ)
  | pure a, s => some (a, s)
  | call c next, s => (exec c (oracle c s) s).bind fun s' => run oracle (next (oracle c s)) s'

/-- Whatever the answers, and however the surroundings drift before each call and before the
return, `I` is true all along and `Q` at the return. -/
def Holds (D : Drift σ) (I : σ → Prop) (Q : α → σ → Prop) : CallProgram Call Answer α → σ → Prop
  | pure a, s => ∀ s', D.Leads s s' → I s' ∧ Q a s'
  | call c next, s => ∀ s', D.Leads s s' →
      I s' ∧ ∀ answer s'', exec c answer s' = some s'' → Holds D I Q (next answer) s''

end

variable {exec : (c : Call) → Answer c → σ → Option σ} {D : Drift σ} {I : σ → Prop}
  {Q : α → σ → Prop} {p : CallProgram Call Answer α} {s s' : σ}

theorem Holds.stable (h : p.Holds exec D I Q s) (hs : D.Leads s s') : p.Holds exec D I Q s' := by
  cases p with
  | pure a | call c next => exact fun t ht => h t (D.trans hs ht)

theorem Holds.invariant (h : p.Holds exec D I Q s) : I s := by
  cases p with
  | pure a | call c next => exact (h s (D.refl s)).1

theorem Holds.result {a : α} (h : (pure a : CallProgram Call Answer α).Holds exec D I Q s) : Q a s :=
  (h s (D.refl s)).2

theorem Holds.answered {c : Call} {next : Answer c → CallProgram Call Answer α} {answer : Answer c}
    (h : (call c next).Holds exec D I Q s) (he : exec c answer s = some s') :
    (next answer).Holds exec D I Q s' :=
  (h s (D.refl s)).2 answer s' he

theorem holds_pure {a : α} (hI : ∀ s, Q a s → I s) (hQ : ∀ s s', Q a s → D.Leads s s' → Q a s')
    (h : Q a s) : (Pure.pure a : CallProgram Call Answer α).Holds exec D I Q s := by
  intro s' hs
  have hq := hQ s s' h hs
  exact ⟨hI s' hq, hq⟩

theorem Holds.mono {Q' : α → σ → Prop} (h : p.Holds exec D I Q s) (hQ : ∀ a s, Q a s → Q' a s) :
    p.Holds exec D I Q' s := by
  induction p generalizing s with
  | pure a => exact fun s' hs => ⟨(h s' hs).1, hQ a s' (h s' hs).2⟩
  | call c next ih => exact fun s' hs => ⟨(h s' hs).1, fun answer s'' he => ih answer ((h s' hs).2 answer s'' he)⟩

theorem Holds.bind {f : α → CallProgram Call Answer β} {Q' : β → σ → Prop}
    (h : p.Holds exec D I Q s) (hf : ∀ a s, Q a s → (f a).Holds exec D I Q' s) :
    (p >>= f).Holds exec D I Q' s := by
  induction p generalizing s with
  | pure a => exact hf a s h.result
  | call c next ih => exact fun s' hs => ⟨(h s' hs).1, fun answer s'' he => ih answer ((h s' hs).2 answer s'' he)⟩

theorem holds_ask {c : Call} {f : Answer c → CallProgram Call Answer β} {P : σ → Prop}
    {Q' : β → σ → Prop} (hI : ∀ s, P s → I s) (hP : ∀ s s', P s → D.Leads s s' → P s')
    (hcall : ∀ answer s s', P s → exec c answer s = some s' → (f answer).Holds exec D I Q' s')
    (h : P s) : (ask c >>= f).Holds exec D I Q' s := by
  intro s' hs
  have hp := hP s s' h hs
  exact ⟨hI s' hp, fun answer s'' he => hcall answer s' s'' hp he⟩

theorem holds_foldlM {γ : Type} {f : β → γ → CallProgram Call Answer β} {J : List γ → β → σ → Prop}
    (hI : ∀ b s, J [] b s → I s) (hJ : ∀ b s s', J [] b s → D.Leads s s' → J [] b s')
    (hbody : ∀ a l b s, J (a :: l) b s → (f b a).Holds exec D I (J l) s)
    {l : List γ} {b : β} (h : J l b s) : (l.foldlM f b).Holds exec D I (J []) s := by
  induction l generalizing b s with
  | nil => exact holds_pure (hI b) (hJ b) h
  | cons a l ih =>
    exact (hbody a l b s h).bind fun b' s' hs' => ih hs'

theorem Holds.run {oracle : (c : Call) → σ → Answer c} (h : p.Holds exec D I Q s)
    (ho : ∀ c s, (exec c (oracle c s) s).isSome) :
    ∃ a s', p.run exec oracle s = some (a, s') ∧ Q a s' := by
  induction p generalizing s with
  | pure a => exact ⟨a, s, rfl, h.result⟩
  | call c next ih =>
    obtain ⟨t, ht⟩ := Option.isSome_iff_exists.mp (ho c s)
    obtain ⟨a, s', hrun, hq⟩ := ih (oracle c s) (h.answered ht)
    refine ⟨a, s', ?_, hq⟩
    simpa [CallProgram.run, ht] using hrun

end CallProgram

/-! ### Crash machines -/

/-- A process whose memory is lost when it stops: it boots from its surroundings, then serves
requests one after another. `outside` is what others do to the surroundings. -/
structure CrashMachine (Call : Type) (Answer : Call → Type) (β Request Outside σ : Type) where
  exec : (c : Call) → Answer c → σ → Option σ
  boot : σ → CallProgram Call Answer β
  serve : Request → β → CallProgram Call Answer β
  outside : Outside → σ → Option σ
  Fresh : σ → Prop

namespace CrashMachine

variable {Call : Type} {Answer : Call → Type} {β Request Outside σ : Type}

inductive Process (Call : Type) (Answer : Call → Type) (β : Type)
  | down
  | idle (memory : β)
  | busy (rest : CallProgram Call Answer β)

structure State (Call : Type) (Answer : Call → Type) (β σ : Type) where
  around : σ
  process : Process Call Answer β

inductive Event (Call : Type) (Answer : Call → Type) (Request Outside : Type)
  | boot
  | request (r : Request)
  -- The answers the surroundings would give to the call that comes next.
  | answer (reply : (c : Call) → Answer c)
  | finish
  | crash
  | outside (o : Outside)

variable (M : CrashMachine Call Answer β Request Outside σ)

def step (s : State Call Answer β σ) : Event Call Answer Request Outside → Option (State Call Answer β σ)
  | .boot =>
    match s.process with
    | .down => some { s with process := .busy (M.boot s.around) }
    | _ => none
  | .request r =>
    match s.process with
    | .idle memory => some { s with process := .busy (M.serve r memory) }
    | _ => none
  | .answer reply =>
    match s.process with
    | .busy (.call c next) =>
      (M.exec c (reply c) s.around).map fun around => ⟨around, .busy (next (reply c))⟩
    | _ => none
  | .finish =>
    match s.process with
    | .busy (.pure memory) => some { s with process := .idle memory }
    | _ => none
  | .crash => some { s with process := .down }
  | .outside o => (M.outside o s.around).map fun around => { s with around }

def system : TransitionSystem (State Call Answer β σ) (Event Call Answer Request Outside) where
  Initial s := M.Fresh s.around ∧ s.process = .down
  step := M.step

/-- The steps in which the process crashes, and the surroundings move, only as allowed. -/
def Allows (Crash : σ → Prop) (Moves : σ → Outside → Prop) (s : State Call Answer β σ) :
    Event Call Answer Request Outside → Prop
  | .crash => Crash s.around
  | .outside o => Moves s.around o
  | _ => True

def Settled (D : Drift σ) (I Down : σ → Prop) (Q : β → σ → Prop) (s : State Call Answer β σ) : Prop :=
  match s.process with
  | .down => Down s.around
  | .idle memory => Q memory s.around
  | .busy rest => rest.Holds M.exec D I Q s.around

/-- An invariant for every instant, from what holds of a stopped process (`Down`) and of one
between two requests (`Q`). -/
structure Sound (D : Drift σ) (I Down : σ → Prop) (Q : β → σ → Prop) (Crash : σ → Prop)
    (Moves : σ → Outside → Prop) : Prop where
  fresh : ∀ s, M.Fresh s → Down s
  boot : ∀ s, Down s → (M.boot s).Holds M.exec D I Q s
  serve : ∀ r memory s, Q memory s → (M.serve r memory).Holds M.exec D I Q s
  crash : ∀ s, Crash s → I s → Down s
  moves : ∀ o s s', Moves s o → M.outside o s = some s' → D.Leads s s'
  down : ∀ s, Down s → I s
  idle : ∀ memory s, Q memory s → I s
  down_stable : ∀ s s', Down s → D.Leads s s' → Down s'
  idle_stable : ∀ memory s s', Q memory s → D.Leads s s' → Q memory s'

section
variable {M} {D : Drift σ} {I Down : σ → Prop} {Q : β → σ → Prop} {Crash : σ → Prop}
  {Moves : σ → Outside → Prop} {s s' : State Call Answer β σ}

theorem Settled.invariant (hM : M.Sound D I Down Q Crash Moves) (h : M.Settled D I Down Q s) :
    I s.around := by
  rw [Settled] at h
  split at h
  · exact hM.down _ h
  · exact hM.idle _ _ h
  · exact h.invariant

theorem Settled.stable (hM : M.Sound D I Down Q Crash Moves) (h : M.Settled D I Down Q s) {around : σ}
    (hs : D.Leads s.around around) : M.Settled D I Down Q { s with around } := by
  obtain ⟨a, process⟩ := s
  cases process with
  | down => exact hM.down_stable _ _ h hs
  | idle memory => exact hM.idle_stable _ _ _ h hs
  | busy rest => exact CallProgram.Holds.stable h hs

theorem Settled.step (hM : M.Sound D I Down Q Crash Moves) {e : Event Call Answer Request Outside}
    (h : M.Settled D I Down Q s) (he : Allows Crash Moves s e) (hs : M.step s e = some s') :
    M.Settled D I Down Q s' := by
  obtain ⟨around, process⟩ := s
  cases e with
  | boot =>
    cases process with
    | down =>
      cases hs
      exact hM.boot _ h
    | idle memory | busy rest => cases hs
  | request r =>
    cases process with
    | down | busy rest => cases hs
    | idle memory =>
      cases hs
      exact hM.serve r memory _ h
  | answer reply =>
    cases process with
    | down | idle memory => cases hs
    | busy rest =>
      cases rest with
      | pure memory => cases hs
      | call c next =>
        obtain ⟨around', hexec, rfl⟩ := Option.map_eq_some_iff.mp hs
        exact CallProgram.Holds.answered h hexec
  | finish =>
    cases process with
    | down | idle memory => cases hs
    | busy rest =>
      cases rest with
      | pure memory =>
        cases hs
        have hreturn : (CallProgram.pure memory).Holds M.exec D I Q around := h
        exact hreturn.result
      | call c next => cases hs
  | crash =>
    have hinv := Settled.invariant hM h
    cases hs
    exact hM.crash _ he hinv
  | outside o =>
    obtain ⟨around', hmove, rfl⟩ := Option.map_eq_some_iff.mp hs
    exact h.stable hM (hM.moves o _ _ he hmove)

theorem Sound.invariant (hM : M.Sound D I Down Q Crash Moves)
    (h : M.system.ReachableWith (Allows Crash Moves) s) : I s.around := by
  refine Settled.invariant hM (h.invariant (P := M.Settled D I Down Q) ?_ ?_)
  · rintro ⟨around, process⟩ ⟨hfresh, hprocess⟩
    cases hprocess
    exact hM.fresh _ hfresh
  · exact fun s e s' hs he hstep => hs.step hM he hstep

end

end CrashMachine
