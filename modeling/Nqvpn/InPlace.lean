import Mathlib.Logic.Basic

/-!
# Computations that change a state in place

A computation that fails midway leaves the state as it is at that point. One that settles on `x` from
the state `s` ends as `x` says, and if `x` is a failure it leaves `s` behind: whatever was changed on
the way, no step fails after it.
-/

namespace InPlace

variable {ε σ τ α β : Type}

def check (x : Except ε α) : EStateM ε σ α := fun s =>
  match x with
  | .ok a => .ok a s
  | .error e => .error e s

def zoom (view : σ → τ) (put : τ → σ → σ) (m : EStateM ε τ α) : EStateM ε σ α := fun s =>
  match m (view s) with
  | .ok a t => .ok a (put t s)
  | .error e t => .error e (put t s)

/-- How a computation from `s` ends that comes to `x`. -/
def settle (s : σ) : Except ε (α × σ) → EStateM.Result ε σ α
  | .ok (a, s') => .ok a s'
  | .error e => .error e s

def outcome : σ × Except ε α → EStateM.Result ε σ α
  | (s, .ok a) => .ok a s
  | (s, .error e) => .error e s

def value : EStateM.Result ε σ α → Option α
  | .ok a _ => some a
  | .error _ _ => none

theorem run'_eq_value (m : EStateM ε σ α) (s : σ) : m.run' s = value (m s) := rfl

variable {s : σ} {put : τ → σ → σ} {view : σ → τ} {e : ε} {s' : σ}

theorem outcome_eq_error {done : σ × Except ε α} : outcome done = .error e s ↔ done = (s, .error e) := by
  obtain ⟨s', x⟩ := done
  cases x <;> simp [outcome, and_comm]

def Settles (m : EStateM ε σ α) (s : σ) (x : Except ε (α × σ)) : Prop := m s = settle s x

variable {m : EStateM ε σ α}

theorem Settles.error_iff {x : Except ε (α × σ)} (h : Settles m s x) :
    m s = .error e s' ↔ x = .error e ∧ s' = s := by
  rw [show m s = settle s x from h]
  cases x <;> simp [settle, eq_comm]

variable {x : Except ε α}

theorem check_of_ok {a : α} (h : x = .ok a) : check x s = .ok a s := by
  subst h
  rfl

theorem check_of_error (h : x = .error e) : check x s = .error e s := by
  subst h
  rfl

variable {k : α → EStateM ε σ β}

theorem bind_of_ok {a : α} (h : m s = .ok a s') : (m >>= k) s = k a s' := by
  change EStateM.bind m k s = k a s'
  unfold EStateM.bind
  rw [h]

theorem bind_of_error (h : m s = .error e s') : (m >>= k) s = .error e s' := by
  change EStateM.bind m k s = .error e s'
  unfold EStateM.bind
  rw [h]

theorem get_bind {k : σ → EStateM ε σ β} : (get >>= k) s = k s s := rfl

theorem modify_bind {f : σ → σ} {k : PUnit → EStateM ε σ β} :
    (modify f >>= k) s = k ⟨⟩ (f s) := rfl

theorem zoom_of_outcome {m : EStateM ε τ α} {done : τ × Except ε α} (h : m (view s) = outcome done) :
    zoom view put m s = outcome (put done.1 s, done.2) := by
  unfold zoom
  rw [h]
  obtain ⟨t, x⟩ := done
  cases x <;> rfl

theorem Settles.after_check {g : α → Except ε (β × σ)}
    (hk : ∀ a, x = .ok a → Settles (k a) s (g a)) : Settles (check x >>= k) s (x >>= g) := by
  cases x with
  | ok a => exact hk a rfl
  | error e => rfl

theorem Settles.after_get {k : σ → EStateM ε σ β} {x : Except ε (β × σ)} (hk : Settles (k s) s x) :
    Settles (get >>= k) s x :=
  hk

theorem Settles.bind {x : Except ε (α × σ)}
    {g : α × σ → Except ε (β × σ)} (hm : Settles m s x)
    (hk : ∀ a s', x = .ok (a, s') → k a s' = settle s (g (a, s'))) :
    Settles (m >>= k) s (x >>= g) := by
  change EStateM.bind m k s = settle s (x >>= g)
  unfold EStateM.bind
  rw [show m s = settle s x from hm]
  cases x with
  | ok y => exact hk y.1 y.2 rfl
  | error e => rfl

theorem Settles.after_zoom {m : EStateM ε τ α} {x : Except ε (α × τ)} {g : α × τ → Except ε (β × σ)}
    (hm : Settles m (view s) x) (hput : put (view s) s = s)
    (hk : ∀ a t, x = .ok (a, t) → k a (put t s) = settle s (g (a, t))) :
    Settles (zoom view put m >>= k) s (x >>= g) := by
  change EStateM.bind (zoom view put m) k s = settle s (x >>= g)
  unfold EStateM.bind zoom
  rw [show m (view s) = settle (view s) x from hm]
  cases x with
  | ok y => exact hk y.1 y.2 rfl
  | error e =>
    change EStateM.Result.error e (put (view s) s) = EStateM.Result.error e s
    rw [hput]

end InPlace
