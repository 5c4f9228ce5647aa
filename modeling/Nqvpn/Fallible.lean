import Mathlib.Data.List.Forall2
import Mathlib.Data.Option.Basic

/-!
# Fallible computations

Early returns of a function that fails with a value: checks, missing values,
and what a success says about each of them.
-/

namespace Fallible

variable {ε α β : Type}

/-- Fail unless `c` holds. -/
def ensure (c : Prop) [Decidable c] (e : ε) : Except ε Unit := if c then .ok () else .error e

def orFail (o : Option α) (e : ε) : Except ε α := o.elim (.error e) .ok

def each : List α → (α → Except ε Unit) → Except ε Unit
  | [], _ => .ok ()
  | a :: l, f => f a >>= fun _ => each l f

def gather : List α → (α → Except ε β) → Except ε (List β)
  | [], _ => .ok []
  | a :: l, f => f a >>= fun b => gather l f >>= fun bs => .ok (b :: bs)

@[simp] theorem ensure_eq_ok {c : Prop} [Decidable c] {e : ε} {u : Unit} :
    ensure c e = .ok u ↔ c := by
  by_cases h : c <;> simp [ensure, h]

variable {a : α}

@[simp] theorem orFail_eq_ok {o : Option α} {e : ε} : orFail o e = .ok a ↔ o = some a := by
  cases o <;> simp [orFail]

variable {x : Except ε α} {f : α → Except ε β}

@[simp] theorem bind_eq_ok {b : β} :
    x >>= f = .ok b ↔ ∃ a, x = .ok a ∧ f a = .ok b := by
  cases x <;> simp [bind, Except.bind]

@[simp] theorem pure_eq_ok {b : α} : (pure a : Except ε α) = .ok b ↔ a = b := by
  simp [pure, Except.pure]

@[simp] theorem mapError_eq_ok {ε' : Type} {f : ε → ε'} :
    x.mapError f = .ok a ↔ x = .ok a := by
  cases x <;> simp [Except.mapError]

theorem toOption_eq_some : x.toOption = some a ↔ x = .ok a := by
  cases x <;> simp [Except.toOption]

theorem map_bind {γ : Type} {g : β → γ} :
    (x >>= f).map g = x >>= fun a => (f a).map g := by
  cases x <;> rfl

variable {l : List α}

@[simp] theorem each_eq_ok {f : α → Except ε Unit} {u : Unit} :
    each l f = .ok u ↔ ∀ a ∈ l, f a = .ok () := by
  induction l with
  | nil => simp [each]
  | cons a l ih =>
    simp only [each, bind_eq_ok, ih, List.forall_mem_cons]
    exact ⟨fun ⟨_, ha, hl⟩ => ⟨ha, hl⟩, fun ⟨ha, hl⟩ => ⟨(), ha, hl⟩⟩

theorem exists_of_foldlM_eq_ok {f : β → α → Except ε β} {b b' : β}
    (h : l.foldlM f b = .ok b') (ha : a ∈ l) : ∃ x y, f x a = .ok y := by
  induction l generalizing b with
  | nil => cases ha
  | cons a' l ih =>
    obtain ⟨x, hx, h⟩ := bind_eq_ok.mp h
    rcases List.mem_cons.mp ha with rfl | ha
    · exact ⟨b, x, hx⟩
    · exact ih h ha

theorem gather_eq_ok {bs : List β} :
    gather l f = .ok bs ↔ List.Forall₂ (fun a b => f a = .ok b) l bs := by
  induction l generalizing bs with
  | nil => cases bs <;> simp [gather]
  | cons a l ih =>
    cases bs with
    | nil => simp [gather]
    | cons b bs =>
      simp only [gather, bind_eq_ok, ih, List.forall₂_cons, Except.ok.injEq, List.cons.injEq]
      constructor
      · rintro ⟨_, ha, _, hl, rfl, rfl⟩
        exact ⟨ha, hl⟩
      · rintro ⟨ha, hl⟩
        exact ⟨b, ha, bs, hl, rfl, rfl⟩

end Fallible
