import Mathlib.Data.List.Basic
import Mathlib.Data.Option.Basic
import Mathlib.Order.Lattice

/-!
# Words on a channel between two parties that replace their sessions

A channel holds handshake letters and numbered messages. `Mixed` describes the
letters of one session among handshake letters, with increasing numbers; `Carries`
allows letters of the session before it in front. Both are kept when a letter is
appended with the next number, and say what the first letter of a word can be.
-/

namespace Handover

variable {F S P : Type}

/-- The first message of a handshake, the answer that completes it, or a numbered
message of a session. One without a packet only shows that the session lives. -/
inductive Letter (F S P : Type)
  | ask (f : F)
  | answer (s : S)
  | data (s : S) (n : Nat) (x : Option P)

/-- One end of an established session: the number it sends next, and the number from
which on it takes whatever comes. -/
structure Line (S : Type) where
  session : S
  sent : Nat
  taken : Nat

abbrev Word (F S P : Type) := List (Letter F S P)

def Letter.packet : Letter F S P → Option P
  | data _ _ x => x
  | _ => none

def packets (w : Word F S P) : List P := w.filterMap Letter.packet

@[simp] theorem packets_nil : packets ([] : Word F S P) = [] := rfl

@[simp] theorem packets_append (w w' : Word F S P) : packets (w ++ w') = packets w ++ packets w' :=
  List.filterMap_append

@[simp] theorem packets_ask (f : F) (w : Word F S P) : packets (.ask f :: w) = packets w := rfl

@[simp] theorem packets_answer (s : S) (w : Word F S P) : packets (.answer s :: w) = packets w := rfl

@[simp] theorem packets_data (s : S) (n : Nat) (x : Option P) (w : Word F S P) :
    packets (.data s n x :: w) = x.toList ++ packets w := by
  cases x <;> rfl

def numbered (s : S) : Nat → List P → Word F S P
  | _, [] => []
  | n, x :: xs => .data s n (some x) :: numbered s (n + 1) xs

@[simp] theorem packets_numbered (s : S) (n : Nat) (xs : List P) :
    packets (numbered s n xs : Word F S P) = xs := by
  induction xs generalizing n with
  | nil => rfl
  | cons x xs ih => simp [numbered, ih]

theorem mem_numbered {s : S} {n : Nat} {xs : List P} {c : Letter F S P} (h : c ∈ numbered s n xs) :
    ∃ j x, c = .data s j x := by
  induction xs generalizing n with
  | nil => cases h
  | cons x xs ih =>
    rcases List.mem_cons.mp h with rfl | h
    · exact ⟨n, some x, rfl⟩
    · exact ih h

/-! ### One session -/

/-- Messages of session `s`, with increasing numbers from `lo` on and below `hi`,
among the handshake letters `h`. -/
def Mixed (s : S) (hi : Nat) : Nat → Word F S P → Word F S P → Prop
  | lo, h, [] => h = [] ∧ lo ≤ hi
  | lo, h, .data t n _ :: w => t = s ∧ lo ≤ n ∧ Mixed s hi (n + 1) h w
  | lo, h, c :: w => ∃ rest, h = c :: rest ∧ Mixed s hi lo rest w

variable {s : S} {hi lo lo' n : Nat} {h w : Word F S P}

theorem Mixed.mono (hw : Mixed s hi lo h w) (hlo : lo' ≤ lo) : Mixed s hi lo' h w := by
  induction w generalizing h with
  | nil => exact ⟨hw.1, hlo.trans hw.2⟩
  | cons c w ih =>
    cases c with
    | ask f | answer t =>
      obtain ⟨rest, hh, hrest⟩ := hw
      exact ⟨rest, hh, ih hrest⟩
    | data t n x => exact ⟨hw.1, hlo.trans hw.2.1, hw.2.2⟩

theorem Mixed.snoc_data (hw : Mixed s hi lo h w) (x : Option P) :
    Mixed s (hi + 1) lo h (w ++ [.data s hi x]) := by
  induction w generalizing lo h with
  | nil => exact ⟨rfl, hw.2, hw.1, le_rfl⟩
  | cons c w ih =>
    cases c with
    | ask f | answer t =>
      obtain ⟨rest, hh, hrest⟩ := hw
      exact ⟨rest, hh, ih hrest⟩
    | data t n x => exact ⟨hw.1, hw.2.1, ih hw.2.2⟩

theorem Mixed.append (hw : Mixed s hi lo h w) {h' w' : Word F S P} (hw' : Mixed s hi hi h' w') :
    Mixed s hi lo (h ++ h') (w ++ w') := by
  induction w generalizing lo h with
  | nil =>
    obtain ⟨rfl, hle⟩ := hw
    exact hw'.mono hle
  | cons c w ih =>
    cases c with
    | ask f | answer t =>
      obtain ⟨rest, rfl, hrest⟩ := hw
      exact ⟨rest ++ h', rfl, ih hrest⟩
    | data t n x => exact ⟨hw.1, hw.2.1, ih hw.2.2⟩

theorem mixed_ask (f : F) : Mixed s hi hi [.ask f] ([.ask f] : Word F S P) :=
  ⟨[], rfl, rfl, le_rfl⟩

theorem mixed_answer (t : S) : Mixed s hi hi [.answer t] ([.answer t] : Word F S P) :=
  ⟨[], rfl, rfl, le_rfl⟩

theorem mixed_numbered (s : S) (n : Nat) (xs : List P) :
    Mixed s (n + xs.length) n [] (numbered s n xs : Word F S P) := by
  induction xs generalizing n with
  | nil => exact ⟨rfl, le_rfl⟩
  | cons x xs ih =>
    refine ⟨rfl, le_rfl, ?_⟩
    rw [List.length_cons, Nat.add_comm xs.length 1, ← Nat.add_assoc]
    exact ih (n + 1)

/-! ### Letters of the session before -/

def Late : Option (Line S) → Word F S P → Prop
  | none, w => w = []
  | some l, w => ∃ hi, Mixed l.session hi l.taken [] w

theorem late_nil (o : Option (Line S)) : Late o ([] : Word F S P) := by
  cases o with
  | none => rfl
  | some l => exact ⟨l.taken, rfl, le_rfl⟩

/-- Letters on the line `o`, then those of session `s`. -/
def Carries (o : Option (Line S)) (s : S) (hi lo : Nat) (h w : Word F S P) : Prop :=
  ∃ late rest, w = late ++ rest ∧ Late o late ∧ Mixed s hi lo h rest

variable {o : Option (Line S)}

theorem Carries.of_mixed (hw : Mixed s hi lo h w) : Carries o s hi lo h w :=
  ⟨[], w, rfl, late_nil o, hw⟩

theorem Carries.of_late (hw : Late o w) (hle : lo ≤ hi) : Carries o s hi lo [] w :=
  ⟨w, [], (List.append_nil w).symm, hw, rfl, hle⟩

theorem Carries.snoc_data (hw : Carries o s hi lo h w) (x : Option P) :
    Carries o s (hi + 1) lo h (w ++ [.data s hi x]) := by
  obtain ⟨late, rest, rfl, hlate, hrest⟩ := hw
  exact ⟨late, _, List.append_assoc .., hlate, hrest.snoc_data x⟩

theorem Carries.append (hw : Carries o s hi lo h w) {h' w' : Word F S P}
    (hw' : Mixed s hi hi h' w') : Carries o s hi lo (h ++ h') (w ++ w') := by
  obtain ⟨late, rest, rfl, hlate, hrest⟩ := hw
  exact ⟨late, _, List.append_assoc .., hlate, hrest.append hw'⟩

theorem Carries.head {c : Letter F S P} (hw : Carries o s hi lo h (c :: w)) :
    (∃ l n x, o = some l ∧ c = .data l.session n x ∧ l.taken ≤ n ∧
      Carries (some { l with taken := n + 1 }) s hi lo h w) ∨ Mixed s hi lo h (c :: w) := by
  obtain ⟨late, rest, heq, hlate, hrest⟩ := hw
  cases late with
  | nil =>
    exact .inr (heq ▸ hrest)
  | cons c' late =>
    obtain ⟨rfl, rfl⟩ := List.cons.inj heq
    cases o with
    | none => cases hlate
    | some l =>
      obtain ⟨top, hlate⟩ := hlate
      cases c with
      | ask f | answer t =>
        obtain ⟨_, hnil, -⟩ := hlate
        cases hnil
      | data t n x =>
        obtain ⟨rfl, hle, hlate⟩ := hlate
        exact .inl ⟨l, n, x, rfl, rfl, hle, late, rest, rfl, ⟨top, hlate⟩, hrest⟩

end Handover
