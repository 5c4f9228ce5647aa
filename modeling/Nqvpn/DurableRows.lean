import Mathlib.Data.Option.Basic

/-!
# Two rows kept in memory and on disk

A mutation edits the running values of two rows and writes them one after the
other. A write of the first row that fails leaves the running value as edited; a
write of the second that fails puts the durable value back. The main result says
exactly when a mutation that fails has changed nothing.
-/

namespace DurableRows

variable {A B : Type}

/-- The running values, and what is stored of them. -/
structure Rows (A B : Type) where
  fst : A
  snd : B
  storedFst : Option A
  storedSnd : Option B
deriving DecidableEq

/-- What a mutation wants to write. -/
structure Edit (A B : Type) where
  fst : Option A
  snd : Option B

namespace Rows

variable (s : Rows A B) (e : Edit A B)

def save (ok : Bool) : Rows A B × Bool :=
  if ok then ({ s with storedFst := some s.fst }, true) else (s, false)

def commit (ok reload : Bool) : Rows A B × Bool :=
  if ok then ({ s with storedSnd := some s.snd }, true)
  else
    match s.storedSnd, reload with
    | some b, true => ({ s with snd := b }, false)
    | _, _ => (s, false)

def write (saveOk commitOk reload : Bool) : Rows A B × Bool :=
  let saved := match e.fst with
    | some a => { s with fst := a }.save saveOk
    | none => (s, true)
  if saved.2 then
    match e.snd with
    | some b => { saved.1 with snd := b }.commit commitOk reload
    | none => (saved.1, true)
  else (saved.1, false)

/-- A failed write has nothing to undo: the first row was not really edited, or its
write succeeded; and where the second one fails, the first was stored as it is and
the second is stored as it was running. -/
structure Withstands (s : Rows A B) (e : Edit A B) (saveOk commitOk : Bool) : Prop where
  unsaved : saveOk = false → ∀ a, e.fst = some a → a = s.fst
  uncommitted : (saveOk = true ∨ e.fst = none) → commitOk = false → ∀ b, e.snd = some b →
    (∀ a, e.fst = some a → a = s.fst ∧ s.storedFst = some s.fst) ∧ s.storedSnd.getD b = s.snd

theorem commit_failed :
    s.commit false true = ({ s with snd := s.storedSnd.getD s.snd }, false) := by
  obtain ⟨fst, snd, storedFst, storedSnd⟩ := s
  cases storedSnd with
  | none | some b => rfl

theorem write_ok {s : Rows A B} {e : Edit A B} {saveOk commitOk reload : Bool}
    (h : (s.write e saveOk commitOk reload).2) :
    (s.write e saveOk commitOk reload).1 =
      { fst := e.fst.getD s.fst
        snd := e.snd.getD s.snd
        storedFst := e.fst.or s.storedFst
        storedSnd := e.snd.or s.storedSnd } := by
  have hcommit : ∀ t : Rows A B, (t.commit commitOk reload).2 →
      (t.commit commitOk reload).1 = { t with storedSnd := some t.snd } := by
    intro t ht
    cases commitOk with
    | true => rfl
    | false =>
      unfold commit at ht
      split at ht
      · rename_i hfalse
        exact absurd hfalse (by simp)
      · split at ht <;> exact absurd ht (by simp)
  obtain ⟨ea, eb⟩ := e
  cases ea with
  | none =>
    cases eb with
    | none => rfl
    | some b => exact hcommit { s with snd := b } h
  | some a =>
    cases saveOk with
    | false => exact absurd h (by simp [write, save])
    | true =>
      cases eb with
      | none => rfl
      | some b => exact hcommit { s with fst := a, storedFst := some a, snd := b } h

theorem write_failed {s : Rows A B} {e : Edit A B} {saveOk commitOk reload : Bool}
    (h : (s.write e saveOk commitOk reload).2 = false) :
    (s.write e saveOk commitOk reload).1.storedSnd = s.storedSnd ∧
      ((s.write e saveOk commitOk reload).1.snd = s.snd ∨
        e.snd = some (s.write e saveOk commitOk reload).1.snd ∨
        s.storedSnd = some (s.write e saveOk commitOk reload).1.snd) := by
  have hcommit : ∀ (t : Rows A B) (b : B), ({ t with snd := b }.commit commitOk reload).2 = false →
      ({ t with snd := b }.commit commitOk reload).1.storedSnd = t.storedSnd ∧
        (({ t with snd := b }.commit commitOk reload).1.snd = b ∨
          t.storedSnd = some ({ t with snd := b }.commit commitOk reload).1.snd) := by
    rintro ⟨fst, snd, storedFst, storedSnd⟩ b ht
    cases commitOk with
    | true => exact (nomatch ht)
    | false => cases reload <;> cases storedSnd <;> simp [commit]
  obtain ⟨ea, eb⟩ := e
  cases ea with
  | none =>
    cases eb with
    | none => exact (nomatch h)
    | some b =>
      obtain ⟨hstored, hsnd⟩ := hcommit s b h
      exact ⟨hstored, .inr (hsnd.imp (fun hb => congrArg some hb.symm) id)⟩
  | some a =>
    cases saveOk with
    | false => exact ⟨rfl, .inl rfl⟩
    | true =>
      cases eb with
      | none => exact (nomatch h)
      | some b =>
        obtain ⟨hstored, hsnd⟩ := hcommit { s with fst := a, storedFst := some a } b h
        exact ⟨hstored, .inr (hsnd.imp (fun hb => congrArg some hb.symm) id)⟩

theorem commit_snd (ok reload : Bool) :
    ((s.commit ok reload).1.storedSnd = s.storedSnd ∨
        (s.commit ok reload).1.storedSnd = some (s.commit ok reload).1.snd) ∧
      ((s.commit ok reload).1.snd = s.snd ∨ s.storedSnd = some (s.commit ok reload).1.snd) := by
  obtain ⟨fst, snd, storedFst, storedSnd⟩ := s
  cases ok <;> cases reload <;> cases storedSnd <;> simp [commit]

theorem write_snd (saveOk commitOk reload : Bool) :
    ((s.write e saveOk commitOk reload).1.storedSnd = s.storedSnd ∨
        (s.write e saveOk commitOk reload).1.storedSnd = some (s.write e saveOk commitOk reload).1.snd) ∧
      ((s.write e saveOk commitOk reload).1.snd = s.snd ∨
        e.snd = some (s.write e saveOk commitOk reload).1.snd ∨
        s.storedSnd = some (s.write e saveOk commitOk reload).1.snd) := by
  cases hw : (s.write e saveOk commitOk reload).2 with
  | false =>
    obtain ⟨hstored, hsnd⟩ := write_failed hw
    exact ⟨.inl hstored, hsnd⟩
  | true =>
    rw [write_ok hw]
    cases e.snd with
    | none => exact ⟨.inl rfl, .inl rfl⟩
    | some b => exact ⟨.inr rfl, .inr (.inl rfl)⟩

theorem write_inert_iff (saveOk commitOk : Bool) :
    ((s.write e saveOk commitOk true).2 = false → (s.write e saveOk commitOk true).1 = s) ↔
      s.Withstands e saveOk commitOk := by
  obtain ⟨fst, snd, storedFst, storedSnd⟩ := s
  obtain ⟨ea, eb⟩ := e
  constructor
  · intro h
    refine ⟨?_, ?_⟩
    · rintro rfl a rfl
      have hfst := congrArg Rows.fst (h rfl)
      exact hfst
    · rintro hsaved rfl b rfl
      cases ea with
      | none =>
        simp only [write, commit_failed, if_true, forall_const] at h
        exact ⟨fun a ha => (nomatch ha), congrArg Rows.snd h⟩
      | some a =>
        have hok : saveOk := by simpa using hsaved
        subst hok
        simp only [write, save, commit_failed, if_true, forall_const] at h
        refine ⟨?_, congrArg Rows.snd h⟩
        intro a' ha'
        have ha : a = fst := congrArg Rows.fst h
        have hstored : some a = storedFst := congrArg Rows.storedFst h
        exact ⟨(Option.some.inj ha').symm.trans ha, hstored.symm.trans (congrArg some ha)⟩
  · intro hw hfail
    cases saveOk with
    | false =>
      cases ea with
      | some a =>
        have ha : a = fst := hw.unsaved rfl a rfl
        subst ha
        rfl
      | none =>
        cases eb with
        | none => exact absurd hfail (by simp [write])
        | some b =>
          cases commitOk with
          | true => exact absurd hfail (by simp [write, commit])
          | false =>
            have hb := (hw.uncommitted (.inr rfl) rfl b rfl).2
            simpa [write, commit_failed] using hb
    | true =>
      cases eb with
      | none =>
        cases ea with
        | none => exact absurd hfail (by simp [write])
        | some a => exact absurd hfail (by simp [write, save])
      | some b =>
        cases commitOk with
        | true =>
          cases ea with
          | none => exact absurd hfail (by simp [write, commit])
          | some a => exact absurd hfail (by simp [write, save, commit])
        | false =>
          obtain ⟨ha, hb⟩ := hw.uncommitted (.inl rfl) rfl b rfl
          cases ea with
          | none => simpa [write, commit_failed] using hb
          | some a =>
            obtain ⟨rfl, hstored⟩ := ha a rfl
            simpa [write, save, commit_failed] using ⟨hb, hstored.symm⟩

end Rows

end DurableRows
