import Mathlib.Data.List.Basic

/-!
# Histories of whole reports

A party reports again and again all that holds at the time. A history of such reports is unbroken
when nothing that stopped being reported is ever reported again; losing reports keeps it so.
-/

namespace ReportHistory

open List

variable {α β : Type*} (tells : β → α → Prop)

def Said (reports : List β) (a : α) : Prop := ∃ e ∈ reports, tells e a

def Unbroken (reports : List β) : Prop :=
  ∀ before e after, reports = before ++ e :: after →
    ∀ a, Said tells before a → Said tells after a → tells e a

variable {tells} {reports : List β} {reports' : List β}

theorem Said.mono {a : α} (h : Said tells reports a)
    (hsub : ∀ e ∈ reports, e ∈ reports') : Said tells reports' a := by
  obtain ⟨e, he, ha⟩ := h
  exact ⟨e, hsub e he, ha⟩

theorem said_append {a : α} :
    Said tells (reports ++ reports') a ↔ Said tells reports a ∨ Said tells reports' a := by
  simp [Said, mem_append, or_and_right, exists_or]

theorem said_singleton {e : β} {a : α} : Said tells [e] a ↔ tells e a := by
  simp [Said]

theorem unbroken_singleton (e : β) : Unbroken tells [e] := by
  intro before e' after heq a hbefore _
  cases before with
  | nil =>
    obtain ⟨x, hx, -⟩ := hbefore
    cases hx
  | cons b before =>
    have hlength := congrArg length heq
    simp at hlength

theorem Unbroken.sublist (h : Unbroken tells reports)
    (hsub : reports'.Sublist reports) : Unbroken tells reports' := by
  intro before e after heq a hbefore hafter
  subst heq
  obtain ⟨r₁, r₂, rfl, hsub₁, hsub₂⟩ := append_sublist_iff.mp hsub
  obtain ⟨s₁, s₂, rfl, he, hrest⟩ := cons_sublist_iff.mp hsub₂
  obtain ⟨t₁, t₂, rfl⟩ := append_of_mem he
  refine h (r₁ ++ t₁) e (t₂ ++ s₂) (by simp) a ?_ ?_
  · exact hbefore.mono fun x hx => mem_append_left t₁ (hsub₁.subset hx)
  · exact hafter.mono fun x hx => mem_append_right t₂ (hrest.subset hx)

theorem Unbroken.replace_last {e e' : β} (h : Unbroken tells (reports ++ [e]))
    (htells : ∀ a, tells e' a → tells e a ∨ ¬ Said tells reports a) : Unbroken tells (reports ++ [e']) := by
  intro before x after heq a hbefore hafter
  rcases append_eq_append_iff.mp heq with ⟨l, hbefore_eq, hlast⟩ | ⟨l, hreports, hrest⟩
  · -- The report in question is the last one: nothing is said after it.
    cases l with
    | nil =>
      simp only [nil_append, cons.injEq] at hlast
      rw [← hlast.2] at hafter
      obtain ⟨y, hy, -⟩ := hafter
      cases hy
    | cons b l =>
      simp at hlast
  · cases l with
    | nil =>
      simp only [nil_append, cons.injEq] at hrest
      rw [hrest.2] at hafter
      obtain ⟨y, hy, -⟩ := hafter
      cases hy
    | cons b l =>
      obtain ⟨rfl, rfl⟩ := hrest
      subst hreports
      have hsplit : before ++ x :: l ++ [e] = before ++ x :: (l ++ [e]) := by simp
      refine h before x (l ++ [e]) hsplit a hbefore ?_
      rcases said_append.mp hafter with hl | hnew
      · exact said_append.mpr (.inl hl)
      · refine said_append.mpr (.inr (said_singleton.mpr ?_))
        rcases htells a (said_singleton.mp hnew) with he | hnever
        · exact he
        · exact absurd (hbefore.mono fun y hy => mem_append_left _ hy) hnever

theorem Unbroken.repeat_last {e e' : β} (h : Unbroken tells (reports ++ [e]))
    (hsame : ∀ a, tells e' a ↔ tells e a) : Unbroken tells (reports ++ [e', e]) := by
  -- Whatever is told by one of the two last reports is told by the other.
  have hlast {x y : β} {a : α} (hx : x ∈ [e', e]) (hy : y ∈ [e', e]) (hya : tells y a) : tells x a := by
    simp only [mem_cons, not_mem_nil, or_false] at hx hy
    rcases hx with rfl | rfl
    · rcases hy with rfl | rfl
      · exact hya
      · exact (hsame a).mpr hya
    · rcases hy with rfl | rfl
      · exact (hsame a).mp hya
      · exact hya
  intro before x after heq a hbefore hafter
  rcases append_eq_append_iff.mp heq with ⟨l, -, hrest⟩ | ⟨l, hreports, hrest⟩
  · obtain ⟨y, hy, hya⟩ := hafter
    refine hlast ?_ ?_ hya
    · rw [hrest]
      exact mem_append_right l mem_cons_self
    · rw [hrest]
      exact mem_append_right l (mem_cons_of_mem x hy)
  · cases l with
    | nil =>
      obtain ⟨y, hy, hya⟩ := hafter
      refine hlast ?_ ?_ hya
      · rw [← nil_append [e', e], ← hrest]
        exact mem_cons_self
      · rw [← nil_append [e', e], ← hrest]
        exact mem_cons_of_mem x hy
    | cons b l =>
      obtain ⟨rfl, rfl⟩ := cons.inj hrest
      subst hreports
      have hsplit : before ++ x :: l ++ [e] = before ++ x :: (l ++ [e]) := by simp
      refine h before x (l ++ [e]) hsplit a hbefore (said_append.mpr ?_)
      rcases said_append.mp hafter with hl | ⟨y, hy, hya⟩
      · exact .inl hl
      · refine .inr (said_singleton.mpr (hlast ?_ hy hya))
        exact mem_cons_of_mem e' mem_cons_self

theorem Unbroken.last_tells {e : β} {a : α} (h : Unbroken tells (reports ++ [e]))
    (hsaid : Said tells reports a) (he : tells e a) : ∃ last, reports.getLast? = some last ∧ tells last a := by
  rcases eq_nil_or_concat reports with rfl | ⟨before, last, rfl⟩
  · obtain ⟨x, hx, -⟩ := hsaid
    cases hx
  · rw [concat_eq_append] at h hsaid ⊢
    refine ⟨last, getLast?_concat .., ?_⟩
    rcases said_append.mp hsaid with hbefore | hlast
    · rw [append_assoc] at h
      exact h before last [e] rfl a hbefore (said_singleton.mpr he)
    · exact said_singleton.mp hlast

end ReportHistory
