import Mathlib.Data.List.Basic
import Mathlib.Order.Basic
import Mathlib.Order.Nat

/-!
# Longest match

Among the entries that cover something, those of the greatest length. A scan that
keeps the first of the longest finds one whenever an entry covers at all.
-/

namespace LongestMatch

open List

variable {α : Type} (len : α → Nat)

def longer (best : Option α) (e : α) : Option α :=
  match best with
  | none => some e
  | some b => if len b < len e then some e else some b

def longest (es : List α) : Option α := es.foldl (longer len) none

/-- An entry that covers, and none that covers is longer. -/
structure IsLongest (p : α → Prop) (es : List α) (e : α) : Prop where
  mem : e ∈ es
  covers : p e
  le : ∀ e' ∈ es, p e' → len e' ≤ len e

variable {len} {es : List α} {e : α}

theorem foldl_longer_some (len : α → Nat) (es : List α) (b : α) : ∃ e, es.foldl (longer len) (some b) = some e ∧
    (e = b ∨ e ∈ es) ∧ len b ≤ len e ∧ ∀ e' ∈ es, len e' ≤ len e := by
  induction es generalizing b with
  | nil => exact ⟨b, rfl, .inl rfl, le_rfl, by simp⟩
  | cons x es ih =>
    rw [foldl_cons, longer]
    split_ifs with hlt
    · obtain ⟨e, hfold, hmem, hle, hall⟩ := ih x
      refine ⟨e, hfold, ?_, hlt.le.trans hle, ?_⟩
      · rcases hmem with rfl | hmem
        · exact .inr mem_cons_self
        · exact .inr (mem_cons_of_mem x hmem)
      · intro e' he'
        rcases mem_cons.mp he' with rfl | he'
        · exact hle
        · exact hall e' he'
    · obtain ⟨e, hfold, hmem, hle, hall⟩ := ih b
      refine ⟨e, hfold, hmem.imp_right (mem_cons_of_mem x), hle, ?_⟩
      intro e' he'
      rcases mem_cons.mp he' with rfl | he'
      · omega
      · exact hall e' he'

theorem longest_eq_none : longest len es = none ↔ es = [] := by
  cases es with
  | nil => simp [longest]
  | cons x es =>
    obtain ⟨e, hfold, -⟩ := foldl_longer_some len es x
    have hsome : longest len (x :: es) = some e := hfold
    simp [hsome]

theorem isLongest_of_longest {p : α → Bool} (h : longest len (es.filter p) = some e) :
    IsLongest len (p ·) es e := by
  cases hes : es.filter p with
  | nil =>
    rw [hes] at h
    cases h
  | cons x rest =>
    obtain ⟨e', hfold, hmem, hle, hall⟩ := foldl_longer_some len rest x
    rw [hes] at h
    obtain rfl := Option.some.inj (hfold.symm.trans h)
    have hin : e' ∈ es.filter p := by
      rw [hes]
      rcases hmem with rfl | hmem
      · exact mem_cons_self
      · exact mem_cons_of_mem x hmem
    obtain ⟨hmem', hp⟩ := mem_filter.mp hin
    refine ⟨hmem', hp, fun y hy hpy => ?_⟩
    have hfound : y ∈ x :: rest := hes ▸ mem_filter.mpr ⟨hy, hpy⟩
    rcases mem_cons.mp hfound with rfl | hrest
    · exact hle
    · exact hall y hrest

theorem longest_eq_some {p : α → Bool} (h : IsLongest len (p ·) es e)
    (hunique : ∀ e' ∈ es, p e' → len e' = len e → e' = e) :
    longest len (es.filter p) = some e := by
  have hin : e ∈ es.filter p := mem_filter.mpr ⟨h.mem, h.covers⟩
  cases hfound : longest len (es.filter p) with
  | none =>
    rw [longest_eq_none.mp hfound] at hin
    cases hin
  | some e' =>
    have h' := isLongest_of_longest hfound
    have hlen : len e' = len e := le_antisymm (h.le e' h'.mem h'.covers) (h'.le e h.mem h.covers)
    rw [hunique e' h'.mem h'.covers hlen]

end LongestMatch
