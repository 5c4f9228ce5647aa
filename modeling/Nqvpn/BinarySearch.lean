import Mathlib.Data.List.Basic
import Mathlib.Data.List.Sort

/-!
# Binary search

The halving search of a slice by a key, as the standard library runs it: it
narrows an interval of `size` elements from `base` on, and looks at what is left.
-/

namespace BinarySearch

variable {α κ : Type*} [LinearOrder κ] (key : α → κ)

def narrow (l : List α) (k : κ) : Nat → Nat → Nat → Nat
  | 0, _, base => base
  | fuel + 1, size, base =>
    if size ≤ 1 then base
    else
      let half := size / 2
      let mid := base + half
      -- Stay in the lower half only when the middle key is greater.
      let base := if (l[mid]?).any (fun a => k < key a) then base else mid
      narrow l k fuel (size - half) base

def search (l : List α) (k : κ) : Option α :=
  (l[narrow key l k l.length l.length 0]?).filter (fun a => key a = k)

theorem search_eq_some {l : List α} {k : κ} {a : α} (h : search key l k = some a) :
    a ∈ l ∧ key a = k := by
  obtain ⟨hget, hkey⟩ := Option.filter_eq_some_iff.mp h
  exact ⟨List.mem_of_getElem? hget, by simpa using hkey⟩

theorem narrow_eq {l : List α} {k : κ} (hl : l.Pairwise (fun a b => key a < key b)) {i : Nat} {a : α}
    (hi : l[i]? = some a) (ha : key a = k) (fuel size base : Nat) (hfuel : size ≤ fuel)
    (hbound : base + size ≤ l.length) (hbase : base ≤ i) (hsize : i < base + size) :
    narrow key l k fuel size base = i := by
  have hlength : i < l.length := (List.getElem?_eq_some_iff.mp hi).1
  have hai : l[i] = a := (List.getElem?_eq_some_iff.mp hi).2
  induction fuel generalizing size base with
  | zero => omega
  | succ fuel ih =>
    unfold narrow
    by_cases hone : size ≤ 1
    · rw [if_pos hone]
      omega
    · rw [if_neg hone]
      have hmid : base + size / 2 < l.length := by omega
      have hget : l[base + size / 2]? = some l[base + size / 2] := List.getElem?_eq_getElem hmid
      by_cases hgreater : k < key l[base + size / 2]
      · -- The keys from the middle on are greater.
        have hlt : i < base + size / 2 := by
          by_contra hge
          rcases Nat.lt_or_eq_of_le (Nat.not_lt.mp hge) with hafter | hsame
          · have hkey := List.pairwise_iff_getElem.mp hl _ _ hmid hlength hafter
            rw [hai, ha] at hkey
            exact lt_irrefl k (lt_trans hgreater hkey)
          · subst hsame
            rw [hai, ha] at hgreater
            exact lt_irrefl k hgreater
        simp only [hget, Option.any_some, hgreater, decide_true, if_true]
        exact ih (size - size / 2) base (by omega) (by omega) hbase (by omega)
      · -- The keys before the middle are less.
        have hge : base + size / 2 ≤ i := by
          by_contra hlt
          have hkey := List.pairwise_iff_getElem.mp hl _ _ hlength hmid (Nat.not_le.mp hlt)
          rw [hai, ha] at hkey
          exact hgreater hkey
        simp only [hget, Option.any_some, hgreater, decide_false, Bool.false_eq_true, if_false]
        exact ih (size - size / 2) (base + size / 2) (by omega) (by omega) hge (by omega)

theorem search_eq_find? {l : List α} (hl : l.Pairwise (fun a b => key a < key b)) (k : κ) :
    search key l k = l.find? (fun a => key a = k) := by
  cases hfound : l.find? (fun a => key a = k) with
  | none =>
    cases hsearch : search key l k with
    | none => rfl
    | some a =>
      obtain ⟨hmem, hkey⟩ := search_eq_some key hsearch
      exact absurd hkey (by simpa using List.find?_eq_none.mp hfound a hmem)
  | some a =>
    have hkey : key a = k := by simpa using List.find?_some hfound
    obtain ⟨i, hi⟩ := List.mem_iff_getElem?.mp (List.mem_of_find?_eq_some hfound)
    have hlength : i < l.length := (List.getElem?_eq_some_iff.mp hi).1
    unfold search
    rw [narrow_eq key hl hi hkey l.length l.length 0 (Nat.le_refl _) (by omega) (Nat.zero_le i) (by omega), hi]
    simp [hkey]

end BinarySearch
