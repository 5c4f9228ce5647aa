import Mathlib.Order.Lattice
import Mathlib.Data.List.Basic

/-!
# Watermarks

A watermark is the newest value taken so far. A value passes if it is above the mark, and then becomes the
mark. Values that come in increasing order all pass; one that is not above every value checked before it does
not.
-/

namespace Watermark

variable {α β : Type*} [LinearOrder α] {stamp : β → α} {mark : Option α}

def passes (mark : Option α) (a : α) : Bool := !mark.any (a ≤ ·)

def after (mark : Option α) (a : α) : Option α := if passes mark a then some a else mark

/-- A list of things checked by their stamps, one after another, each with its verdict. -/
def Checks (stamp : β → α) : Option α → List (β × Bool) → Prop
  | _, [] => True
  | mark, x :: rest => x.2 = passes mark (stamp x.1) ∧ Checks stamp (after mark (stamp x.1)) rest

theorem passes_some {a b : α} : passes (some b) a ↔ b < a := by
  simp [passes]

theorem le_after (mark : Option α) (a : α) : ∃ b, after mark a = some b ∧ a ≤ b := by
  unfold after
  split_ifs with hpass
  · exact ⟨a, rfl, le_rfl⟩
  · cases mark with
    | none => simp [passes] at hpass
    | some b =>
      rw [passes_some, not_lt] at hpass
      exact ⟨b, rfl, hpass⟩

theorem after_mono {a b : α} (hmark : ∃ c, mark = some c ∧ a ≤ c) : ∃ c, after mark b = some c ∧ a ≤ c := by
  obtain ⟨c, rfl, hle⟩ := hmark
  unfold after
  split_ifs with hpass
  · exact ⟨b, rfl, hle.trans (passes_some.mp hpass).le⟩
  · exact ⟨c, rfl, hle⟩

theorem Checks.all_pass {l : List (β × Bool)} (h : Checks stamp mark l)
    (hmark : ∀ x ∈ l, passes mark (stamp x.1)) (hinc : l.Pairwise fun x y => stamp x.1 < stamp y.1) :
    ∀ x ∈ l, x.2 := by
  induction l generalizing mark with
  | nil => exact fun x hx => (nomatch hx)
  | cons x rest ih =>
    obtain ⟨hverdict, hrest⟩ := h
    obtain ⟨hbelow, hinc⟩ := List.pairwise_cons.mp hinc
    have hpass := hmark x List.mem_cons_self
    have hafter : after mark (stamp x.1) = some (stamp x.1) := if_pos hpass
    rw [hafter] at hrest
    intro y hy
    rcases List.mem_cons.mp hy with rfl | hy
    · exact hverdict.trans hpass
    · exact ih hrest (fun z hz => passes_some.mpr (hbelow z hz)) hinc y hy

theorem Checks.refuses {l post : List (β × Bool)} {x y : β × Bool} (h : Checks stamp mark (l ++ y :: post))
    (hx : x ∈ l) (hle : stamp y.1 ≤ stamp x.1) : y.2 = false := by
  -- Once `x` was checked, the mark stays at its stamp or above.
  have hhigh {l : List (β × Bool)} {mark : Option α} (h : Checks stamp mark (l ++ y :: post))
      (hmark : ∃ c, mark = some c ∧ stamp y.1 ≤ c) : y.2 = false := by
    induction l generalizing mark with
    | nil =>
      obtain ⟨c, rfl, hc⟩ := hmark
      rw [h.1]
      simp [passes, hc]
    | cons z rest ih => exact ih h.2 (after_mono hmark)
  induction l generalizing mark with
  | nil => cases hx
  | cons z rest ih =>
    rcases List.mem_cons.mp hx with rfl | hx
    · obtain ⟨b, hb, hxb⟩ := le_after mark (stamp x.1)
      exact hhigh h.2 ⟨b, hb, hle.trans hxb⟩
    · exact ih h.2 hx

end Watermark
