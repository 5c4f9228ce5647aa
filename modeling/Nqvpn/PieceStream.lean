import Mathlib.Data.List.Basic

/-!
# Streams that arrive in pieces

A stream is the list of its pieces. A reader that takes an exact number of elements, from as many
pieces as it needs, does not depend on where the stream was cut.
-/

namespace PieceStream

open List

variable {α : Type}

/-- Reads on, each time at most what is missing, until `n` elements have come. -/
def readExact (n : Nat) : List (List α) → Option (List α × List (List α))
  | [] => if n = 0 then some ([], []) else none
  | piece :: s =>
    if n ≤ piece.length then some (piece.take n, piece.drop n :: s)
    else (readExact (n - piece.length) s).map fun (rest, s) => (piece ++ rest, s)

theorem readExact_append {s : List (List α)} {xs ys : List α} (h : s.flatten = xs ++ ys) :
    ∃ s', readExact xs.length s = some (xs, s') ∧ s'.flatten = ys := by
  induction s generalizing xs with
  | nil =>
    obtain ⟨rfl, rfl⟩ := append_eq_nil_iff.mp h.symm
    exact ⟨[], rfl, rfl⟩
  | cons piece s ih =>
    rw [flatten_cons] at h
    rw [readExact]
    split_ifs with hle
    · refine ⟨piece.drop xs.length :: s, ?_, ?_⟩
      · rw [← take_append_of_le_length hle, h, take_left]
      · rw [flatten_cons, ← drop_append_of_le_length hle, h, drop_left]
    · rcases append_eq_append_iff.mp h with ⟨zs, rfl, hrest⟩ | ⟨zs, rfl, -⟩
      · obtain ⟨s', hread, hs'⟩ := ih hrest
        exact ⟨s', by simp [hread], hs'⟩
      · simp at hle

end PieceStream
