import Mathlib.Data.List.DropRight
import Mathlib.Tactic.IntervalCases

/-!
# Scanning text

Text as its characters: numbers in a radix up to sixteen, read back from the digits they are
printed with; splitting at a character, trimming, and the lines of a text.
-/

namespace TextScan

open List

/-! ### Numbers -/

def toDigit (radix : Nat) (c : Char) : Option Nat :=
  let d :=
    if '0' ≤ c ∧ c ≤ '9' then c.toNat - '0'.toNat
    else if 'a' ≤ c ∧ c ≤ 'z' then c.toNat - 'a'.toNat + 10
    else if 'A' ≤ c ∧ c ≤ 'Z' then c.toNat - 'A'.toNat + 10
    else radix
  if d < radix then some d else none

def isDigit (radix : Nat) (c : Char) : Bool := (toDigit radix c).isSome

def valueOf (radix : Nat) (cs : List Char) : Nat :=
  cs.foldl (fun n c => n * radix + (toDigit radix c).getD 0) 0

/-- Reads all the digits the text starts with, as a number below `bound`. -/
def readNumber (radix maxDigits : Nat) (allowZeroPrefix : Bool) (bound : Nat) (s : List Char) :
    Option (Nat × List Char) :=
  let digits := s.takeWhile (isDigit radix)
  if digits = [] ∨ maxDigits < digits.length then none
  else if allowZeroPrefix = false ∧ digits.head? = some '0' ∧ 1 < digits.length then none
  else if valueOf radix digits < bound then
    some (valueOf radix digits, s.dropWhile (isDigit radix))
  else none

variable {radix n : Nat}

theorem toDigit_digitChar {d : Nat} (hr : radix ≤ 16) (hd : d < radix) :
    toDigit radix (Nat.digitChar d) = some d := by
  have hlt : d < 16 := by omega
  interval_cases d <;> simp [toDigit, Nat.digitChar, hd]

theorem valueOf_concat (cs : List Char) (c : Char) :
    valueOf radix (cs ++ [c]) = valueOf radix cs * radix + (toDigit radix c).getD 0 := by
  simp [valueOf, foldl_append]

theorem isDigit_of_mem_toDigits (hr : 1 < radix) (hr' : radix ≤ 16) {c : Char}
    (hc : c ∈ Nat.toDigits radix n) : isDigit radix c := by
  induction n using Nat.strong_induction_on with
  | _ n ih =>
    by_cases hn : n < radix
    · rw [Nat.toDigits_of_lt_base hn, mem_singleton] at hc
      rw [hc, isDigit, toDigit_digitChar hr' hn]
      rfl
    · rw [Nat.toDigits_of_base_le hr (by omega), mem_append, mem_singleton] at hc
      rcases hc with hc | hc
      · exact ih (n / radix) (Nat.div_lt_self (by omega) hr) hc
      · rw [hc, isDigit, toDigit_digitChar hr' (Nat.mod_lt n (by omega))]
        rfl

theorem valueOf_toDigits (hr : 1 < radix) (hr' : radix ≤ 16) :
    valueOf radix (Nat.toDigits radix n) = n := by
  induction n using Nat.strong_induction_on with
  | _ n ih =>
    by_cases hn : n < radix
    · rw [Nat.toDigits_of_lt_base hn]
      simp [valueOf, toDigit_digitChar hr' hn]
    · rw [Nat.toDigits_of_base_le hr (by omega), valueOf_concat,
        ih (n / radix) (Nat.div_lt_self (by omega) hr),
        toDigit_digitChar hr' (Nat.mod_lt n (by omega))]
      exact Nat.div_add_mod' n radix

theorem head?_toDigits_ne (hr : 1 < radix) (hr' : radix ≤ 16) (hn : n ≠ 0) :
    (Nat.toDigits radix n).head? ≠ some '0' := by
  induction n using Nat.strong_induction_on with
  | _ n ih =>
    by_cases hlt : n < radix
    · rw [Nat.toDigits_of_lt_base hlt]
      intro h
      have hd := toDigit_digitChar hr' hlt
      rw [head?_cons, Option.some.injEq] at h
      rw [h] at hd
      simp [toDigit] at hd
      omega
    · rw [Nat.toDigits_of_base_le hr (by omega), head?_append_of_ne_nil _ Nat.toDigits_ne_nil]
      refine ih (n / radix) (Nat.div_lt_self (by omega) hr) ?_
      exact (Nat.div_pos (by omega) (by omega)).ne'

variable {a rest s : List Char} {bound maxDigits : Nat} {allowZeroPrefix : Bool} {sep : Char}
  {ls : List (List Char)}

theorem takeWhile_toDigits_append (hr : 1 < radix) (hr' : radix ≤ 16)
    (hrest : ∀ c, rest.head? = some c → isDigit radix c = false) :
    (Nat.toDigits radix n ++ rest).takeWhile (isDigit radix) = Nat.toDigits radix n ∧
      (Nat.toDigits radix n ++ rest).dropWhile (isDigit radix) = rest := by
  have hall : ∀ c ∈ Nat.toDigits radix n, isDigit radix c := fun c hc =>
    isDigit_of_mem_toDigits hr hr' hc
  rw [takeWhile_append_of_pos hall, dropWhile_append_of_pos hall]
  cases rest with
  | nil => simp
  | cons c rest => simp [hrest c rfl]

theorem readNumber_toDigits (hr : 1 < radix) (hr' : radix ≤ 16) (hn : n < bound) (hmax : n < radix ^ maxDigits)
    (hpos : 0 < maxDigits) (hrest : ∀ c, rest.head? = some c → isDigit radix c = false) :
    readNumber radix maxDigits allowZeroPrefix bound (Nat.toDigits radix n ++ rest) =
      some (n, rest) := by
  obtain ⟨htake, hdrop⟩ := takeWhile_toDigits_append (n := n) hr hr' hrest
  have hlen : (Nat.toDigits radix n).length ≤ maxDigits :=
    (Nat.length_toDigits_le_iff hr hpos).mpr hmax
  have hzero : ¬((Nat.toDigits radix n).head? = some '0' ∧ 1 < (Nat.toDigits radix n).length) := by
    rintro ⟨hhead, hlong⟩
    by_cases h0 : n = 0
    · rw [h0, Nat.toDigits_zero] at hlong
      simp at hlong
    · exact head?_toDigits_ne hr hr' h0 hhead
  simp only [readNumber, htake, hdrop, valueOf_toDigits hr hr', Nat.toDigits_ne_nil, false_or,
    if_pos hn]
  rw [if_neg (by omega), if_neg fun h => hzero h.2]

theorem readNumber_eq_none (hs : ∀ c, s.head? = some c → isDigit radix c = false) :
    readNumber radix maxDigits allowZeroPrefix bound s = none := by
  have htake : s.takeWhile (isDigit radix) = [] := by
    cases s with
    | nil => rfl
    | cons c s => simp [hs c rfl]
  simp [readNumber, htake]

/-! ### Pieces of a text -/

/-- The text before the first `sep`, and the text after it. -/
def splitOnce (sep : Char) : List Char → Option (List Char × List Char)
  | [] => none
  | c :: cs => if c = sep then some ([], cs) else (splitOnce sep cs).map fun p => (c :: p.1, p.2)

theorem splitOnce_append {b : List Char} (ha : sep ∉ a) :
    splitOnce sep (a ++ sep :: b) = some (a, b) := by
  induction a with
  | nil => simp [splitOnce]
  | cons c a ih =>
    rw [mem_cons, not_or] at ha
    rw [cons_append, splitOnce, if_neg (Ne.symm ha.1), ih ha.2]
    rfl

theorem splitOnce_eq_none (ha : sep ∉ a) : splitOnce sep a = none := by
  induction a with
  | nil => rfl
  | cons c a ih =>
    rw [mem_cons, not_or] at ha
    rw [splitOnce, if_neg (Ne.symm ha.1), ih ha.2]
    rfl

/-- Unicode `White_Space`. -/
def isWhitespace (c : Char) : Bool :=
  let n := c.toNat
  (9 ≤ n && n ≤ 13) || n == 0x20 || n == 0x85 || n == 0xa0 || n == 0x1680 ||
    (0x2000 ≤ n && n ≤ 0x200a) || n == 0x2028 || n == 0x2029 || n == 0x202f || n == 0x205f ||
    n == 0x3000

def trim (s : List Char) : List Char := (s.dropWhile isWhitespace).rdropWhile isWhitespace

theorem trim_eq_self (hhead : ∀ c, s.head? = some c → isWhitespace c = false)
    (hlast : ∀ c, s.getLast? = some c → isWhitespace c = false) : trim s = s := by
  have hdrop : s.dropWhile isWhitespace = s := by
    cases s with
    | nil => rfl
    | cons c s => simp [hhead c rfl]
  rw [trim, hdrop, rdropWhile_eq_self_iff]
  intro hne
  rw [hlast _ (getLast?_eq_some_getLast hne)]
  exact Bool.false_ne_true

def stripReturn (line : List Char) : List Char :=
  if line.getLast? = some '\r' then line.dropLast else line

def lines (text : List Char) : List (List Char) :=
  let parts := text.splitOn '\n'
  (if parts.getLast? = some [] then parts.dropLast else parts).map stripReturn

theorem splitOn_flatMap (hls : ∀ l ∈ ls, '\n' ∉ l) :
    (ls.flatMap (· ++ ['\n'])).splitOn '\n' = ls ++ [[]] := by
  induction ls with
  | nil => rfl
  | cons l ls ih =>
    obtain ⟨hl, hls⟩ := forall_mem_cons.mp hls
    rw [flatMap_cons, append_assoc, singleton_append, splitOn_append_cons_self_of_not_mem hl, ih hls]
    rfl

theorem lines_flatMap (hls : ∀ l ∈ ls, '\n' ∉ l ∧ '\r' ∉ l) :
    lines (ls.flatMap (· ++ ['\n'])) = ls := by
  rw [lines, splitOn_flatMap fun l hl => (hls l hl).1]
  simp only [getLast?_append, getLast?_singleton, Option.some_or, if_true,
    dropLast_concat]
  rw [map_congr_left (g := id), map_id]
  intro l hl
  rw [stripReturn, if_neg fun h => (hls l hl).2 (mem_of_getLast? h), id]

end TextScan
