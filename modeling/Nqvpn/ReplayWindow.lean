import Mathlib.Data.Set.Insert
import Mathlib.Tactic.SplitIfs

/-!
# Sliding replay windows

A receiver of numbered messages remembers which of the last `w` numbers it has
taken, in a ring of `w` bits indexed by the number modulo `w`. `Tracks` says that
a window stands for a set of taken numbers; `check` never passes a number of that
set, and `commit` adds one to it.
-/

structure ReplayWindow (w : Nat) where
  highest : Nat
  bits : BitVec w
  seenAny : Bool
deriving DecidableEq, Repr

namespace ReplayWindow

variable {w : Nat}

def default : ReplayWindow w := ⟨0, 0#w, false⟩

def bit (r : ReplayWindow w) (ctr : Nat) : Bool := r.bits.getLsbD (ctr % w)

def setBit (bits : BitVec w) (ctr : Nat) : BitVec w := bits ||| BitVec.twoPow w (ctr % w)

def clearBit (bits : BitVec w) (ctr : Nat) : BitVec w := bits &&& ~~~BitVec.twoPow w (ctr % w)

/-- Would `ctr` be accepted right now? -/
def check (r : ReplayWindow w) (ctr : Nat) : Bool :=
  if !r.seenAny || r.highest < ctr then true
  -- Too old to judge: refuse.
  else if w ≤ r.highest - ctr then false
  else !r.bit ctr

/-- Record `ctr` as seen; only after `check` passed it. -/
def commit (r : ReplayWindow w) (ctr : Nat) : ReplayWindow w :=
  if !r.seenAny then ⟨ctr, setBit 0#w ctr, true⟩
  else if r.highest < ctr then
    if w ≤ ctr - r.highest then ⟨ctr, setBit 0#w ctr, true⟩
    else
      -- The slots the window slides over are cleared first.
      let slid := (List.range' (r.highest + 1) (ctr - r.highest)).foldl clearBit r.bits
      ⟨ctr, setBit slid ctr, true⟩
  else { r with bits := setBit r.bits ctr }

def accept (r : ReplayWindow w) (ctr : Nat) : ReplayWindow w × Bool :=
  if r.check ctr then (r.commit ctr, true) else (r, false)

/-- The window stands for the set `taken`: it knows the highest number, and for
each number still inside the window whether it was taken. -/
structure Tracks (r : ReplayWindow w) (taken : Set Nat) : Prop where
  unseen : r.seenAny = false → taken = ∅
  le_highest : r.seenAny = true → ∀ c ∈ taken, c ≤ r.highest
  bit_iff : r.seenAny = true → ∀ c ≤ r.highest, r.highest - c < w → (r.bit c = true ↔ c ∈ taken)

theorem getLsbD_setBit (hw : 0 < w) (bits : BitVec w) (ctr c : Nat) :
    (setBit bits ctr).getLsbD (c % w) = (bits.getLsbD (c % w) || decide (ctr % w = c % w)) := by
  have hc : c % w < w := Nat.mod_lt c hw
  have hctr : ctr % w < w := Nat.mod_lt ctr hw
  simp only [setBit, BitVec.getLsbD_or, BitVec.getLsbD_twoPow]
  by_cases h : ctr % w = c % w
  · simp [h, hc]
  · simp [h]

theorem getLsbD_clearBit (hw : 0 < w) (bits : BitVec w) (ctr c : Nat) :
    (clearBit bits ctr).getLsbD (c % w) = (bits.getLsbD (c % w) && !decide (ctr % w = c % w)) := by
  have hc : c % w < w := Nat.mod_lt c hw
  simp only [clearBit, BitVec.getLsbD_and, BitVec.getLsbD_not, BitVec.getLsbD_twoPow]
  by_cases h : ctr % w = c % w
  · simp [h, hc]
  · simp [h, hc]

theorem getLsbD_foldl_clearBit (hw : 0 < w) (cs : List Nat) (bits : BitVec w) (c : Nat) :
    (cs.foldl clearBit bits).getLsbD (c % w) =
      (bits.getLsbD (c % w) && !cs.any (fun k => k % w = c % w)) := by
  induction cs generalizing bits with
  | nil => simp
  | cons k cs ih =>
    rw [List.foldl_cons, ih, getLsbD_clearBit hw, List.any_cons, Bool.not_or, Bool.and_assoc]

variable {a b ctr n : Nat} {taken : Set Nat}

theorem slot_ne (hlt : a < b) (hw : b - a < w) : a % w ≠ b % w := by
  intro h
  have hzero : (b - a) % w = 0 := Nat.sub_mod_eq_zero_of_mod_eq h.symm
  rw [Nat.mod_eq_of_lt hw] at hzero
  omega

theorem slot_eq (ha : a ≤ n) (hb : b ≤ n) (haw : n - a < w) (hbw : n - b < w) (h : a % w = b % w) : a = b := by
  rcases Nat.lt_trichotomy a b with hlt | heq | hlt
  · exact absurd h (slot_ne hlt (by omega))
  · exact heq
  · exact absurd h.symm (slot_ne hlt (by omega))

theorem tracks_default : (default : ReplayWindow w).Tracks ∅ :=
  ⟨fun _ => rfl, fun h => (nomatch h), fun h => (nomatch h)⟩

variable {r : ReplayWindow w}

theorem Tracks.check_iff (h : r.Tracks taken) (ctr : Nat) :
    r.check ctr ↔
      ctr ∉ taken ∧ (r.seenAny → r.highest < ctr ∨ r.highest - ctr < w) := by
  unfold check
  cases hs : r.seenAny with
  | false => simp [h.unseen hs]
  | true =>
    by_cases hnew : r.highest < ctr
    · have hnot : ctr ∉ taken := fun hmem => Nat.not_lt.mpr (h.le_highest hs ctr hmem) hnew
      simp [hnew, hnot]
    · by_cases hold : w ≤ r.highest - ctr
      · simp [hnew, hold]
      · have hbit := h.bit_iff hs ctr (Nat.not_lt.mp hnew) (Nat.not_le.mp hold)
        simp [hnew, hold, Nat.not_le.mp hold, ← hbit]

theorem Tracks.not_mem_of_check (h : r.Tracks taken) (hc : r.check ctr) : ctr ∉ taken :=
  ((h.check_iff ctr).mp hc).1

theorem tracks_single (hw : 0 < w) (hlow : ∀ c ∈ taken, c ≤ ctr ∧ w ≤ ctr - c) :
    (⟨ctr, setBit 0#w ctr, true⟩ : ReplayWindow w).Tracks (insert ctr taken) where
  unseen h := by cases h
  le_highest _ c hc := by
    rcases Set.mem_insert_iff.mp hc with rfl | hc
    · exact le_rfl
    · exact (hlow c hc).1
  bit_iff _ c hle hin := by
    change ctr - c < w at hin
    rw [bit, getLsbD_setBit hw, BitVec.getLsbD_zero, Bool.false_or, decide_eq_true_iff,
      Set.mem_insert_iff]
    constructor
    · intro heq
      exact .inl (slot_eq le_rfl hle (by omega) hin heq).symm
    · rintro (rfl | hmem)
      · rfl
      · exact absurd (hlow c hmem).2 (by omega)

theorem Tracks.commit (hw : 0 < w) (h : r.Tracks taken) (hc : r.check ctr) : (r.commit ctr).Tracks (insert ctr taken) := by
  unfold ReplayWindow.commit
  cases hs : r.seenAny with
  | false =>
    rw [h.unseen hs]
    exact tracks_single hw (by simp)
  | true =>
    simp only [Bool.not_true, Bool.false_eq_true, if_false]
    split_ifs with hnew hfar
    · -- The window jumps past everything it knew.
      refine tracks_single hw fun c hmem => ?_
      have := h.le_highest hs c hmem
      omega
    · refine ⟨fun he => (nomatch he), fun _ c hmem => ?_, fun _ c hle hin => ?_⟩
      · rcases Set.mem_insert_iff.mp hmem with rfl | hmem
        · exact le_rfl
        · exact (h.le_highest hs c hmem).trans hnew.le
      · change c ≤ ctr at hle
        change ctr - c < w at hin
        simp only [bit]
        rw [getLsbD_setBit hw, getLsbD_foldl_clearBit hw, Set.mem_insert_iff]
        by_cases heq : c = ctr
        · simp [heq]
        have hslot : ctr % w ≠ c % w := fun he => heq (slot_eq le_rfl hle (by omega) hin he).symm
        by_cases hslid : r.highest < c
        · -- A slot the window slid over: cleared, and the number is new.
          have hany : (List.range' (r.highest + 1) (ctr - r.highest)).any
              (fun k => k % w = c % w) := by
            rw [List.any_eq_true]
            exact ⟨c, List.mem_range'_1.mpr (by omega), by simp⟩
          have hnot : c ∉ taken := fun hmem => by
            have := h.le_highest hs c hmem
            omega
          simp [hany, hslot, heq, hnot]
        · have hany : (List.range' (r.highest + 1) (ctr - r.highest)).any
              (fun k => k % w = c % w) = false := by
            rw [List.any_eq_false]
            intro k hk
            have hk' := List.mem_range'_1.mp hk
            rw [decide_eq_true_iff]
            exact (slot_ne (show c < k by omega) (by omega)).symm
          have hkept := h.bit_iff hs c (by omega) (by omega)
          simp only [bit] at hkept
          simp [hany, hslot, heq, hkept]
    · -- A late number inside the window.
      simp only [check, hs, hnew, Bool.not_true, decide_false, Bool.or_self, Bool.false_eq_true,
        if_false] at hc
      split_ifs at hc with hold
      refine ⟨fun he => (nomatch he), fun _ c hmem => ?_, fun _ c hle hin => ?_⟩
      · rcases Set.mem_insert_iff.mp hmem with rfl | hmem
        · exact Nat.not_lt.mp hnew
        · exact h.le_highest hs c hmem
      · change r.highest - c < w at hin
        have hkept := h.bit_iff hs c hle hin
        simp only [bit] at hkept ⊢
        rw [getLsbD_setBit hw, Bool.or_eq_true, hkept, decide_eq_true_iff, Set.mem_insert_iff,
          or_comm]
        refine or_congr_left ⟨fun heq => ?_, fun heq => by rw [heq]⟩
        exact (slot_eq (Nat.not_lt.mp hnew) hle (by omega) hin heq).symm

def Tops (r : ReplayWindow w) (taken : Set Nat) : Prop := r.seenAny = true → r.highest ∈ taken

theorem tops_default : (default : ReplayWindow w).Tops ∅ := fun h => (nomatch h)

theorem Tops.commit (h : r.Tops taken) (ctr : Nat) :
    (r.commit ctr).Tops (insert ctr taken) := by
  intro _
  unfold ReplayWindow.commit
  cases hs : r.seenAny with
  | false => exact Set.mem_insert ctr taken
  | true =>
    simp only [Bool.not_true, Bool.false_eq_true, if_false]
    split_ifs
    · exact Set.mem_insert ctr taken
    · exact Set.mem_insert ctr taken
    · exact Set.mem_insert_of_mem ctr (h hs)

/-! ### Numbers that come in order -/

/-- Every number from `n` on is new. -/
def Open (r : ReplayWindow w) (n : Nat) : Prop := r.seenAny = true → r.highest < n

theorem open_default (n : Nat) : (default : ReplayWindow w).Open n := fun h => (nomatch h)

theorem Open.check (h : r.Open n) (hle : n ≤ ctr) :
    r.check ctr := by
  unfold ReplayWindow.check
  cases hs : r.seenAny with
  | false => rfl
  | true =>
    have hlt : r.highest < ctr := (h hs).trans_le hle
    simp [hlt]

theorem Open.commit (h : r.Open n) (hle : n ≤ ctr) :
    (r.commit ctr).Open (ctr + 1) := by
  intro _
  unfold ReplayWindow.commit
  cases hs : r.seenAny with
  | false => exact Nat.lt_succ_self ctr
  | true =>
    have hlt : r.highest < ctr := (h hs).trans_le hle
    simp only [Bool.not_true, Bool.false_eq_true, if_false, if_pos hlt]
    split_ifs
    · exact Nat.lt_succ_self ctr
    · exact Nat.lt_succ_self ctr

end ReplayWindow
