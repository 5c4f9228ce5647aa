import Mathlib.Order.Lattice
import Mathlib.Data.List.Pairwise

/-!
# A persisted high-water mark

Numbers are handed out in increasing order. A mark kept above them is persisted only
when a number passes it, and then moved ahead by a stride; a process that starts
again resumes the same stride above the persisted mark. Meanwhile the mark may be
persisted at other times, or read back.
-/

/-- The number handed out last, the mark in memory, and the persisted one. -/
structure HighWaterMark where
  gen : Nat
  mark : Nat
  durable : Nat
deriving DecidableEq, Repr

namespace HighWaterMark

variable (stride : Nat)

def commit (s : HighWaterMark) : HighWaterMark := { s with durable := s.mark }

def reload (s : HighWaterMark) : HighWaterMark := { s with mark := s.durable }

/-- Hand out `g`; `saved` says whether persisting the mark succeeds, should it be due. -/
def mint (s : HighWaterMark) (g : Nat) (saved : Bool) : HighWaterMark :=
  if s.mark ≤ g then ⟨g, g + stride, if saved then g + stride else s.durable⟩ else { s with gen := g }

def restart (s : HighWaterMark) (g : Nat) : HighWaterMark := ⟨g, s.durable, s.durable⟩

def Books (s s' : HighWaterMark) : Prop := s' = s ∨ s' = s.commit ∨ s' = s.reload

variable {stride} {s s' : HighWaterMark} {g : Nat} {saved : Bool}

theorem mint_of_le (h : s.mark ≤ g) :
    s.mint stride g saved = ⟨g, g + stride, if saved then g + stride else s.durable⟩ := if_pos h

theorem mint_of_lt (h : g < s.mark) : s.mint stride g saved = { s with gen := g } :=
  if_neg (not_le.mpr h)

/-- What was handed out is below what a restart resumes at exactly when the mark was
passed and persisted, or the persisted one still covers it. -/
theorem mint_covered_iff (hstride : 0 < stride) :
    g < (s.mint stride g saved).durable + stride ↔
      s.mark ≤ g ∧ saved ∨ g < s.durable + stride := by
  unfold mint
  by_cases hmark : s.mark ≤ g
  · cases saved
    · simp [hmark]
    · simp only [hmark, if_true, true_and, true_or, iff_true]
      omega
  · simp [hmark]

/-- The numbers of a history, latest first: each is the largest so far, and covered by
the persisted mark, which memory agrees with. -/
structure Covers (s : HighWaterMark) (log : List Nat) : Prop where
  agree : s.mark = s.durable
  below : ∀ g ∈ log, g ≤ s.gen ∧ g < s.durable
  increasing : log.Pairwise (· > ·)

variable {log : List Nat}

theorem Covers.books (h : s.Covers log) (hb : s.Books s') : s'.Covers log := by
  rcases hb with rfl | rfl | rfl
  · exact h
  · refine ⟨rfl, fun g hg => ?_, h.increasing⟩
    rw [commit, h.agree]
    exact h.below g hg
  · exact ⟨rfl, h.below, h.increasing⟩

theorem Covers.mint (hstride : 0 < stride) (h : s.Covers log) (hg : s.gen < g) :
    (s.mint stride g true).Covers (g :: log) := by
  have hlater (b : Nat) (hb : b ∈ log) : b < g := lt_of_le_of_lt (h.below b hb).1 hg
  rcases le_or_gt s.mark g with hmark | hmark
  · rw [mint_of_le hmark]
    refine ⟨rfl, fun b hb => ?_, List.pairwise_cons.mpr ⟨hlater, h.increasing⟩⟩
    rcases List.mem_cons.mp hb with rfl | hb
    · exact ⟨le_rfl, Nat.lt_add_of_pos_right hstride⟩
    · exact ⟨(hlater b hb).le, (hlater b hb).trans (Nat.lt_add_of_pos_right hstride)⟩
  · rw [mint_of_lt hmark]
    refine ⟨h.agree, fun b hb => ?_, List.pairwise_cons.mpr ⟨hlater, h.increasing⟩⟩
    rcases List.mem_cons.mp hb with rfl | hb
    · exact ⟨le_rfl, h.agree ▸ hmark⟩
    · exact ⟨(hlater b hb).le, (h.below b hb).2⟩

theorem Covers.durable_le (h : s.Covers log) (g : Nat) (saved : Bool) :
    s.durable ≤ (s.mint stride g saved).durable := by
  rcases le_or_gt s.mark g with hmark | hmark
  · rw [mint_of_le hmark, ← h.agree]
    cases saved with
    | true => exact hmark.trans (Nat.le_add_right g stride)
    | false => exact le_rfl
  · rw [mint_of_lt hmark]

theorem Covers.restart (h : s.Covers log) (hle : s.durable ≤ s'.durable)
    (hg : s'.durable + stride ≤ g) : (s'.restart g).Covers log := by
  refine ⟨rfl, fun b hb => ?_, h.increasing⟩
  have hb : b < s'.durable := lt_of_lt_of_le (h.below b hb).2 hle
  exact ⟨hb.le.trans ((Nat.le_add_right _ stride).trans hg), hb⟩

end HighWaterMark
