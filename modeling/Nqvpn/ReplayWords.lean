import Nqvpn.SessionLedger
import Mathlib.Data.Set.Insert

/-!
# The replay window in machine words

The window is a ring of 2048 bits in 32 words, and counters are 64-bit. `Stands` relates it to the
window over natural numbers that the sessions are modelled with; the two decide alike and stay
related. Over every sequence of counters it accepts what the set of counters accepted so far admits.
-/

namespace Nqvpn

def windowWords : Nat := replayWindow / 64

structure ReplayWords where
  highest : UInt64
  bits : Vector UInt64 windowWords
  seenAny : Bool

namespace ReplayWords

def default : ReplayWords := ⟨0, Vector.replicate windowWords 0, false⟩

variable (r : ReplayWords) (ctr : UInt64)

def slot : Fin replayWindow :=
  ⟨(ctr % UInt64.ofNat replayWindow).toNat, by
    rw [UInt64.toNat_mod]
    exact Nat.mod_lt _ (by decide)⟩

def word (idx : Fin replayWindow) : Fin windowWords :=
  ⟨idx / 64, Nat.div_lt_of_lt_mul idx.isLt⟩

def mask (idx : Fin replayWindow) : UInt64 := 1 <<< UInt64.ofNat (idx % 64)

def bit (r : ReplayWords) (ctr : UInt64) : Bool := r.bits.get (word (slot ctr)) &&& mask (slot ctr) != 0

def setBit (bits : Vector UInt64 windowWords) (ctr : UInt64) : Vector UInt64 windowWords :=
  bits.set (word (slot ctr)) (bits.get (word (slot ctr)) ||| mask (slot ctr))

def clearBit (bits : Vector UInt64 windowWords) (ctr : UInt64) : Vector UInt64 windowWords :=
  bits.set (word (slot ctr)) (bits.get (word (slot ctr)) &&& ~~~mask (slot ctr))

/-- The counters `highest + 1 ..= ctr`. -/
def slidOver (highest ctr : UInt64) : List UInt64 :=
  (List.range' (highest.toNat + 1) (ctr.toNat - highest.toNat)).map UInt64.ofNat

def check : Bool :=
  if !r.seenAny || r.highest < ctr then true
  else if UInt64.ofNat replayWindow ≤ r.highest - ctr then false
  else !r.bit ctr

def commit : ReplayWords :=
  let zeros := Vector.replicate windowWords 0
  if !r.seenAny then ⟨ctr, setBit zeros ctr, true⟩
  else if r.highest < ctr then
    let advance := ctr - r.highest
    let slid := if UInt64.ofNat replayWindow ≤ advance then zeros
      else (slidOver r.highest ctr).foldl clearBit r.bits
    ⟨ctr, setBit slid ctr, true⟩
  else { r with bits := setBit r.bits ctr }

/-! ### Slots -/

def lit (bits : Vector UInt64 windowWords) (i : Fin replayWindow) : Bool :=
  (bits.get (word i)).toBitVec.getLsbD (i % 64)

theorem slot_val : (slot ctr).val = ctr.toNat % replayWindow := UInt64.toNat_mod _ _

theorem toBitVec_mask (i : Fin replayWindow) : (mask i).toBitVec = BitVec.twoPow 64 (i % 64) := by
  have hlt : i.val % 64 < 64 := Nat.mod_lt _ (by decide)
  have hoffset : (BitVec.ofNat 64 (i % 64) % 64#64).toNat = i.val % 64 := by
    rw [BitVec.toNat_umod, BitVec.toNat_ofNat, BitVec.toNat_ofNat, Nat.mod_eq_of_lt (hlt.trans (by decide))]
    exact Nat.mod_eq_of_lt hlt
  calc (mask i).toBitVec = 1#64 <<< (BitVec.ofNat 64 (i % 64) % 64#64) := UInt64.toBitVec_shiftLeft _ _
    _ = 1#64 <<< (i.val % 64) := by rw [BitVec.shiftLeft_eq', hoffset]
    _ = BitVec.twoPow 64 (i % 64) := (BitVec.twoPow_eq 64 _).symm

theorem offset_eq_iff {i j : Fin replayWindow} (h : word i = word j) : i.val % 64 = j.val % 64 ↔ i = j := by
  have hword : i.val / 64 = j.val / 64 := congrArg Fin.val h
  omega

theorem bit_eq_lit : r.bit ctr = lit r.bits (slot ctr) := by
  have hoffset : (slot ctr).val % 64 < 64 := Nat.mod_lt _ (by decide)
  have hmask : BitVec.twoPow 64 ((slot ctr).val % 64) ≠ 0#64 := by
    intro hzero
    have hset := congrArg (·.getLsbD ((slot ctr).val % 64)) hzero
    simp [hoffset] at hset
  have hand : (r.bits.get (word (slot ctr)) &&& mask (slot ctr)).toBitVec =
      if lit r.bits (slot ctr) then BitVec.twoPow 64 ((slot ctr).val % 64) else 0#64 := by
    rw [UInt64.toBitVec_and, toBitVec_mask, BitVec.and_twoPow]
    rfl
  rw [bit, Bool.eq_iff_iff, bne_iff_ne, ne_eq, ← UInt64.toBitVec_inj, hand]
  cases lit r.bits (slot ctr)
  · simp
  · simpa using hmask

theorem lit_set (bits : Vector UInt64 windowWords) (i j : Fin replayWindow) (x : UInt64) :
    lit (bits.set (word j) x) i = if word j = word i then x.toBitVec.getLsbD (i % 64) else lit bits i := by
  have hget : (bits.set (word j) x).get (word i) = if word j = word i then x else bits.get (word i) := by
    change (bits.set (word j) x)[(word i).val] = if word j = word i then x else bits[(word i).val]
    simp [Vector.getElem_set, Fin.ext_iff]
  unfold lit
  rw [hget]
  split_ifs <;> rfl

theorem lit_setBit (bits : Vector UInt64 windowWords) (ctr : UInt64) (i : Fin replayWindow) :
    lit (setBit bits ctr) i = (lit bits i || decide (slot ctr = i)) := by
  rw [setBit, lit_set]
  split_ifs with hword
  · have hoffset : (slot ctr).val % 64 < 64 := Nat.mod_lt _ (by decide)
    rw [UInt64.toBitVec_or, toBitVec_mask, BitVec.getLsbD_or, BitVec.getLsbD_twoPow, lit, hword]
    simp [hoffset, offset_eq_iff hword]
  · have hne : slot ctr ≠ i := fun h => hword (congrArg word h)
    simp [hne]

theorem lit_clearBit (bits : Vector UInt64 windowWords) (ctr : UInt64) (i : Fin replayWindow) :
    lit (clearBit bits ctr) i = (lit bits i && !decide (slot ctr = i)) := by
  rw [clearBit, lit_set]
  split_ifs with hword
  · have hoffset : (slot ctr).val % 64 < 64 := Nat.mod_lt _ (by decide)
    have hoffset' : i.val % 64 < 64 := Nat.mod_lt _ (by decide)
    rw [UInt64.toBitVec_and, UInt64.toBitVec_not, toBitVec_mask, BitVec.getLsbD_and, BitVec.getLsbD_not,
      BitVec.getLsbD_twoPow, lit, hword]
    simp [hoffset, hoffset', offset_eq_iff hword]
  · have hne : slot ctr ≠ i := fun h => hword (congrArg word h)
    simp [hne]

theorem lit_foldl_clearBit (ctrs : List UInt64) (bits : Vector UInt64 windowWords) (i : Fin replayWindow) :
    lit (ctrs.foldl clearBit bits) i = (lit bits i && !ctrs.any fun c => slot c = i) := by
  induction ctrs generalizing bits with
  | nil => simp
  | cons c ctrs ih => rw [List.foldl_cons, ih, lit_clearBit, List.any_cons, Bool.not_or, Bool.and_assoc]

/-! ### The window the sessions are modelled with -/

/-- A window over natural numbers for the window in words. -/
structure Stands (r : ReplayWords) (w : ReplayWindow replayWindow) : Prop where
  highest : w.highest = r.highest.toNat
  seenAny : w.seenAny = r.seenAny
  bits : ∀ i : Fin replayWindow, w.bits.getLsbD i = lit r.bits i

theorem lit_zeros (i : Fin replayWindow) : lit (Vector.replicate windowWords 0) i = false := by
  have hget : (Vector.replicate windowWords (0 : UInt64)).get (word i) = 0 := by
    change (Vector.replicate windowWords (0 : UInt64))[(word i).val] = 0
    rw [Vector.getElem_replicate]
  rw [lit, hget]
  exact BitVec.getLsbD_zero

theorem stands_default : default.Stands .default :=
  ⟨rfl, rfl, fun i => BitVec.getLsbD_zero.trans (lit_zeros i).symm⟩

theorem window_le_sub {a b : UInt64} (h : a ≤ b) :
    UInt64.ofNat replayWindow ≤ b - a ↔ replayWindow ≤ b.toNat - a.toNat := by
  rw [UInt64.le_iff_toNat_le, UInt64.toNat_sub_of_le _ _ h]
  rfl

namespace Stands

variable {r : ReplayWords} {w : ReplayWindow replayWindow}

theorem bit (h : r.Stands w) (ctr : UInt64) : w.bit ctr.toNat = r.bit ctr := by
  rw [bit_eq_lit, ← h.bits, slot_val]
  rfl

theorem check (h : r.Stands w) (ctr : UInt64) : w.check ctr.toNat = r.check ctr := by
  unfold ReplayWindow.check ReplayWords.check
  rw [h.seenAny, h.highest, h.bit]
  simp only [UInt64.lt_iff_toNat_lt]
  by_cases hnew : (!r.seenAny || decide (r.highest.toNat < ctr.toNat))
  · rw [if_pos hnew, if_pos hnew]
  · have hle : ctr ≤ r.highest := by
      simp only [Bool.or_eq_true, decide_eq_true_eq, not_or, Nat.not_lt] at hnew
      exact UInt64.le_iff_toNat_le.mpr hnew.2
    simp only [if_neg hnew, window_le_sub hle]

theorem setBit {bits : BitVec replayWindow} {words : Vector UInt64 windowWords}
    (h : ∀ i : Fin replayWindow, bits.getLsbD i = lit words i) (ctr : UInt64) (i : Fin replayWindow) :
    (ReplayWindow.setBit bits ctr.toNat).getLsbD i = lit (ReplayWords.setBit words ctr) i := by
  have hslot := ReplayWindow.getLsbD_setBit (by decide) bits ctr.toNat i
  rw [Nat.mod_eq_of_lt i.isLt] at hslot
  rw [hslot, h, lit_setBit]
  simp [Fin.ext_iff, slot_val]

theorem any_slidOver (highest ctr : UInt64) (i : Fin replayWindow) :
    (slidOver highest ctr).any (fun c => slot c = i) =
      (List.range' (highest.toNat + 1) (ctr.toNat - highest.toNat)).any fun k => k % replayWindow = i := by
  rw [slidOver, List.any_map, Bool.eq_iff_iff, List.any_eq_true, List.any_eq_true]
  refine exists_congr fun k => and_congr_right fun hk => ?_
  have hlt : k < 2 ^ 64 := by
    obtain ⟨hlow, hhigh⟩ := List.mem_range'_1.mp hk
    have hctr := ctr.toNat_lt
    omega
  simp [Function.comp_apply, Fin.ext_iff, slot_val, UInt64.toNat_ofNat_of_lt' hlt]

theorem slide (h : r.Stands w) (ctr : UInt64) (i : Fin replayWindow) :
    ((List.range' (w.highest + 1) (ctr.toNat - w.highest)).foldl ReplayWindow.clearBit w.bits).getLsbD i =
      lit ((slidOver r.highest ctr).foldl clearBit r.bits) i := by
  have hslots := ReplayWindow.getLsbD_foldl_clearBit (by decide)
    (List.range' (w.highest + 1) (ctr.toNat - w.highest)) w.bits i
  rw [Nat.mod_eq_of_lt i.isLt] at hslots
  rw [hslots, h.bits, lit_foldl_clearBit, any_slidOver, h.highest]

theorem commit (h : r.Stands w) (ctr : UInt64) : (r.commit ctr).Stands (w.commit ctr.toNat) := by
  have hzeros (i : Fin replayWindow) : (0 : BitVec replayWindow).getLsbD i = lit (Vector.replicate windowWords 0) i :=
    BitVec.getLsbD_zero.trans (lit_zeros i).symm
  unfold ReplayWindow.commit ReplayWords.commit
  simp only [h.seenAny, UInt64.lt_iff_toNat_lt, ← h.highest]
  by_cases hfirst : (!r.seenAny)
  · rw [if_pos hfirst, if_pos hfirst]
    exact ⟨rfl, rfl, setBit hzeros ctr⟩
  rw [if_neg hfirst, if_neg hfirst]
  by_cases hnew : w.highest < ctr.toNat
  · have hle : r.highest ≤ ctr := UInt64.le_iff_toNat_le.mpr (h.highest ▸ hnew.le)
    simp only [if_pos hnew, window_le_sub hle, ← h.highest]
    split_ifs with hfar
    · exact ⟨rfl, rfl, setBit hzeros ctr⟩
    · exact ⟨rfl, rfl, setBit (h.slide ctr) ctr⟩
  · rw [if_neg hnew, if_neg hnew]
    exact ⟨h.highest, rfl, setBit h.bits ctr⟩

end Stands

end ReplayWords

/-! ### Every sequence of counters -/

/-- A counter that is offered, with a frame that authenticates or does not. -/
structure Offer where
  ctr : UInt64
  authentic : Bool

/-- The window, and the counters accepted so far. -/
structure Intake where
  window : ReplayWords
  accepted : List UInt64

namespace Intake

def new : Intake := ⟨.default, []⟩

def offer (s : Intake) (o : Offer) : Intake :=
  if s.window.check o.ctr && o.authentic then ⟨s.window.commit o.ctr, o.ctr :: s.accepted⟩ else s

def Admits (accepted : List UInt64) (c : UInt64) : Prop :=
  c ∉ accepted ∧ (accepted = [] ∨ (∀ a ∈ accepted, a < c) ∨
    ∃ h ∈ accepted, (∀ a ∈ accepted, a ≤ h) ∧ h.toNat - c.toNat < replayWindow)

def taken (accepted : List UInt64) : Set Nat := {n | ∃ a ∈ accepted, a.toNat = n}

theorem toNat_mem_taken {accepted : List UInt64} {c : UInt64} : c.toNat ∈ taken accepted ↔ c ∈ accepted := by
  constructor
  · rintro ⟨a, ha, heq⟩
    exact UInt64.toNat_inj.mp heq ▸ ha
  · intro hc
    exact ⟨c, hc, rfl⟩

theorem taken_cons (c : UInt64) (accepted : List UInt64) :
    taken (c :: accepted) = insert c.toNat (taken accepted) := by
  ext n
  simp [taken, eq_comm]

def Keeps (s : Intake) : Prop :=
  ∃ w, s.window.Stands w ∧ w.Tracks (taken s.accepted) ∧ w.Tops (taken s.accepted)

theorem keeps_new : new.Keeps := by
  have hempty : taken [] = ∅ := by
    ext n
    simp [taken]
  refine ⟨.default, ReplayWords.stands_default, ?_, ?_⟩
  · exact hempty ▸ ReplayWindow.tracks_default
  · exact hempty ▸ ReplayWindow.tops_default

theorem Keeps.offer {s : Intake} (h : s.Keeps) (o : Offer) : (s.offer o).Keeps := by
  unfold Intake.offer
  split_ifs with hoffer
  · obtain ⟨w, hstands, htracks, htops⟩ := h
    have hcheck : w.check o.ctr.toNat := by
      rw [hstands.check]
      exact (Bool.and_eq_true_iff.mp hoffer).1
    refine ⟨w.commit o.ctr.toNat, hstands.commit o.ctr, ?_, ?_⟩
    · rw [taken_cons]
      exact htracks.commit (by decide) hcheck
    · rw [taken_cons]
      exact htops.commit o.ctr.toNat
  · exact h

theorem keeps_foldl (offers : List Offer) {s : Intake} (h : s.Keeps) : (offers.foldl offer s).Keeps := by
  induction offers generalizing s with
  | nil => exact h
  | cons o offers ih => exact ih (h.offer o)

theorem Keeps.check_iff {s : Intake} (h : s.Keeps) (c : UInt64) :
    s.window.check c ↔ Admits s.accepted c := by
  obtain ⟨w, hstands, htracks, htops⟩ := h
  rw [← hstands.check, htracks.check_iff, toNat_mem_taken]
  refine and_congr_right fun hc => ?_
  cases hseen : w.seenAny with
  | false =>
    have hnone : s.accepted = [] := by
      refine List.eq_nil_iff_forall_not_mem.mpr fun a ha => ?_
      have hmem := toNat_mem_taken.mpr ha
      rw [htracks.unseen hseen] at hmem
      exact hmem
    simp [hnone]
  | true =>
    obtain ⟨top, htop, hhighest⟩ := htops hseen
    have hle (a : UInt64) (ha : a ∈ s.accepted) : a ≤ top := by
      rw [UInt64.le_iff_toNat_le, hhighest]
      exact htracks.le_highest hseen _ (toNat_mem_taken.mpr ha)
    rw [← hhighest]
    constructor
    · intro hnew
      rcases hnew rfl with hnew | hnear
      · exact .inr (.inl fun a ha => UInt64.lt_of_le_of_lt (hle a ha) (UInt64.lt_iff_toNat_lt.mpr hnew))
      · exact .inr (.inr ⟨top, htop, hle, hnear⟩)
    · rintro (hnone | hnew | ⟨h, hmem, hmax, hnear⟩) -
      · rw [hnone] at htop
        cases htop
      · exact .inl (UInt64.lt_iff_toNat_lt.mp (hnew top htop))
      · obtain rfl : h = top := UInt64.le_antisymm (hle h hmem) (hmax top htop)
        exact .inr hnear

/-- Whatever counters are offered, a counter passes exactly if the set of those accepted admits it: it is
new, and nothing was accepted yet, or it is above all of them, or less than a window below the highest.
A counter whose frame does not authenticate changes nothing. -/
theorem window_refines_set (offers : List Offer) (c : UInt64) :
    ((offers.foldl offer new).window.check c = true ↔ Admits (offers.foldl offer new).accepted c) ∧
      (offers.foldl offer new).offer ⟨c, false⟩ = offers.foldl offer new := by
  refine ⟨(keeps_foldl offers keeps_new).check_iff c, ?_⟩
  unfold offer
  rw [Bool.and_false, if_neg Bool.false_ne_true]

end Intake

end Nqvpn
