import Mathlib.Data.List.Sort

/-!
# Replicating a versioned value by snapshots and deltas

A publisher keeps a log of values, newest first, whose generations strictly
decrease along it. Replicas receive whole values and differences between
neighbouring log entries, late, repeated and out of order. A replica never
moves back, what it holds is always a log entry, and a linked chain of
differences from any generation it has reached brings it to the chain's end.
-/

/-- The operations of a versioned value and the laws replication rests on. -/
structure Versioned (S D : Type*) where
  gen : S → Nat
  baseGen : D → Nat
  topGen : D → Nat
  diff : S → S → D
  install : S → S → S
  apply : S → D → S
  Canonical : S → Prop
  baseGen_diff : ∀ a b, baseGen (diff a b) = gen a
  topGen_diff : ∀ a b, topGen (diff a b) = gen b
  install_canonical : ∀ v s, Canonical s → install v s = if gen s < gen v then v else s
  apply_old : ∀ v d, topGen d ≤ gen v → apply v d = v
  apply_gap : ∀ v d, gen v < topGen d → baseGen d ≠ gen v → apply v d = v
  apply_diff : ∀ a b, Canonical a → Canonical b → gen a < gen b → apply a (diff a b) = b

namespace Versioned

open List

variable {S D : Type*} (M : Versioned S D)

inductive Message (S D : Type*)
  | snapshot (s : S)
  | delta (d : D)
  | other

def deliver (v : S) : Message S D → S
  | .snapshot s => M.install v s
  | .delta d => M.apply v d
  | .other => v

/-- The publisher's log, newest first. -/
structure WellFormedLog (log : List S) : Prop where
  decreasing : log.Pairwise (fun newer older => M.gen older < M.gen newer)
  canonical : ∀ s ∈ log, M.Canonical s
  positive : ∀ s ∈ log, 0 < M.gen s

def Adjacent (log : List S) (a b : S) : Prop := ∃ newer older, log = newer ++ b :: a :: older

def Known (log : List S) : Message S D → Prop
  | .snapshot s => s ∈ log
  | .delta d => ∃ a b, Adjacent log a b ∧ d = M.diff a b
  | .other => True

def Held (log : List S) (v : S) : Prop := M.gen v = 0 ∨ v ∈ log

def Linked : Nat → List D → Nat → Prop
  | g, [], e => g = e
  | g, d :: ds, e => M.baseGen d = g ∧ Linked (M.topGen d) ds e

variable {M} {log : List S} {v s : S}

theorem Adjacent.mem {a b : S} (h : Adjacent log a b) : a ∈ log ∧ b ∈ log := by
  obtain ⟨newer, older, rfl⟩ := h
  simp

theorem Adjacent.cons {a b : S} (h : Adjacent log a b) : Adjacent (s :: log) a b := by
  obtain ⟨newer, older, rfl⟩ := h
  exact ⟨s :: newer, older, rfl⟩

theorem Known.cons {m : Message S D} (h : M.Known log m) : M.Known (s :: log) m := by
  cases m with
  | snapshot t => exact mem_cons_of_mem s h
  | delta d =>
    obtain ⟨a, b, hab, hd⟩ := h
    exact ⟨a, b, hab.cons, hd⟩
  | other => trivial

theorem Held.cons (h : M.Held log v) : M.Held (s :: log) v :=
  h.imp id (mem_cons_of_mem s)

namespace WellFormedLog

theorem gen_injective (h : M.WellFormedLog log) {a b : S} (ha : a ∈ log) (hb : b ∈ log)
    (hgen : M.gen a = M.gen b) : a = b := by
  have hnodup : (log.map M.gen).Nodup :=
    pairwise_map.mpr (h.decreasing.imp fun hlt heq => by omega)
  exact inj_on_of_nodup_map hnodup ha hb hgen

theorem adjacent_gen_lt (h : M.WellFormedLog log) {a b : S} (hab : Adjacent log a b) :
    M.gen a < M.gen b := by
  obtain ⟨newer, older, rfl⟩ := hab
  have htail := (pairwise_append.mp h.decreasing).2.1
  exact (pairwise_cons.mp htail).1 a (mem_cons_self ..)

theorem adjacent_no_between (h : M.WellFormedLog log) {a b : S} (hab : Adjacent log a b)
    (hs : s ∈ log) : M.gen s ≤ M.gen a ∨ M.gen b ≤ M.gen s := by
  obtain ⟨newer, older, rfl⟩ := hab
  obtain ⟨-, htail, hcross⟩ := pairwise_append.mp h.decreasing
  rcases mem_append.mp hs with hnew | htl
  · exact .inr (hcross s hnew b (mem_cons_self ..)).le
  · rcases mem_cons.mp htl with rfl | hrest
    · exact .inr le_rfl
    · rcases mem_cons.mp hrest with rfl | hold
      · exact .inl le_rfl
      · have hafter := (pairwise_cons.mp (pairwise_cons.mp htail).2).1
        exact .inl (hafter s hold).le

theorem gen_le_head (h : M.WellFormedLog (s :: log)) (hv : v ∈ s :: log) : M.gen v ≤ M.gen s := by
  rcases mem_cons.mp hv with rfl | hin
  · exact le_rfl
  · exact ((pairwise_cons.mp h.decreasing).1 v hin).le

theorem cons (h : M.WellFormedLog log) (hgen : ∀ t ∈ log, M.gen t < M.gen s)
    (hcanon : M.Canonical s) (hpos : 0 < M.gen s) : M.WellFormedLog (s :: log) where
  decreasing := pairwise_cons.mpr ⟨hgen, h.decreasing⟩
  canonical := forall_mem_cons.mpr ⟨hcanon, h.canonical⟩
  positive := forall_mem_cons.mpr ⟨hpos, h.positive⟩

end WellFormedLog

section Delivery

variable (hlog : M.WellFormedLog log)

include hlog

theorem apply_known (hv : M.Held log v) {a b : S} (hab : Adjacent log a b) :
    M.apply v (M.diff a b) = v ∨ (v = a ∧ M.apply v (M.diff a b) = b) := by
  obtain ⟨ha, hb⟩ := hab.mem
  by_cases hold : M.topGen (M.diff a b) ≤ M.gen v
  · exact .inl (M.apply_old v _ hold)
  · by_cases hbase : M.baseGen (M.diff a b) = M.gen v
    · rw [M.baseGen_diff] at hbase
      have hpos := hlog.positive a ha
      have hmem : v ∈ log := hv.resolve_left (by omega)
      have hva : v = a := hlog.gen_injective hmem ha hbase.symm
      subst hva
      exact .inr ⟨rfl, M.apply_diff v b (hlog.canonical v ha) (hlog.canonical b hb)
        (hlog.adjacent_gen_lt hab)⟩
    · exact .inl (M.apply_gap v _ (by omega) hbase)

theorem deliver_known (hv : M.Held log v) {m : Message S D} (hm : M.Known log m) :
    M.Held log (M.deliver v m) ∧ M.gen v ≤ M.gen (M.deliver v m) := by
  cases m with
  | snapshot t =>
    rw [deliver, M.install_canonical v t (hlog.canonical t hm)]
    split_ifs
    · exact ⟨hv, le_rfl⟩
    · exact ⟨.inr hm, by omega⟩
  | delta d =>
    obtain ⟨a, b, hab, rfl⟩ := hm
    rw [deliver]
    rcases apply_known hlog hv hab with hsame | ⟨rfl, hb⟩
    · rw [hsame]
      exact ⟨hv, le_rfl⟩
    · rw [hb]
      exact ⟨.inr hab.mem.2, (hlog.adjacent_gen_lt hab).le⟩
  | other => exact ⟨hv, le_rfl⟩

theorem deliver_all (ms : List (Message S D)) (hv : M.Held log v)
    (hms : ∀ m ∈ ms, M.Known log m) :
    M.Held log (ms.foldl M.deliver v) ∧ M.gen v ≤ M.gen (ms.foldl M.deliver v) := by
  induction ms generalizing v with
  | nil => exact ⟨hv, le_rfl⟩
  | cons m ms ih =>
    obtain ⟨hm, hrest⟩ := forall_mem_cons.mp hms
    obtain ⟨hheld, hle⟩ := ih (deliver_known hlog hv hm).1 hrest
    exact ⟨hheld, (deliver_known hlog hv hm).2.trans hle⟩

theorem deliver_snapshot_reaches {t : S} (ht : t ∈ log) :
    M.gen t ≤ M.gen (M.deliver v (.snapshot t)) := by
  rw [deliver, M.install_canonical v t (hlog.canonical t ht)]
  split_ifs <;> omega

theorem deliver_delta_reaches (hv : M.Held log v) {d : D} (hd : M.Known log (.delta d))
    (hbase : M.baseGen d ≤ M.gen v) : M.topGen d ≤ M.gen (M.deliver v (.delta d)) := by
  obtain ⟨a, b, hab, rfl⟩ := hd
  rw [M.baseGen_diff] at hbase
  rw [M.topGen_diff, deliver]
  have hpos := hlog.positive a hab.mem.1
  have hmem : v ∈ log := hv.resolve_left (by omega)
  rcases hlog.adjacent_no_between hab hmem with hle | hge
  · have hva : v = a := hlog.gen_injective hmem hab.mem.1 (by omega)
    subst hva
    rw [M.apply_diff v b (hlog.canonical v hmem) (hlog.canonical b hab.mem.2)
      (hlog.adjacent_gen_lt hab)]
  · rw [M.apply_old v _ (by rwa [M.topGen_diff])]
    exact hge

/-- A linked chain from a generation the replica has reached brings it to the
chain's end, whatever it already holds beyond the chain's start. -/
theorem deliver_chain_reaches (chain : List D) {g e : Nat} (hv : M.Held log v)
    (hchain : ∀ d ∈ chain, M.Known log (.delta d)) (hlink : M.Linked g chain e)
    (hg : g ≤ M.gen v) : e ≤ M.gen ((chain.map Message.delta).foldl M.deliver v) := by
  induction chain generalizing v g with
  | nil =>
    exact hlink ▸ hg
  | cons d chain ih =>
    obtain ⟨hd, hrest⟩ := forall_mem_cons.mp hchain
    obtain ⟨hbase, hlink⟩ := hlink
    exact ih (deliver_known hlog hv hd).1 hrest hlink
      (deliver_delta_reaches hlog hv hd (by omega))

end Delivery

theorem Held.eq_head (hlog : M.WellFormedLog (s :: log)) (hv : M.Held (s :: log) v)
    (hgen : M.gen s ≤ M.gen v) : v = s := by
  have hpos := hlog.positive s (mem_cons_self ..)
  have hmem : v ∈ s :: log := hv.resolve_left (by omega)
  exact hlog.gen_injective hmem (mem_cons_self ..)
    (le_antisymm (hlog.gen_le_head hmem) hgen)

end Versioned
