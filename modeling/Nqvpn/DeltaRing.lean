import Nqvpn.SnapshotLaws

/-!
# The ring of deltas

The ring stands for the end of the log of published snapshots: it holds the differences between
neighbours there. A chain found in it takes whoever holds its base to the current view.
-/

namespace Nqvpn

open Snapshot List

/-! ### Differences along a log -/

namespace Snapshot

theorem diffs_append_singleton (a b : Snapshot) (bs : List Snapshot) :
    diffs a (bs ++ [b]) = diffs a bs ++ [(bs.getLastD a).diff b] := by
  induction bs generalizing a with
  | nil => rfl
  | cons c bs ih => simp only [cons_append, diffs, ih, getLastD_cons]

theorem length_diffs (a : Snapshot) (bs : List Snapshot) : (diffs a bs).length = bs.length := by
  induction bs generalizing a with
  | nil => rfl
  | cons b bs ih => simp only [diffs, length_cons, ih]

theorem drop_diffs (k : Nat) (a : Snapshot) (bs : List Snapshot) (hk : k ≤ bs.length) :
    ∃ old c cs, a :: bs = old ++ c :: cs ∧ (diffs a bs).drop k = diffs c cs ∧
      cs.getLastD c = bs.getLastD a := by
  induction k generalizing a bs with
  | zero => exact ⟨[], a, bs, rfl, rfl, rfl⟩
  | succ k ih =>
    cases bs with
    | nil => simp at hk
    | cons b bs =>
      obtain ⟨old, c, cs, heq, hdrop, hlast⟩ := ih b bs (Nat.le_of_succ_le_succ hk)
      refine ⟨a :: old, c, cs, by rw [heq, cons_append], hdrop, ?_⟩
      rw [hlast, getLastD_cons]

theorem dropWhile_diffs (h : Nat) (a : Snapshot) (bs : List Snapshot) :
    (∀ d ∈ diffs a bs, d.baseGen ≠ h) ∧ (diffs a bs).dropWhile (fun d => d.baseGen ≠ h) = [] ∨
      ∃ old c b cs, a :: bs = old ++ c :: b :: cs ∧ c.gen = h ∧
        (diffs a bs).dropWhile (fun d => d.baseGen ≠ h) = diffs c (b :: cs) ∧
        (b :: cs).getLastD c = bs.getLastD a := by
  induction bs generalizing a with
  | nil => exact .inl ⟨fun d hd => absurd hd not_mem_nil, rfl⟩
  | cons b bs ih =>
    by_cases hbase : a.gen = h
    · refine .inr ⟨[], a, b, bs, rfl, hbase, ?_, rfl⟩
      simp [diffs, diff, hbase]
    · have hdrop : (diffs a (b :: bs)).dropWhile (fun d => d.baseGen ≠ h) =
          (diffs b bs).dropWhile (fun d => d.baseGen ≠ h) := by
        simp [diffs, diff, hbase]
      rw [hdrop, getLastD_cons]
      rcases ih b with ⟨hnone, hnil⟩ | ⟨old, c, b', cs, heq, hgen, hchain, hlast⟩
      · refine .inl ⟨fun d hd => ?_, hnil⟩
        rcases mem_cons.mp hd with rfl | hd
        · exact hbase
        · exact hnone d hd
      · exact .inr ⟨a :: old, c, b', cs, by rw [heq, cons_append], hgen, hchain, hlast⟩

theorem linked_diffs (a : Snapshot) (bs : List Snapshot) :
    Directory.deltasSince.linked a.gen (diffs a bs) = some (bs.getLastD a).gen := by
  induction bs generalizing a with
  | nil => rfl
  | cons b bs ih =>
    rw [getLastD_cons, ← ih b]
    simp [diffs, Directory.deltasSince.linked, diff]

end Snapshot

namespace Directory

/-! ### What the ring stands for -/

/-- The directory publishes the end of the log, and its ring is a last part of it. -/
structure Logged (d : Directory) (log : List Snapshot) : Prop where
  increasing : log.Pairwise fun s s' => s.gen < s'.gen
  normal : ∀ s ∈ log, s.Normal
  gen : d.gen = d.published.gen
  ring : ∃ old a bs, log = old ++ a :: bs ∧ d.ring = diffs a bs ∧ d.published = bs.getLastD a

variable {d d' : Directory} {log : List Snapshot} {delta : Delta}

theorem Logged.sameView (h : d.Logged log) (hview : SameView d d') : d'.Logged log where
  increasing := h.increasing
  normal := h.normal
  gen := by rw [hview.gen, hview.published, h.gen]
  ring := by
    rw [hview.ring, hview.published]
    exact h.ring

theorem Logged.published_mem (h : d.Logged log) : d.published ∈ log := by
  obtain ⟨old, a, bs, rfl, -, hlast⟩ := h.ring
  rw [hlast, ← getLast_eq_getLastD (by simp)]
  exact mem_append_right old (getLast_mem _)

theorem Logged.gen_le (h : d.Logged log) {s : Snapshot} (hs : s ∈ log) : s.gen ≤ d.gen := by
  rw [h.gen]
  obtain ⟨old, a, bs, rfl, -, hlast⟩ := h.ring
  obtain ⟨-, hpairs, hcross⟩ := pairwise_append.mp h.increasing
  have hpublished : d.published ∈ a :: bs := by
    rw [hlast, ← getLast_eq_getLastD (by simp)]
    exact getLast_mem _
  rcases mem_append.mp hs with hold | hnew
  · exact (hcross s hold d.published hpublished).le
  · rcases eq_nil_or_concat bs with rfl | ⟨bs', b, rfl⟩
    · rw [mem_singleton.mp hnew, hlast]
      rfl
    · rw [concat_eq_append, getLastD_concat] at hlast
      rw [concat_eq_append, ← cons_append] at hpairs hnew
      rcases mem_append.mp hnew with hin | hin
      · rw [hlast]
        exact ((pairwise_append.mp hpairs).2.2 s hin b (mem_singleton_self b)).le
      · rw [hlast, mem_singleton.mp hin]

theorem Logged.eq_of_gen (h : d.Logged log) {s s' : Snapshot} (hs : s ∈ log) (hs' : s' ∈ log)
    (hgen : s.gen = s'.gen) : s = s' := by
  have hnodup : (log.map Snapshot.gen).Nodup := pairwise_map.mpr (h.increasing.imp ne_of_lt)
  exact inj_on_of_nodup_map hnodup hs hs' hgen

theorem pushRing_eq_drop (ring : List Delta) (delta : Delta) :
    pushRing ring delta = (ring ++ [delta]).drop (ring.length + 1 - ringSize) := by
  unfold pushRing
  simp

theorem Logged.advanced (h : d.Logged log) (hadv : Advanced d d' delta) :
    d'.Logged (log ++ [d'.published]) := by
  have hgt : ∀ s ∈ log, s.gen < d'.published.gen := by
    intro s hs
    rw [← hadv.gen]
    exact (h.gen_le hs).trans_lt hadv.gen_lt
  refine ⟨pairwise_append.mpr ⟨h.increasing, pairwise_singleton .., fun s hs s' hs' => ?_⟩,
    fun s hs => ?_, hadv.gen, ?_⟩
  · rw [mem_singleton.mp hs']
    exact hgt s hs
  · rcases mem_append.mp hs with hs | hs
    · exact h.normal s hs
    · rw [mem_singleton.mp hs]
      exact hadv.normal
  · obtain ⟨old, a, bs, rfl, hring, hlast⟩ := h.ring
    have hlen : (diffs a bs).length + 1 - ringSize ≤ (bs ++ [d'.published]).length := by
      rw [length_diffs, length_append, length_singleton]
      exact Nat.sub_le _ _
    obtain ⟨old', c, cs, heq, hdrop, hend⟩ := drop_diffs _ a (bs ++ [d'.published]) hlen
    refine ⟨old ++ old', c, cs, ?_, ?_, ?_⟩
    · rw [append_assoc, append_assoc, ← heq, cons_append]
    · rw [hadv.ring, hring, pushRing_eq_drop, ← hdrop, diffs_append_singleton, hadv.delta_eq, hlast]
    · rw [hend, getLastD_concat]

/-! ### Chains -/

theorem Logged.deltasSince_cases (h : d.Logged log) (g : Nat) :
    g = d.gen ∧ d.deltasSince g = some [] ∨
      g ≠ d.gen ∧ (∀ x ∈ d.ring, x.baseGen ≠ g) ∧ d.deltasSince g = none ∨
      ∃ s s' ss, s ∈ log ∧ s.gen = g ∧ diffs s (s' :: ss) ⊆ d.ring ∧
        d.deltasSince g = some (diffs s (s' :: ss)) ∧
        (s :: s' :: ss).Pairwise (fun s s' => s.gen < s'.gen) ∧ (s' :: ss).getLastD s = d.published := by
  by_cases hcur : g = d.gen
  · refine .inl ⟨hcur, ?_⟩
    rw [deltasSince, if_pos hcur]
  · refine .inr ?_
    obtain ⟨old, a, bs, rfl, hring, hlast⟩ := h.ring
    rcases dropWhile_diffs g a bs with ⟨hnone, hnil⟩ | ⟨old', c, b, cs, heq, hgen, hchain, hend⟩
    · refine .inl ⟨hcur, hring ▸ hnone, ?_⟩
      rw [deltasSince, if_neg hcur, hring]
      simp only [hnil, isEmpty_nil, if_true]
    · refine .inr ⟨c, b, cs, ?_, hgen, ?_, ?_, ?_, hend.trans hlast.symm⟩
      · rw [heq]
        simp
      · rw [hring, ← hchain]
        exact (dropWhile_sublist _).subset
      · have hlinked : deltasSince.linked g (diffs c (b :: cs)) = some d.gen := by
          rw [← hgen, linked_diffs, hend, h.gen, hlast]
        have hnonempty : (diffs c (b :: cs)).isEmpty = false := rfl
        rw [deltasSince, if_neg hcur, hring]
        simp only [hchain, hnonempty, Bool.false_eq_true, if_false, hlinked, Option.bind_some, if_true]
      · rw [heq, ← append_assoc] at h
        exact (pairwise_append.mp h.increasing).2.1

theorem Logged.isSome_deltasSince (h : d.Logged log) (g : Nat) :
    (d.deltasSince g).isSome ↔ g = d.gen ∨ ∃ x ∈ d.ring, x.baseGen = g := by
  rcases h.deltasSince_cases g with ⟨hcur, hsome⟩ | ⟨hne, hnone, heq⟩ | ⟨s, s', ss, -, hgen, hsub, hsome, -⟩
  · rw [hsome]
    exact ⟨fun _ => .inl hcur, fun _ => rfl⟩
  · rw [heq]
    constructor
    · intro hfalse
      cases hfalse
    · rintro (hcur | ⟨x, hx, hbase⟩)
      · exact absurd hcur hne
      · exact absurd hbase (hnone x hx)
  · rw [hsome]
    refine ⟨fun _ => .inr ⟨s.diff s', hsub mem_cons_self, hgen⟩, fun _ => rfl⟩

theorem Logged.applyChain (h : d.Logged log) {g : Nat} {chain : List Delta}
    (hchain : d.deltasSince g = some chain) :
    ∃ s ∈ log, s.gen = g ∧ s.applyChain chain = (d.published, .ok ()) := by
  rcases h.deltasSince_cases g with ⟨hcur, hsome⟩ | ⟨-, -, heq⟩ | ⟨s, s', ss, hs, hgen, -, hsome, hpairs, hend⟩
  · cases hsome.symm.trans hchain
    exact ⟨d.published, h.published_mem, h.gen.symm.trans hcur.symm, rfl⟩
  · rw [heq] at hchain
    cases hchain
  · cases hsome.symm.trans hchain
    refine ⟨s, hs, hgen, ?_⟩
    have happly := applyChain_diffs hpairs.isChain
    rw [h.normal s hs, hend, h.normal d.published h.published_mem] at happly
    exact happly

end Directory

/-! ### Runs of recomputes -/

/-- The facts one recompute reads. -/
structure RecomputeCall where
  holdDownSecs : Nat
  reportedMtu : Std.ExtTreeMap NodeId Nat
  exitReadiness : Std.ExtTreeMap NodeId ExitReadiness
  cfg : NetworkConfig
  registry : Registry
  leases : Leases
  keys : List KeyInfo
  now : Nat
  nowMs : Nat

/-- A directory with all it has published and every delta it returned, oldest first. -/
structure Recomputed where
  directory : Directory
  published : List Snapshot
  returned : List Delta

namespace Recomputed

variable (text : IpNetText) (encode : Snapshot → List UInt8)

def start (initialGen holdDownSecs : Nat) : Recomputed :=
  ⟨Directory.new encode initialGen holdDownSecs, [(Directory.new encode initialGen holdDownSecs).published], []⟩

def recompute (r : Recomputed) (c : RecomputeCall) : Recomputed :=
  let d := { r.directory with
    holdDownSecs := c.holdDownSecs
    reportedMtu := c.reportedMtu
    exitReadiness := c.exitReadiness }
  let out := d.recompute text encode c.cfg c.registry c.leases c.keys c.now c.nowMs
  ⟨out.1, r.published ++ [out.1.published], r.returned ++ out.2.toList⟩

def recomputeAll (r : Recomputed) (calls : List RecomputeCall) : Recomputed :=
  calls.foldl (recompute text encode) r

variable {text encode}

/-- All that was published is in a log the ring is the end of; the ring is the end of what was
returned. -/
structure Kept (initialGen : Nat) (r : Recomputed) : Prop where
  logged : ∃ log, r.directory.Logged log ∧ ∀ s, s ∈ r.published ↔ s ∈ log
  initial : ∀ s ∈ r.published, initialGen ≤ s.gen
  latest : r.directory.ring = r.returned.drop (r.returned.length - ringSize)

theorem kept_start (initialGen holdDownSecs : Nat) : (start encode initialGen holdDownSecs).Kept initialGen := by
  have hmem : ∀ s ∈ (start encode initialGen holdDownSecs).published,
      s = { Snapshot.default with gen := initialGen } := fun s hs => mem_singleton.mp hs
  refine ⟨⟨[{ Snapshot.default with gen := initialGen }], ⟨pairwise_singleton .., fun s hs => ?_, rfl,
    [], _, [], rfl, rfl, rfl⟩, fun s => Iff.rfl⟩, fun s hs => ?_, drop_nil.symm⟩
  · rw [mem_singleton.mp hs]
    exact normal_default.set_gen initialGen
  · rw [hmem s hs]

theorem pushRing_drop (returned : List Delta) (delta : Delta) :
    Directory.pushRing (returned.drop (returned.length - ringSize)) delta =
      (returned ++ [delta]).drop ((returned ++ [delta]).length - ringSize) := by
  have hdropped : returned.length - ringSize + (returned.length - (returned.length - ringSize) + 1 - ringSize) =
      returned.length + 1 - ringSize := by omega
  rw [Directory.pushRing_eq_drop, ← drop_append_of_le_length (Nat.sub_le _ _), drop_drop,
    length_drop, length_append, length_singleton, hdropped]

theorem Kept.recompute {initialGen : Nat} {r : Recomputed} (h : r.Kept initialGen) (c : RecomputeCall) :
    (r.recompute text encode c).Kept initialGen := by
  obtain ⟨log, hlogged, hall⟩ := h.logged
  generalize hout : Directory.recompute text encode { r.directory with
    holdDownSecs := c.holdDownSecs, reportedMtu := c.reportedMtu, exitReadiness := c.exitReadiness }
      c.cfg c.registry c.leases c.keys c.now c.nowMs = out
  have hr : r.recompute text encode c =
      ⟨out.1, r.published ++ [out.1.published], r.returned ++ out.2.toList⟩ := by
    unfold Recomputed.recompute
    simp [hout]
  have hfacts : Directory.Logged { r.directory with
      holdDownSecs := c.holdDownSecs, reportedMtu := c.reportedMtu, exitReadiness := c.exitReadiness } log :=
    hlogged.sameView ⟨rfl, rfl, rfl, rfl⟩
  have hadd {ss : List Snapshot} {s' : Snapshot} (hss : ∀ s, s ∈ ss ↔ s ∈ log ∨ s = s') :
      ∀ s, s ∈ r.published ++ [s'] ↔ s ∈ ss := by
    intro s
    rw [mem_append, mem_singleton, hss, hall]
  rw [hr]
  rcases Directory.recompute_cases hout with ⟨hnone, hview⟩ | ⟨delta, hsome, hadv⟩
  · have hlogged' := hfacts.sameView hview
    refine ⟨⟨log, hlogged', hadd fun s => ⟨.inl, ?_⟩⟩, fun s hs => ?_, ?_⟩
    · rintro (hs | rfl)
      · exact hs
      · exact hlogged'.published_mem
    · rcases mem_append.mp hs with hs | hs
      · exact h.initial s hs
      · rw [mem_singleton.mp hs, hview.published]
        exact h.initial _ ((hall _).mpr hlogged.published_mem)
    · rw [hnone, Option.toList_none, append_nil]
      exact hview.ring.trans h.latest
  · refine ⟨⟨log ++ [out.1.published], hfacts.advanced hadv, hadd fun s => ?_⟩, fun s hs => ?_, ?_⟩
    · rw [mem_append, mem_singleton]
    · rcases mem_append.mp hs with hs | hs
      · exact h.initial s hs
      · rw [mem_singleton.mp hs, ← hadv.gen]
        have hle := h.initial _ ((hall _).mpr hlogged.published_mem)
        have hlt := hadv.gen_lt
        rw [← hlogged.gen] at hle
        exact hle.trans hlt.le
    · rw [hsome, Option.toList_some, ← pushRing_drop, ← h.latest]
      exact hadv.ring

theorem kept_recomputeAll (initialGen holdDownSecs : Nat) (calls : List RecomputeCall) :
    ((start encode initialGen holdDownSecs).recomputeAll text encode calls).Kept initialGen := by
  refine foldlRecOn (motive := Kept initialGen) calls _ (kept_start initialGen holdDownSecs)
    fun r hr c _ => ?_
  exact hr.recompute c

/-- After any recomputes a chain is found from the current generation and from the bases in the
ring, and it leads from what was published there to what is published now; the ring is the latest
deltas. From a first generation that is not zero, as the registry always gives one, no chain is
found from zero. -/
theorem delta_ring (initialGen holdDownSecs : Nat) (calls : List RecomputeCall) (r : Recomputed)
    (hr : (start encode initialGen holdDownSecs).recomputeAll text encode calls = r) :
    (∀ h, (r.directory.deltasSince h).isSome ↔
      h = r.directory.gen ∨ ∃ x ∈ r.directory.ring, x.baseGen = h) ∧
    (∀ h chain, r.directory.deltasSince h = some chain →
      (∃ s ∈ r.published, s.gen = h) ∧
      ∀ s ∈ r.published, s.gen = h → s.applyChain chain = (r.directory.published, .ok ())) ∧
    r.directory.ring = r.returned.drop (r.returned.length - ringSize) ∧
    r.directory.ring.length ≤ ringSize ∧
    (0 < initialGen → r.directory.deltasSince 0 = none) ∧
    ∀ (reg : Registry) (nowMs : Nat), 0 < reg.initialGen nowMs := by
  subst hr
  have hkept : ((start encode initialGen holdDownSecs).recomputeAll text encode calls).Kept initialGen :=
    kept_recomputeAll initialGen holdDownSecs calls
  obtain ⟨log, hlogged, hall⟩ := hkept.logged
  refine ⟨hlogged.isSome_deltasSince, fun h chain hchain => ?_, hkept.latest, ?_, fun hpos => ?_,
    fun reg nowMs => ?_⟩
  · obtain ⟨s, hs, hgen, happly⟩ := hlogged.applyChain hchain
    refine ⟨⟨s, (hall s).mpr hs, hgen⟩, fun s' hs' hgen' => ?_⟩
    rw [hlogged.eq_of_gen ((hall s').mp hs') hs (hgen'.trans hgen.symm)]
    exact happly
  · rw [hkept.latest, length_drop]
    omega
  · cases hchain : ((start encode initialGen holdDownSecs).recomputeAll text encode
        calls).directory.deltasSince 0 with
    | none => rfl
    | some chain =>
      obtain ⟨s, hs, hgen, -⟩ := hlogged.applyChain hchain
      have hle := hkept.initial s ((hall s).mpr hs)
      omega
  · have hstep : 0 < genPersistStep := by decide
    exact lt_of_lt_of_le (Nat.add_pos_right _ hstep) (le_max_right _ _)

namespace RingExample

def cfg : NetworkConfig := ⟨"acme", [], SettingsCfg.default, ∅, ∅⟩

def calls : List RecomputeCall :=
  [⟨60, ∅, ∅, cfg, Registry.new "u", .default, [⟨"k1", "a", "active"⟩], 1, 1500⟩,
    ⟨60, ∅, ∅, cfg, Registry.new "u", .default, [⟨"k2", "b", "active"⟩], 2, 1200⟩,
    ⟨60, ∅, ∅, cfg, Registry.new "u", .default, [⟨"k2", "b", "active"⟩], 3, 9000⟩]

end RingExample

open RingExample in
/-- Two of three recomputes publish; the clock went back before the second. -/
theorem delta_ring_rotation : ∃ r,
    (start (fun _ => []) 1000 60).recomputeAll .byteText (fun _ => []) calls = r ∧
      r.published.map Snapshot.gen = [1000, 1500, 1501, 1501] ∧
      (r.directory.deltasSince 1000).isSome ∧ r.directory.deltasSince 0 = none := by
  have hpublished : ((start (fun _ => []) 1000 60).recomputeAll .byteText (fun _ => []) calls).published.map
      Snapshot.gen = [1000, 1500, 1501, 1501] ∧
      ∃ x ∈ ((start (fun _ => []) 1000 60).recomputeAll .byteText (fun _ => []) calls).directory.ring,
        x.baseGen = 1000 := by decide +kernel
  obtain ⟨hiff, -, -, -, hzero, -⟩ := delta_ring 1000 60 calls _ rfl
  exact ⟨_, rfl, hpublished.1, (hiff 1000).mpr (.inr hpublished.2), hzero (by decide)⟩

/-- A directory that starts at generation zero has an empty chain for who holds generation zero. -/
theorem chain_from_zero :
    (start (fun _ => []) 0 60).directory.deltasSince 0 = some [] := by
  decide

end Recomputed

end Nqvpn
