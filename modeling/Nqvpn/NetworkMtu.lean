import Nqvpn.Directory

/-!
# The MTU of a network

The published MTU is the smallest of the ceiling and the members' reports. A report below the ceiling is rounded
down to a multiple of the quantum when it comes in.
-/

namespace Nqvpn.Directory

open Std.ExtTreeMap

/-- The smaller of the best so far and the report of one member, with the name of the one it is from. -/
def lower (best : Nat × String) (p : NodeId × Nat) : Nat × String :=
  if p.2 > 0 ∧ p.2 < best.1 then (p.2, s!"#{p.1}") else best

theorem foldl_lower (l : List (NodeId × Nat)) (best : Nat × String) :
    (l.foldl lower best).1 ≤ best.1 ∧ (∀ p ∈ l, 0 < p.2 → (l.foldl lower best).1 ≤ p.2) ∧
      (l.foldl lower best = best ∨ ∃ p ∈ l, l.foldl lower best = (p.2, s!"#{p.1}")) := by
  induction l generalizing best with
  | nil => exact ⟨le_rfl, nofun, .inl rfl⟩
  | cons p l ih =>
    obtain ⟨hle, hall, hfrom⟩ := ih (lower best p)
    have hstep : (lower best p).1 ≤ best.1 ∧ (0 < p.2 → (lower best p).1 ≤ p.2) := by
      unfold lower
      split_ifs with hlt
      · exact ⟨hlt.2.le, fun _ => le_rfl⟩
      · exact ⟨le_rfl, fun hpos => not_lt.mp fun h => hlt ⟨hpos, h⟩⟩
    refine ⟨hle.trans hstep.1, List.forall_mem_cons.mpr ⟨fun hpos => hle.trans (hstep.2 hpos), hall⟩, ?_⟩
    rcases hfrom with hsame | ⟨q, hq, hlast⟩
    · rw [List.foldl_cons, hsame]
      unfold lower
      split_ifs
      · exact .inr ⟨p, List.mem_cons_self, rfl⟩
      · exact .inl rfl
    · exact .inr ⟨q, List.mem_cons_of_mem p hq, hlast⟩

variable (d : Directory) (ceiling : Nat)

theorem networkMtu_spec : ∃ best who, d.networkMtu ceiling = ⟨max best minTunnelMtu, who⟩ ∧ best ≤ ceiling ∧
    (∀ (n : NodeId) m, d.reportedMtu[n]? = some m → 0 < m → best ≤ m) ∧
    (best = ceiling ∧ who = "config" ∨ ∃ n : NodeId, who = s!"#{n}" ∧ d.reportedMtu[n]? = some best) := by
  obtain ⟨hle, hall, hfrom⟩ := foldl_lower d.reportedMtu.toList (ceiling, "config")
  refine ⟨_, _, rfl, hle, fun n m hm => hall (n, m) (mem_toList_iff_getElem?_eq_some.mpr hm), ?_⟩
  rcases hfrom with hsame | ⟨p, hp, hlast⟩
  · exact .inl ⟨congrArg Prod.fst hsame, congrArg Prod.snd hsame⟩
  · refine .inr ⟨p.1, congrArg Prod.snd hlast, ?_⟩
    rw [mem_toList_iff_getElem?_eq_some.mp hp]
    exact congrArg some (congrArg Prod.fst hlast).symm

/-- The reports as they are kept. -/
def quantized (reports : Std.ExtTreeMap NodeId Nat) : Std.ExtTreeMap NodeId Nat :=
  reports.map fun _ reported => quantizeMtu reported ceiling

/-- Both reach the ceiling, or both are below it and in one bucket. -/
def SameBucket (r r' : Nat) : Prop :=
  ceiling ≤ r ∧ ceiling ≤ r' ∨ r < ceiling ∧ r' < ceiling ∧ r / mtuQuantum = r' / mtuQuantum

variable {d ceiling} {reports : Std.ExtTreeMap NodeId Nat} {r r' : Nat}

theorem quantizeMtu_eq : quantizeMtu r ceiling = max (if r < ceiling then r - r % mtuQuantum else ceiling) minTunnelMtu := by
  unfold quantizeMtu
  rcases lt_or_ge r ceiling with hr | hr
  · simp [min_eq_left hr.le, hr]
  · simp [hr, hr.not_gt]

theorem quantizeMtu_of_sameBucket (h : SameBucket ceiling r r') : quantizeMtu r ceiling = quantizeMtu r' ceiling := by
  unfold SameBucket mtuQuantum at h
  rw [quantizeMtu_eq, quantizeMtu_eq, mtuQuantum]
  split_ifs <;> omega

theorem quantized_of_sameBucket {reports' : Std.ExtTreeMap NodeId Nat}
    (h : ∀ n : NodeId, Option.Rel (SameBucket ceiling) reports[n]? reports'[n]?) :
    quantized ceiling reports' = quantized ceiling reports := by
  refine ext_getElem? fun n => ?_
  rw [quantized, quantized, getElem?_map, getElem?_map]
  have hn := h n
  revert hn
  generalize reports[n]? = o, reports'[n]? = o'
  rintro (⟨hsame⟩ | _)
  · exact congrArg some (quantizeMtu_of_sameBucket hsame).symm
  · rfl

theorem quantizeMtu_le (hceiling : minTunnelMtu ≤ ceiling) : quantizeMtu r ceiling ≤ max minTunnelMtu r := by
  rw [quantizeMtu_eq, mtuQuantum]
  split_ifs <;> omega

theorem lt_quantizeMtu (hr : r ≤ r') (hmin : minTunnelMtu ≤ min ceiling r) :
    min ceiling r - mtuQuantum < quantizeMtu r' ceiling := by
  rw [quantizeMtu_eq, mtuQuantum]
  unfold minTunnelMtu at *
  split_ifs <;> omega

/-- The published MTU is between the floor and the ceiling. It is at most the smallest report, or the floor, and
within a quantum of the smallest report, or the ceiling. A member that is named has the smallest report as kept,
and reports that stay in their buckets publish the same. -/
theorem network_mtu_tracks_reports (hceiling : minTunnelMtu ≤ ceiling) (hd : d.reportedMtu = quantized ceiling reports) :
    (minTunnelMtu ≤ (d.networkMtu ceiling).mtu ∧ (d.networkMtu ceiling).mtu ≤ ceiling) ∧
    (∀ (n : NodeId) r, reports[n]? = some r → (∀ (n' : NodeId) r', reports[n']? = some r' → r ≤ r') →
      (d.networkMtu ceiling).mtu ≤ max minTunnelMtu r ∧
      (minTunnelMtu ≤ min ceiling r → min ceiling r - mtuQuantum < (d.networkMtu ceiling).mtu)) ∧
    ((d.networkMtu ceiling).limitedBy = "config" ∨ ∃ (n : NodeId) (r : Nat), (d.networkMtu ceiling).limitedBy = s!"#{n}" ∧
      reports[n]? = some r ∧ ∀ (n' : NodeId) r', reports[n']? = some r' → quantizeMtu r ceiling ≤ quantizeMtu r' ceiling) ∧
    ∀ reports' (d' : Directory), d'.reportedMtu = quantized ceiling reports' →
      (∀ n : NodeId, Option.Rel (SameBucket ceiling) reports[n]? reports'[n]?) →
      d'.networkMtu ceiling = d.networkMtu ceiling := by
  obtain ⟨best, who, heq, hle, hall, hfrom⟩ := d.networkMtu_spec ceiling
  have hkept (n : NodeId) : d.reportedMtu[n]? = reports[n]?.map (quantizeMtu · ceiling) := by
    rw [hd, quantized, getElem?_map]
  have hbest : ∀ (n : NodeId) r, reports[n]? = some r → best ≤ quantizeMtu r ceiling := by
    intro n r hr
    refine hall n _ (by rw [hkept, hr]; rfl) ?_
    exact lt_of_lt_of_le (by decide) (le_max_right _ _)
  rw [heq]
  refine ⟨⟨le_max_right _ _, max_le hle hceiling⟩, fun n r hr hsmall => ⟨?_, fun hmin => ?_⟩, ?_, ?_⟩
  · exact max_le ((hbest n r hr).trans (quantizeMtu_le hceiling)) (le_max_left _ _)
  · rcases hfrom with ⟨rfl, -⟩ | ⟨n', -, hn'⟩
    · exact lt_of_lt_of_le (Nat.sub_lt (lt_of_lt_of_le (by decide) hmin) (by decide))
        ((min_le_left _ _).trans (le_max_left _ _))
    · obtain ⟨r', hr', rfl⟩ := Option.map_eq_some_iff.mp ((hkept n').symm.trans hn')
      exact (lt_quantizeMtu (hsmall n' r' hr') hmin).trans_le (le_max_left _ _)
  · rcases hfrom with ⟨-, hwho⟩ | ⟨n, hwho, hn⟩
    · exact .inl hwho
    · rw [hkept, Option.map_eq_some_iff] at hn
      obtain ⟨r, hr, rfl⟩ := hn
      exact .inr ⟨n, r, hwho, hr, hbest⟩
  · intro reports' d' hd' hsame
    rw [← heq, networkMtu, networkMtu, hd', quantized_of_sameBucket hsame, hd]

theorem network_mtu_tracks_reports_limited :
    let reports : Std.ExtTreeMap NodeId Nat := .ofList [(1, 1403), (2, 1500)]
    let d := { Directory.new (fun _ => []) 0 0 with reportedMtu := quantized 1405 reports }
    d.networkMtu 1405 = ⟨1400, "#1"⟩ ∧ minTunnelMtu ≤ (d.networkMtu 1405).mtu := by
  intro reports d
  exact ⟨by decide +kernel, (@network_mtu_tracks_reports d 1405 reports (by decide) rfl).1.1⟩

end Nqvpn.Directory
