import Nqvpn.DisjointPrefixes
import Nqvpn.OwnerResolution

/-!
# Owners after a recompute

A recompute may leave a prefix to its previous owner while the oldest live registrant waits out the
hold-down. It asks that the previous owner be online, not that it still register the prefix; apart
from that every owner is a live registrant. Once nobody has to wait, earlier ownership is forgotten.
-/

namespace Nqvpn

open NetState Registry

namespace Directory

variable {text : IpNetText} {encode : Snapshot → List UInt8} {d : Directory} {cfg : NetworkConfig}
  {reg : Registry} {leases : Leases} {keys : List KeyInfo} {now nowMs : Nat}

theorem recompute_owners_eq (text : IpNetText) (encode : Snapshot → List UInt8) (d : Directory)
    (cfg : NetworkConfig) (reg : Registry) (leases : Leases) (keys : List KeyInfo) (now nowMs : Nat) :
    (d.recompute text encode cfg reg leases keys now nowMs).1.owners =
      (d.resolveOwners text reg leases now).owners := by
  simp only [recompute]
  split_ifs <;> rfl

/-! ### Live registrants -/

/-- Owners are live registrants, and a prefix that has one has an owner. -/
structure OwnersValid (text : IpNetText) (d : Directory) (reg : Registry) (leases : Leases) : Prop where
  live : ∀ c o, d.owners[text.render c]? = some o → reg.LiveRegistrant leases c o
  owned : ∀ c, (∃ o, d.owners[text.render c]? = some o) ↔ ∃ o, reg.LiveRegistrant leases c o

/-- A previous owner that is online still registers the prefix, if the oldest live registrant is
another one and came online less than the hold-down ago. -/
def HoldersRegister (text : IpNetText) (d : Directory) (reg : Registry) (leases : Leases) (now : Nat) : Prop :=
  ∀ c cur best, d.owners[text.render c]? = some cur → leases.isOnline cur = true →
    reg.IsOldest leases c best → cur ≠ best → now - leases.onlineSince.getD best 0 / 1000 < d.holdDownSecs →
    ∃ granted, reg.HasRegistration c cur granted

/-- Whatever was owned before, the owners after a recompute are valid exactly when the online
holders that it does not replace still register what they hold. -/
theorem owners_valid_iff (text : IpNetText) (encode : Snapshot → List UInt8) (d : Directory)
    (cfg : NetworkConfig) (reg : Registry) (leases : Leases) (keys : List KeyInfo) (now nowMs : Nat) :
    (d.recompute text encode cfg reg leases keys now nowMs).1.OwnersValid text reg leases ↔
      d.HoldersRegister text reg leases now := by
  have howner (c : IpNet) : (d.recompute text encode cfg reg leases keys now nowMs).1.owners[text.render c]? =
      d.chooseOwner leases now d.owners[text.render c]? (reg.oldestLive leases c) := by
    rw [recompute_owners_eq, getElem?_resolveOwners]
  constructor
  · intro hvalid c cur best hcur honline hbest hne hwait
    have hkept := howner c
    rw [hcur, oldestLive_eq_some.mpr hbest, chooseOwner_waiting hne honline hwait] at hkept
    exact (hvalid.live c cur hkept).2
  · intro hholders
    refine ⟨fun c o ho => ?_, fun c => ⟨fun ⟨o, ho⟩ => ?_, fun ⟨o, ho⟩ => ?_⟩⟩
    · rw [howner] at ho
      rcases d.chooseOwner_cases leases now d.owners[text.render c]? (reg.oldestLive leases c) with
        hbest | ⟨cur, b, hcur, hb, hne, honline, hwait, hkept⟩
      · exact (oldestLive_eq_some.mp (hbest.symm.trans ho)).live
      · obtain rfl := Option.some.inj (hkept.symm.trans ho)
        exact ⟨honline, hholders c cur b hcur honline (oldestLive_eq_some.mp hb) hne hwait⟩
    · rw [howner] at ho
      cases hbest : reg.oldestLive leases c with
      | some b => exact ⟨b, (oldestLive_eq_some.mp hbest).live⟩
      | none =>
        rw [hbest] at ho
        rcases d.chooseOwner_cases leases now d.owners[text.render c]? none with hnone | ⟨_, _, -, hb, -⟩
        · rw [hnone] at ho
          cases ho
        · cases hb
    · rw [howner]
      cases hbest : reg.oldestLive leases c with
      | none => exact absurd ho (oldestLive_eq_none.mp hbest o)
      | some b =>
        rcases d.chooseOwner_cases leases now d.owners[text.render c]? (some b) with
          hchosen | ⟨cur, _, -, -, -, -, -, hkept⟩
        · exact ⟨b, hchosen⟩
        · exact ⟨cur, hkept⟩

end Directory

/-! ### A gateway that gives its LAN up to another -/

namespace SharedLan

open NetState.LanExample in
def cfg : NetworkConfig where
  networkId := "acme"
  cidrs := [.v4 0x0a000000#32 ⟨24, site_len⟩]
  settings := SettingsCfg.default
  relays := ((∅ : Std.ExtTreeMap String MemberCfg).insert "east" (relay "e1" [lan1])).insert "west"
    (relay "w1" [lan1])
  clients := ∅

def start : NetState := created .byteText (NetworkExample.reading 0) cfg (new "u")

theorem start_initial : (servedNetwork .byteText).Initial start :=
  ⟨NetworkExample.reading 0, cfg, cfg, "u", by decide +kernel, rfl⟩

/-- The first relay is connected, then the second; the first joins again without the LAN. -/
def events : List HistoryEvent :=
  [.perform (NetworkExample.join "west" "w1" "k" 10), LanExample.register 1 11,
    .perform (NetworkExample.join "east" "e1" "l" 12), LanExample.register 2 13,
    .perform (.admin [] (NetworkExample.reading 14) (.updateMember "west" (LanExample.spec []))),
    .perform (NetworkExample.join "west" "w1" "k" 15)]

def held (ns : NetState) : Option NodeId × Option (List RouteReg) :=
  (ns.directory.owners[IpNetText.byteText.render LanExample.lan1]?, (ns.registry.members[1]?).map (·.routes))

end SharedLan

open SharedLan in
/-- The relay that no longer registers the LAN is its owner after the recompute of its own join. -/
theorem owner_without_registration : ∃ ns, (servedNetwork .byteText).ReachableWith (fun _ e => e.Saves) ns ∧
    ¬ ns.directory.OwnersValid IpNetText.byteText ns.registry ns.leases := by
  have hheld : ((servedNetwork .byteText).run start events).map held = some (some 1, some []) := by
    decide +kernel
  obtain ⟨ns, hrun, hheld⟩ := Option.map_eq_some_iff.mp hheld
  have hsaves : ∀ e ∈ events, e.Saves := by decide +kernel
  refine ⟨ns, .of_run (.initial start_initial) (fun e he _ => hsaves e he) hrun, fun hvalid => ?_⟩
  obtain ⟨howner, hroutes⟩ := Prod.mk.inj hheld
  obtain ⟨-, granted, r, hr, -, hmem⟩ := hvalid.live LanExample.lan1 1 howner
  rw [hr, Option.map_some, Option.some.injEq] at hroutes
  rw [hroutes] at hmem
  cases hmem

/-! ### Ownership forgets its history -/

namespace Directory

variable {text : IpNetText} {encode : Snapshot → List UInt8} {d : Directory} {cfg : NetworkConfig}
  {reg : Registry} {leases : Leases} {keys : List KeyInfo} {now nowMs : Nat}

def Settled (d : Directory) (leases : Leases) (now : Nat) : Prop :=
  ∀ n, leases.isOnline n = true → d.holdDownSecs ≤ now - leases.onlineSince.getD n 0 / 1000

theorem Settled.chooseOwner (h : d.Settled leases now) (current : Option NodeId) {best : Option NodeId}
    (hbest : ∀ b, best = some b → leases.isOnline b) :
    d.chooseOwner leases now current best = best := by
  rcases d.chooseOwner_cases leases now current best with hbest | ⟨cur, b, -, hb, -, -, hwait, -⟩
  · exact hbest
  · exact absurd (h b (hbest b hb)) (not_le.mpr hwait)

theorem Settled.getElem?_owners (h : d.Settled leases now) (key : String) :
    (d.resolveOwners text reg leases now).owners[key]? =
      ((reg.resolveOwners text).find? (fun p => text.render p.1 = key)).bind fun p =>
        reg.oldestLive leases p.1 := by
  rw [getElem?_owners_resolveOwners]
  congr 1
  funext p
  exact h.chooseOwner _ fun b hb => (oldestLive_eq_some.mp hb).1

theorem Settled.resolveOwners_again (h : d.Settled leases now) {d' : Directory}
    (howners : d'.owners = (d.resolveOwners text reg leases now).owners) (now' : Nat) :
    d'.resolveOwners text reg leases now' = d' := by
  have hsame : (d'.resolveOwners text reg leases now').owners = d'.owners := by
    refine Std.ExtTreeMap.ext_getElem? fun key => ?_
    rw [getElem?_owners_resolveOwners, howners, h.getElem?_owners]
    cases (reg.resolveOwners text).find? (fun p => text.render p.1 = key) with
    | none => rfl
    | some p =>
      simp only [Option.bind_some]
      cases reg.oldestLive leases p.1 with
      | none => rfl
      | some b =>
        unfold Directory.chooseOwner
        simp
  have hfields : d'.resolveOwners text reg leases now' =
      { d' with owners := (d'.resolveOwners text reg leases now').owners } := rfl
  rw [hfields, hsame]

theorem normalize_derive_gen {d d' : Directory} (howners : d'.owners = d.owners)
    (hmtu : d'.reportedMtu = d.reportedMtu) (hready : d'.exitReadiness = d.exitReadiness) :
    (d'.derive text cfg reg leases keys).normalize =
      { (d.derive text cfg reg leases keys).normalize with gen := d'.gen } := by
  simp [derive, memberInfo, memberPrefixes, networkMtu, Snapshot.normalize, howners, hmtu, hready]

theorem Settled.recompute_again (h : d.Settled leases now) (now' nowMs' : Nat) :
    (d.recompute text encode cfg reg leases keys now nowMs).1.recompute text encode cfg reg leases keys
        now' nowMs' = ((d.recompute text encode cfg reg leases keys now nowMs).1, none) := by
  have howners := recompute_owners_eq text encode d cfg reg leases keys now nowMs
  generalize hout : d.recompute text encode cfg reg leases keys now nowMs = out at howners ⊢
  have hagain : out.1.resolveOwners text reg leases now' = out.1 := h.resolveOwners_again howners now'
  -- The view derived from the new directory is the one it has published.
  have hpublished : (out.1.derive text cfg reg leases keys).normalize = out.1.published := by
    simp only [recompute] at hout
    split_ifs at hout with hsame
    · rw [← hout]
      exact hsame
    · rw [← hout]
      exact normalize_derive_gen rfl rfl rfl
  unfold recompute
  simp [hagain, hpublished]

/-- When everybody online has been so for the hold-down, a recompute gives each prefix to its oldest
live registrant, whoever owned it, and a second one changes nothing. -/
theorem ownership_forgets_history (text : IpNetText) (encode : Snapshot → List UInt8) (d : Directory)
    (cfg : NetworkConfig) (reg : Registry) (leases : Leases) (keys : List KeyInfo) (now nowMs : Nat)
    (h : d.Settled leases now) :
    (∀ c o, (d.recompute text encode cfg reg leases keys now nowMs).1.owners[text.render c]? = some o ↔
      reg.IsOldest leases c o) ∧
    ∀ now' nowMs', (d.recompute text encode cfg reg leases keys now nowMs).1.recompute text encode cfg reg
      leases keys now' nowMs' = ((d.recompute text encode cfg reg leases keys now nowMs).1, none) := by
  refine ⟨fun c o => ?_, fun now' nowMs' => h.recompute_again now' nowMs'⟩
  rw [recompute_owners_eq, getElem?_resolveOwners,
    h.chooseOwner _ fun b hb => (oldestLive_eq_some.mp hb).1]
  exact oldestLive_eq_some

end Directory

namespace SharedLan

def gateway (id : NodeId) (name : String) (granted : Nat) : MemberRecord :=
  { newRecord id name .relay 0 with routes := [⟨LanExample.lan1, granted⟩] }

def registry : Registry :=
  { new "u" with
    members := ((∅ : Std.ExtTreeMap NodeId MemberRecord).insert 1 (gateway 1 "west" 12)).insert 2
      (gateway 2 "east" 10) }

def leases : Leases := ((Leases.default.seen 1 15000).1.seen 2 20000).1

def directory : Directory :=
  { Directory.new (fun _ => []) 1000 60 with
    owners := (∅ : Std.ExtTreeMap String NodeId).insert (IpNetText.byteText.render LanExample.lan1) 1 }

theorem settled : directory.Settled leases 80 := by
  intro n hn
  have hseen : n = 1 ∨ n = 2 := by
    have hmem : n ∈ leases.lastSeen := hn
    have hlast : leases.lastSeen = ((∅ : Std.ExtTreeMap NodeId Nat).insert 1 15000).insert 2 20000 := by
      decide +kernel
    rw [hlast] at hmem
    simp only [Std.ExtTreeMap.mem_insert, compare_eq_iff_eq] at hmem
    rcases hmem with rfl | rfl | hnone
    · exact .inr rfl
    · exact .inl rfl
    · simp at hnone
  rcases hseen with rfl | rfl
  · decide +kernel
  · decide +kernel

end SharedLan

open SharedLan in
/-- Sixty seconds after the second relay came online the LAN is its own. -/
theorem ownership_forgets_history_shared :
    (directory.recompute .byteText (fun _ => []) cfg registry leases [] 80 80000).1.owners[
      IpNetText.byteText.render LanExample.lan1]? = some 2 ∧
    registry.IsOldest leases LanExample.lan1 2 := by
  have howner : (directory.recompute .byteText (fun _ => []) cfg registry leases [] 80 80000).1.owners[
      IpNetText.byteText.render LanExample.lan1]? = some 2 := by decide +kernel
  exact ⟨howner, ((Directory.ownership_forgets_history .byteText (fun _ => []) directory cfg registry leases
    [] 80 80000 settled).1 LanExample.lan1 2).mp howner⟩

end Nqvpn
