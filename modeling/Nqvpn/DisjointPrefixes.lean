import Nqvpn.PublishedView
import Nqvpn.RecordedLans

/-!
# Published prefixes do not overlap

A view attributes to each member its addresses and the LANs it owns. A LAN has one owner, found under
its text, so two members' prefixes are apart when the LANs and the addresses on record are.
-/

namespace Nqvpn

open Fallible DurableRows Std.ExtTreeMap IpNet Option

/-! ### Who owns which LAN -/

namespace Registry

variable {text : IpNetText} {reg : Registry}

def Grouped (text : IpNetText) (reg : Registry)
    (byCidr : Std.ExtTreeMap String (IpNet × List (NodeId × Nat))) : Prop :=
  ∀ key e, byCidr[key]? = some e → key = text.render e.1 ∧ reg.Registers e.1

theorem Grouped.addRegistrant {byCidr : Std.ExtTreeMap String (IpNet × List (NodeId × Nat))}
    (h : Grouped text reg byCidr) {id : NodeId} {x : RouteReg} (hx : reg.Registers x.cidr) :
    Grouped text reg (addRegistrant text id byCidr x) := by
  intro key e he
  simp only [Registry.addRegistrant, getElem?_insert, compare_eq_iff_eq] at he
  split_ifs at he with hkey
  · cases he
    rw [getD_eq_getD_getElem?]
    cases hold : byCidr[text.render x.cidr]? with
    | none => exact ⟨hkey.symm, hx⟩
    | some e' =>
      obtain ⟨htext, hreg⟩ := h _ e' hold
      exact ⟨hkey.symm.trans htext, hreg⟩
  · exact h key e he

theorem registers_of_mem_resolveOwners {p : IpNet × List (NodeId × Nat)} (h : p ∈ reg.resolveOwners text) :
    reg.Registers p.1 := by
  have hgrouped : Grouped text reg (reg.members.toList.foldl (fun m (q : NodeId × MemberRecord) =>
      if q.2.disabled then m else q.2.routes.foldl (addRegistrant text q.1) m) ∅) := by
    refine List.foldlRecOn _ _ (fun key e he => by simp at he) fun byCidr hg q hq => ?_
    have hrec := mem_toList_iff_getElem?_eq_some.mp hq
    split_ifs
    · exact hg
    · exact List.foldlRecOn _ _ hg fun byCidr hg x hx =>
        hg.addRegistrant ⟨q.1, q.2, hrec, x, hx, rfl⟩
  obtain ⟨⟨key, e⟩, he, rfl⟩ := List.mem_map.mp h
  exact (hgrouped key e (mem_toList_iff_getElem?_eq_some.mp he)).2

end Registry

namespace Directory

variable {text : IpNetText} {encode : Snapshot → List UInt8} {d d' : Directory} {reg : Registry}

def OwnersRegistered (text : IpNetText) (d : Directory) (reg : Registry) : Prop :=
  ∀ key o, d.owners[key]? = some o → ∃ c, key = text.render c ∧ reg.Registers c

theorem ownersRegistered_resolveOwners (text : IpNetText) (d : Directory) (reg : Registry) (leases : Leases)
    (now : Nat) : (d.resolveOwners text reg leases now).OwnersRegistered text reg := by
  refine List.foldlRecOn (motive := fun owners : Std.ExtTreeMap String NodeId => ∀ key o,
    owners[key]? = some o → ∃ c, key = text.render c ∧ reg.Registers c) _ _ ?_ ?_
  · intro key o hkey
    simp at hkey
  · intro owners howners p hp
    simp only
    split
    · rename_i o _
      intro key o' hkey
      simp only [getElem?_insert, compare_eq_iff_eq] at hkey
      split_ifs at hkey with heq
      · exact ⟨p.1, heq.symm, Registry.registers_of_mem_resolveOwners hp⟩
      · exact howners key o' hkey
    · exact howners

theorem recompute_owners {cfg : NetworkConfig} {leases : Leases} {keys : List KeyInfo} {now nowMs : Nat}
    {o : Option Delta} (h : d.recompute text encode cfg reg leases keys now nowMs = (d', o)) :
    d'.OwnersRegistered text reg := by
  have howners := ownersRegistered_resolveOwners text d reg leases now
  simp only [recompute] at h
  split_ifs at h
  · cases h
    exact howners
  · cases h
    exact howners

theorem source_of_mem_memberPrefixes (hreg : d.OwnersRegistered text reg) {id : NodeId}
    {rec_ : MemberRecord} {p : IpNet} (hp : p ∈ d.memberPrefixes text id rec_)
    (hdefault : p.isDefault = false) :
    (∃ ip ∈ rec_.addresses, p = host ip) ∨
      reg.Registers p ∧ d.owners[text.render p]? = some id := by
  have hfold {ready : Bool} {init : List IpNet} (hmem : p ∈ rec_.routes.foldl (fun prefixes r =>
        if r.cidr.isDefault && ready && !prefixes.contains r.cidr then prefixes ++ [r.cidr]
        else prefixes) init) : p ∈ init := by
    revert hmem
    refine List.foldlRecOn (motive := fun prefixes => p ∈ prefixes → p ∈ init) _ _ (fun h => h) ?_
    intro prefixes ih r _ hmem
    split_ifs at hmem with hadd
    · rcases List.mem_append.mp hmem with hinit | hexit
      · exact ih hinit
      · -- Only default routes are added.
        simp only [Bool.and_eq_true] at hadd
        rw [List.mem_singleton.mp hexit, hadd.1.1] at hdefault
        cases hdefault
    · exact ih hmem
  simp only [memberPrefixes, List.mem_insertionSort] at hp
  rcases List.mem_append.mp (hfold hp) with haddr | howned
  · refine .inl ?_
    rcases List.mem_append.mp haddr with h4 | h6
    · obtain ⟨a, ha, rfl⟩ := map_eq_some_iff.mp (mem_toList.mp h4)
      exact ⟨.v4 a, MemberRecord.mem_addresses.mpr (.inl ⟨a, ha, rfl⟩), rfl⟩
    · obtain ⟨a, ha, rfl⟩ := map_eq_some_iff.mp (mem_toList.mp h6)
      exact ⟨.v6 a, MemberRecord.mem_addresses.mpr (.inr ⟨a, ha, rfl⟩), rfl⟩
  · obtain ⟨⟨key, owner⟩, howner, hparsed⟩ := List.mem_filterMap.mp howned
    split_ifs at hparsed with hid
    have hkey := mem_toList_iff_getElem?_eq_some.mp howner
    obtain ⟨c, rfl, hc⟩ := hreg key owner hkey
    rw [text.parse_render] at hparsed
    obtain ⟨heq, -⟩ := filter_eq_some_iff.mp hparsed
    obtain rfl : c = p := some.inj heq
    exact .inr ⟨hc, hkey.trans (congrArg some hid)⟩

end Directory

/-! ### A view whose prefixes are apart -/

/-- Prefixes of different members, default routes apart, have no address in common. -/
def Snapshot.PrefixesDisjoint (v : Snapshot) : Prop :=
  ∀ m ∈ v.members, ∀ m' ∈ v.members, m.nodeId ≠ m'.nodeId → ∀ p ∈ m.prefixes, ∀ q ∈ m'.prefixes,
    p.prefixLen ≠ 0 → q.prefixLen ≠ 0 → p.Disjoint q

namespace NetState

variable {env : CoordText} {ns ns' : NetState}

/-- The view is derived from the state, whose owners are owners of registered prefixes. -/
def ShowsRegistered (text : IpNetText) (ns : NetState) : Prop :=
  ns.Shows text ∧ ns.directory.OwnersRegistered text ns.registry

theorem publish_ownersRegistered (text : IpNetText) (encode : Snapshot → List UInt8) (ns : NetState)
    (keys : List KeyInfo) (now nowMs : Nat) (saveOk : Bool) :
    (ns.publish text encode keys now nowMs saveOk).directory.OwnersRegistered text
      (ns.publish text encode keys now nowMs saveOk).registry := by
  obtain ⟨hwm, hreg⟩ := (publish_republishes text encode keys now nowMs saveOk ns).registry
  rw [hreg, publish_directory]
  exact Directory.recompute_owners rfl

theorem fromPublish_showsRegistered (env : CoordText) : FromPublish env (ShowsRegistered env.net) where
  publish ns keys now nowMs saveOk := ⟨publish_shows _ _ ns keys now nowMs saveOk,
    publish_ownersRegistered _ _ ns keys now nowMs saveOk⟩
  delivers h hd := by
    refine ⟨h.1.delivers hd, ?_⟩
    rw [hd.rest]
    exact h.2

theorem InOrder.address_unique {cfg : NetworkConfig} {reg : Registry} (h : reg.InOrder cfg) {i j : NodeId}
    {r r' : MemberRecord} {ip : IpAddr} (hr : reg.members[i]? = some r) (hr' : reg.members[j]? = some r')
    (hip : ip ∈ r.addresses) (hip' : ip ∈ r'.addresses) : i = j := by
  rcases MemberRecord.mem_addresses.mp hip with ⟨a, ha, rfl⟩ | ⟨a, ha, rfl⟩
  · rcases MemberRecord.mem_addresses.mp hip' with ⟨b, hb, heq⟩ | ⟨b, hb, heq⟩
    · cases heq
      exact h.booked4.unique i j r r' _ hr hr' ha hb
    · cases heq
  · rcases MemberRecord.mem_addresses.mp hip' with ⟨b, hb, heq⟩ | ⟨b, hb, heq⟩
    · cases heq
    · cases heq
      exact h.booked6.unique i j r r' _ hr hr' ha hb

theorem ShowsRegistered.prefixesDisjoint {text : IpNetText} (h : ns.ShowsRegistered text)
    (hreg : ns.registry.InOrder ns.cfg) (hlans : ns.registry.LansApart) :
    ns.directory.published.PrefixesDisjoint := by
  obtain ⟨⟨keys, hshows⟩, howners⟩ := h
  intro m hm m' hm' hne p hp q hq hplen hqlen ip hip
  rw [hshows] at hm hm'
  obtain ⟨⟨id, r⟩, hr, rfl⟩ := List.mem_map.mp (KeyedList.mem_of_mem_keepLastSorted hm)
  obtain ⟨⟨id', r'⟩, hr', rfl⟩ := List.mem_map.mp (KeyedList.mem_of_mem_keepLastSorted hm')
  have hrec := mem_toList_iff_getElem?_eq_some.mp (List.mem_filter.mp hr).1
  have hrec' := mem_toList_iff_getElem?_eq_some.mp (List.mem_filter.mp hr').1
  have hdefault {n : IpNet} (hn : n.prefixLen ≠ 0) : n.isDefault = false := by
    simpa [isDefault] using hn
  obtain ⟨hpip, hqip⟩ := hip
  rcases Directory.source_of_mem_memberPrefixes howners hp (hdefault hplen) with
    ⟨a, ha, rfl⟩ | ⟨hpreg, hpowner⟩
  · obtain rfl := containsAddr_host.mp hpip
    rcases Directory.source_of_mem_memberPrefixes howners hq (hdefault hqlen) with
      ⟨b, hb, rfl⟩ | ⟨hqreg, -⟩
    · obtain rfl := containsAddr_host.mp hqip
      exact hne (InOrder.address_unique hreg hrec hrec' ha hb)
    · have hout := hlans.addresses q ⟨hdefault hqlen, hqreg⟩ id r hrec _ ha
      rw [hqip] at hout
      cases hout
  · rcases Directory.source_of_mem_memberPrefixes howners hq (hdefault hqlen) with
      ⟨b, hb, rfl⟩ | ⟨hqreg, hqowner⟩
    · obtain rfl := containsAddr_host.mp hqip
      have hout := hlans.addresses p ⟨hdefault hplen, hpreg⟩ id' r' hrec' _ hb
      rw [hpip] at hout
      cases hout
    · -- The same LAN, and it has one owner.
      obtain rfl := hlans.lans p q ⟨hdefault hplen, hpreg⟩ ⟨hdefault hqlen, hqreg⟩
        (overlaps_eq_true_iff.mpr ⟨ip, hpip, hqip⟩)
      exact hne (some.inj (hpowner.symm.trans hqowner))

end NetState

def servedNetwork (env : CoordText) : TransitionSystem NetState HistoryEvent where
  Initial ns := ∃ r cfg₀ cfg uuid, validateNetworkWith env r.resolve cfg₀ = .ok cfg ∧
    ns = NetState.created env r cfg (Registry.new uuid)
  step := NetState.advance env

namespace NetState

variable {env : CoordText} {ns ns' : NetState}

theorem Advances.published {e : HistoryEvent} (h : ns.Advances env e ns') :
    ns'.directory.published = ns.directory.published ∨ ns'.ShowsRegistered env.net ∨
      ns'.directory.published.members = [] := by
  cases h with
  | @perform op ns' leaves =>
    cases leaves with
    | done returns writes keeps =>
      rcases (fromPublish_showsRegistered env).perform ns op with hsame | hshows
      · exact .inl hsame.published
      · exact .inr (.inl hshows)
  | crash leaves config => exact .inr (.inr rfl)

/-- As long as members join only while the LANs on record of the others are still declared, no two
members are published with prefixes that overlap. -/
theorem published_prefixes_disjoint
    (h : (servedNetwork env).ReachableWith (fun ns e => e.Saves ∧ e.JoinsSettled ns) ns) :
    ns.directory.published.PrefixesDisjoint := by
  have hinvariant : Kept ns.rows ∧ LansKept ns.cfg ns.registry ∧
      ns.directory.published.PrefixesDisjoint := by
    refine h.invariant (P := fun ns => Kept ns.rows ∧ LansKept ns.cfg ns.registry ∧
      ns.directory.published.PrefixesDisjoint) ?_ ?_
    · rintro _ ⟨r, cfg₀, cfg, uuid, hvalid, rfl⟩
      refine ⟨created_kept r cfg uuid, ⟨NetworkConfig.lansChecked_of_validated hvalid,
        .of_new cfg uuid, Registry.lansApart_new uuid⟩, fun m hm => ?_⟩
      cases hm
    · rintro ns e ns' ⟨hkept, hlans, hdisjoint⟩ ⟨hsaves, hsettled⟩ hstep
      have hadvances := advance_eq_some hstep
      have hkept' := (hadvances.kept hsaves hkept).1
      have hlans' := hadvances.lansKept hsaves hsettled hkept hlans
      refine ⟨hkept', hlans', ?_⟩
      rcases hadvances.published with hsame | hshows | hempty
      · rw [hsame]
        exact hdisjoint
      · exact hshows.prefixesDisjoint hkept'.inOrder hlans'.apart
      · intro m hm
        rw [hempty] at hm
        cases hm
  exact hinvariant.2.2

/-! ### Two relays with a LAN each -/

namespace LanExample

def relay (secret : String) (lans : List IpNet) : MemberCfg :=
  { MemberCfg.default with secret := some secret, relayAddr := some "gw:4433", localCidrs := lans }

def spec (lans : List IpNet) : MemberSpec := ⟨some "gw:4433", lans, none, none, none, none, none, none⟩

theorem site_len : 24 < 33 := by decide

def lan1 : IpNet := .v4 0xc0a80100#32 ⟨24, site_len⟩
def lan2 : IpNet := .v4 0xc0a80200#32 ⟨24, site_len⟩
def lans : IpNet := .v4 0xc0a80000#32 ⟨16, by decide⟩

def cfg : NetworkConfig where
  networkId := "acme"
  cidrs := [.v4 0x0a000000#32 ⟨24, site_len⟩]
  settings := SettingsCfg.default
  relays := ((∅ : Std.ExtTreeMap String MemberCfg).insert "east" (relay "e1" [lan1])).insert "west"
    (relay "w1" [lan2])
  clients := ∅

def start : NetState := NetState.created .byteText (NetworkExample.reading 0) cfg (Registry.new "u")

theorem start_initial : (servedNetwork .byteText).Initial start :=
  ⟨NetworkExample.reading 0, cfg, cfg, "u", by decide +kernel, rfl⟩

def register (node t : Nat) : HistoryEvent :=
  .perform (.register ⟨node, node, .relay, 1000, 0, false, Link.new 0⟩ 0 ⟨[], t, t * 1000, true⟩)

def connected : List HistoryEvent :=
  [.perform (NetworkExample.join "east" "e1" "k" 10), .perform (NetworkExample.join "west" "w1" "l" 10),
    register 1 11, register 2 11]

/-- The LAN of one is taken out of the configuration, the other gets a larger one around it, and
joins again first. -/
def edited : List HistoryEvent :=
  [.perform (.admin [] (NetworkExample.reading 12) (.updateMember "east" (spec []))),
    .perform (.admin [] (NetworkExample.reading 12) (.updateMember "west" (spec [lans]))),
    .perform (NetworkExample.join "west" "w1" "l" 13)]

def shown (ns : NetState) : List (NodeId × List IpNet) :=
  ns.directory.published.members.map fun m => (m.nodeId, m.prefixes)

end LanExample

open LanExample in
/-- Each relay is published with its address and its LAN. -/
theorem published_prefixes_disjoint_connected : ∃ ns,
    ((servedNetwork .byteText).guarded fun ns e => e.Saves ∧ e.JoinsSettled ns).run start connected =
      some ns ∧
      shown ns = [(1, [lan1, host (.v4 0x0a000001#32)]), (2, [lan2, host (.v4 0x0a000002#32)])] ∧
      ns.directory.published.PrefixesDisjoint := by
  have hshown : (((servedNetwork .byteText).guarded fun ns e => e.Saves ∧ e.JoinsSettled ns).run start
      connected).map shown =
        some [(1, [lan1, host (.v4 0x0a000001#32)]), (2, [lan2, host (.v4 0x0a000002#32)])] := by
    decide +kernel
  obtain ⟨ns, hrun, hshown⟩ := map_eq_some_iff.mp hshown
  exact ⟨ns, hrun, hshown, published_prefixes_disjoint
    (TransitionSystem.ReachableWith.of_guarded_run (.initial start_initial) hrun)⟩

open LanExample in
/-- A member that joins before the one whose LAN was taken away is published with a prefix around
that LAN. -/
theorem published_prefixes_overlap_after_edits : ∃ ns,
    (servedNetwork .byteText).ReachableWith (fun _ e => e.Saves) ns ∧
      ¬ ns.directory.published.PrefixesDisjoint := by
  have hshown : ((servedNetwork .byteText).run start (connected ++ edited)).map shown =
      some [(1, [lan1, host (.v4 0x0a000001#32)]), (2, [lans, host (.v4 0x0a000002#32)])] := by
    decide +kernel
  obtain ⟨ns, hrun, hshown⟩ := map_eq_some_iff.mp hshown
  have hsaves : ∀ e ∈ connected ++ edited, e.Saves := by decide +kernel
  refine ⟨ns, .of_run (.initial start_initial) (fun e he _ => hsaves e he) hrun, fun hdisjoint => ?_⟩
  have hmember {id : NodeId} {prefixes : List IpNet} (h : (id, prefixes) ∈ shown ns) :
      ∃ m ∈ ns.directory.published.members, m.nodeId = id ∧ m.prefixes = prefixes := by
    obtain ⟨m, hm, heq⟩ := List.mem_map.mp h
    exact ⟨m, hm, congrArg Prod.fst heq, congrArg Prod.snd heq⟩
  obtain ⟨east, heast, hid1, hprefixes1⟩ := hmember (hshown ▸ List.mem_cons_self)
  obtain ⟨west, hwest, hid2, hprefixes2⟩ :=
    hmember (hshown ▸ List.mem_cons_of_mem _ List.mem_cons_self)
  refine hdisjoint east heast west hwest (by rw [hid1, hid2]; decide) lan1
    (hprefixes1 ▸ List.mem_cons_self) lans (hprefixes2 ▸ List.mem_cons_self) (by decide) (by decide)
    (.v4 0xc0a80105#32) ⟨by decide, by decide⟩

end NetState

end Nqvpn
