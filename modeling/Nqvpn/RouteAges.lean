import Nqvpn.OwnerResolution
import Nqvpn.RecordedLans

/-!
# How old a route is

Of two members that register one prefix the older registration owns it, and registrations are dated
by joins. A join keeps those that are still declared and dates the others with its own time, so the
date of a route is the time of the first of the latest joins that all declared it.
-/

namespace Nqvpn

open Fallible DurableRows Registry NetState List Option

/-- What the configuration declared for a member when it joined, and when that was. -/
structure RouteDeclaration where
  routes : List IpNet
  time : Nat
deriving DecidableEq

/-- Since when a prefix is declared without a break: the time of the earliest of the latest joins
that all declared it. The latest join comes first. -/
def heldSince (log : List RouteDeclaration) (c : IpNet) : Option Nat :=
  ((log.takeWhile fun d => c ∈ d.routes).getLast?).map (·.time)

section HeldSince

variable {log later : List RouteDeclaration} {d : RouteDeclaration} {c : IpNet} {since : Nat}

theorem heldSince_cons : heldSince (d :: log) c =
    if c ∈ d.routes then some ((heldSince log c).getD d.time) else none := by
  unfold heldSince
  by_cases hc : c ∈ d.routes
  · rw [if_pos hc, takeWhile_cons_of_pos (by simpa using hc), getLast?_cons, map_some]
    cases (log.takeWhile fun d => c ∈ d.routes).getLast? <;> rfl
  · rw [if_neg hc, takeWhile_cons_of_neg (by simpa using hc)]
    rfl

theorem exists_of_heldSince (h : heldSince log c = some since) : ∃ d ∈ log, d.time = since := by
  obtain ⟨d, hd, rfl⟩ := map_eq_some_iff.mp h
  exact ⟨d, takeWhile_subset _ (mem_of_getLast? hd), rfl⟩

theorem isSome_heldSince : (heldSince log c).isSome ↔ ∃ d ∈ log.head?, c ∈ d.routes := by
  cases log with
  | nil => simp [heldSince]
  | cons d log =>
    rw [heldSince_cons]
    split_ifs with hc <;> simp [hc]

theorem heldSince_append_of_declared (h : heldSince log c = some since) (hall : ∀ d ∈ later, c ∈ d.routes) :
    heldSince (later ++ log) c = some since := by
  induction later with
  | nil => exact h
  | cons d later ih =>
    rw [cons_append, heldSince_cons, if_pos (hall d mem_cons_self),
      ih fun d' hd' => hall d' (mem_cons_of_mem d hd'), getD_some]

theorem heldSince_append_of_dropped (hdrop : ∃ d ∈ later, c ∉ d.routes) :
    heldSince (later ++ log) c = heldSince later c := by
  induction later with
  | nil => simp at hdrop
  | cons d later ih =>
    rw [cons_append, heldSince_cons, heldSince_cons]
    by_cases hc : c ∈ d.routes
    · obtain ⟨d', hd', hnot⟩ := hdrop
      rcases mem_cons.mp hd' with rfl | hd'
      · exact absurd hc hnot
      · rw [ih ⟨d', hd', hnot⟩]
    · rw [if_neg hc, if_neg hc]

end HeldSince

/-! ### What a join makes of the routes on record -/

namespace NetState

section Renew

variable {existing routes : List RouteReg} {declared : List IpNet} {now : Nat}

theorem mem_foldl_addRoute {x : RouteReg} :
    x ∈ declared.foldl (fun routes c => if routes.any (·.cidr = c) then routes else routes ++ [⟨c, now⟩]) routes ↔
      x ∈ routes ∨ x.cidr ∈ declared ∧ x.firstGrantedUnix = now ∧ ∀ y ∈ routes, y.cidr ≠ x.cidr := by
  induction declared generalizing routes with
  | nil => simp
  | cons c declared ih =>
    rw [foldl_cons, ih]
    split_ifs with hany
    · obtain ⟨y, hy, hyc⟩ := any_eq_true.mp hany
      have hyc : y.cidr = c := by simpa using hyc
      constructor
      · rintro (hx | ⟨hx, hnow, hnew⟩)
        · exact .inl hx
        · exact .inr ⟨mem_cons_of_mem c hx, hnow, hnew⟩
      · rintro (hx | ⟨hx, hnow, hnew⟩)
        · exact .inl hx
        · rcases mem_cons.mp hx with hx | hx
          · exact absurd (hyc.trans hx.symm) (hnew y hy)
          · exact .inr ⟨hx, hnow, hnew⟩
    · have hnone : ∀ y ∈ routes, y.cidr ≠ c := by simpa using hany
      constructor
      · rintro (hx | ⟨hx, hnow, hnew⟩)
        · rcases mem_append.mp hx with hx | hx
          · exact .inl hx
          · rw [mem_singleton.mp hx]
            exact .inr ⟨mem_cons_self, rfl, hnone⟩
        · exact .inr ⟨mem_cons_of_mem c hx, hnow,
            fun y hy => hnew y (mem_append_left _ hy)⟩
      · rintro (hx | ⟨hx, hnow, hnew⟩)
        · exact .inl (mem_append_left _ hx)
        · by_cases hxc : x.cidr = c
          · left
            have heq : x = ⟨c, now⟩ := by
              cases x
              simp_all
            rw [heq]
            exact mem_append_right _ (mem_singleton_self _)
          · refine .inr ⟨(mem_cons.mp hx).resolve_left hxc, hnow, fun y hy => ?_⟩
            rcases mem_append.mp hy with hy | hy
            · exact hnew y hy
            · rw [mem_singleton.mp hy]
              exact Ne.symm hxc

theorem nodup_foldl_addRoute (h : (routes.map (·.cidr)).Nodup) :
    ((declared.foldl (fun routes c => if routes.any (·.cidr = c) then routes else routes ++ [⟨c, now⟩])
      routes).map (·.cidr)).Nodup := by
  refine foldlRecOn (motive := fun routes : List RouteReg => (routes.map (·.cidr)).Nodup) declared _ h
    fun routes hnodup c _ => ?_
  split_ifs with hany
  · exact hnodup
  · rw [map_append, map_singleton]
    refine nodup_append.mpr ⟨hnodup, nodup_singleton c, ?_⟩
    intro c₁ hc₁ c₂ hc₂ heq
    obtain ⟨y, hy, rfl⟩ := mem_map.mp hc₁
    rw [mem_singleton] at hc₂
    exact hany (any_eq_true.mpr ⟨y, hy, by simpa using heq.trans hc₂⟩)

theorem mem_renewRoutes_iff {x : RouteReg} :
    x ∈ renewRoutes existing declared now ↔ x.cidr ∈ declared ∧
      (x ∈ existing ∨ x.firstGrantedUnix = now ∧ ∀ y ∈ existing, y.cidr ≠ x.cidr) := by
  rw [renewRoutes, mem_foldl_addRoute]
  simp only [mem_filter, decide_eq_true_eq]
  constructor
  · rintro (⟨hx, hdeclared⟩ | ⟨hdeclared, hnow, hnew⟩)
    · exact ⟨hdeclared, .inl hx⟩
    · exact ⟨hdeclared, .inr ⟨hnow, fun y hy hsame => hnew y ⟨hy, hsame ▸ hdeclared⟩ hsame⟩⟩
  · rintro ⟨hdeclared, hx | ⟨hnow, hnew⟩⟩
    · exact .inl ⟨hx, hdeclared⟩
    · exact .inr ⟨hdeclared, hnow, fun y hy => hnew y hy.1⟩

theorem nodup_renewRoutes (h : (existing.map (·.cidr)).Nodup) :
    ((renewRoutes existing declared now).map (·.cidr)).Nodup :=
  nodup_foldl_addRoute (h.sublist (filter_sublist.map _))

end Renew

end NetState

/-- Each prefix is registered once, and dated by the joins that declared it. -/
structure Dated (log : List RouteDeclaration) (routes : List RouteReg) : Prop where
  nodup : (routes.map (·.cidr)).Nodup
  dated : ∀ x, x ∈ routes ↔ heldSince log x.cidr = some x.firstGrantedUnix

theorem Dated.nil : Dated [] [] := ⟨nodup_nil, by simp [heldSince]⟩

theorem Dated.renew {log : List RouteDeclaration} {routes : List RouteReg} (h : Dated log routes)
    (d : RouteDeclaration) : Dated (d :: log) (renewRoutes routes d.routes d.time) := by
  refine ⟨nodup_renewRoutes h.nodup, fun x => ?_⟩
  rw [mem_renewRoutes_iff, heldSince_cons]
  by_cases hx : x.cidr ∈ d.routes
  · rw [if_pos hx, h.dated]
    cases hheld : heldSince log x.cidr with
    | none =>
      have hnew : ∀ y ∈ routes, y.cidr ≠ x.cidr := by
        intro y hy hsame
        have hdated := (h.dated y).mp hy
        rw [hsame, hheld] at hdated
        cases hdated
      simp only [hx, true_and, reduceCtorEq, false_or, getD_none, some.injEq]
      exact ⟨fun hdated => hdated.1.symm, fun hdated => ⟨hdated.symm, hnew⟩⟩
    | some since =>
      -- It is on record already, so it is not added again.
      have hold : (⟨x.cidr, since⟩ : RouteReg) ∈ routes := (h.dated _).mpr hheld
      have hnot : ¬ ∀ y ∈ routes, y.cidr ≠ x.cidr := fun hall => hall _ hold rfl
      simp [hx, hnot]
  · simp [hx]

/-! ### Joins of one member -/

def Registry.routesOf (reg : Registry) (name : String) : List RouteReg :=
  ((reg.byName name).map (·.routes)).getD []

/-- The networks in which a member has joined like this since it was put on record, the latest join
first. Between its joins anything may happen, as long as its routes on record stay. -/
inductive JoinedAs (env : CoordText) (name : String) : List RouteDeclaration → NetState → Prop
  | unknown {ns : NetState} (filed : ns.registry.Filed) (unknown : ns.registry.byName name = none) :
    JoinedAs env name [] ns
  | aside {log : List RouteDeclaration} {ns ns' : NetState} (joined : JoinedAs env name log ns)
    (filed : ns'.registry.Filed)
    (record : (ns'.registry.byName name).map (·.routes) = (ns.registry.byName name).map (·.routes)) :
    JoinedAs env name log ns'
  | join {log : List RouteDeclaration} {ns : NetState} {presented : String} {req : JoinRequest} {peerIp : String}
    {signing : Signing} {t : Clock} {db : DbOutcome} {m : MemberCfg} {role : Role} {c : Claims}
    {resp : JoinResponse} (joined : JoinedAs env name log ns)
    (member : ns.cfg.memberByName name = some (m, role))
    (accepted : (ns.join env name presented req peerIp signing t db).2 = .ok (c, resp)) :
    JoinedAs env name (⟨declaredRoutes m role, t.now⟩ :: log)
      (ns.join env name presented req peerIp signing t db).1

namespace NetState

variable {env : CoordText} {ns : NetState} {name presented : String} {req : JoinRequest} {peerIp : String}
  {signing : Signing} {t : Clock} {db : DbOutcome} {m : MemberCfg} {role : Role} {c : Claims}
  {resp : JoinResponse}

theorem Plans.files {plan : JoinPlan} {granted : Granted} {reg : Registry} {relayAddr : Option String}
    (h : ns.Plans env name presented req peerIp t plan granted reg relayAddr) (hfiled : ns.registry.Filed) :
    plan.registry.Filed ∧ plan.registry.byName name = some plan.record := by
  have hrecord : plan.registry.members[reg.idFor name]? = some plan.record := by
    rw [h.members_eq, Std.ExtTreeMap.getElem?_insert_self]
  refine ⟨h.keepsFiled hfiled, ?_⟩
  rw [← show plan.record.name = name from h.signs.name]
  exact (h.keepsFiled hfiled).byName_of_name hrecord

theorem join_registry (h : (ns.join env name presented req peerIp signing t db).2 = .ok (c, resp)) :
    ∃ plan hwm, ns.joinPlan env name presented req peerIp t = .ok plan ∧
      (ns.join env name presented req peerIp signing t db).1.registry = { plan.registry with genHwm := hwm } := by
  obtain ⟨plan, hplan, hkeeps, -⟩ := join_keeps h
  obtain ⟨hwm, hregistry⟩ := hkeeps.registry
  exact ⟨plan, hwm, hplan, hregistry⟩

theorem join_record (hfiled : ns.registry.Filed) (hm : ns.cfg.memberByName name = some (m, role))
    (h : (ns.join env name presented req peerIp signing t db).2 = .ok (c, resp)) :
    (ns.join env name presented req peerIp signing t db).1.registry.Filed ∧
      ∃ r, (ns.join env name presented req peerIp signing t db).1.registry.byName name = some r ∧
        r.routes = renewRoutes (ns.registry.routesOf name) (declaredRoutes m role) t.now := by
  obtain ⟨plan, hwm, hplan, hregistry⟩ := join_registry h
  obtain ⟨granted, reg, relayAddr, hplans⟩ := joinPlan_eq_ok hplan
  obtain ⟨rfl, rfl⟩ : plan.member = m ∧ plan.role = role := by
    have hauth := (filter_eq_some_iff.mp hplans.authentic).1
    exact Prod.mk.inj (some.inj (hauth.symm.trans hm))
  obtain ⟨hfiled', hrecord⟩ := hplans.files hfiled
  rw [hregistry]
  exact ⟨⟨hfiled'.keyed, hfiled'.named⟩, plan.record, hrecord, hplans.routes⟩

end NetState

namespace JoinedAs

variable {env : CoordText} {name : String} {log : List RouteDeclaration} {ns : NetState}

theorem filed (h : JoinedAs env name log ns) : ns.registry.Filed := by
  induction h with
  | unknown filed | aside _ filed => exact filed
  | join _ member accepted ih => exact (join_record ih member accepted).1

theorem dated (h : JoinedAs env name log ns) : Dated log (ns.registry.routesOf name) := by
  induction h with
  | unknown _ unknown =>
    rw [routesOf, unknown]
    exact .nil
  | aside _ _ record ih =>
    rw [routesOf, record]
    exact ih
  | join joined member accepted ih =>
    obtain ⟨-, r, hr, hroutes⟩ := join_record joined.filed member accepted
    rw [routesOf, hr, map_some, getD_some, hroutes]
    exact ih.renew ⟨_, _⟩

theorem isSome_byName (h : JoinedAs env name log ns) : (ns.registry.byName name).isSome ↔ log ≠ [] := by
  induction h with
  | unknown _ unknown => simp [unknown]
  | aside _ _ record ih =>
    rw [← ih, ← isSome_map (f := (·.routes)), record, isSome_map]
  | join joined member accepted =>
    obtain ⟨-, r, hr, -⟩ := join_record joined.filed member accepted
    simp [hr]

end JoinedAs

/-! ### Two relays with one LAN -/

namespace RouteAgeExample

def lan : IpNet := .v4 0xc0a80000#32 ⟨24, Nat.lt_add_of_pos_right (Nat.succ_pos 8)⟩

def relay (secret : String) (lans : List IpNet) : MemberCfg :=
  { MemberCfg.default with secret := some secret, relayAddr := some "h:1", localCidrs := lans }

def cfg (lans : List IpNet) : NetworkConfig :=
  { NetworkExample.cfg with
    cidrs := [.v4 0x0a000000#32 ⟨24, Nat.lt_add_of_pos_right (Nat.succ_pos 8)⟩]
    relays := ((∅ : Std.ExtTreeMap String MemberCfg).insert "r1" (relay "s1" lans)).insert "r2" (relay "s2" [lan]) }

def join (ns : NetState) (name secret : String) : NetState × Except ApiError (Claims × JoinResponse) :=
  ns.join .byteText name secret ⟨secret, "k", "k"⟩ "host" ⟨[], fun _ => [], 0⟩ (NetworkExample.reading 5).clock
    (NetworkExample.reading 5).db

def start : NetState := created .byteText (NetworkExample.reading 0) (cfg [lan]) (new "u")

def first : NetState := (join start "r1" "s1").1
def both : NetState := (join first "r2" "s2").1
def dropped : NetState := (join { both with cfg := cfg [] } "r1" "s1").1
def again : NetState := (join { dropped with cfg := cfg [lan] } "r1" "s1").1

theorem joined_of_isSome (ns : NetState) (m : MemberCfg) {log : List RouteDeclaration}
    (h : JoinedAs .byteText "r1" log ns) (hm : ns.cfg.memberByName "r1" = some (m, .relay))
    (hok : (join ns "r1" "s1").2.toOption.isSome) :
    JoinedAs .byteText "r1" (⟨declaredRoutes m .relay, 5⟩ :: log) (join ns "r1" "s1").1 := by
  obtain ⟨⟨c, resp⟩, hc⟩ := isSome_iff_exists.mp hok
  exact h.join hm (toOption_eq_some.mp hc)

theorem both_joined : JoinedAs .byteText "r1" [⟨[lan], 5⟩] both := by
  have hstart : JoinedAs .byteText "r1" [] start := .unknown (filed_new "u") rfl
  have hfirst : JoinedAs .byteText "r1" [⟨[lan], 5⟩] first :=
    joined_of_isSome start (relay "s1" [lan]) hstart (by decide +kernel) (by decide +kernel)
  have hm : first.cfg.memberByName "r2" = some (relay "s2" [lan], .relay) := by decide +kernel
  obtain ⟨⟨c, resp⟩, hc⟩ := isSome_iff_exists.mp
    (by decide +kernel : (join first "r2" "s2").2.toOption.isSome)
  exact hfirst.aside (join_record hfirst.filed hm (toOption_eq_some.mp hc)).1 (by decide +kernel)

theorem again_joined : JoinedAs .byteText "r1" [⟨[lan], 5⟩, ⟨[], 5⟩, ⟨[lan], 5⟩] again := by
  have hwithout : JoinedAs .byteText "r1" [⟨[lan], 5⟩] { both with cfg := cfg [] } :=
    both_joined.aside both_joined.filed rfl
  have hdropped : JoinedAs .byteText "r1" [⟨[], 5⟩, ⟨[lan], 5⟩] dropped :=
    joined_of_isSome _ (relay "s1" []) hwithout (by decide +kernel) (by decide +kernel)
  have hwith : JoinedAs .byteText "r1" [⟨[], 5⟩, ⟨[lan], 5⟩] { dropped with cfg := cfg [lan] } :=
    hdropped.aside hdropped.filed rfl
  exact joined_of_isSome _ (relay "s1" [lan]) hwith (by decide +kernel) (by decide +kernel)

end RouteAgeExample

variable {env : CoordText} {name : String} {log : List RouteDeclaration} {ns : NetState}

theorem mem_resolveOwners_iff (h : JoinedAs env name log ns) (text : IpNetText) {r : MemberRecord}
    (hr : ns.registry.byName name = some r) (henabled : r.disabled = false)
    {p : IpNet × List (NodeId × Nat)} (hp : p ∈ ns.registry.resolveOwners text) {since : Nat} :
    (r.nodeId, since) ∈ p.2 ↔ heldSince log p.1 = some since := by
  obtain ⟨⟨id, hid⟩, rfl⟩ := byName_eq_some hr
  obtain rfl := h.filed.keyed id r hid
  have hroutes : ns.registry.routesOf r.name = r.routes := by rw [routesOf, hr]; rfl
  rw [mem_resolveOwners hp, byAge, mem_insertionSort, mem_registrantsOf,
    ← h.dated.dated ⟨p.1, since⟩, hroutes]
  constructor
  · rintro ⟨r', hr', -, hmem⟩
    cases hid.symm.trans hr'
    exact hmem
  · exact fun hmem => ⟨r, hid, henabled, hmem⟩

/-- After its joins a member has on record exactly the routes that the last one declared, each once and
dated by the first of the latest joins that all declared it, which is its age in the order of owners.
So a route that stays declared keeps its date. One that was dropped has the time of a later join, which
is no earlier, though it can be the same second. -/
theorem route_ages (h : JoinedAs env name log ns) :
    ((ns.registry.byName name).isSome = true ↔ log ≠ []) ∧
      ((ns.registry.routesOf name).map (·.cidr)).Nodup ∧
      (∀ c, c ∈ (ns.registry.routesOf name).map (·.cidr) ↔ ∃ d ∈ log.head?, c ∈ d.routes) ∧
      (∀ x ∈ ns.registry.routesOf name, heldSince log x.cidr = some x.firstGrantedUnix) ∧
      (∀ text r, ns.registry.byName name = some r → r.disabled = false →
        ∀ p ∈ ns.registry.resolveOwners text, ∀ since,
          (r.nodeId, since) ∈ p.2 ↔ heldSince log p.1 = some since) ∧
      ∀ later ns', JoinedAs env name (later ++ log) ns' →
        (later ++ log).Pairwise (fun d d' => d'.time ≤ d.time) →
        ∀ x ∈ ns.registry.routesOf name, ∀ y ∈ ns'.registry.routesOf name, y.cidr = x.cidr →
          ((∀ d ∈ later, x.cidr ∈ d.routes) → y.firstGrantedUnix = x.firstGrantedUnix) ∧
            ((∃ d ∈ later, x.cidr ∉ d.routes) →
              ∃ d ∈ later, y.firstGrantedUnix = d.time ∧ x.firstGrantedUnix ≤ d.time) := by
  have hdated := h.dated
  refine ⟨h.isSome_byName, hdated.nodup, fun c => ?_, fun x hx => (hdated.dated x).mp hx,
    fun text r hr henabled p hp since => mem_resolveOwners_iff h text hr henabled hp,
    fun later ns' h' htimes x hx y hy hsame => ?_⟩
  · rw [← isSome_heldSince]
    constructor
    · intro hc
      obtain ⟨x, hx, rfl⟩ := mem_map.mp hc
      rw [(hdated.dated x).mp hx]
      rfl
    · intro hheld
      obtain ⟨since, hsince⟩ := isSome_iff_exists.mp hheld
      exact mem_map.mpr ⟨⟨c, since⟩, (hdated.dated _).mpr hsince, rfl⟩
  · have hbefore := (hdated.dated x).mp hx
    have hafter := (h'.dated.dated y).mp hy
    rw [hsame] at hafter
    constructor
    · intro hall
      rw [heldSince_append_of_declared hbefore hall] at hafter
      exact (some.inj hafter).symm
    · intro hdrop
      rw [heldSince_append_of_dropped hdrop] at hafter
      obtain ⟨d, hd, hdtime⟩ := exists_of_heldSince hafter
      obtain ⟨d₀, hd₀, hd₀time⟩ := exists_of_heldSince hbefore
      have hle := (pairwise_append.mp htimes).2.2 d hd d₀ hd₀
      exact ⟨d, hd, hdtime.symm, hd₀time ▸ hle⟩

open RouteAgeExample

/-- The first relay, with its LAN taken away and given back: the route is dated by its last join. -/
theorem route_ages_again :
    again.registry.routesOf "r1" = [⟨lan, 5⟩] ∧
      heldSince [⟨[lan], 5⟩, ⟨[], 5⟩, ⟨[lan], 5⟩] lan = some 5 := by
  have hroutes : again.registry.routesOf "r1" = [⟨lan, 5⟩] := by decide +kernel
  refine ⟨hroutes, (route_ages again_joined).2.2.2.1 ⟨lan, 5⟩ ?_⟩
  exact mem_singleton_self _

/-- All of this within one second: the first relay has dropped the route and still owns it before the
second one. -/
theorem dropped_within_a_second :
    JoinedAs .byteText "r1" [⟨[lan], 5⟩] both ∧
      JoinedAs .byteText "r1" [⟨[lan], 5⟩, ⟨[], 5⟩, ⟨[lan], 5⟩] again ∧
      both.registry.resolveOwners .byteText = [(lan, [(1, 5), (2, 5)])] ∧
      dropped.registry.resolveOwners .byteText = [(lan, [(2, 5)])] ∧
      again.registry.resolveOwners .byteText = [(lan, [(1, 5), (2, 5)])] :=
  ⟨both_joined, again_joined, by decide +kernel, by decide +kernel, by decide +kernel⟩

end Nqvpn
