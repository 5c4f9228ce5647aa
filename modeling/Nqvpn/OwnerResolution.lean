import Nqvpn.Directory

/-!
# Who owns a prefix

Registrations are grouped by the text of their prefix and sorted by age; the owner is looked for
among the live ones. The lemmas say, prefix by prefix, what this comes to: the oldest live
registrant, or the previous owner while it is made to wait.
-/

namespace Nqvpn

open Std.ExtTreeMap Option

theorem getElem?_foldl_insert {α β κ : Type} [LinearOrder κ] (key : α → κ) (f : α → Option β)
    (step : Std.ExtTreeMap κ β → α → Std.ExtTreeMap κ β)
    (hstep : ∀ m a, (step m a)[key a]? = (f a).or m[key a]? ∧ ∀ k, key a ≠ k → (step m a)[k]? = m[k]?)
    {l : List α} (hnodup : (l.map key).Nodup) (init : Std.ExtTreeMap κ β) (k : κ) :
    (l.foldl step init)[k]? = ((l.find? (fun a => key a = k)).bind f).or init[k]? := by
  induction l generalizing init with
  | nil => rfl
  | cons a l ih =>
    rw [List.map_cons, List.nodup_cons] at hnodup
    obtain ⟨hself, hother⟩ := hstep init a
    rw [List.foldl_cons, ih hnodup.2, List.find?_cons]
    by_cases hkey : key a = k
    · subst hkey
      have hnone : l.find? (fun b => key b = key a) = none := by
        refine List.find?_eq_none.mpr fun b hb => ?_
        simp only [decide_eq_true_eq]
        intro hsame
        exact hnodup.1 (hsame ▸ List.mem_map_of_mem hb)
      rw [hnone, hself]
      simp
    · rw [hother k hkey]
      simp [hkey]

namespace Registry

variable {text : IpNetText} {reg : Registry} {c : IpNet} {o : NodeId} {granted : Nat}

def HasRegistration (reg : Registry) (c : IpNet) (o : NodeId) (granted : Nat) : Prop :=
  ∃ r : MemberRecord, reg.members[o]? = some r ∧ r.disabled = false ∧ ⟨c, granted⟩ ∈ r.routes

def registrations (reg : Registry) : List (NodeId × RouteReg) :=
  reg.members.toList.flatMap fun p => if p.2.disabled then [] else p.2.routes.map fun r => (p.1, r)

theorem mem_registrations {r : RouteReg} :
    (o, r) ∈ reg.registrations ↔ reg.HasRegistration r.cidr o r.firstGrantedUnix := by
  simp only [registrations, List.mem_flatMap]
  constructor
  · rintro ⟨⟨id, m⟩, hm, hr⟩
    split_ifs at hr with hdisabled
    · cases hr
    · obtain ⟨r', hr', heq⟩ := List.mem_map.mp hr
      cases heq
      exact ⟨m, mem_toList_iff_getElem?_eq_some.mp hm, by simpa using hdisabled, hr'⟩
  · rintro ⟨m, hm, henabled, hr⟩
    refine ⟨(o, m), mem_toList_iff_getElem?_eq_some.mpr hm, ?_⟩
    simp only [henabled, Bool.false_eq_true, if_false]
    exact List.mem_map_of_mem hr

def registrantsOf (done : List (NodeId × RouteReg)) (c : IpNet) : List (NodeId × Nat) :=
  (done.filter fun q => q.2.cidr = c).map fun q => (q.1, q.2.firstGrantedUnix)

theorem mem_registrantsOf :
    (o, granted) ∈ registrantsOf reg.registrations c ↔ reg.HasRegistration c o granted := by
  simp only [registrantsOf, List.mem_map, List.mem_filter, decide_eq_true_eq]
  constructor
  · rintro ⟨⟨id, r⟩, ⟨hr, rfl⟩, heq⟩
    cases heq
    exact mem_registrations.mp hr
  · intro h
    exact ⟨(o, ⟨c, granted⟩), ⟨mem_registrations.mpr h, rfl⟩, rfl⟩

/-- The registrations of a prefix stand under its text, and nothing else is in the map. -/
structure Collected (text : IpNetText) (done : List (NodeId × RouteReg))
    (byCidr : Std.ExtTreeMap String (IpNet × List (NodeId × Nat))) : Prop where
  entry : ∀ key e, byCidr[key]? = some e → key = text.render e.1 ∧ e.2 = registrantsOf done e.1
  present : ∀ q ∈ done, text.render q.2.cidr ∈ byCidr

theorem Collected.add {done : List (NodeId × RouteReg)}
    {byCidr : Std.ExtTreeMap String (IpNet × List (NodeId × Nat))} (h : Collected text done byCidr)
    (q : NodeId × RouteReg) : Collected text (done ++ [q]) (addRegistrant text q.1 byCidr q.2) := by
  have hof (c : IpNet) : registrantsOf (done ++ [q]) c =
      if q.2.cidr = c then registrantsOf done c ++ [(q.1, q.2.firstGrantedUnix)] else registrantsOf done c := by
    simp only [registrantsOf, List.filter_append, List.map_append]
    by_cases hc : q.2.cidr = c <;> simp [hc]
  refine ⟨fun key e he => ?_, fun q' hq' => ?_⟩
  · simp only [addRegistrant, getElem?_insert, compare_eq_iff_eq] at he
    split_ifs at he with hkey
    · cases he
      rw [getD_eq_getD_getElem?]
      cases hold : byCidr[text.render q.2.cidr]? with
      | none =>
        refine ⟨hkey.symm, ?_⟩
        -- Nobody has registered the prefix before.
        have hnil : registrantsOf done q.2.cidr = [] := by
          rw [registrantsOf, List.map_eq_nil_iff, List.filter_eq_nil_iff]
          intro q' hq' hsame
          have hmem := h.present q' hq'
          rw [of_decide_eq_true hsame, mem_iff_isSome_getElem?, hold] at hmem
          cases hmem
        simp only [getD_none]
        rw [hof, if_pos rfl, hnil]
      | some e' =>
        obtain ⟨htext, hregs⟩ := h.entry _ e' hold
        have hcidr : q.2.cidr = e'.1 := text.render_injective htext
        refine ⟨hkey.symm.trans htext, ?_⟩
        simp only [getD_some]
        rw [hof, if_pos hcidr, hregs]
    · obtain ⟨htext, hregs⟩ := h.entry key e he
      refine ⟨htext, ?_⟩
      rw [hof, if_neg fun hsame => hkey (by rw [hsame, htext]), hregs]
  · simp only [addRegistrant, mem_insert, compare_eq_iff_eq]
    rcases List.mem_append.mp hq' with hold | hnew
    · exact .inr (h.present q' hold)
    · rw [List.mem_singleton.mp hnew]
      exact .inl rfl

theorem collected_registrations (text : IpNetText) (reg : Registry) :
    Collected text reg.registrations (reg.members.toList.foldl (fun m (p : NodeId × MemberRecord) =>
      if p.2.disabled then m else p.2.routes.foldl (addRegistrant text p.1) m) ∅) := by
  have hloop : ∀ (todo done : List (NodeId × RouteReg)) byCidr, Collected text done byCidr →
      Collected text (done ++ todo) (todo.foldl (fun m q => addRegistrant text q.1 m q.2) byCidr) := by
    intro todo
    induction todo with
    | nil =>
      intro done byCidr h
      rw [List.append_nil]
      exact h
    | cons q todo ih =>
      intro done byCidr h
      rw [List.append_cons]
      exact ih (done ++ [q]) _ (h.add q)
  have hempty : Collected text [] ∅ := by
    refine ⟨fun key e he => ?_, fun q hq => ?_⟩
    · simp at he
    · cases hq
  have hall := hloop reg.registrations [] ∅ hempty
  have hfold : reg.registrations.foldl (fun m q => addRegistrant text q.1 m q.2) ∅ =
      reg.members.toList.foldl (fun m (p : NodeId × MemberRecord) =>
        if p.2.disabled then m else p.2.routes.foldl (addRegistrant text p.1) m) ∅ := by
    rw [registrations, List.foldl_flatMap]
    congr 1
    funext m p
    split_ifs
    · rfl
    · rw [List.foldl_map]
  rw [List.nil_append, hfold] at hall
  exact hall

def byAge (reg : Registry) (c : IpNet) : List (NodeId × Nat) :=
  (registrantsOf reg.registrations c).insertionSort (fun a b => toLex (a.2, a.1) ≤ toLex (b.2, b.1))

theorem mem_resolveOwners {p : IpNet × List (NodeId × Nat)} (h : p ∈ reg.resolveOwners text) :
    p.2 = reg.byAge p.1 := by
  obtain ⟨⟨key, e⟩, he, rfl⟩ := List.mem_map.mp h
  have hkey := mem_toList_iff_getElem?_eq_some.mp he
  rw [byAge, ← ((collected_registrations text reg).entry key e hkey).2]

theorem exists_mem_resolveOwners (text : IpNetText) (h : reg.HasRegistration c o granted) :
    ∃ p ∈ reg.resolveOwners text, p.1 = c := by
  have hq : (o, (⟨c, granted⟩ : RouteReg)) ∈ reg.registrations := mem_registrations.mpr h
  have hmem := (collected_registrations text reg).present _ hq
  rw [mem_iff_isSome_getElem?] at hmem
  obtain ⟨e, he⟩ := isSome_iff_exists.mp hmem
  have htext := ((collected_registrations text reg).entry _ e he).1
  refine ⟨_, List.mem_map.mpr ⟨(_, e), mem_toList_iff_getElem?_eq_some.mpr he, rfl⟩, ?_⟩
  exact (text.render_injective htext).symm

theorem nodup_resolveOwners (text : IpNetText) (reg : Registry) :
    ((reg.resolveOwners text).map fun p => text.render p.1).Nodup := by
  unfold resolveOwners
  rw [List.map_map]
  have hkeys : ∀ m : Std.ExtTreeMap String (IpNet × List (NodeId × Nat)), m.keys.Nodup :=
    fun m => nodup_keys
  have hcollected := collected_registrations text reg
  generalize reg.members.toList.foldl (fun m (p : NodeId × MemberRecord) =>
      if p.2.disabled then m else p.2.routes.foldl (addRegistrant text p.1) m) ∅ = byCidr at hcollected
  have hrender : byCidr.toList.map ((fun p : IpNet × List (NodeId × Nat) => text.render p.1) ∘
      fun p => (p.2.1, p.2.2.insertionSort (fun a b => toLex (a.2, a.1) ≤ toLex (b.2, b.1)))) =
        byCidr.toList.map Prod.fst := by
    refine List.map_congr_left fun p hp => ?_
    obtain ⟨key, e⟩ := p
    exact (hcollected.entry key e (mem_toList_iff_getElem?_eq_some.mp hp)).1.symm
  rw [hrender, map_fst_toList_eq_keys]
  exact hkeys byCidr

/-! ### The oldest live registrant -/

def LiveRegistrant (reg : Registry) (leases : Leases) (c : IpNet) (o : NodeId) : Prop :=
  leases.isOnline o = true ∧ ∃ granted, reg.HasRegistration c o granted

/-- The one whose registration is the oldest, of two equally old ones that of the lower node id. -/
def IsOldest (reg : Registry) (leases : Leases) (c : IpNet) (o : NodeId) : Prop :=
  leases.isOnline o = true ∧ ∃ granted, reg.HasRegistration c o granted ∧
    ∀ o' granted', leases.isOnline o' = true → reg.HasRegistration c o' granted' →
      toLex (granted, o) ≤ toLex (granted', o')

def oldestLive (reg : Registry) (leases : Leases) (c : IpNet) : Option NodeId :=
  (((reg.byAge c).filter (fun q => leases.isOnline q.1)).map Prod.fst).head?

variable {leases : Leases}

theorem mem_byAge : (o, granted) ∈ reg.byAge c ↔ reg.HasRegistration c o granted := by
  rw [byAge, List.mem_insertionSort, mem_registrantsOf]

theorem IsOldest.unique {o' : NodeId} (h : reg.IsOldest leases c o) (h' : reg.IsOldest leases c o') : o = o' := by
  obtain ⟨hon, granted, hreg, hmin⟩ := h
  obtain ⟨hon', granted', hreg', hmin'⟩ := h'
  have hsame := le_antisymm (hmin o' granted' hon' hreg') (hmin' o granted hon hreg)
  exact congrArg Prod.snd (toLex.injective hsame)

theorem IsOldest.live (h : reg.IsOldest leases c o) : reg.LiveRegistrant leases c o := by
  obtain ⟨hon, granted, hreg, -⟩ := h
  exact ⟨hon, granted, hreg⟩

theorem isOldest_of_oldestLive (h : reg.oldestLive leases c = some o) : reg.IsOldest leases c o := by
  have hsorted : ((reg.byAge c).filter (fun q => leases.isOnline q.1)).Pairwise
      (fun a b => toLex (a.2, a.1) ≤ toLex (b.2, b.1)) :=
    (List.pairwise_insertionSort _ _).sublist List.filter_sublist
  rw [oldestLive, List.head?_map] at h
  obtain ⟨⟨o', granted⟩, hhead, rfl⟩ := map_eq_some_iff.mp h
  obtain ⟨rest, hlist⟩ := List.head?_eq_some_iff.mp hhead
  have hmem : (o', granted) ∈ (reg.byAge c).filter (fun q => leases.isOnline q.1) := by
    rw [hlist]
    exact List.mem_cons_self
  obtain ⟨hreg, hon⟩ := List.mem_filter.mp hmem
  refine ⟨hon, granted, mem_byAge.mp hreg, fun o'' granted'' hon'' hreg'' => ?_⟩
  have hmem'' : (o'', granted'') ∈ (reg.byAge c).filter (fun q => leases.isOnline q.1) :=
    List.mem_filter.mpr ⟨mem_byAge.mpr hreg'', hon''⟩
  rw [hlist] at hsorted hmem''
  rcases List.mem_cons.mp hmem'' with heq | hrest
  · cases heq
    exact le_rfl
  · exact (List.pairwise_cons.mp hsorted).1 _ hrest

theorem oldestLive_eq_none : reg.oldestLive leases c = none ↔ ∀ o, ¬ reg.LiveRegistrant leases c o := by
  rw [oldestLive, List.head?_map, map_eq_none_iff, List.head?_eq_none_iff, List.filter_eq_nil_iff]
  constructor
  · rintro hnone o ⟨hon, granted, hreg⟩
    exact hnone (o, granted) (mem_byAge.mpr hreg) hon
  · rintro hnone ⟨o, granted⟩ hreg hon
    exact hnone o ⟨hon, granted, mem_byAge.mp hreg⟩

theorem oldestLive_eq_some : reg.oldestLive leases c = some o ↔ reg.IsOldest leases c o := by
  refine ⟨isOldest_of_oldestLive, fun h => ?_⟩
  cases hfound : reg.oldestLive leases c with
  | none => exact absurd h.live (oldestLive_eq_none.mp hfound o)
  | some o' => rw [(isOldest_of_oldestLive hfound).unique h]

end Registry

namespace Directory

variable {text : IpNetText} {d : Directory} {reg : Registry} {leases : Leases} {now : Nat}

theorem getElem?_owners_resolveOwners (text : IpNetText) (d : Directory) (reg : Registry) (leases : Leases)
    (now : Nat) (key : String) :
    (d.resolveOwners text reg leases now).owners[key]? =
      ((reg.resolveOwners text).find? (fun p => text.render p.1 = key)).bind fun p =>
        d.chooseOwner leases now d.owners[key]? (reg.oldestLive leases p.1) := by
  unfold resolveOwners
  simp only
  rw [getElem?_foldl_insert (fun p : IpNet × List (NodeId × Nat) => text.render p.1)
    (fun p => d.chooseOwner leases now d.owners[text.render p.1]?
      ((p.2.filter (fun q => leases.isOnline q.1)).map Prod.fst).head?) _ ?_
    (Registry.nodup_resolveOwners text reg)]
  swap
  · intro m p
    split
    · rename_i o ho
      rw [ho]
      refine ⟨getElem?_insert_self, fun k hk => ?_⟩
      rw [getElem?_insert, if_neg (by simpa using hk)]
    · rename_i ho
      rw [ho]
      exact ⟨rfl, fun _ _ => rfl⟩
  cases hfound : (reg.resolveOwners text).find? (fun p => text.render p.1 = key) with
  | none => simp
  | some p =>
    have hkey : text.render p.1 = key := by simpa using List.find?_some hfound
    have hage := Registry.mem_resolveOwners (List.mem_of_find?_eq_some hfound)
    simp only [bind_some, hkey, hage, Registry.oldestLive]
    rw [getElem?_empty, or_none]

theorem getElem?_resolveOwners (text : IpNetText) (d : Directory) (reg : Registry) (leases : Leases)
    (now : Nat) (c : IpNet) :
    (d.resolveOwners text reg leases now).owners[text.render c]? =
      d.chooseOwner leases now d.owners[text.render c]? (reg.oldestLive leases c) := by
  rw [getElem?_owners_resolveOwners]
  cases hfound : (reg.resolveOwners text).find? (fun p => text.render p.1 = text.render c) with
  | some p =>
    have hrender : text.render p.1 = text.render c := by simpa using List.find?_some hfound
    rw [bind_some, text.render_injective hrender]
  | none =>
    have hnone : reg.oldestLive leases c = none := by
      refine Registry.oldestLive_eq_none.mpr fun o ho => ?_
      obtain ⟨-, granted, hreg⟩ := ho
      obtain ⟨p, hp, rfl⟩ := Registry.exists_mem_resolveOwners text hreg
      have hne := List.find?_eq_none.mp hfound p hp
      simp at hne
    rw [hnone, bind_none]
    cases d.owners[text.render c]? <;> rfl

theorem chooseOwner_cases (d : Directory) (leases : Leases) (now : Nat) (current best : Option NodeId) :
    d.chooseOwner leases now current best = best ∨
      ∃ cur b, current = some cur ∧ best = some b ∧ cur ≠ b ∧ leases.isOnline cur ∧
        now - leases.onlineSince.getD b 0 / 1000 < d.holdDownSecs ∧
        d.chooseOwner leases now current best = some cur := by
  unfold chooseOwner
  cases current with
  | none => exact .inl rfl
  | some cur =>
    cases best with
    | none => exact .inl rfl
    | some b =>
      simp only
      split_ifs with hsame honline hwait
      · exact .inl (congrArg some hsame)
      · exact .inl rfl
      · exact .inr ⟨cur, b, rfl, rfl, hsame, honline, not_le.mp hwait, rfl⟩
      · exact .inl rfl

theorem chooseOwner_waiting {cur b : NodeId} (hne : cur ≠ b) (honline : leases.isOnline cur)
    (hwait : now - leases.onlineSince.getD b 0 / 1000 < d.holdDownSecs) :
    d.chooseOwner leases now (some cur) (some b) = some cur := by
  simp only [chooseOwner, if_neg hne, if_pos honline]
  rw [if_neg (not_le.mpr hwait)]

end Directory

end Nqvpn
