import Nqvpn.UnderlayPins

/-!
# Routes of other programs

An entry is journaled before the addition that may find the route already there. So until the
entry is withdrawn, the journal names a route that another program installed, and whoever loads it
then deletes that route. Where no process stops in that window, and nobody installs a route the
journal names, no route of another program is ever deleted.
-/

namespace Nqvpn

open PinJournal Host Std.ExtTreeMap

def PinJournal.Names (pinned : PinJournal) (r : HostRoute) : Prop :=
  ∃ gw, pinned[r.ip]? = some gw ∧ r.is r.ip gw = true

namespace Host

def Spared (h : Host) : Prop := h.lost = []

/-- The journal on disk, and what is true of every route of other programs; none was deleted. -/
def Spares (onDisk : PinJournal) (A : HostRoute → Prop) (h : Host) : Prop :=
  load h.journal = onDisk ∧ h.lost = [] ∧ ∀ r ∈ h.kernel, r.ours = false → A r

def Unnamed (h : Host) : Prop :=
  ∀ r ∈ h.kernel, r.ours = false → ¬(load h.journal).Names r

def Avoids (h : Host) : TableMove → Prop
  | .install ip gw => ¬(load h.journal).Names ⟨ip, gw, false⟩
  | .remove _ => True

def foreignDrift : Drift Host where
  Leads h h' := h'.journal = h.journal ∧ h'.lost = h.lost ∧
    ∀ r ∈ h'.kernel, r.ours = false → r ∈ h.kernel ∨ ¬(load h.journal).Names r
  refl _ := ⟨rfl, rfl, fun _ hr _ => Or.inl hr⟩
  trans := by
    rintro s t u ⟨hj₁, hl₁, hk₁⟩ ⟨hj₂, hl₂, hk₂⟩
    refine ⟨hj₂.trans hj₁, hl₂.trans hl₁, fun r hr ho => ?_⟩
    rcases hk₂ r hr ho with hr | hr
    · exact hk₁ r hr ho
    · exact Or.inr (hj₁ ▸ hr)

variable {onDisk : PinJournal} {A B : HostRoute → Prop} {h h' : Host}

theorem Spares.stable (hs : h.Spares onDisk A) (hA : ∀ r, ¬onDisk.Names r → A r)
    (hd : foreignDrift.Leads h h') : h'.Spares onDisk A := by
  refine ⟨hd.1 ▸ hs.1, hd.2.1.trans hs.2.1, fun r hr ho => ?_⟩
  rcases hd.2.2 r hr ho with hr | hr
  · exact hs.2.2 r hr ho
  · exact hA r (hs.1 ▸ hr)

theorem Spares.imp (hs : h.Spares onDisk A) (hAB : ∀ r, A r → B r) : h.Spares onDisk B :=
  ⟨hs.1, hs.2.1, fun r hr ho => hAB r (hs.2.2 r hr ho)⟩

theorem foreignDrift_move {m : TableMove} (hm : move m h = some h') (ha : h.Avoids m) :
    foreignDrift.Leads h h' := by
  cases m with
  | install ip gw =>
    simp only [move] at hm
    split at hm
    · cases hm
    · cases hm
      refine ⟨rfl, rfl, fun r hr ho => ?_⟩
      rcases List.mem_append.mp hr with hr | hr
      · exact .inl hr
      · rw [List.mem_singleton.mp hr]
        exact .inr ha
  | remove r =>
    cases hm
    exact ⟨rfl, rfl, fun r' hr _ => .inl (List.mem_filter.mp hr).1⟩

/-! ### What a call does to the routes of others -/

theorem Spares.write {pinned : PinJournal} (hs : h.Spares onDisk A) (answer : Unit)
    (he : exec (.writeJournal pinned.file) answer h = some h') : h'.Spares pinned A := by
  cases he
  exact ⟨load_file pinned, hs.2⟩

variable {ip : IpAddr} {gw : Gateway}

theorem Spares.del (hs : h.Spares onDisk A) (answer : Unit) (hA : ∀ r, A r → r.is ip gw = false)
    (he : exec (.delHostRoute ip gw) answer h = some h') :
    h'.Spares onDisk A := by
  cases he
  refine ⟨hs.1, ?_, fun r hr ho => hs.2.2 r (List.mem_filter.mp hr).1 ho⟩
  have hnone : h.kernel.filter (fun r => r.is ip gw && !r.ours) = [] := by
    rw [List.filter_eq_nil_iff]
    intro r hr hboth
    simp only [Bool.and_eq_true, Bool.not_eq_true'] at hboth
    rw [hA r (hs.2.2 r hr hboth.2)] at hboth
    cases hboth.1
  simp [hs.2.1, hnone]

theorem Spares.created (hs : h.Spares onDisk A) (he : exec (.addHostRoute ip gw) .created h = some h') :
    h'.Spares onDisk fun r => A r ∧ r.is ip gw = false := by
  simp only [exec] at he
  split at he
  · cases he
  · rename_i hnone
    cases he
    refine ⟨hs.1, hs.2.1, fun r hr ho => ?_⟩
    rcases List.mem_append.mp hr with hr | hr
    · refine ⟨hs.2.2 r hr ho, ?_⟩
      rw [List.any_eq_true, not_exists] at hnone
      simpa [hr] using hnone r
    · rw [List.mem_singleton.mp hr] at ho
      cases ho

end Host

/-! ### What each part of the program keeps -/

abbrev Sparing {α : Type} (Q : α → Host → Prop) (p : PinProgram α) (h : Host) : Prop :=
  p.Holds exec foreignDrift Spared Q h

/-- The journal in memory is the one on disk, and names no route of another program. -/
def PinJournal.Clean (pinned : PinJournal) (h : Host) : Prop :=
  h.Spares pinned fun r => ¬pinned.Names r

section
variable {pinned : PinJournal} {ip : IpAddr} {gw : Gateway} {h : Host} {A : HostRoute → Prop}

theorem PinJournal.Clean.spared (hc : pinned.Clean h) : h.Spared := hc.2.1

theorem PinJournal.Clean.stable {h' : Host} (hc : pinned.Clean h) (hd : foreignDrift.Leads h h') :
    pinned.Clean h' :=
  Spares.stable hc (fun _ hr => hr) hd

theorem sparing_persist {onDisk : PinJournal} (hdisk : ∀ r, ¬onDisk.Names r → A r)
    (hA : ∀ r, ¬pinned.Names r → A r) (hs : h.Spares onDisk A) :
    Sparing (fun p h => p = pinned ∧ h.Spares pinned A) pinned.persist h := by
  refine CallProgram.holds_ask (fun _ hP => hP.2.1) (fun _ _ hP hd => Spares.stable hP hdisk hd)
    (fun answer s s' hP he => ?_) hs
  exact CallProgram.holds_pure (fun s hs => hs.2.2.1)
    (fun s s' hs hd => ⟨hs.1, hs.2.stable hA hd⟩) ⟨rfl, hP.write answer he⟩

variable {r : HostRoute} {acc : List IpAddr × PinJournal} {ok : List IpAddr}

theorem names_of_erase (hr : Names (pinned.erase ip) r) :
    r.ip ≠ ip ∧ pinned.Names r := by
  obtain ⟨gw, hget, his⟩ := hr
  rw [getElem?_erase] at hget
  split_ifs at hget with heq
  exact ⟨fun h => heq (compare_eq_iff_eq.mpr h.symm), gw, hget, his⟩

theorem names_of_insert (hr : Names (pinned.insert ip gw) r) :
    r.is ip gw ∨ r.ip ≠ ip ∧ pinned.Names r := by
  obtain ⟨gw', hget, his⟩ := hr
  rw [getElem?_insert] at hget
  split_ifs at hget with heq
  · rw [Option.some.injEq] at hget
    left
    rw [hget, compare_eq_iff_eq.mp heq]
    exact his
  · exact .inr ⟨fun h => heq (compare_eq_iff_eq.mpr h.symm), gw', hget, his⟩

theorem names_insert (hnone : pinned[ip]? = none) (hr : pinned.Names r) :
    Names (pinned.insert ip gw) r := by
  obtain ⟨gw', hget, his⟩ := hr
  refine ⟨gw', ?_, his⟩
  rw [getElem?_insert]
  split_ifs with heq
  · rw [← compare_eq_iff_eq.mp heq, hnone] at hget
    cases hget
  · exact hget

theorem sparing_forget (hs : h.Spares pinned fun r => ¬Names (pinned.erase ip) r) :
    Sparing (fun (p : PinJournal) h => p = pinned.erase ip ∧ p.Clean h) (pinned.forget ip) h := by
  refine (sparing_persist (fun r hr hn => hr (names_of_erase hn).2) (fun r hr => hr) hs).mono ?_
  rintro p h' ⟨rfl, hs'⟩
  exact ⟨rfl, hs'⟩

theorem sparing_unpin (hget : pinned[ip]? = some gw) (hc : pinned.Clean h) :
    Sparing (fun p h => p = pinned.erase ip ∧ Clean p h) (delHostRoute ip gw >>= fun _ => pinned.forget ip) h := by
  refine CallProgram.holds_ask (fun _ => Clean.spared)
    (fun _ _ hP hd => Clean.stable hP hd) (fun answer s s' hs he => ?_) hc
  refine sparing_forget (Spares.imp (Spares.del hs answer (fun r hr => ?_) he) fun r hr hn => hr (names_of_erase hn).2)
  by_contra his
  have hip : r.ip = ip := by
    simp only [HostRoute.is, Bool.not_eq_false, Bool.and_eq_true, beq_iff_eq] at his
    exact his.1.1
  subst hip
  exact hr ⟨gw, hget, by simpa using his⟩

abbrev SparingRound (p : PinProgram (List IpAddr × PinJournal)) (h : Host) : Prop :=
  Sparing (fun acc h => Clean acc.2 h) p h

theorem sparing_return (hc : Clean acc.2 h) :
    SparingRound (pure acc) h :=
  CallProgram.holds_pure (fun _ => Clean.spared)
    (fun _ _ hq hd => Clean.stable hq hd) hc

/-- The entry just recorded may name a route of another program; by the end of the round the route
was created by us, or the entry is withdrawn. -/
theorem sparing_addPin (hnone : pinned[ip]? = none) (hc : pinned.Clean h) :
    SparingRound (addPin ok pinned ip gw) h := by
  have hold : ∀ r : HostRoute, ¬Names (pinned.insert ip gw) r → ¬pinned.Names r :=
    fun r hr hn => hr (names_insert hnone hn)
  refine (sparing_persist (fun _ hr => hr) hold hc).bind ?_
  rintro p t ⟨rfl, ht⟩
  refine CallProgram.holds_ask (fun _ hs => hs.2.1) (fun _ _ hs hd => hs.stable hold hd)
    (fun answer s s' hs he => ?_) ht
  have hwithdraw : ∀ ok, s'.Spares (pinned.insert ip gw) (fun r => ¬pinned.Names r) →
      SparingRound (forget (pinned.insert ip gw) ip >>= fun p => pure (ok, p)) s' := by
    intro ok hs'
    refine (sparing_forget (hs'.imp fun r hr hn => ?_)).bind ?_
    · obtain ⟨hne, hn⟩ := names_of_erase hn
      rcases names_of_insert hn with his | ⟨-, hn⟩
      · simp only [HostRoute.is, Bool.and_eq_true, beq_iff_eq] at his
        exact hne his.1.1
      · exact hr hn
    · rintro p u ⟨rfl, hu⟩
      exact sparing_return hu
  cases answer with
  | created =>
    refine sparing_return ((Spares.created hs he).imp ?_)
    rintro r ⟨hr, his⟩ hn
    rcases names_of_insert hn with his' | ⟨-, hn⟩
    · rw [his] at his'
      cases his'
    · exact hr hn
  | present | failed =>
    cases he
    exact hwithdraw _ hs

theorem pinRules_spared : PinRules foreignDrift Spared Clean where
  inv _ _ := Clean.spared
  stable _ _ _ hc hd := Clean.stable hc hd
  unpin := sparing_unpin
  addPin := sparing_addPin

end

/-! ### Whole runs -/

theorem pinMachine_spares : pinMachine.Sound foreignDrift Spared
    (fun h => (load h.journal).Clean h) Clean Unnamed Avoids where
  fresh h hfresh := by
    refine ⟨rfl, hfresh.2.2, fun r _ _ => ?_⟩
    rw [hfresh.2.1]
    rintro ⟨gw, hget, -⟩
    cases hget
  boot _ hc := pinRules_spared.openProgrammer hc
  serve _ _ _ hc := pinRules_spared.serve hc
  crash _ hnamed hspared := ⟨rfl, hspared, hnamed⟩
  moves _ _ _ ha hm := foreignDrift_move hm ha
  down _ hc := hc.spared
  idle _ _ hc := hc.spared
  down_stable h h' hc hd := by
    rw [hd.1]
    exact Clean.stable hc hd
  idle_stable _ _ _ hc hd := Clean.stable hc hd

/-- In every run in which the process stops only while the journal on disk names no route of
another program, and other programs install no route the journal names, no route of another
program is ever deleted. -/
theorem foreign_routes_never_deleted
    {s : CrashMachine.State TableCall TableCall.Answer PinJournal Host}
    (hs : pinMachine.system.ReachableWith (CrashMachine.Allows Unnamed Avoids) s) :
    s.around.lost = [] :=
  pinMachine_spares.invariant hs

/-- A client that finds its resolver already routed, and then pins nothing. -/
theorem foreign_routes_never_deleted_present : ∃ s : PinExample.State,
    s.around.kernel = [⟨PinExample.resolver, PinExample.gateway, false⟩] ∧ s.around.lost = [] := by
  let es : List PinExample.Event := [.boot, .finish, .request [PinExample.resolver],
    .answer (PinExample.reply .present), .answer (PinExample.reply .present),
    .answer (PinExample.reply .present), .answer (PinExample.reply .present), .finish, .request [],
    .finish]
  have hrun : (pinMachine.system.run
      (PinExample.installed [(PinExample.resolver, PinExample.gateway)]) es).map (·.around.kernel) =
      some [⟨PinExample.resolver, PinExample.gateway, false⟩] := by decide +kernel
  obtain ⟨s, hs, hkernel⟩ := Option.map_eq_some_iff.mp hrun
  refine ⟨s, hkernel, foreign_routes_never_deleted (.of_run (.initial (PinExample.initial_installed _))
    ?_ hs)⟩
  intro e he s
  simp only [es, List.mem_cons, List.not_mem_nil, or_false] at he
  rcases he with rfl | rfl | rfl | rfl | rfl | rfl | rfl | rfl | rfl | rfl <;> trivial

/-- A resolver already routed through the gateway by another program. The client records its pin,
learns that the route was there, and stops before it withdraws the entry; its successor deletes
the route. -/
theorem foreign_route_deleted_after_crash :
    ¬∀ s : PinExample.State, pinMachine.system.Reachable s → s.around.lost = [] := by
  intro hall
  have hrun : (pinMachine.system.run
      (PinExample.installed [(PinExample.resolver, PinExample.gateway)])
      [.boot, .finish, .request [PinExample.resolver], .answer (PinExample.reply .present),
        .answer (PinExample.reply .present), .answer (PinExample.reply .present), .crash, .boot,
        .answer (PinExample.reply .present)]).map (·.around) =
      some ⟨[], some "8.8.8.8 192.168.1.1%2\n".toList,
        [⟨PinExample.resolver, PinExample.gateway, false⟩]⟩ := by decide +kernel
  obtain ⟨s, -, hs, hreach⟩ := PinExample.reachable_run hrun
  have hlost := hall s hreach
  rw [hs] at hlost
  cases hlost

end Nqvpn
