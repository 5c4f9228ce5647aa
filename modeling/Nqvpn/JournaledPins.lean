import Nqvpn.UnderlayPins

/-!
# Pins are journaled before they exist

At every instant the journal's file lists each host route this program created that is still in
the kernel, with the gateway it was created with. So whoever loads the file after a crash and
reconciles with nothing to pin removes them all.
-/

namespace Nqvpn

open PinJournal Std.ExtTreeMap Host

open CallProgram (ask)

def PinJournal.Lists (pinned : PinJournal) (r : HostRoute) : Prop := pinned[r.ip]? = some r.gw

namespace Host

def Journaled (h : Host) : Prop :=
  ∀ r ∈ h.kernel, r.ours = true → (load h.journal).Lists r

def Keeps (onDisk : PinJournal) (A : HostRoute → Prop) (h : Host) : Prop :=
  load h.journal = onDisk ∧ ∀ r ∈ h.kernel, r.ours = true → A r

def ownDrift : Drift Host where
  Leads h h' := h'.journal = h.journal ∧ ∀ r ∈ h'.kernel, r.ours = true → r ∈ h.kernel
  refl _ := ⟨rfl, fun _ hr _ => hr⟩
  trans h₁ h₂ := ⟨h₂.1.trans h₁.1, fun r hr ho => h₁.2 r (h₂.2 r hr ho) ho⟩

variable {onDisk : PinJournal} {A B : HostRoute → Prop} {h h' : Host}

theorem Keeps.stable (hk : h.Keeps onDisk A) (hd : ownDrift.Leads h h') : h'.Keeps onDisk A :=
  ⟨hd.1 ▸ hk.1, fun r hr ho => hk.2 r (hd.2 r hr ho) ho⟩

theorem Keeps.imp (hk : h.Keeps onDisk A) (hAB : ∀ r, A r → B r) : h.Keeps onDisk B :=
  ⟨hk.1, fun r hr ho => hAB r (hk.2 r hr ho)⟩

theorem Keeps.journaled (hk : h.Keeps onDisk A) (hA : ∀ r, A r → onDisk.Lists r) :
    h.Journaled := by
  intro r hr ho
  rw [hk.1]
  exact hA r (hk.2 r hr ho)

theorem ownDrift_move {m : TableMove} (hm : move m h = some h') : ownDrift.Leads h h' := by
  cases m with
  | install ip gw =>
    simp only [move] at hm
    split at hm
    · cases hm
    · cases hm
      refine ⟨rfl, fun r hr ho => ?_⟩
      rcases List.mem_append.mp hr with hr | hr
      · exact hr
      · rw [List.mem_singleton.mp hr] at ho
        cases ho
  | remove r =>
    cases hm
    exact ⟨rfl, fun r' hr _ => (List.mem_filter.mp hr).1⟩

/-! ### What a call does to the routes of ours -/

theorem Keeps.write {pinned : PinJournal} (hk : h.Keeps onDisk A) (answer : Unit)
    (he : exec (.writeJournal pinned.file) answer h = some h') : h'.Keeps pinned A := by
  cases he
  exact ⟨load_file pinned, hk.2⟩

theorem Keeps.del {ip : IpAddr} {gw : Gateway} (hk : h.Keeps onDisk A) (answer : Unit)
    (he : exec (.delHostRoute ip gw) answer h = some h') :
    h'.Keeps onDisk fun r => A r ∧ r.is ip gw = false := by
  cases he
  refine ⟨hk.1, fun r hr ho => ?_⟩
  obtain ⟨hmem, his⟩ := List.mem_filter.mp hr
  exact ⟨hk.2 r hmem ho, by simpa using his⟩

theorem Keeps.created {ip : IpAddr} {gw : Gateway} (hk : h.Keeps onDisk A)
    (he : exec (.addHostRoute ip gw) .created h = some h') :
    h'.Keeps onDisk fun r => A r ∨ r = ⟨ip, gw, true⟩ := by
  simp only [exec] at he
  split at he
  · cases he
  · cases he
    refine ⟨hk.1, fun r hr ho => ?_⟩
    rcases List.mem_append.mp hr with hr | hr
    · exact .inl (hk.2 r hr ho)
    · exact .inr (List.mem_singleton.mp hr)

end Host

/-! ### What each part of the program keeps -/

/-- The program may stop at any instant, and the file lists the routes of ours at each. -/
abbrev Safe {α : Type} (Q : α → Host → Prop) (p : PinProgram α) (h : Host) : Prop :=
  p.Holds exec ownDrift Journaled Q h

def PinJournal.Tends (pinned : PinJournal) (h : Host) : Prop := h.Keeps pinned pinned.Lists

section
variable {pinned : PinJournal} {ip : IpAddr} {gw : Gateway} {h : Host} {A : HostRoute → Prop}

theorem PinJournal.Tends.journaled (ht : pinned.Tends h) : h.Journaled :=
  Keeps.journaled ht fun _ hr => hr

theorem safe_persist {onDisk : PinJournal} (hdisk : ∀ r, A r → onDisk.Lists r)
    (hA : ∀ r, A r → pinned.Lists r) (hk : h.Keeps onDisk A) :
    Safe (fun p h => p = pinned ∧ h.Keeps pinned A) pinned.persist h := by
  refine CallProgram.holds_ask (fun _ hP => Keeps.journaled hP hdisk)
    (fun _ _ hP hd => Keeps.stable hP hd) (fun answer s s' hs he => ?_) hk
  exact CallProgram.holds_pure (fun s hs => hs.2.journaled hA)
    (fun s s' hs hd => ⟨hs.1, hs.2.stable hd⟩) ⟨rfl, hs.write answer he⟩

theorem safe_forget (hk : h.Keeps pinned fun r => pinned.Lists r ∧ r.ip ≠ ip) :
    Safe (fun (p : PinJournal) h => p = pinned.erase ip ∧ p.Tends h) (pinned.forget ip) h := by
  have hlists : ∀ r : HostRoute, pinned.Lists r ∧ r.ip ≠ ip →
      PinJournal.Lists (pinned.erase ip) r := by
    rintro r ⟨hr, hne⟩
    rw [PinJournal.Lists, getElem?_erase,
      if_neg fun heq => hne (compare_eq_iff_eq.mp heq).symm]
    exact hr
  refine (safe_persist (fun r hr => hr.1) hlists hk).mono ?_
  rintro p h' ⟨rfl, hk'⟩
  exact ⟨rfl, hk'.imp hlists⟩

theorem safe_unpin (hget : pinned[ip]? = some gw) (ht : pinned.Tends h) :
    Safe (fun p h => p = pinned.erase ip ∧ Tends p h) (delHostRoute ip gw >>= fun _ => pinned.forget ip) h := by
  refine CallProgram.holds_ask (fun _ => Tends.journaled)
    (fun _ _ hP hd => Keeps.stable hP hd) (fun answer s s' hs he => ?_) ht
  refine safe_forget ((Keeps.del hs answer he).imp ?_)
  -- A route of ours to this host has the journaled gateway, so it is the one deleted.
  rintro r ⟨hr, his⟩
  refine ⟨hr, ?_⟩
  rintro rfl
  rw [PinJournal.Lists, hget, Option.some.injEq] at hr
  simp [HostRoute.is, hr] at his

theorem lists_insert (hnone : pinned[ip]? = none) {r : HostRoute} (hr : pinned.Lists r) :
    r.ip ≠ ip ∧ PinJournal.Lists (pinned.insert ip gw) r := by
  have hne : r.ip ≠ ip := by
    rintro rfl
    rw [PinJournal.Lists, hnone] at hr
    cases hr
  refine ⟨hne, ?_⟩
  rw [PinJournal.Lists, getElem?_insert,
    if_neg fun heq => hne (compare_eq_iff_eq.mp heq).symm]
  exact hr

abbrev SafeRound (p : PinProgram (List IpAddr × PinJournal)) (h : Host) : Prop :=
  Safe (fun acc h => Tends acc.2 h) p h

variable {acc : List IpAddr × PinJournal}

theorem safe_return (ht : Tends acc.2 h) :
    SafeRound (pure acc) h :=
  CallProgram.holds_pure (fun _ => Tends.journaled) (fun _ _ hq hd => Keeps.stable hq hd)
    ht

theorem safe_addPin {ok : List IpAddr} (hnone : pinned[ip]? = none) (ht : pinned.Tends h) :
    SafeRound (addPin ok pinned ip gw) h := by
  have hrecorded : ∀ r : HostRoute, pinned.Lists r → PinJournal.Lists (pinned.insert ip gw) r :=
    fun r hr => (lists_insert hnone hr).2
  refine (safe_persist (fun _ hr => hr) hrecorded ht).bind ?_
  rintro p t ⟨rfl, hk⟩
  refine CallProgram.holds_ask (fun _ hs => hs.journaled hrecorded) (fun _ _ hs hd => hs.stable hd)
    (fun answer s s' hs he => ?_) hk
  have hwithdraw : ∀ ok, s'.Keeps (pinned.insert ip gw) pinned.Lists →
      SafeRound (forget (pinned.insert ip gw) ip >>= fun p => pure (ok, p)) s' := by
    intro ok hs'
    refine (safe_forget (hs'.imp fun r hr => (lists_insert hnone hr).symm)).bind ?_
    rintro p u ⟨rfl, hu⟩
    exact safe_return hu
  cases answer with
  | created =>
    refine safe_return ((Keeps.created hs he).imp ?_)
    rintro r (hr | rfl)
    · exact hrecorded r hr
    · exact getElem?_insert_self
  | present | failed =>
    cases he
    exact hwithdraw _ hs

theorem pinRules_journaled : PinRules ownDrift Journaled Tends where
  inv _ _ := Tends.journaled
  stable _ _ _ ht hd := Keeps.stable ht hd
  unpin := safe_unpin
  addPin := safe_addPin

theorem safe_reconcilePins_nil (ht : pinned.Tends h) :
    Safe (fun acc h => acc = ([], ∅) ∧ Tends ∅ h) (reconcilePins [] pinned) h := by
  refine (pinRules_journaled.dropStales ht).bind ?_
  rintro p s ⟨hget, hs⟩
  have hempty : p = ∅ := by
    apply ext_getElem?
    intro k
    rw [hget k, getElem?_empty]
    split_ifs with hk
    · rfl
    · simpa [mem_keys] using hk
  subst hempty
  exact CallProgram.holds_pure (fun _ hq => hq.2.journaled)
    (fun _ _ hq hd => ⟨hq.1, Keeps.stable hq.2 hd⟩) ⟨rfl, hs⟩

end

/-! ### Whole runs -/

theorem pinMachine_journals : pinMachine.Sound ownDrift Journaled Journaled
    Tends (fun _ => True) (fun _ _ => True) where
  fresh h hfresh r hr ho := by
    rw [hfresh.1 r hr] at ho
    cases ho
  boot _ hj := pinRules_journaled.openProgrammer ⟨rfl, hj⟩
  serve _ _ _ ht := pinRules_journaled.serve ht
  crash _ _ hj := hj
  moves _ _ _ _ hm := ownDrift_move hm
  down _ hj := hj
  idle _ _ ht := ht.journaled
  down_stable h h' hj hd r hr ho := by
    rw [hd.1]
    exact hj r (hd.2 r hr ho) ho
  idle_stable _ _ _ ht hd := Keeps.stable ht hd

/-- In every run of requests, restarts and crashes at any instant, with any gateways, any outcome of
each addition and any moves of other programs: the journal on disk lists every host route of ours
with its gateway; loading it and reconciling with nothing to pin returns with none of them left;
and what is written to the file is read back. -/
theorem pins_journaled_before_they_exist
    {s : CrashMachine.State TableCall TableCall.Answer PinJournal Host}
    (hs : pinMachine.system.Reachable s) :
    (∀ r ∈ s.around.kernel, r.ours = true →
      (load s.around.journal)[r.ip]? = some r.gw) ∧
    (∀ oracle : (c : TableCall) → Host → c.Answer,
      (∀ c h, (exec c (oracle c h) h).isSome = true) →
      ∃ h', (reconcilePins [] (load s.around.journal)).run exec oracle s.around =
          some (([], ∅), h') ∧ ∀ r ∈ h'.kernel, r.ours = false) ∧
    ∀ pinned : PinJournal, load pinned.file = pinned := by
  have hj : s.around.Journaled :=
    pinMachine_journals.invariant (hs.mono fun _ e _ => by cases e <;> trivial)
  refine ⟨hj, fun oracle ho => ?_, load_file⟩
  have ht : (load s.around.journal).Tends s.around := ⟨rfl, hj⟩
  obtain ⟨acc, h', hrun, rfl, hend⟩ := (safe_reconcilePins_nil ht).run ho
  refine ⟨h', hrun, fun r hr => ?_⟩
  by_contra ho'
  have hlists := hend.2 r hr (by simpa using ho')
  cases hlists

/-- A client that crashes right after its first pin was created. -/
theorem pins_journaled_before_they_exist_after_crash :
    ∃ s : PinExample.State, s.around.kernel = [⟨PinExample.resolver, PinExample.gateway, true⟩] ∧
      (load s.around.journal)[PinExample.resolver]? = some PinExample.gateway ∧
      ∃ h', (reconcilePins [] (load s.around.journal)).run exec
        (fun c _ => PinExample.reply .failed c) s.around = some (([], ∅), h') ∧
          ∀ r ∈ h'.kernel, r.ours = false := by
  have hrun : (pinMachine.system.run (PinExample.installed [])
      [.boot, .finish, .request [PinExample.resolver], .answer (PinExample.reply .created),
        .answer (PinExample.reply .created), .answer (PinExample.reply .created), .crash]).map
      (·.around) = some ⟨[⟨PinExample.resolver, PinExample.gateway, true⟩],
        some "8.8.8.8 192.168.1.1%2\n".toList, []⟩ := by decide +kernel
  obtain ⟨s, -, hs, hreach⟩ := PinExample.reachable_run hrun
  obtain ⟨hlists, hremoved, -⟩ := pins_journaled_before_they_exist hreach
  have hkernel : s.around.kernel = [⟨PinExample.resolver, PinExample.gateway, true⟩] := by rw [hs]
  refine ⟨s, hkernel, ?_, hremoved _ ?_⟩
  · exact hlists ⟨PinExample.resolver, PinExample.gateway, true⟩ (by rw [hkernel]; simp) rfl
  · intro c h
    cases c <;> rfl

end Nqvpn
