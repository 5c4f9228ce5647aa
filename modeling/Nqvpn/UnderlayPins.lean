import Nqvpn.PinJournal

/-!
# Reconciling the underlay pins

`reconcile_pins` brings the pins in line with the hosts to pin and the current default gateway.
Its order against the journal is write-ahead: an entry is written before the kernel gains the route
and removed after the kernel lost it. The process may stop between any two of its calls.
-/

namespace Nqvpn

open CallProgram (ask)

/-- What `add_host_route` reports: it made the route, one was already there, or an error. -/
inductive Added
  | created
  | present
  | failed
deriving DecidableEq, Repr

/-- What `reconcile_pins` asks of the host: its routing table and the journal's file. -/
inductive TableCall
  | defaultGateway (v6 : Bool)
  | addHostRoute (ip : IpAddr) (gw : Gateway)
  | delHostRoute (ip : IpAddr) (gw : Gateway)
  | writeJournal (file : Option (List Char))
deriving DecidableEq, Repr

@[reducible] def TableCall.Answer : TableCall → Type
  | defaultGateway _ => Option Gateway
  | addHostRoute _ _ => Added
  | delHostRoute _ _ => Unit
  | writeJournal _ => Unit

abbrev PinProgram := CallProgram TableCall TableCall.Answer

def defaultGateway (v6 : Bool) : PinProgram (Option Gateway) := ask (TableCall.defaultGateway v6)

def addHostRoute (ip : IpAddr) (gw : Gateway) : PinProgram Added := ask (TableCall.addHostRoute ip gw)

def delHostRoute (ip : IpAddr) (gw : Gateway) : PinProgram Unit := ask (TableCall.delHostRoute ip gw)

namespace PinJournal

def persist (pinned : PinJournal) : PinProgram PinJournal := do
  let _ ← ask (TableCall.writeJournal (file pinned))
  return pinned

def record (pinned : PinJournal) (ip : IpAddr) (gw : Gateway) : PinProgram PinJournal :=
  persist (pinned.insert ip gw)

def forget (pinned : PinJournal) (ip : IpAddr) : PinProgram PinJournal := persist (pinned.erase ip)

end PinJournal

def dropStale (pinned : PinJournal) (ip : IpAddr) : PinProgram PinJournal :=
  match pinned[ip]? with
  | some gw => do
    delHostRoute ip gw
    pinned.forget ip
  | none => return pinned

def addPin (ok : List IpAddr) (pinned : PinJournal) (ip : IpAddr) (gw : Gateway) :
    PinProgram (List IpAddr × PinJournal) := do
  let pinned ← pinned.record ip gw
  match ← addHostRoute ip gw with
  | .created => return (ok ++ [ip], pinned)
  -- Routed the way we want by someone else: usable, but not ours.
  | .present =>
    let pinned ← pinned.forget ip
    return (ok ++ [ip], pinned)
  | .failed =>
    let pinned ← pinned.forget ip
    return (ok, pinned)

/-- A pin through the current gateway stands; one through another gateway is replaced. -/
def pinThrough (ok : List IpAddr) (pinned : PinJournal) (ip : IpAddr) (gw : Gateway) :
    PinProgram (List IpAddr × PinJournal) :=
  match pinned[ip]? with
  | some had =>
    if had = gw then return (ok ++ [ip], pinned)
    else do
      delHostRoute ip had
      let pinned ← pinned.forget ip
      addPin ok pinned ip gw
  | none => addPin ok pinned ip gw

/-- One round of the loop over wanted hosts. Without a default gateway the host is left alone. -/
def pinWanted (acc : List IpAddr × PinJournal) (ip : IpAddr) :
    PinProgram (List IpAddr × PinJournal) := do
  match ← defaultGateway ip.isIpv6 with
  | none => return acc
  | some gw => pinThrough acc.1 acc.2 ip gw

def reconcilePins (want : List IpAddr) (pinned : PinJournal) :
    PinProgram (List IpAddr × PinJournal) := do
  let stale := pinned.keys.filter fun ip => ip ∉ want
  let pinned ← stale.foldlM dropStale pinned
  (IpAddr.sortedSet want).foldlM pinWanted ([], pinned)

/-- `NetRouteProgrammer::open`: what a dead predecessor left in the journal is removed first. -/
def openProgrammer (journal : PinJournal) : PinProgram PinJournal :=
  if journal.isEmpty then return journal
  else do
    let (_, pinned) ← reconcilePins [] journal
    return pinned

/-! ### The host -/

/-- A host route in the kernel, and whether this program created it. -/
structure HostRoute where
  ip : IpAddr
  gw : Gateway
  ours : Bool
deriving DecidableEq, Repr

/-- `has_host_route`'s test: this host through this gateway, and interface where that is known. -/
def HostRoute.is (r : HostRoute) (ip : IpAddr) (gw : Gateway) : Bool :=
  r.ip == ip && r.gw.addr == gw.addr && (gw.ifindex.isNone || r.gw.ifindex == gw.ifindex)

/-- `lost` collects the routes of other programs that this one deleted. -/
structure Host where
  kernel : List HostRoute
  journal : Option (List Char)
  lost : List HostRoute
deriving DecidableEq, Repr

/-- The effect of an answered call. Journal writes and deletions succeed; an addition creates a
route only where there was none like it. -/
def Host.exec : (c : TableCall) → c.Answer → Host → Option Host
  | .defaultGateway _, _, h => some h
  | .addHostRoute ip gw, .created, h =>
    if h.kernel.any (·.is ip gw) then none
    else some { h with kernel := h.kernel ++ [⟨ip, gw, true⟩] }
  | .addHostRoute _ _, .present, h => some h
  | .addHostRoute _ _, .failed, h => some h
  | .delHostRoute ip gw, _, h => some { h with
      kernel := h.kernel.filter fun r => !r.is ip gw
      lost := h.lost ++ h.kernel.filter fun r => r.is ip gw && !r.ours }
  | .writeJournal file, _, h => some { h with journal := file }

/-- What other programs do to the table. -/
inductive TableMove
  | install (ip : IpAddr) (gw : Gateway)
  | remove (r : HostRoute)
deriving DecidableEq, Repr

def Host.move : TableMove → Host → Option Host
  | .install ip gw, h =>
    if h.kernel.any (·.is ip gw) then none
    else some { h with kernel := h.kernel ++ [⟨ip, gw, false⟩] }
  | .remove r, h => some { h with kernel := h.kernel.filter (· ≠ r) }

/-- A client process over its lives: it opens its table, then reconciles. A clean exit is a last
request with nothing to pin. -/
def pinMachine : CrashMachine TableCall TableCall.Answer PinJournal (List IpAddr) TableMove Host where
  exec := Host.exec
  boot h := openProgrammer (PinJournal.load h.journal)
  serve want pinned := do
    let (_, pinned) ← reconcilePins want pinned
    return pinned
  outside := Host.move
  Fresh h := (∀ r ∈ h.kernel, r.ours = false) ∧ h.journal = none ∧ h.lost = []

/-! ### What the program keeps -/

/-- `Q` is true of the journal in memory and the host between two pins, given that it is when one is
removed and when one is added. -/
structure PinRules (D : Drift Host) (I : Host → Prop) (Q : PinJournal → Host → Prop) : Prop where
  inv : ∀ pinned h, Q pinned h → I h
  stable : ∀ pinned h h', Q pinned h → D.Leads h h' → Q pinned h'
  unpin : ∀ {pinned : PinJournal} {ip gw h}, pinned[ip]? = some gw → Q pinned h →
    (delHostRoute ip gw >>= fun _ => pinned.forget ip).Holds Host.exec D I
      (fun p h => p = pinned.erase ip ∧ Q p h) h
  addPin : ∀ {ok} {pinned : PinJournal} {ip gw h}, pinned[ip]? = none → Q pinned h →
    (addPin ok pinned ip gw).Holds Host.exec D I (fun acc => Q acc.2) h

namespace PinRules

open Std.ExtTreeMap

variable {D : Drift Host} {I : Host → Prop} {Q : PinJournal → Host → Prop} (R : PinRules D I Q)
  {pinned : PinJournal} {ip : IpAddr} {gw : Gateway} {h : Host} {acc : List IpAddr × PinJournal} {ok : List IpAddr}
include R

theorem returns (hq : Q acc.2 h) : (pure acc : PinProgram _).Holds Host.exec D I (fun acc => Q acc.2) h :=
  CallProgram.holds_pure (R.inv _) (R.stable _) hq

theorem pinThrough (hq : Q pinned h) :
    (pinThrough ok pinned ip gw).Holds Host.exec D I (fun acc => Q acc.2) h := by
  unfold Nqvpn.pinThrough
  split
  · rename_i had hget
    split
    · exact R.returns hq
    · refine (R.unpin hget hq).bind ?_
      rintro p u ⟨rfl, hu⟩
      exact R.addPin getElem?_erase_self hu
  · rename_i hget
    exact R.addPin hget hq

theorem pinWanted (hq : Q acc.2 h) : (pinWanted acc ip).Holds Host.exec D I (fun acc => Q acc.2) h := by
  refine CallProgram.holds_ask (R.inv _) (R.stable _) (fun answer s s' hs he => ?_) hq
  cases he
  cases answer with
  | none => exact R.returns hs
  | some gw => exact R.pinThrough hs

theorem dropStale (hq : Q pinned h) :
    (dropStale pinned ip).Holds Host.exec D I (fun p h => p = pinned.erase ip ∧ Q p h) h := by
  unfold Nqvpn.dropStale
  split
  · rename_i gw hget
    exact R.unpin hget hq
  · rename_i hget
    have herase : pinned.erase ip = pinned := by
      apply ext_getElem?
      intro k
      rw [getElem?_erase]
      split_ifs with heq
      · rw [← compare_eq_iff_eq.mp heq, hget]
      · rfl
    rw [herase]
    exact CallProgram.holds_pure (fun _ hq => R.inv _ _ hq.2) (fun _ _ hq hd => ⟨hq.1, R.stable _ _ _ hq.2 hd⟩)
      ⟨rfl, hq⟩

theorem dropStales {stale : List IpAddr} (hq : Q pinned h) :
    (stale.foldlM Nqvpn.dropStale pinned).Holds Host.exec D I
      (fun p h => (∀ k, p[k]? = if k ∈ stale then none else pinned[k]?) ∧ Q p h) h := by
  let J : List IpAddr → PinJournal → Host → Prop := fun left p h =>
    (∀ k, (if k ∈ left then none else p[k]?) = if k ∈ stale then none else pinned[k]?) ∧ Q p h
  have hloop : (stale.foldlM Nqvpn.dropStale pinned).Holds Host.exec D I (J []) h := by
    refine CallProgram.holds_foldlM (fun _ _ hJ => R.inv _ _ hJ.2)
      (fun _ _ _ hJ hd => ⟨hJ.1, R.stable _ _ _ hJ.2 hd⟩) ?_ ⟨fun _ => rfl, hq⟩
    rintro ip left p s ⟨hget, hs⟩
    refine (R.dropStale hs).mono ?_
    rintro q u ⟨rfl, hu⟩
    refine ⟨fun k => ?_, hu⟩
    rw [← hget k, getElem?_erase]
    by_cases hk : ip = k
    · simp [hk]
    · have hcompare : compare ip k ≠ .eq := fun heq => hk (compare_eq_iff_eq.mp heq)
      simp [hcompare, Ne.symm hk]
  refine hloop.mono fun p s hJ => ⟨fun k => ?_, hJ.2⟩
  simpa using hJ.1 k

theorem reconcilePins {want : List IpAddr} (hq : Q pinned h) :
    (reconcilePins want pinned).Holds Host.exec D I (fun acc => Q acc.2) h := by
  refine (R.dropStales hq).bind ?_
  rintro p s ⟨-, hs⟩
  exact CallProgram.holds_foldlM (J := fun _ (acc : List IpAddr × PinJournal) => Q acc.2) (fun _ => R.inv _) (fun _ => R.stable _)
    (fun ip left acc s hs => R.pinWanted hs) hs

theorem serve {want : List IpAddr} (hq : Q pinned h) : (pinMachine.serve want pinned).Holds Host.exec D I Q h :=
  (R.reconcilePins hq).bind fun _ _ hs => CallProgram.holds_pure (R.inv _) (R.stable _) hs

theorem openProgrammer (hq : Q pinned h) : (openProgrammer pinned).Holds Host.exec D I Q h := by
  unfold Nqvpn.openProgrammer
  split
  · exact CallProgram.holds_pure (R.inv _) (R.stable _) hq
  · exact R.serve hq

end PinRules

/-! ### A client to evaluate the model with -/

namespace PinExample

def resolver : IpAddr := .v4 0x08080808

def gateway : Gateway := ⟨.v4 0xc0a80101, some 2⟩

abbrev Event := CrashMachine.Event TableCall TableCall.Answer (List IpAddr) TableMove

abbrev State := CrashMachine.State TableCall TableCall.Answer PinJournal Host

def reply (added : Added) : (c : TableCall) → c.Answer
  | .defaultGateway _ => some gateway
  | .addHostRoute _ _ => added
  | .delHostRoute _ _ => ()
  | .writeJournal _ => ()

/-- A host where other programs installed the routes `foreign`. -/
def installed (foreign : List (IpAddr × Gateway)) : State :=
  ⟨⟨foreign.map fun r => ⟨r.1, r.2, false⟩, none, []⟩, .down⟩

theorem initial_installed (foreign : List (IpAddr × Gateway)) :
    pinMachine.system.Initial (installed foreign) := by
  refine ⟨⟨?_, rfl, rfl⟩, rfl⟩
  intro r hr
  obtain ⟨p, -, rfl⟩ := List.mem_map.mp hr
  rfl

theorem reachable_run {foreign : List (IpAddr × Gateway)} {es : List Event} {h : Host}
    (hrun : (pinMachine.system.run (installed foreign) es).map (·.around) = some h) :
    ∃ s, pinMachine.system.run (installed foreign) es = some s ∧ s.around = h ∧
      pinMachine.system.Reachable s := by
  obtain ⟨s, hs, rfl⟩ := Option.map_eq_some_iff.mp hrun
  exact ⟨s, hs, rfl, TransitionSystem.Reachable.of_run (.of_initial (initial_installed foreign)) hs⟩

end PinExample

end Nqvpn
