import Std.Data.String.ToNat
import Nqvpn.JoinCases
import Nqvpn.NetworkMtu

/-!
# What the published view shows

After a publish the view is derived from the registry, the leases and the facts members
reported, whether or not it changed. Operations that do not publish leave both the view
and the registered sessions alone.
-/

namespace KeyedList

theorem mem_of_mem_keepLastSorted {α κ : Type*} [LinearOrder κ] {key : α → κ} {l : List α} {a : α}
    (h : a ∈ keepLastSorted key l) : a ∈ l := by
  have hsorted := (List.destutter_sublist _ _).subset h
  exact List.mem_reverse.mp ((List.mem_insertionSort _).mp hsorted)

end KeyedList

namespace Nqvpn

open Fallible DurableRows

namespace Directory

variable {text : IpNetText} {encode : Snapshot → List UInt8} {d d' : Directory}

theorem exists_ready_of_mem_memberPrefixes {id : NodeId} {rec_ : MemberRecord} {c : IpNet}
    (hc : c ∈ d.memberPrefixes text id rec_) (hdefault : c.isDefault) :
    ∃ er, d.exitReadiness[id]? = some er ∧ er.ok := by
  have hfold : ∀ (ready : Bool) (routes : List RouteReg) (init : List IpNet),
      c ∈ routes.foldl (fun prefixes r =>
        if r.cidr.isDefault && ready && !prefixes.contains r.cidr then prefixes ++ [r.cidr]
        else prefixes) init → c ∈ init ∨ ready := by
    intro ready routes
    induction routes with
    | nil => exact fun init h => .inl h
    | cons r routes ih =>
      intro init h
      simp only [List.foldl_cons] at h
      rcases ih _ h with hmem | hready
      · split_ifs at hmem with hadd
        · simp only [Bool.and_eq_true] at hadd
          exact .inr hadd.1.2
        · exact .inl hmem
      · exact .inr hready
  simp only [memberPrefixes, List.mem_insertionSort] at hc
  rcases hfold _ _ _ hc with hinit | hready
  · -- Neither a host prefix nor the prefix of a site is a default route.
    rcases List.mem_append.mp hinit with haddr | howned
    · rcases List.mem_append.mp haddr with h4 | h6
      · obtain ⟨ip, -, rfl⟩ := Option.map_eq_some_iff.mp (Option.mem_toList.mp h4)
        simp [IpNet.host, IpNet.isDefault, IpNet.prefixLen] at hdefault
      · obtain ⟨ip, -, rfl⟩ := Option.map_eq_some_iff.mp (Option.mem_toList.mp h6)
        simp [IpNet.host, IpNet.isDefault, IpNet.prefixLen] at hdefault
    · obtain ⟨p, -, hp⟩ := List.mem_filterMap.mp howned
      split_ifs at hp
      have hsite := (Option.filter_eq_some_iff.mp hp).2
      simp [hdefault] at hsite
  · cases her : d.exitReadiness[id]? with
    | none => simp [her] at hready
    | some er =>
      rw [her] at hready
      exact ⟨er, rfl, hready⟩

theorem reportedMtu_of_limitedBy {ceiling : Nat} {n : NodeId}
    (h : (d.networkMtu ceiling).limitedBy = s!"#{n}") :
    ∃ m, d.reportedMtu[n]? = some m ∧ (d.networkMtu ceiling).mtu = max m minTunnelMtu := by
  obtain ⟨best, who, heq, -, -, hfrom⟩ := d.networkMtu_spec ceiling
  rw [heq] at h ⊢
  rcases hfrom with ⟨-, rfl⟩ | ⟨n', rfl, hn'⟩
  · change "config" = "#" ++ toString n at h
    have hchars := congrArg (fun s : String => s.toList.head?) h
    simp at hchars
  · have happend : "#" ++ toString n' = "#" ++ toString n := by simpa using h
    obtain rfl : n' = n := Nat.repr_inj.mp (String.append_right_inj _ |>.mp happend)
    exact ⟨best, hn', rfl⟩

theorem recompute_published {cfg : NetworkConfig} {reg : Registry} {leases : Leases} {keys : List KeyInfo}
    {now nowMs : Nat} {o : Option Delta}
    (h : d.recompute text encode cfg reg leases keys now nowMs = (d', o)) :
    d'.published = { (d'.derive text cfg reg leases keys).normalize with gen := d'.published.gen } := by
  simp only [recompute] at h
  split_ifs at h with hsame
  · cases h
    rw [← hsame]
  · cases h
    rfl

end Directory

namespace NetState

variable {env : CoordText} {ns ns' ns'' : NetState}

def Shows (text : IpNetText) (ns : NetState) : Prop :=
  ∃ keys, ns.directory.published =
    { (ns.directory.derive text ns.cfg ns.registry ns.leases keys).normalize with
      gen := ns.directory.published.gen }

theorem publish_shows (text : IpNetText) (encode : Snapshot → List UInt8) (ns : NetState)
    (keys : List KeyInfo) (now nowMs : Nat) (saveOk : Bool) :
    (ns.publish text encode keys now nowMs saveOk).Shows text := by
  have hsame := publish_republishes text encode keys now nowMs saveOk ns
  obtain ⟨hwm, hreg⟩ := hsame.registry
  refine ⟨keys, ?_⟩
  rw [hsame.cfg, hreg, hsame.leases, publish_directory]
  exact Directory.recompute_published rfl

variable {text : IpNetText}

theorem Shows.delivers (h : ns.Shows text) (hd : ns.Delivers ns') : ns'.Shows text := by
  rw [hd.rest]
  exact h

theorem Shows.exists_ready (h : ns.Shows text) {m : PeerInfo}
    (hm : m ∈ ns.directory.published.members) {c : IpNet} (hc : c ∈ m.prefixes)
    (hdefault : c.isDefault) :
    ∃ er, ns.directory.exitReadiness[m.nodeId]? = some er ∧ er.ok := by
  obtain ⟨keys, h⟩ := h
  rw [h] at hm
  obtain ⟨⟨id, rec_⟩, -, rfl⟩ := List.mem_map.mp (KeyedList.mem_of_mem_keepLastSorted hm)
  exact Directory.exists_ready_of_mem_memberPrefixes hc hdefault

theorem Shows.reportedMtu (h : ns.Shows text) {n : NodeId}
    (hn : ns.directory.published.mtu.limitedBy = s!"#{n}") :
    ∃ m, ns.directory.reportedMtu[n]? = some m ∧
      ns.directory.published.mtu.mtu = max m minTunnelMtu := by
  obtain ⟨keys, h⟩ := h
  rw [h] at hn ⊢
  exact Directory.reportedMtu_of_limitedBy hn

def sessionId (ns : NetState) (n : NodeId) : Option Nat := (ns.sessions[n]?).map Session.id

/-- The view and the registered sessions are the ones they were. -/
structure SameSessions (ns ns' : NetState) : Prop where
  published : ns'.directory.published = ns.directory.published
  sessionId : ∀ n, ns'.sessionId n = ns.sessionId n

theorem Republishes.sessionId (h : ns.Republishes ns') (n : NodeId) : ns'.sessionId n = ns.sessionId n := by
  have hident := congrArg (Option.map Session.Ident.id) (h.idents n)
  simp only [Option.map_map] at hident
  exact hident

theorem Delivers.sameSessions (h : ns.Delivers ns') : ns.SameSessions ns' :=
  ⟨by rw [h.rest], h.republishes.sessionId⟩

theorem SameSessions.trans (h : ns.SameSessions ns') (h' : ns'.SameSessions ns'') : ns.SameSessions ns'' :=
  ⟨h'.published.trans h.published, fun n => (h'.sessionId n).trans (h.sessionId n)⟩

def Views (text : IpNetText) (ns ns' : NetState) : Prop := ns.SameSessions ns' ∨ ns'.Shows text

/-- What every publish ends in, and pushes into queues do not change. -/
structure FromPublish (env : CoordText) (Q : NetState → Prop) : Prop where
  publish : ∀ (ns : NetState) (keys : List KeyInfo) (now nowMs : Nat) (saveOk : Bool),
    Q (ns.publish env.net env.encode keys now nowMs saveOk)
  delivers : ∀ {ns ns' : NetState}, Q ns → ns.Delivers ns' → Q ns'

theorem fromPublish_shows (env : CoordText) : FromPublish env (Shows env.net) :=
  ⟨publish_shows env.net env.encode, Shows.delivers⟩

theorem FromPublish.outside {Q : NetState → Prop} (hQ : FromPublish env Q) (ns : NetState) (op : LockedOp)
    (hop : op.outside) : ns.SameSessions (ns.perform env op) ∨ Q (ns.perform env op) := by
  obtain ⟨rows, base, -, -, hdone | ⟨keys, now, nowMs, saveOk, hdone⟩⟩ := perform_outside env ns op hop
  · rw [hdone]
    exact .inl ⟨rfl, fun _ => rfl⟩
  · rw [hdone]
    exact .inr (hQ.publish base keys now nowMs saveOk)

theorem FromPublish.perform {Q : NetState → Prop} (hQ : FromPublish env Q) (ns : NetState) (op : LockedOp) :
    ns.SameSessions (ns.perform env op) ∨ Q (ns.perform env op) := by
  cases hop : op.outside with
  | true => exact hQ.outside ns op hop
  | false =>
    cases perform_inside env ns op hop with
    | quiet hdelivers _ hview hids =>
      have hsame : ns.SameSessions _ := ⟨hview.published, hids⟩
      exact .inl (hsame.trans hdelivers.sameSessions)
    | publishes hdelivers => exact .inr (hQ.delivers (hQ.publish _ _ _ _ _) hdelivers)

theorem perform_views (ns : NetState) (op : LockedOp) : ns.Views env.net (ns.perform env op) :=
  (fromPublish_shows env).perform ns op

end NetState

end Nqvpn
