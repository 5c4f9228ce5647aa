import Nqvpn.AttachmentTable
import Nqvpn.Registry
import Nqvpn.ReportHistory

/-!
# The most recent declaration across relay restarts

A relay numbers its sessions from one and starts over when its process does. The coordinator knows
a declared session by the client and that number only, so the number of an earlier process can
stand for a session of the next one. As long as it does not, a client that reports nothing is
attached to the relay whose declared session was heard of last.
-/

namespace Nqvpn

open ReportHistory AttachedClient Std.ExtTreeMap Leases

def Registry.isClient (r : Registry) (n : NodeId) : Bool :=
  ((r.members[n]?).map (fun m => m.role == .client)).getD false

/-! ### A relay process and its sessions -/

/-- The sessions a relay holds, by the number each was registered under. -/
structure RelayProcess where
  /-- Which start of the relay it is. -/
  process : Nat
  sessionSeq : Nat
  clients : Std.ExtTreeMap NodeId Nat
  mesh : Std.ExtTreeMap NodeId Nat

/-- What a heartbeat declares, and the process that sent it. -/
structure Declaration where
  process : Nat
  attached : List AttachedClient
deriving DecidableEq

def Declaration.Tells (d : Declaration) (session : Nat × AttachedClient) : Prop :=
  d.process = session.1 ∧ session.2 ∈ d.attached

instance decidableTells (d : Declaration) (session : Nat × AttachedClient) : Decidable (d.Tells session) :=
  inferInstanceAs (Decidable (_ ∧ _))

namespace RelayProcess

def new (process : Nat) : RelayProcess := ⟨process, 1, ∅, ∅⟩

/-- `Registration::insert`: client and mesh sessions draw from one counter. -/
def insert (p : RelayProcess) (node : NodeId) (mesh : Bool) : RelayProcess :=
  if mesh then { p with sessionSeq := p.sessionSeq + 1, mesh := p.mesh.insert node p.sessionSeq }
  else { p with sessionSeq := p.sessionSeq + 1, clients := p.clients.insert node p.sessionSeq }

def drop (p : RelayProcess) (node : NodeId) (id : Nat) (mesh : Bool) : RelayProcess :=
  if mesh then if p.mesh[node]? = some id then { p with mesh := p.mesh.erase node } else p
  else if p.clients[node]? = some id then { p with clients := p.clients.erase node } else p

def attached (p : RelayProcess) : List AttachedClient := p.clients.toList.map fun e => ⟨e.1, e.2⟩

def declaration (p : RelayProcess) : Declaration := ⟨p.process, p.attached⟩

theorem mem_attached {p : RelayProcess} {a : AttachedClient} :
    a ∈ p.attached ↔ p.clients[a.nodeId]? = some a.sessionId := by
  obtain ⟨client, id⟩ := a
  simp only [attached, List.mem_map, AttachedClient.mk.injEq]
  constructor
  · rintro ⟨⟨c, n⟩, hmem, rfl, rfl⟩
    exact mem_toList_iff_getElem?_eq_some.mp hmem
  · intro hfound
    exact ⟨(client, id), mem_toList_iff_getElem?_eq_some.mpr hfound, rfl, rfl⟩

theorem nodup_attached (p : RelayProcess) : (p.attached.map nodeId).Nodup := by
  rw [attached, List.map_map]
  have hkeys : p.clients.keys.Nodup := nodup_keys
  rw [← map_fst_toList_eq_keys] at hkeys
  exact hkeys

/-- What a process can do between two heartbeats: drop sessions and register one, or be followed
by a process that holds none. -/
structure Moves (registry : Registry) (p p' : RelayProcess) : Prop where
  counter : p'.process = p.process ∧ p.sessionSeq ≤ p'.sessionSeq ∨ p.process < p'.process
  held : ∀ (c : NodeId) (n : Nat), p'.clients[c]? = some n → p'.process = p.process ∧
    (p.clients[c]? = some n ∨ n = p.sessionSeq ∧ n < p'.sessionSeq ∧ registry.isClient c = true)

variable {registry : Registry} {p p' : RelayProcess} {past past' : List Declaration}

/-- What a relay has declared, up to what it would declare now: whole lists of clients, in which no
session comes back, numbered below the counter of its process. -/
structure Faithful (registry : Registry) (p : RelayProcess) (past : List Declaration) : Prop where
  unbroken : Unbroken Declaration.Tells (past ++ [p.declaration])
  numbered : ∀ d ∈ past ++ [p.declaration], d.process ≤ p.process ∧
    (d.process = p.process → ∀ a ∈ d.attached, a.sessionId < p.sessionSeq)
  listed : ∀ d ∈ past ++ [p.declaration], (d.attached.map nodeId).Nodup ∧
    ∀ a ∈ d.attached, registry.isClient a.nodeId = true

theorem Faithful.of_new (registry : Registry) (process : Nat) : (new process).Faithful registry [] := by
  have hnone : ∀ d ∈ [] ++ [(new process).declaration], d = ⟨process, []⟩ := by
    intro d hd
    rw [List.mem_singleton.mp hd]
    simp [declaration, attached, new]
  refine ⟨unbroken_singleton _, fun d hd => ?_, fun d hd => ?_⟩
  · rw [hnone d hd]
    exact ⟨le_rfl, fun _ a ha => absurd ha List.not_mem_nil⟩
  · rw [hnone d hd]
    exact ⟨List.nodup_nil, fun a ha => absurd ha List.not_mem_nil⟩

theorem Faithful.move (h : p.Faithful registry past) (hmoves : Moves registry p p') :
    p'.Faithful registry past := by
  have hpast {d : Declaration} (hd : d ∈ past) : d ∈ past ++ [p.declaration] :=
    List.mem_append_left _ hd
  have hnow : p.declaration ∈ past ++ [p.declaration] := List.mem_append_right past List.mem_cons_self
  refine ⟨h.unbroken.replace_last ?_, fun d hd => ?_, fun d hd => ?_⟩
  · -- A session that is new has a number no declaration of the process has used.
    rintro ⟨process, a⟩ ⟨hprocess, ha⟩
    obtain ⟨hsame, hold | ⟨hnumber, -, -⟩⟩ := hmoves.held a.nodeId a.sessionId (mem_attached.mp ha)
    · exact .inl ⟨hsame.symm.trans hprocess, mem_attached.mpr hold⟩
    · refine .inr fun hsaid => ?_
      obtain ⟨d, hd, hdprocess, hda⟩ := hsaid
      have hp : d.process = p.process := hdprocess.trans (hprocess.symm.trans hsame)
      have hlt := (h.numbered d (hpast hd)).2 hp a hda
      omega
  · rcases List.mem_append.mp hd with hd | hd
    · obtain ⟨hle, hlt⟩ := h.numbered d (hpast hd)
      rcases hmoves.counter with ⟨hsame, hseq⟩ | hnext
      · rw [hsame]
        exact ⟨hle, fun heq a ha => (hlt heq a ha).trans_le hseq⟩
      · exact ⟨hle.trans hnext.le, fun heq => by omega⟩
    · rw [List.mem_singleton.mp hd]
      refine ⟨le_rfl, fun _ a ha => ?_⟩
      obtain ⟨hsame, hold | ⟨-, hlt, -⟩⟩ := hmoves.held a.nodeId a.sessionId (mem_attached.mp ha)
      · have hlt := (h.numbered _ hnow).2 rfl a (mem_attached.mpr hold)
        rcases hmoves.counter with ⟨-, hseq⟩ | hnext
        · exact hlt.trans_le hseq
        · omega
      · exact hlt
  · rcases List.mem_append.mp hd with hd | hd
    · exact h.listed d (hpast hd)
    · rw [List.mem_singleton.mp hd]
      refine ⟨p'.nodup_attached, fun a ha => ?_⟩
      obtain ⟨-, hold | ⟨-, -, hclient⟩⟩ := hmoves.held a.nodeId a.sessionId (mem_attached.mp ha)
      · exact (h.listed _ hnow).2 a (mem_attached.mpr hold)
      · exact hclient

theorem Faithful.send (h : p.Faithful registry past) {attached : List AttachedClient}
    (hperm : attached.Perm p.attached) : p.Faithful registry (past ++ [⟨p.process, attached⟩]) := by
  have hnow : p.declaration ∈ past ++ [p.declaration] := List.mem_append_right past List.mem_cons_self
  have hmem {d : Declaration} (hd : d ∈ past ++ [⟨p.process, attached⟩] ++ [p.declaration]) :
      d ∈ past ++ [p.declaration] ∨ d = ⟨p.process, attached⟩ := by
    simp only [List.mem_append, List.mem_singleton] at hd ⊢
    rcases hd with (hd | hd) | hd
    · exact .inl (.inl hd)
    · exact .inr hd
    · exact .inl (.inr hd)
  refine ⟨?_, fun d hd => ?_, fun d hd => ?_⟩
  · rw [List.append_assoc]
    refine h.unbroken.repeat_last fun session => ?_
    exact and_congr Iff.rfl hperm.mem_iff
  · rcases hmem hd with hold | rfl
    · exact h.numbered d hold
    · exact ⟨le_rfl, fun _ a ha => (h.numbered _ hnow).2 rfl a (hperm.mem_iff.mp ha)⟩
  · rcases hmem hd with hold | rfl
    · exact h.listed d hold
    · obtain ⟨hnodup, hclients⟩ := h.listed _ hnow
      exact ⟨(hperm.map _).nodup_iff.mpr hnodup, fun a ha => hclients a (hperm.mem_iff.mp ha)⟩

theorem Faithful.sublist (h : p.Faithful registry past) (hsub : past'.Sublist past) :
    p.Faithful registry past' := by
  have hall := hsub.append (List.Sublist.refl [p.declaration])
  exact ⟨h.unbroken.sublist hall, fun d hd => h.numbered d (hall.subset hd),
    fun d hd => h.listed d (hall.subset hd)⟩

end RelayProcess

theorem Registry.length_attached_le (registry : Registry) {attached : List AttachedClient}
    (hnodup : (attached.map nodeId).Nodup)
    (hclients : ∀ a ∈ attached, registry.isClient a.nodeId) :
    attached.length ≤ registry.members.size := by
  have hsub : attached.map nodeId ⊆ registry.members.keys := by
    intro n hn
    obtain ⟨a, ha, rfl⟩ := List.mem_map.mp hn
    have hclient := hclients a ha
    unfold isClient at hclient
    rw [mem_keys, mem_iff_isSome_getElem?]
    cases hfound : registry.members[a.nodeId]? with
    | none =>
      rw [hfound] at hclient
      cases hclient
    | some m => rfl
  have hle := (hnodup.subperm hsub).length_le
  rw [List.length_map, length_keys] at hle
  exact hle

/-! ### The claims a whole heartbeat leaves -/

namespace Leases

variable {l : Leases} {node client : NodeId} {hb : Heartbeat} {now maxAttached : Nat}
  {isClient : NodeId → Bool} {x : Claim}

theorem hasClaim_iff_getD : l.HasClaim node client x ↔ (l.declared.getD node ∅)[client]? = some x := by
  rw [getD_eq_getD_getElem?]
  unfold HasClaim
  cases hdeclared : l.declared[node]? with
  | none | some claims => simp

theorem hasClaim_of_mem_attached (hclients : ∀ a ∈ hb.attached, isClient a.nodeId)
    (hnodup : (hb.attached.map nodeId).Nodup) (hlen : hb.attached.length ≤ maxAttached)
    {a : AttachedClient} (ha : a ∈ hb.attached) :
    ∃ x, (l.heartbeat node .relay hb now isClient maxAttached).1.HasClaim node a.nodeId x ∧
      x.sessionId = a.sessionId ∧ (l.HasClaim node a.nodeId x ∨
        (∀ y, l.HasClaim node a.nodeId y → y.sessionId ≠ a.sessionId) ∧ l.nextSeq < x.seq) := by
  have hfollows : (l.declaring node hb isClient maxAttached).Follows (l.declared.getD node ∅) l.nextSeq
      hb.attached := by
    unfold declaring
    rw [List.take_of_length_le hlen]
    exact follows_foldl hclients hnodup
  obtain ⟨x, hx, hid, hsource⟩ := hfollows.entry a ha
  refine ⟨x, hasClaim_heartbeat_relay.mpr (.inl ⟨rfl, hx⟩), hid, ?_⟩
  simp only [hasClaim_iff_getD]
  exact hsource

theorem mem_attached_of_hasClaim (hclients : ∀ a ∈ hb.attached, isClient a.nodeId)
    (hnodup : (hb.attached.map nodeId).Nodup) (hlen : hb.attached.length ≤ maxAttached)
    (hx : (l.heartbeat node .relay hb now isClient maxAttached).1.HasClaim node client x) :
    ∃ a ∈ hb.attached, a.nodeId = client := by
  rcases hasClaim_heartbeat_relay.mp hx with ⟨-, hkeep⟩ | ⟨hne, -⟩
  · unfold declaring at hkeep
    rw [List.take_of_length_le hlen] at hkeep
    exact (follows_foldl hclients hnodup).listed client x hkeep
  · exact absurd rfl hne

theorem HasClaim.unique {y : Claim} (hx : l.HasClaim node client x) (hy : l.HasClaim node client y) :
    x = y := by
  rw [hasClaim_iff_getD] at hx hy
  exact Option.some.inj (hx.symm.trans hy)

end Leases

/-! ### Relays, their control links and the coordinator's leases -/

/-- A heartbeat on its way, and the process that sent it. -/
structure SentHeartbeat where
  process : Nat
  hb : Heartbeat

def SentHeartbeat.declaration (m : SentHeartbeat) : Declaration := ⟨m.process, m.hb.attached⟩

structure RelayReports where
  relays : NodeId → RelayProcess
  /-- Each relay's control link delivers in order. -/
  wire : NodeId → List SentHeartbeat
  leases : Leases
  /-- What the coordinator has received, oldest first. -/
  received : List (NodeId × Declaration)

inductive RelayEvent
  | attach (relay client : NodeId)
  | meshUp (relay peer : NodeId)
  | drop (relay node : NodeId) (id : Nat) (mesh : Bool)
  | restart (relay : NodeId)
  /-- The hash map of clients is listed in any order. -/
  | send (relay : NodeId) (hb : Heartbeat)
  | deliver (relay : NodeId) (nowMs : Nat)
  | lose (relay : NodeId) (i : Nat)
  | report (client : NodeId) (hb : Heartbeat) (nowMs : Nat)
  | seen (node : NodeId) (nowMs : Nat)
  | offline (node : NodeId)
  | expire (nowMs window : Nat)

namespace RelayReports

def start : RelayReports := ⟨fun _ => .new 0, fun _ => [], .default, []⟩

def setRelay (s : RelayReports) (relay : NodeId) (p : RelayProcess) : RelayReports :=
  { s with relays := Function.update s.relays relay p }

def setWire (s : RelayReports) (relay : NodeId) (ms : List SentHeartbeat) : RelayReports :=
  { s with wire := Function.update s.wire relay ms }

/-- `on_heartbeat` for the relay's oldest heartbeat on the way. -/
def receive (registry : Registry) (s : RelayReports) (relay : NodeId) (m : SentHeartbeat) (nowMs : Nat) :
    RelayReports :=
  { s with
    leases := (s.leases.heartbeat relay .relay m.hb nowMs registry.isClient registry.members.size).1
    received := s.received ++ [(relay, m.declaration)] }

def step (registry : Registry) (s : RelayReports) : RelayEvent → Option RelayReports
  | .attach relay client =>
    if registry.isClient client then some (s.setRelay relay ((s.relays relay).insert client false))
    else none
  | .meshUp relay peer => some (s.setRelay relay ((s.relays relay).insert peer true))
  | .drop relay node id mesh => some (s.setRelay relay ((s.relays relay).drop node id mesh))
  | .restart relay => some (s.setRelay relay (.new ((s.relays relay).process + 1)))
  | .send relay hb =>
    if hb.attached.Perm (s.relays relay).attached then
      some (s.setWire relay (s.wire relay ++ [⟨(s.relays relay).process, hb⟩]))
    else none
  | .deliver relay nowMs =>
    match s.wire relay with
    | [] => none
    | m :: rest => some ((s.setWire relay rest).receive registry relay m nowMs)
  | .lose relay i => some (s.setWire relay ((s.wire relay).eraseIdx i))
  | .report client hb nowMs =>
    some { s with leases :=
      (s.leases.heartbeat client .client hb nowMs registry.isClient registry.members.size).1 }
  | .seen node nowMs => some { s with leases := (s.leases.seen node nowMs).1 }
  | .offline node => some { s with leases := s.leases.offline node }
  | .expire nowMs window => some { s with leases := (s.leases.expire nowMs window).1 }

def system (registry : Registry) : TransitionSystem RelayReports RelayEvent where
  Initial s := s = start
  step := step registry

def receivedFrom (s : RelayReports) (relay : NodeId) : List Declaration :=
  (s.received.filter fun e => e.1 = relay).map Prod.snd

def Declares (s : RelayReports) (relay : NodeId) (session : Nat × AttachedClient) : Prop :=
  ∃ d, (s.receivedFrom relay).getLast? = some d ∧ d.Tells session

def firstReceived (s : RelayReports) (relay : NodeId) (session : Nat × AttachedClient) : Nat :=
  s.received.findIdx fun e => e.1 = relay ∧ e.2.Tells session

/-- The first declaration of a process has no client under the number that the last one of an
earlier process had it. -/
def Distinct (s : RelayReports) : RelayEvent → Prop
  | .deliver relay _ => ∀ m ∈ (s.wire relay).head?, ∀ d ∈ (s.receivedFrom relay).getLast?,
      d.process ≠ m.process → ∀ a ∈ m.hb.attached, a ∉ d.attached
  | _ => True

instance decidableDistinct (s : RelayReports) (e : RelayEvent) : Decidable (s.Distinct e) :=
  match e with
  | .deliver _ _ => inferInstanceAs (Decidable (∀ m ∈ _, ∀ d ∈ _, _))
  | .attach _ _ | .meshUp _ _ | .drop _ _ _ _ | .restart _ | .send _ _ | .lose _ _ | .report _ _ _
  | .seen _ _ | .offline _ | .expire _ _ => .isTrue trivial

variable {registry : Registry} {s s' : RelayReports}

/-! ### What has been received -/

theorem receivedFrom_receive (relay relay' : NodeId) (m : SentHeartbeat) (nowMs : Nat) :
    (s.receive registry relay m nowMs).receivedFrom relay' =
      if relay = relay' then s.receivedFrom relay' ++ [m.declaration] else s.receivedFrom relay' := by
  unfold receivedFrom receive
  split_ifs with heq
  · subst heq
    simp
  · simp [heq]

variable {client relay : NodeId} {d : Declaration} {session : Nat × AttachedClient} {m : SentHeartbeat}
  {e : RelayEvent} {x : Claim} {nowMs : Nat}

theorem mem_received_of_getLast? (h : (s.receivedFrom relay).getLast? = some d) : (relay, d) ∈ s.received := by
  have hmem := List.mem_of_getLast? h
  obtain ⟨⟨relay', d'⟩, hfilter, rfl⟩ := List.mem_map.mp hmem
  obtain ⟨hmem, hrelay⟩ := List.mem_filter.mp hfilter
  have hsame : relay' = relay := by simpa using hrelay
  exact hsame ▸ hmem

theorem firstReceived_lt (hd : (relay, d) ∈ s.received) (htells : d.Tells session) :
    s.firstReceived relay session < s.received.length :=
  List.findIdx_lt_length_of_exists ⟨(relay, d), hd, by simpa using htells⟩

theorem firstReceived_receive (h : s.firstReceived relay session < s.received.length) (relay' : NodeId)
    (m : SentHeartbeat) (nowMs : Nat) :
    (s.receive registry relay' m nowMs).firstReceived relay session = s.firstReceived relay session := by
  exact (List.prefix_append s.received _).findIdx_eq_of_findIdx_lt_length h

theorem le_firstReceived_receive (h : ¬ Said Declaration.Tells (s.receivedFrom relay) session) (relay' : NodeId)
    (m : SentHeartbeat) (nowMs : Nat) :
    s.received.length ≤ (s.receive registry relay' m nowMs).firstReceived relay session := by
  have hnone : s.received.findIdx (fun e => e.1 = relay ∧ e.2.Tells session) = s.received.length := by
    refine List.findIdx_eq_length.mpr fun e he => ?_
    simp only [decide_eq_false_iff_not]
    rintro ⟨hrelay, htells⟩
    refine h ⟨e.2, List.mem_map.mpr ⟨e, List.mem_filter.mpr ⟨he, by simpa using hrelay⟩, rfl⟩, htells⟩
  unfold firstReceived receive
  simp only [List.findIdx_append, hnone, lt_irrefl, if_false]
  exact Nat.le_add_left _ _

/-! ### What relays have sent -/

def past (s : RelayReports) (relay : NodeId) : List Declaration :=
  s.receivedFrom relay ++ (s.wire relay).map SentHeartbeat.declaration

def Sending (registry : Registry) (s : RelayReports) : Prop :=
  ∀ relay, (s.relays relay).Faithful registry (s.past relay)

theorem Sending.setRelay (h : s.Sending registry) {p : RelayProcess}
    (hmoves : RelayProcess.Moves registry (s.relays relay) p) : (s.setRelay relay p).Sending registry :=
  (Function.forall_update_iff s.relays fun relay' p => p.Faithful registry (s.past relay')).mpr
    ⟨(h relay).move hmoves, fun relay' _ => h relay'⟩

theorem Sending.setWire (h : s.Sending registry) {ms : List SentHeartbeat}
    (hms : (s.relays relay).Faithful registry (s.receivedFrom relay ++ ms.map SentHeartbeat.declaration)) :
    (s.setWire relay ms).Sending registry :=
  (Function.forall_update_iff s.wire fun relay' ms => (s.relays relay').Faithful registry
    (s.receivedFrom relay' ++ ms.map SentHeartbeat.declaration)).mpr ⟨hms, fun relay' _ => h relay'⟩

theorem Sending.deliver (h : s.Sending registry) {rest : List SentHeartbeat} (hwire : s.wire relay = m :: rest)
    (nowMs : Nat) :
    ((s.setWire relay rest).receive registry relay m nowMs).Sending registry := by
  intro relay'
  have hpast : ((s.setWire relay rest).receive registry relay m nowMs).past relay' = s.past relay' := by
    unfold past
    rw [receivedFrom_receive]
    by_cases hrelay : relay = relay'
    · subst hrelay
      have hrest : ((s.setWire relay rest).receive registry relay m nowMs).wire relay = rest :=
        Function.update_self ..
      rw [if_pos rfl, hrest, hwire, List.map_cons, List.append_assoc]
      rfl
    · have hsame : ((s.setWire relay rest).receive registry relay m nowMs).wire relay' = s.wire relay' :=
        Function.update_of_ne (Ne.symm hrelay) ..
      rw [if_neg hrelay, hsame]
      rfl
  rw [hpast]
  exact h relay'

/-- The claims are the sessions declared last, and their numbers run as those were first received. -/
structure Books (s : RelayReports) : Prop where
  numbered : s.leases.Numbered
  declared : ∀ relay client x, s.leases.HasClaim relay client x →
    ∃ d, (s.receivedFrom relay).getLast? = some d ∧ ⟨client, x.sessionId⟩ ∈ d.attached
  claimed : ∀ relay d, (s.receivedFrom relay).getLast? = some d → ∀ a ∈ d.attached,
    ∃ x, s.leases.HasClaim relay a.nodeId x ∧ x.sessionId = a.sessionId
  ordered : ∀ relay client x d relay' client' x' d', relay ≠ relay' →
    s.leases.HasClaim relay client x → (s.receivedFrom relay).getLast? = some d →
    s.leases.HasClaim relay' client' x' → (s.receivedFrom relay').getLast? = some d' →
    x.seq < x'.seq → s.firstReceived relay (d.process, ⟨client, x.sessionId⟩) <
      s.firstReceived relay' (d'.process, ⟨client', x'.sessionId⟩)

theorem Books.of_leases (h : s.Books) (hreceived : s'.received = s.received)
    (hdeclared : s'.leases.declared = s.leases.declared) (hseq : s'.leases.nextSeq = s.leases.nextSeq) :
    s'.Books := by
  have hclaim {relay client : NodeId} {x : Claim} :
      s'.leases.HasClaim relay client x ↔ s.leases.HasClaim relay client x := by
    unfold HasClaim
    rw [hdeclared]
  have hfrom (relay : NodeId) : s'.receivedFrom relay = s.receivedFrom relay := by
    unfold receivedFrom
    rw [hreceived]
  have hfirst (relay : NodeId) (session : Nat × AttachedClient) :
      s'.firstReceived relay session = s.firstReceived relay session := by
    unfold firstReceived
    rw [hreceived]
  refine ⟨h.numbered.of_claims hseq fun relay client x hx => hclaim.mp hx, ?_, ?_, ?_⟩
  · simp only [hclaim, hfrom]
    exact h.declared
  · simp only [hclaim, hfrom]
    exact h.claimed
  · simp only [hclaim, hfrom, hfirst]
    exact h.ordered

theorem Books.firstReceived_lt_length (h : s.Books) (hx : s.leases.HasClaim relay client x)
    (hd : (s.receivedFrom relay).getLast? = some d) :
    s.firstReceived relay (d.process, ⟨client, x.sessionId⟩) < s.received.length := by
  obtain ⟨d', hd', hmem⟩ := h.declared relay client x hx
  cases hd.symm.trans hd'
  exact firstReceived_lt (mem_received_of_getLast? hd) ⟨rfl, hmem⟩

/-- A claim of the relay after its heartbeat is one of the same session from before, or is new and
so is the session. -/
theorem Books.claim_cases (h : s.Books)
    (hsent : Unbroken Declaration.Tells (s.receivedFrom relay ++ [m.declaration]))
    (hclients : ∀ a ∈ m.hb.attached, registry.isClient a.nodeId)
    (hnodup : (m.hb.attached.map nodeId).Nodup)
    (hdistinct : ∀ d ∈ (s.receivedFrom relay).getLast?, d.process ≠ m.process → ∀ a ∈ m.hb.attached, a ∉ d.attached)
    (hx : (s.receive registry relay m nowMs).leases.HasClaim relay client x) :
    ⟨client, x.sessionId⟩ ∈ m.hb.attached ∧
      ((s.leases.HasClaim relay client x ∧
          ∃ d, (s.receivedFrom relay).getLast? = some d ∧ d.process = m.process) ∨
        s.leases.nextSeq < x.seq ∧
          ¬ Said Declaration.Tells (s.receivedFrom relay) (m.process, ⟨client, x.sessionId⟩)) := by
  have hlen := registry.length_attached_le hnodup hclients
  obtain ⟨a, ha, rfl⟩ := mem_attached_of_hasClaim hclients hnodup hlen hx
  obtain ⟨y, hy, hid, hsource⟩ := hasClaim_of_mem_attached hclients hnodup hlen ha
  obtain rfl : x = y := hx.unique hy
  have ha' : (⟨a.nodeId, x.sessionId⟩ : AttachedClient) = a := by rw [hid]
  rw [ha']
  refine ⟨ha, ?_⟩
  rcases hsource with hold | ⟨hother, hlt⟩
  · obtain ⟨d, hd, hmem⟩ := h.declared relay a.nodeId x hold
    refine .inl ⟨hold, d, hd, ?_⟩
    by_contra hne
    exact hdistinct d hd hne a ha (ha' ▸ hmem)
  · refine .inr ⟨hlt, fun hsaid => ?_⟩
    -- A session declared before is in the last declaration, and so has a claim.
    obtain ⟨d, hd, -, hmem⟩ := hsent.last_tells hsaid ⟨rfl, ha⟩
    obtain ⟨z, hz, hzid⟩ := h.claimed relay d hd a hmem
    exact hother z hz hzid

theorem Books.receive (h : s.Books)
    (hsent : Unbroken Declaration.Tells (s.receivedFrom relay ++ [m.declaration]))
    (hclients : ∀ a ∈ m.hb.attached, registry.isClient a.nodeId)
    (hnodup : (m.hb.attached.map nodeId).Nodup)
    (hdistinct : ∀ d ∈ (s.receivedFrom relay).getLast?, d.process ≠ m.process → ∀ a ∈ m.hb.attached, a ∉ d.attached) : (s.receive registry relay m nowMs).Books := by
  set s' := s.receive registry relay m nowMs with hs'
  have hlast : (s'.receivedFrom relay).getLast? = some m.declaration := by
    rw [receivedFrom_receive, if_pos rfl, List.getLast?_concat]
  have hother {r : NodeId} (hr : r ≠ relay) : s'.receivedFrom r = s.receivedFrom r := by
    rw [receivedFrom_receive, if_neg (Ne.symm hr)]
  have hold {r c : NodeId} {x : Claim} (hr : r ≠ relay) (hx : s'.leases.HasClaim r c x) : s.leases.HasClaim r c x := by
    rcases hasClaim_heartbeat_relay.mp hx with ⟨heq, -⟩ | ⟨-, hx⟩
    · exact absurd heq hr
    · exact hx
  -- A claim was there before, under the same process, or is a new one of the relay that was heard.
  have hback {r c : NodeId} {x : Claim} {d : Declaration} (hx : s'.leases.HasClaim r c x)
      (hd : (s'.receivedFrom r).getLast? = some d) :
      (s.leases.HasClaim r c x ∧ ∃ d₀, (s.receivedFrom r).getLast? = some d₀ ∧ d₀.process = d.process) ∨
        r = relay ∧ d = m.declaration ∧ s.leases.nextSeq < x.seq ∧
          ¬ Said Declaration.Tells (s.receivedFrom relay) (m.process, ⟨c, x.sessionId⟩) := by
    by_cases hr : r = relay
    · subst hr
      cases hlast.symm.trans hd
      exact (h.claim_cases hsent hclients hnodup hdistinct hx).2.imp_right fun hnew => ⟨rfl, rfl, hnew⟩
    · rw [hother hr] at hd
      exact .inl ⟨hold hr hx, d, hd, rfl⟩
  have hfirst {r c : NodeId} {x : Claim} {d : Declaration} (hx : s.leases.HasClaim r c x)
      (hd : (s.receivedFrom r).getLast? = some d) :
      s'.firstReceived r (d.process, ⟨c, x.sessionId⟩) = s.firstReceived r (d.process, ⟨c, x.sessionId⟩) :=
    firstReceived_receive (h.firstReceived_lt_length hx hd) relay m nowMs
  refine ⟨h.numbered.heartbeat relay .relay m.hb nowMs _ _, fun r c x hx => ?_, fun r d hd a ha => ?_,
    fun r c x d r' c' x' d' hne hx hd hx' hd' hlt => ?_⟩
  · by_cases hr : r = relay
    · subst hr
      exact ⟨m.declaration, hlast, (h.claim_cases hsent hclients hnodup hdistinct hx).1⟩
    · rw [hother hr]
      exact h.declared r c x (hold hr hx)
  · by_cases hr : r = relay
    · subst hr
      cases hlast.symm.trans hd
      obtain ⟨x, hx, hid, -⟩ := hasClaim_of_mem_attached hclients hnodup
        (registry.length_attached_le hnodup hclients) ha
      exact ⟨x, hx, hid⟩
    · rw [hother hr] at hd
      obtain ⟨x, hx, hid⟩ := h.claimed r d hd a ha
      exact ⟨x, hasClaim_heartbeat_relay.mpr (.inr ⟨hr, hx⟩), hid⟩
  · rcases hback hx hd with ⟨hx₀, d₀, hd₀, hp⟩ | ⟨rfl, -, hnew, -⟩ <;>
      rcases hback hx' hd' with ⟨hx₀', d₀', hd₀', hp'⟩ | ⟨rfl, rfl, -, hunsaid⟩
    · rw [← hp, ← hp', hfirst hx₀ hd₀, hfirst hx₀' hd₀']
      exact h.ordered r c x d₀ r' c' x' d₀' hne hx₀ hd₀ hx₀' hd₀' hlt
    · rw [← hp, hfirst hx₀ hd₀]
      exact (h.firstReceived_lt_length hx₀ hd₀).trans_le (le_firstReceived_receive hunsaid r' m nowMs)
    · have hle := h.numbered.bound r' c' x' hx₀'
      omega
    · exact absurd rfl hne

namespace MovingClient

def members : Registry :=
  { Registry.new "u" with
    members := (((∅ : Std.ExtTreeMap NodeId MemberRecord).insert 1 (Registry.newRecord 1 "east" .relay 0)).insert 2
      (Registry.newRecord 2 "west" .relay 0)).insert 5 (Registry.newRecord 5 "laptop" .client 0) }

def declare (relay id : Nat) : List RelayEvent :=
  [.send relay ⟨0, 0, [⟨5, id⟩], [], none, 0, none⟩, .deliver relay 0]

end MovingClient

end RelayReports

end Nqvpn
