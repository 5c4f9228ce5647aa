import Nqvpn.SecretTenure

/-!
# Credentials and secrets across the coordinator

The runs considered are of a coordinator from its first start on: operators create,
change, import and delete networks and members, members look up their secrets and join,
and everything else goes on in between. What is recorded beside the coordinator is which
credentials were handed out and what was presented for each. The secret is looked up
before the network's lock is taken, so a join may act on a look-up of any earlier time.
-/

namespace Nqvpn

open Fallible DurableRows Std.ExtTreeMap Credential Option

variable {K : Type}

namespace Coordinator

/-- The member a secret belongs to, across every network: a hint, checked again by the
join under the network's lock. -/
def resolveSecret (st : Coordinator K) (secret : String) : Option (String × String) :=
  let secret := trimText secret
  if plausibleSecret secret then
    st.networks.toList.findSome? fun p =>
      (p.2.cfg.members.find? fun m => m.2.1.secret.any fun s => trimText s == secret).map fun m =>
        (p.1, m.1)
  else none

/-- The whole join transaction, given the verdict of the rate limiter and whom the secret
was found to belong to. -/
def join (env : CoordText) (st : Coordinator K) (allowed : Bool) (found : Option (String × String))
    (req : JoinRequest) (peerIp : String) (t : Clock) (db : DbOutcome) :
    Coordinator K × Except ApiError (Claims × JoinResponse) :=
  match (do
      ensure (allowed = true) ApiError.rateLimited
      let who ← orFail found ApiError.badCredentials
      ensure (validPubkey env req.pubkey = true)
        (ApiError.badRequest "pubkey must be a base64 32-byte X25519 key")
      ensure (validFingerprint req.certFingerprint = true)
        (ApiError.badRequest "cert_fingerprint must be sha256:<64 hex>")
      let ns ← orFail st.networks[who.1]? ApiError.badCredentials
      return (who, ns)) with
  | .error e => (st, .error e)
  | .ok (who, ns) =>
    let done := ns.join env who.2 (trimText req.secret) req peerIp st.signing t db
    ({ st with networks := st.networks.insert who.1 done.1 }, done.2)

end Coordinator

def AdminOp.generates (networks : Std.ExtTreeMap String NetState) : AdminOp → List (String × String)
  | .edit _ _ | .deleteNetwork _ => []
  | .createNetwork spec uuid => [(spec.networkId, uuid)]
  | .importNetworks cfgs uuid =>
    ((cfgs.map (·.networkId)).filter (· ∉ networks)).map fun id => (id, uuid id)

/-- The coordinator, the look-ups made, the credentials handed out with what was presented
for them, latest first, and the uuids generated. -/
structure Tenancy (K : Type) where
  coord : Coordinator K
  lookups : List (String × Option (String × String))
  issued : List (Claims × String)
  uuids : List String

inductive TenancyEvent
  | lookUp (secret : String)
  | join (allowed : Bool) (found : Option (String × String)) (req : JoinRequest) (peerIp : String)
    (t : Clock) (db : DbOutcome)
  /-- Anything else members or timers do in a network. -/
  | traffic (id : String) (op : LockedOp)
  | admin (r : AdminReading) (op : AdminOp)

namespace Tenancy

def signed (s : Tenancy K) : List (K × String × Claims) :=
  s.issued.map fun x => (s.coord.active.2, s.coord.active.1, x.1)

def step (env : CoordText) (s : Tenancy K) : TenancyEvent → Option (Tenancy K)
  | .lookUp secret => some { s with lookups := (secret, s.coord.resolveSecret secret) :: s.lookups }
  | .join allowed found req peerIp t db =>
    let done := s.coord.join env allowed found req peerIp t db
    if (req.secret, found) ∈ s.lookups then
      some { s with
        coord := done.1
        issued := (done.2.toOption.map fun x => (x.1, trimText req.secret)).toList ++ s.issued }
    else none
  | .traffic id op =>
    if op.traffic = true ∧ op.joins = none then
      (s.coord.networks[id]?).map fun ns =>
        { s with coord := { s.coord with networks := s.coord.networks.insert id (ns.perform env op) } }
    else none
  | .admin r op =>
    let done := s.coord.exec env r op
    let uuids := (op.generates s.coord.networks).map Prod.snd
    if done.2.toBool = true ∧ uuids.Nodup ∧ ∀ uuid ∈ uuids, uuid ∉ s.uuids then
      some { s with coord := done.1, uuids := uuids ++ s.uuids }
    else none

end Tenancy

def tenancySystem (K : Type) (env : CoordText) : TransitionSystem (Tenancy K) TenancyEvent where
  Initial s := s.coord.networks = ∅ ∧ s.coord.shelf = ∅ ∧ s.lookups = [] ∧ s.issued = [] ∧ s.uuids = []
  step := Tenancy.step env

/-- There is a node id for whom a join files, and an import leaves out nobody on record. -/
def TenancyEvent.Spares (s : Tenancy K) : TenancyEvent → Prop
  | .join _ found _ _ _ _ => ∀ who ∈ found, ∀ ns, s.coord.networks[who.1]? = some ns →
      ns.registry.idOf who.2 = none → ns.registry.nextNodeId < maxNodeId
  | .admin _ (.importNetworks cfgs _) => ∀ cfg ∈ cfgs, ∀ ns, s.coord.networks[cfg.networkId]? = some ns →
      ns.registry.DeclaredBy cfg
  | _ => True

/-! ### The rows of an import -/

namespace Coordinator

variable {env : CoordText} {r : AdminReading} {st : Coordinator K}
variable {cfgs : List NetworkConfig} {uuid : String → String} {row : NetworkConfig × Registry}
  {rows : List (NetworkConfig × Registry)}

theorem checked_eq_ok {acc checked : List NetworkConfig}
    (h : cfgs.foldlM (checkImported env r) acc = .ok checked) (hacc : (acc.map (·.networkId)).Nodup) :
    (checked.map (·.networkId)).Nodup ∧
      ∀ cfg' ∈ checked, cfg' ∈ acc ∨ ∃ cfg ∈ cfgs, cfg' = cfg.truncated := by
  induction cfgs generalizing acc with
  | nil =>
    simp only [List.foldlM_nil, pure_eq_ok] at h
    subst h
    exact ⟨hacc, fun cfg' hcfg' => .inl hcfg'⟩
  | cons cfg cfgs ih =>
    simp only [List.foldlM_cons, bind_eq_ok, checkImported, ensure_eq_ok, mapError_eq_ok, pure_eq_ok] at h
    obtain ⟨_, ⟨-, -, -, hnew, -, -, cfg', hvalid, rfl⟩, h⟩ := h
    obtain rfl : cfg' = cfg.truncated := (validateNetworkWith_eq_ok hvalid).1
    have hacc' : ((acc ++ [cfg.truncated]).map (·.networkId)).Nodup := by
      rw [List.map_append, List.map_singleton, List.nodup_append]
      refine ⟨hacc, List.nodup_singleton _, fun id hid id' hid' heq => hnew ?_⟩
      rw [List.mem_singleton.mp hid'] at heq
      exact heq ▸ hid
    obtain ⟨hnodup, hfrom⟩ := ih h hacc'
    refine ⟨hnodup, fun c hc => ?_⟩
    rcases hfrom c hc with hold | ⟨c', hc', heq⟩
    · rcases List.mem_append.mp hold with hold | hnew
      · exact .inl hold
      · exact .inr ⟨cfg, List.mem_cons_self, List.mem_singleton.mp hnew⟩
    · exact .inr ⟨c', List.mem_cons_of_mem _ hc', heq⟩

/-- What an import writes for a network that is served, and for one that is new. -/
inductive Row (r : AdminReading) (st : Coordinator K) (uuid : String → String) (cfg : NetworkConfig) :
    Registry → Prop
  | replaced {ns : NetState} (running : st.networks[cfg.networkId]? = some ns) :
    Row r st uuid cfg (NetState.importedRegistry (some ns.cfg) cfg ns.registry r.clock.now)
  | created (missing : st.networks[cfg.networkId]? = none) :
    Row r st uuid cfg (Registry.new (uuid cfg.networkId))

theorem importRow_eq_ok {cfg : NetworkConfig} (hshelf : st.shelf = ∅)
    (h : st.importRow env r uuid cfg = .ok row) :
    row.1 = cfg ∧ Row r st uuid cfg row.2 := by
  simp only [importRow, bind_eq_ok, pure_eq_ok] at h
  obtain ⟨reg, hreg, -, -, rfl⟩ := h
  refine ⟨rfl, ?_⟩
  unfold registryFor at hreg
  split at hreg
  · rename_i ns hns
    cases hreg
    simp only [hns, map_some]
    exact .replaced hns
  · rename_i hnone
    simp only [bind_eq_ok, pure_eq_ok, hshelf] at hreg
    obtain ⟨-, -, rfl⟩ := hreg
    exact .created hnone

theorem gathered_rows {sorted : List NetworkConfig} (hshelf : st.shelf = ∅)
    (h : List.Forall₂ (fun cfg row => st.importRow env r uuid cfg = .ok row) sorted rows) :
    rows.map Prod.fst = sorted ∧ ∀ row ∈ rows, Row r st uuid row.1 row.2 := by
  induction h with
  | nil => exact ⟨rfl, fun row hrow => absurd hrow List.not_mem_nil⟩
  | cons hrow _ ih =>
    obtain ⟨rfl, hreg⟩ := importRow_eq_ok hshelf hrow
    exact ⟨by rw [List.map_cons, ih.1], List.forall_mem_cons.mpr ⟨hreg, ih.2⟩⟩

theorem importRows_eq_ok (hshelf : st.shelf = ∅) (h : st.importRows env r cfgs uuid = .ok rows) :
    (rows.map (·.1.networkId)).Nodup ∧
      ∀ row ∈ rows, (∃ cfg ∈ cfgs, row.1 = cfg.truncated) ∧ Row r st uuid row.1 row.2 := by
  simp only [importRows, bind_eq_ok, pure_eq_ok, gather_eq_ok] at h
  obtain ⟨checked, hchecked, -, -, rows', hrows, -, -, rfl⟩ := h
  obtain ⟨hnodup, hfrom⟩ := checked_eq_ok hchecked List.nodup_nil
  obtain ⟨hsorted, hregs⟩ := gathered_rows hshelf hrows
  have hperm := List.perm_insertionSort (fun a b : NetworkConfig => a.networkId ≤ b.networkId) checked
  refine ⟨?_, fun row hrow => ⟨?_, hregs row hrow⟩⟩
  · have hids : rows'.map (·.1.networkId) = (rows'.map Prod.fst).map (·.networkId) := by
      rw [List.map_map]
      rfl
    rw [hids, hsorted]
    exact (hperm.map _).nodup_iff.mpr hnodup
  · have hmem : row.1 ∈ checked := hperm.mem_iff.mp (hsorted ▸ List.mem_map_of_mem hrow)
    exact (hfrom _ hmem).resolve_left List.not_mem_nil

/-! ### Applying them -/

theorem applyRow_networks (row : NetworkConfig × Registry) (st : Coordinator K) {id : String}
    (h : id ≠ row.1.networkId) : (applyRow env r st row).networks[id]? = st.networks[id]? := by
  simp [applyRow, setNetwork, getElem?_insert, h.symm]

theorem applyRow_congr {st st' : Coordinator K}
    (hnetwork : st.networks[row.1.networkId]? = st'.networks[row.1.networkId]?)
    (hsigning : st.signing = st'.signing) :
    (applyRow env r st row).networks[row.1.networkId]? =
      (applyRow env r st' row).networks[row.1.networkId]? := by
  simp [applyRow, setNetwork, hnetwork, hsigning]

theorem foldl_applyRow (rows : List (NetworkConfig × Registry)) (st : Coordinator K)
    (hnodup : (rows.map (·.1.networkId)).Nodup) :
    (∀ row ∈ rows, (rows.foldl (applyRow env r) st).networks[row.1.networkId]? =
        (applyRow env r st row).networks[row.1.networkId]?) ∧
      ∀ id, id ∉ rows.map (·.1.networkId) →
        (rows.foldl (applyRow env r) st).networks[id]? = st.networks[id]? := by
  induction rows generalizing st with
  | nil => exact ⟨fun row hrow => absurd hrow List.not_mem_nil, fun _ _ => rfl⟩
  | cons row₀ rows ih =>
    obtain ⟨hfresh, hrest⟩ := List.nodup_cons.mp hnodup
    obtain ⟨happlied, hother⟩ := ih (applyRow env r st row₀) hrest
    refine ⟨fun row hrow => ?_, fun id hid => ?_⟩
    · rcases List.mem_cons.mp hrow with rfl | hrow
      · exact hother _ hfresh
      · have hne : row.1.networkId ≠ row₀.1.networkId := fun heq =>
          hfresh (List.mem_map.mpr ⟨row, hrow, heq⟩)
        exact (happlied row hrow).trans (applyRow_congr (applyRow_networks row₀ st hne) rfl)
    · simp only [List.map_cons, List.mem_cons, not_or] at hid
      obtain ⟨hne, hid⟩ := hid
      exact (hother id hid).trans (applyRow_networks row₀ st hne)

theorem foldl_applyRow_shelf (rows : List (NetworkConfig × Registry)) (st : Coordinator K)
    (hshelf : st.shelf = ∅) : (rows.foldl (applyRow env r) st).shelf = ∅ := by
  induction rows generalizing st with
  | nil => exact hshelf
  | cons row rows ih =>
    refine ih _ ?_
    simp [applyRow, setNetwork, hshelf]

end Coordinator

/-! ### The invariant -/

namespace Tenancy

variable {env : CoordText} {s s' : Tenancy K}

def mine (issued : List (Claims × String)) (uuid : String) : List (Claims × String) :=
  issued.filter fun x => x.1.networkUuid = uuid

structure Consistent (s : Tenancy K) : Prop where
  honors : ∀ (id : String) (ns : NetState), s.coord.networks[id]? = some ns →
    ns.Honors ns.registry.networkUuid (mine s.issued ns.registry.networkUuid)
  distinct : ∀ (id id' : String) (ns ns' : NetState), s.coord.networks[id]? = some ns →
    s.coord.networks[id']? = some ns' → ns.registry.networkUuid = ns'.registry.networkUuid → id = id'
  known : ∀ (id : String) (ns : NetState), s.coord.networks[id]? = some ns →
    ns.registry.networkUuid ∈ s.uuids
  issued : ∀ x ∈ s.issued, x.1.networkUuid ∈ s.uuids
  shelf : s.coord.shelf = ∅

/-- The uuid a network goes by after a step: the one it had, or one just generated. -/
def GoesBy (s : Tenancy K) (generated : List (String × String)) (id uuid : String) : Prop :=
  (∃ ns, s.coord.networks[id]? = some ns ∧ ns.registry.networkUuid = uuid) ∨ (id, uuid) ∈ generated

theorem Consistent.advance (h : s.Consistent) (generated : List (String × String))
    (hnodup : (generated.map Prod.snd).Nodup) (hfresh : ∀ uuid ∈ generated.map Prod.snd, uuid ∉ s.uuids)
    (huuids : s'.uuids = generated.map Prod.snd ++ s.uuids) (hshelf : s'.coord.shelf = ∅)
    (hissued : ∀ x ∈ s'.issued, x.1.networkUuid ∈ s.uuids)
    (hnetworks : ∀ (id : String) (ns' : NetState), s'.coord.networks[id]? = some ns' →
      ∃ uuid, s.GoesBy generated id uuid ∧ ns'.Honors uuid (mine s'.issued uuid)) : s'.Consistent := by
  have huuid {id : String} {ns' : NetState} (hns' : s'.coord.networks[id]? = some ns') :
      s.GoesBy generated id ns'.registry.networkUuid ∧
        ns'.Honors ns'.registry.networkUuid (mine s'.issued ns'.registry.networkUuid) := by
    obtain ⟨uuid, hgoes, hhonors⟩ := hnetworks id ns' hns'
    obtain rfl : ns'.registry.networkUuid = uuid := hhonors.books.running.uuid
    exact ⟨hgoes, hhonors⟩
  have hnew {id uuid : String} (hmem : (id, uuid) ∈ generated) : uuid ∈ generated.map Prod.snd :=
    List.mem_map_of_mem hmem
  refine ⟨fun id ns' hns' => (huuid hns').2, fun id id' ns ns' hns hns' heq => ?_, fun id ns' hns' => ?_,
    fun x hx => ?_, hshelf⟩
  · have hgoes := (huuid hns).1
    have hgoes' := (huuid hns').1
    rw [← heq] at hgoes'
    rcases hgoes with ⟨ns₀, hns₀, h₀⟩ | hgen <;> rcases hgoes' with ⟨ns₀', hns₀', h₀'⟩ | hgen'
    · exact h.distinct id id' ns₀ ns₀' hns₀ hns₀' (h₀.trans h₀'.symm)
    · exact absurd (h₀ ▸ h.known id ns₀ hns₀) (hfresh _ (hnew hgen'))
    · exact absurd (h₀' ▸ h.known id' ns₀' hns₀') (hfresh _ (hnew hgen))
    · exact congrArg Prod.fst (List.inj_on_of_nodup_map hnodup hgen hgen' rfl)
  · rw [huuids]
    rcases (huuid hns').1 with ⟨ns, hns, hsame⟩ | hgen
    · exact List.mem_append_right _ (hsame ▸ h.known id ns hns)
    · exact List.mem_append_left _ (hnew hgen)
  · rw [huuids]
    exact List.mem_append_right _ (hissued x hx)
variable {id uuid : String} {r : AdminReading}

theorem mine_of_fresh (h : s.Consistent) (hfresh : uuid ∉ s.uuids) : mine s.issued uuid = [] := by
  rw [mine, List.filter_eq_nil_iff]
  intro x hx heq
  exact hfresh (of_decide_eq_true heq ▸ h.issued x hx)

theorem Consistent.replace (h : s.Consistent) {ns ns' : NetState} (hns : s.coord.networks[id]? = some ns)
    (hhonors : ns'.Honors ns.registry.networkUuid (mine s.issued ns.registry.networkUuid)) :
    { s with coord := { s.coord with networks := s.coord.networks.insert id ns' } }.Consistent := by
  refine h.advance [] List.nodup_nil (fun _ hmem => absurd hmem List.not_mem_nil) rfl h.shelf h.issued
    fun id' ns₁ hns₁ => ?_
  simp only [getElem?_insert, compare_eq_iff_eq] at hns₁
  split_ifs at hns₁ with hid
  · cases hns₁
    exact ⟨_, .inl ⟨ns, hid ▸ hns, rfl⟩, hhonors⟩
  · exact ⟨_, .inl ⟨ns₁, hns₁, rfl⟩, h.honors id' ns₁ hns₁⟩

/-! ### Joins -/

theorem join_cases (st : Coordinator K) (allowed : Bool) (found : Option (String × String))
    (req : JoinRequest) (peerIp : String) (t : Clock) (db : DbOutcome) :
    (∃ err, st.join env allowed found req peerIp t db = (st, .error err)) ∨
      ∃ who ns, found = some who ∧ st.networks[who.1]? = some ns ∧
        st.join env allowed found req peerIp t db =
          ({ st with
              networks := st.networks.insert who.1
                (ns.join env who.2 (trimText req.secret) req peerIp st.signing t db).1 },
            (ns.join env who.2 (trimText req.secret) req peerIp st.signing t db).2) := by
  unfold Coordinator.join
  split
  · rename_i err _
    exact .inl ⟨err, rfl⟩
  · rename_i who ns hok
    simp only [bind_eq_ok, orFail_eq_ok, pure_eq_ok, Prod.mk.injEq] at hok
    obtain ⟨-, -, who', hfound, -, -, -, -, ns', hns', rfl, rfl⟩ := hok
    exact .inr ⟨who', ns', hfound, hns', rfl⟩

theorem Consistent.join (h : s.Consistent) {allowed : Bool} {found : Option (String × String)}
    {req : JoinRequest} {peerIp : String} {t : Clock} {db : DbOutcome}
    (hspares : (TenancyEvent.join allowed found req peerIp t db).Spares s) :
    { s with
      coord := (s.coord.join env allowed found req peerIp t db).1
      issued := ((s.coord.join env allowed found req peerIp t db).2.toOption.map
        fun x : Claims × JoinResponse => (x.1, trimText req.secret)).toList ++ s.issued }.Consistent := by
  rcases @join_cases K env s.coord allowed found req peerIp t db with
    ⟨err, hjoin⟩ | ⟨who, ns, rfl, hns, hjoin⟩
  · rw [hjoin]
    exact h
  · have hroom := hspares who rfl ns hns
    rw [hjoin]
    cases hok : (ns.join env who.2 (trimText req.secret) req peerIp s.coord.signing t db).2 with
    | error err =>
      let op : LockedOp := .join who.2 (trimText req.secret) req peerIp s.coord.signing t db
      have hperform : (ns.perform env op).Honors _ _ := (h.honors _ ns hns).perform rfl
        fun name hname => some.inj hname ▸ hroom
      exact h.replace hns hperform
    | ok x =>
      obtain ⟨c, resp⟩ := x
      obtain ⟨huuid, hhonors⟩ := (h.honors _ ns hns).join hok hroom
      have hmine (uuid : String) (hne : uuid ≠ ns.registry.networkUuid) :
          mine ((c, trimText req.secret) :: s.issued) uuid = mine s.issued uuid := by
        rw [mine, List.filter_cons_of_neg, mine]
        simpa [huuid] using hne.symm
      have hours : mine ((c, trimText req.secret) :: s.issued) ns.registry.networkUuid =
          (c, trimText req.secret) :: mine s.issued ns.registry.networkUuid := by
        rw [mine, List.filter_cons_of_pos, mine]
        simpa using huuid
      refine h.advance [] List.nodup_nil (fun _ hmem => absurd hmem List.not_mem_nil) rfl h.shelf
        (fun x hx => ?_) fun id ns₁ hns₁ => ?_
      · rcases List.mem_cons.mp hx with rfl | hx
        · exact huuid ▸ h.known _ ns hns
        · exact h.issued x hx
      · simp only [getElem?_insert, compare_eq_iff_eq] at hns₁
        split_ifs at hns₁ with hid
        · cases hns₁
          exact ⟨_, .inl ⟨ns, hid ▸ hns, rfl⟩, hours ▸ hhonors⟩
        · refine ⟨_, .inl ⟨ns₁, hns₁, rfl⟩, ?_⟩
          change ns₁.Honors _ (mine ((c, trimText req.secret) :: s.issued) _)
          rw [hmine _ fun heq => hid (h.distinct _ _ ns ns₁ hns hns₁ heq.symm)]
          exact h.honors id ns₁ hns₁

/-! ### Operators -/

theorem toBool_eq_true {ε α : Type} {x : Except ε α} (h : x.toBool) : ∃ a, x = .ok a := by
  cases x with
  | error e => cases h
  | ok a => exact ⟨a, rfl⟩

theorem Consistent.edit (h : s.Consistent) {op : NetworkOp} (hok : (s.coord.edit env r id op).2 = .ok ()) :
    { s with coord := (s.coord.edit env r id op).1 }.Consistent := by
  unfold Coordinator.edit at hok ⊢
  cases hpre : op.precheck with
  | error err =>
    rw [hpre] at hok
    cases hok
  | ok u =>
    cases hns : s.coord.networks[id]? with
    | none =>
      simp only [hpre, hns] at hok
      cases hok
    | some ns =>
      simp only [hpre, hns] at hok ⊢
      exact h.replace hns ((h.honors id ns hns).exec hok)

theorem Consistent.createNetwork (h : s.Consistent) {spec : NetworkSpec}
    (hok : (s.coord.createNetwork env r spec uuid).2 = .ok ()) (hfresh : uuid ∉ s.uuids) :
    { s with
      coord := (s.coord.createNetwork env r spec uuid).1
      uuids := uuid :: s.uuids }.Consistent := by
  unfold Coordinator.createNetwork at hok ⊢
  split at hok
  · cases hok
  · rename_i cfg hcfg
    refine h.advance [(spec.networkId, uuid)] (List.nodup_singleton _) (by simpa using hfresh) rfl
      (by simp [Coordinator.setNetwork, h.shelf]) h.issued fun id ns' hns' => ?_
    simp only [Coordinator.setNetwork, getElem?_insert, compare_eq_iff_eq] at hns'
    split_ifs at hns' with hid
    · cases hns'
      refine ⟨uuid, .inr (by simp [hid]), ?_⟩
      rw [mine_of_fresh h hfresh]
      exact NetState.created_honors cfg uuid
    · exact ⟨_, .inl ⟨ns', hns', rfl⟩, h.honors id ns' hns'⟩

theorem Consistent.deleteNetwork (h : s.Consistent) {r : AdminReading} {id : String} :
    { s with coord := (s.coord.deleteNetwork r id).1 }.Consistent := by
  unfold Coordinator.deleteNetwork
  split
  · exact h
  · refine h.advance [] List.nodup_nil (fun _ hmem => absurd hmem List.not_mem_nil) rfl h.shelf h.issued
      fun id' ns' hns' => ?_
    simp only [getElem?_erase] at hns'
    split_ifs at hns'
    exact ⟨_, .inl ⟨ns', hns', rfl⟩, h.honors id' ns' hns'⟩

theorem Consistent.importNetworks (h : s.Consistent) {cfgs : List NetworkConfig} {uuid : String → String}
    {ids : List String} (hok : (s.coord.importNetworks env r cfgs uuid).2 = .ok ids)
    (hnodup : (((AdminOp.importNetworks cfgs uuid).generates s.coord.networks).map Prod.snd).Nodup)
    (hfresh : ∀ u ∈ ((AdminOp.importNetworks cfgs uuid).generates s.coord.networks).map Prod.snd, u ∉ s.uuids)
    (hspares : (TenancyEvent.admin r (.importNetworks cfgs uuid)).Spares s) :
    { s with
      coord := (s.coord.importNetworks env r cfgs uuid).1
      uuids := ((AdminOp.importNetworks cfgs uuid).generates s.coord.networks).map Prod.snd ++
        s.uuids }.Consistent := by
  unfold Coordinator.importNetworks at hok ⊢
  split at hok
  · cases hok
  · rename_i rows hrows
    obtain ⟨hids, hall⟩ := Coordinator.importRows_eq_ok h.shelf hrows
    obtain ⟨happlied, hother⟩ := @Coordinator.foldl_applyRow K env r rows s.coord hids
    refine h.advance _ hnodup hfresh rfl (Coordinator.foldl_applyRow_shelf rows s.coord h.shelf) h.issued
      fun id ns' hns' => ?_
    by_cases hid : id ∈ rows.map (·.1.networkId)
    · obtain ⟨⟨cfg', reg⟩, hrow, rfl⟩ := List.mem_map.mp hid
      obtain ⟨⟨cfg, hcfg, (hcfg' : cfg' = cfg.truncated)⟩, (hreg : Coordinator.Row r s.coord uuid cfg' reg)⟩ :=
        hall _ hrow
      rw [happlied _ hrow] at hns'
      simp only [Coordinator.applyRow, Coordinator.setNetwork, getElem?_insert_self,
        some.injEq] at hns'
      have hname : cfg.networkId = cfg'.networkId := (congrArg NetworkConfig.networkId hcfg').symm
      cases hreg with
      | @replaced ns running =>
        rw [running] at hns'
        refine ⟨_, .inl ⟨ns, running, rfl⟩, ?_⟩
        rw [← hns']
        refine (h.honors _ ns running).applyImport fun node rec_ hrec => ?_
        have hdeclares := hspares cfg hcfg ns (hname ▸ running) node rec_ hrec
        rw [hcfg']
        exact (NetworkConfig.upholds_of_map_eq hdeclares (cfg.map_secret_truncated rec_.name)).1
      | created missing =>
        rw [missing] at hns'
        have hgen : (cfg'.networkId, uuid cfg'.networkId) ∈
            (AdminOp.importNetworks cfgs uuid).generates s.coord.networks := by
          refine List.mem_map.mpr ⟨cfg'.networkId, List.mem_filter.mpr ⟨?_, ?_⟩, rfl⟩
          · exact List.mem_map.mpr ⟨cfg, hcfg, hname⟩
          · refine decide_eq_true fun hmem => ?_
            rw [mem_iff_isSome_getElem?, missing] at hmem
            cases hmem
        refine ⟨_, .inr hgen, ?_⟩
        rw [mine_of_fresh h (hfresh _ (List.mem_map_of_mem hgen)), ← hns']
        exact NetState.created_honors cfg' _
    · rw [hother id hid] at hns'
      exact ⟨_, .inl ⟨ns', hns', rfl⟩, h.honors id ns' hns'⟩

theorem Consistent.step (h : s.Consistent) {e : TenancyEvent} (hspares : e.Spares s)
    (hstep : s.step env e = some s') : s'.Consistent := by
  cases e with
  | lookUp secret =>
    cases hstep
    exact { h with }
  | join allowed found req peerIp t db =>
    simp only [Tenancy.step] at hstep
    split_ifs at hstep
    cases hstep
    exact h.join hspares
  | traffic id op =>
    simp only [Tenancy.step] at hstep
    split_ifs at hstep with hop
    obtain ⟨ns, hns, rfl⟩ := map_eq_some_iff.mp hstep
    refine h.replace hns ((h.honors id ns hns).perform hop.1 fun name hname => ?_)
    rw [hop.2] at hname
    cases hname
  | admin r op =>
    simp only [Tenancy.step] at hstep
    split_ifs at hstep with hguard
    obtain ⟨hdone, hnodup, hfresh⟩ := hguard
    obtain ⟨⟨⟩, hok⟩ := toBool_eq_true hdone
    cases hstep
    cases op with
    | edit id op => exact h.edit hok
    | createNetwork spec uuid => exact h.createNetwork hok (hfresh uuid List.mem_cons_self)
    | deleteNetwork id => exact h.deleteNetwork
    | importNetworks cfgs uuid =>
      cases himport : (s.coord.importNetworks env r cfgs uuid).2 with
      | error err =>
        simp only [Coordinator.exec, himport] at hok
        cases hok
      | ok ids => exact h.importNetworks himport hnodup hfresh hspares

theorem Consistent.of_initial (h : (tenancySystem K env).Initial s) : s.Consistent := by
  obtain ⟨hnetworks, hshelf, -, hissued, -⟩ := h
  refine ⟨?_, ?_, ?_, ?_, hshelf⟩
  · intro id ns hns
    simp [hnetworks] at hns
  · intro id id' ns ns' hns
    simp [hnetworks] at hns
  · intro id ns hns
    simp [hnetworks] at hns
  · rw [hissued]
    exact fun x hx => absurd hx List.not_mem_nil

variable {codec : TokenCodec} {verifyStrict : K → Text → List UInt8 → Bool}

/-- If signatures are ideal, node ids are left and no import leaves out a member that has
joined, then a credential is accepted only for a declared member, and only if what was
presented for it is the secret the member has now; and the view lists declared members. -/
theorem credentials_die_with_secret
    (h : (tenancySystem K env).ReachableWith (fun s e => e.Spares s) s)
    (hideal : Ideal codec verifyStrict s.coord.verifyingKeys s.signed) :
    (∀ token presentedFp now c network,
      s.coord.toAppState.verifyCredential codec verifyStrict token presentedFp now = .ok (c, network) →
      ∃ ns, s.coord.networks[network]? = some ns ∧ ns.cfg.Declares c.sub ∧
        (∃ presented, (c, presented) ∈ s.issued) ∧
        ∀ presented, (c, presented) ∈ s.issued → ns.cfg.secretOf c.sub = some presented) ∧
      ∀ (id : String) (ns : NetState), s.coord.networks[id]? = some ns →
        ∀ m ∈ ns.directory.published.members, ns.cfg.Declares m.name := by
  have hc : s.Consistent := h.invariant (P := Consistent) (fun s hs => .of_initial hs)
    fun s e s' hs hspares hstep => hs.step hspares hstep
  refine ⟨fun token presentedFp now c network hok => ?_, fun id ns hns => (hc.honors id ns hns).view⟩
  obtain ⟨rfl, ns, record, hadmits⟩ := (AppState.verifyCredential_eq_ok hideal).mp hok
  obtain ⟨⟨key, -, hsigned⟩, -, -, -, -, -, -, -, huuid⟩ := verify_sound hideal hadmits.verified
  obtain ⟨⟨c', presented⟩, hissued, heq⟩ := List.mem_map.mp hsigned
  obtain rfl : c' = c := congrArg (fun x => x.2.2) heq
  have hbooks := (hc.honors _ ns hadmits.network).books.running
  have hmine {presented : String} (hp : (c', presented) ∈ s.issued) :
      (c', presented) ∈ mine s.issued ns.registry.networkUuid :=
    List.mem_filter.mpr ⟨hp, decide_eq_true huuid⟩
  have hname : record.name = c'.sub :=
    (hbooks.accounts.assigned _ (List.mem_map.mpr ⟨_, hmine hissued, rfl⟩)).2 record hadmits.known
  refine ⟨ns, hadmits.network, hname ▸ hbooks.declared _ record hadmits.known, ⟨presented, hissued⟩,
    fun p hp => ?_⟩
  rw [← hname]
  exact hbooks.secrets _ (hmine hp) record hadmits.known hadmits.current

/-! ### A client that joins and is left out of the next import -/

end Tenancy

namespace TenancyExample

def fingerprint : String := "sha256:" ++ String.ofList (List.replicate 64 'a')

def start : Tenancy Unit where
  coord := { networks := ∅, verifyingKeys := [("k", ())], shelf := ∅, signing := ⟨[], fun _ => [], 0⟩
             active := ("k", ()) }
  lookups := []
  issued := []
  uuids := []

theorem start_initial : (tenancySystem Unit .byteText).Initial start := ⟨rfl, rfl, rfl, rfl, rfl⟩

def imports (cfg : NetworkConfig) (t : Nat) : TenancyEvent :=
  .admin (NetworkExample.reading t) (.importNetworks [cfg] fun _ => "u")

def join : TenancyEvent :=
  .join true (some ("acme", "ann")) ⟨"a1", "k", fingerprint⟩ "host" (NetworkExample.reading 50).clock
    (NetworkExample.reading 50).db

def cfg : NetworkConfig :=
  { NetworkExample.cfg with
    clients := (∅ : Std.ExtTreeMap String MemberCfg).insert "bob" (NetworkExample.client "b1") }

def claims : Claims where
  iss := issuer
  aud := audience
  networkId := "acme"
  networkUuid := "u"
  nodeId := 1
  sub := "ann"
  role := .client
  pubkey := "k"
  certFp := fingerprint
  prefixes := ["167772161/32"]
  loginGen := 0
  iat := 50
  exp := 950

def verifyIssued (_ : Unit) (m : Text) (_ : List UInt8) : Bool :=
  m = signingInput .numbering claims "k"

def token : Text := sign .numbering claims "k" fun _ => List.replicate 64 0

/-- What admission looks at: the keys and what was signed with them, the network and the
record. -/
structure Outlook where
  issued : List (Claims × String)
  keys : List (String × Unit)
  active : String × Unit
  standing : Option (Bool × String × NodeId × Bool × Nat)
deriving DecidableEq

def outlook (s : Tenancy Unit) : Outlook where
  issued := s.issued
  keys := s.coord.verifyingKeys
  active := s.coord.active
  standing := (s.coord.networks["acme"]?).bind fun ns => (ns.registry.members[1]?).map fun r =>
    (ns.deleted, ns.registry.networkUuid, r.nodeId, r.disabled, r.loginGen)

theorem accepts_token {s : Tenancy Unit}
    (h : outlook s = ⟨[(claims, "a1")], [("k", ())], ("k", ()), some (false, "u", 1, false, 0)⟩) :
    Ideal .numbering verifyIssued s.coord.verifyingKeys s.signed ∧
      s.coord.toAppState.verifyCredential .numbering verifyIssued token fingerprint 60 =
        .ok (claims, "acme") := by
  simp only [outlook, Outlook.mk.injEq, Prod.mk.injEq, bind_eq_some_iff, map_eq_some_iff] at h
  obtain ⟨hissued, hkeys, hactive, ns, hns, r, hr, hdeleted, huuid, hnode, henabled, hgen⟩ := h
  have hideal : Ideal .numbering verifyIssued s.coord.verifyingKeys s.signed := by
    intro key _ m sig hm
    refine ⟨claims, "k", ?_, of_decide_eq_true hm⟩
    rw [Tenancy.signed, hissued, hactive]
    exact List.mem_singleton.mpr rfl
  have hverify : verify .numbering verifyIssued token s.coord.verifyingKeys
      ⟨issuer, "acme", ns.registry.networkUuid⟩ 60 = .ok claims := by
    rw [hkeys, huuid]
    exact verify_sign ⟨by decide, by decide, by decide, by decide⟩
      (show _ = some ("k", ()) from rfl) (by simp) (by simp [verifyIssued]) (by decide) (by decide) rfl
  exact ⟨hideal, (AppState.verifyCredential_eq_ok hideal).mpr ⟨rfl, ns, r, hns, hdeleted, hverify, hr,
    hnode, henabled, hgen.le, rfl⟩⟩

end TenancyExample

namespace Tenancy

open TenancyExample in
/-- Ann joins, and what was presented for the credential is ann's secret. -/
theorem credentials_die_with_secret_joined : ∃ s,
    (tenancySystem Unit .byteText).run start [imports NetworkExample.cfg 0, .lookUp "a1", TenancyExample.join] =
      some s ∧
      s.coord.toAppState.verifyCredential .numbering verifyIssued token fingerprint 60 =
        .ok (claims, "acme") ∧
      ∃ ns, s.coord.networks["acme"]? = some ns ∧ ns.cfg.Declares "ann" ∧ ns.cfg.secretOf "ann" = some "a1" := by
  have hlook : ((tenancySystem Unit .byteText).run start
      [imports NetworkExample.cfg 0, .lookUp "a1", TenancyExample.join]).map outlook =
      some ⟨[(claims, "a1")], [("k", ())], ("k", ()), some (false, "u", 1, false, 0)⟩ := by
    decide +kernel
  have hnext : ((tenancySystem Unit .byteText).run start [imports NetworkExample.cfg 0, .lookUp "a1"]).map
      (fun s => (s.coord.networks["acme"]?).map fun ns => ns.registry.nextNodeId) = some (some 1) := by
    decide +kernel
  obtain ⟨s, hrun, hlook⟩ := map_eq_some_iff.mp hlook
  obtain ⟨hideal, hok⟩ := accepts_token hlook
  have hissued : s.issued = [(claims, "a1")] := congrArg Outlook.issued hlook
  have hrun' := hrun
  simp only [TransitionSystem.run_cons, TransitionSystem.run_nil, bind_eq_some_iff,
    some.injEq, exists_eq_right] at hrun'
  obtain ⟨s₁, h₁, s₂, h₂, h₃⟩ := hrun'
  simp only [TransitionSystem.run_cons, TransitionSystem.run_nil, h₁, bind_some, h₂, map_some,
    some.injEq] at hnext
  have hreach : (tenancySystem Unit .byteText).ReachableWith (fun s e => e.Spares s) s := by
    refine .step (.step (.step (.initial start_initial) ?_ h₁) ?_ h₂) ?_ h₃
    · intro cfg _ ns hns
      simp [start] at hns
    · trivial
    · rintro ⟨id, name⟩ hwho ns hns -
      cases hwho
      rw [hns, map_some, some.injEq] at hnext
      rw [hnext]
      decide
  obtain ⟨ns, hns, hdeclares, -, hsecret⟩ :=
    (credentials_die_with_secret hreach hideal).1 token fingerprint 60 claims "acme" hok
  refine ⟨s, hrun, hok, ns, hns, hdeclares, hsecret "a1" ?_⟩
  rw [hissued]
  exact List.mem_singleton.mpr rfl

open TenancyExample in
/-- An import leaves ann out, which succeeds: ann's credential is accepted as before, and
the view lists ann, whom the configuration does not declare. -/
theorem left_out_member_admitted : ∃ s,
    (tenancySystem Unit .byteText).run start
        [imports NetworkExample.cfg 0, .lookUp "a1", TenancyExample.join, imports TenancyExample.cfg 55] = some s ∧
      Ideal .numbering verifyIssued s.coord.verifyingKeys s.signed ∧
      s.coord.toAppState.verifyCredential .numbering verifyIssued token fingerprint 60 =
        .ok (claims, "acme") ∧
      ∃ ns, s.coord.networks["acme"]? = some ns ∧ ¬ ns.cfg.Declares "ann" ∧
        ∃ m ∈ ns.directory.published.members, m.name = "ann" := by
  have hlook : ((tenancySystem Unit .byteText).run start
      [imports NetworkExample.cfg 0, .lookUp "a1", TenancyExample.join, imports TenancyExample.cfg 55]).map
      (fun s => (outlook s, (s.coord.networks["acme"]?).map fun ns =>
        ((ns.cfg.memberByName "ann").isSome, ns.directory.published.members.map PeerInfo.name))) =
      some (⟨[(claims, "a1")], [("k", ())], ("k", ()), some (false, "u", 1, false, 0)⟩,
        some (false, ["ann"])) := by
    decide +kernel
  obtain ⟨s, hrun, hlook⟩ := map_eq_some_iff.mp hlook
  obtain ⟨hadmits, hnetwork⟩ := Prod.mk.inj hlook
  obtain ⟨hideal, hok⟩ := accepts_token hadmits
  obtain ⟨ns, hns, hview⟩ := map_eq_some_iff.mp hnetwork
  obtain ⟨hundeclared, hmembers⟩ := Prod.mk.inj hview
  have hann : "ann" ∈ ns.directory.published.members.map PeerInfo.name := by
    rw [hmembers]
    exact List.mem_singleton.mpr rfl
  obtain ⟨m, hm, hname⟩ := List.mem_map.mp hann
  exact ⟨s, hrun, hideal, hok, ns, hns, Bool.eq_false_iff.mp hundeclared, m, hm, hname⟩

end Tenancy

end Nqvpn
