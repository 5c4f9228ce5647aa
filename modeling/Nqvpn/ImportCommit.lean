import Nqvpn.FailedJoin
import Nqvpn.ValidatedConfig

/-!
# An import is all or nothing

An import changes the coordinator in place: it saves the rows of every network in one
transaction, then replaces the running networks one after the other, then adds the new
ones, each of which it locks once more. Whatever fails, fails before the transaction. After
an import that succeeds no two members have one secret, in the networks it replaced and in
those it did not.
-/

namespace Nqvpn

open Fallible InPlace KeyedList Coordinator Std.ExtTreeMap NetState

variable {K : Type}

/-- The coordinator, and which networks' locks an earlier panic has poisoned. -/
structure Live (K : Type) where
  coord : Coordinator K
  poisoned : String → Bool

namespace Live

variable (live : Live K)

def lockNet (id : String) : Except ApiError Unit :=
  ensure (live.poisoned id = false)
    (.internal "network state is poisoned by an earlier panic; restart the coordinator")

def claimSecrets (owners : List (String × String)) (p : String × NetState) :
    Except ApiError (List (String × String)) := do
  live.lockNet p.1
  (secretsOf p.1 p.2.cfg).foldlM claimSecret owners

def lockServed (cfg : NetworkConfig) : Except ApiError Unit :=
  match live.coord.networks[cfg.networkId]? with
  | some _ => live.lockNet cfg.networkId
  | none => .ok ()

/-- Everything an import does before it commits; it reads what runs and changes nothing. -/
def importPlan (env : CoordText) (r : AdminReading) (live : Live K) (cfgs : List NetworkConfig)
    (uuid : String → String) : Except ApiError (List (NetworkConfig × Registry)) := do
  let checked ← cfgs.foldlM (checkImported env r) []
  let sorted := checked.insertionSort fun a b => a.networkId ≤ b.networkId
  let owners ← (sorted.flatMap fun cfg => secretsOf cfg.networkId cfg).foldlM
    claimSecret []
  let _ ← (live.coord.networks.toList.filter fun p => p.1 ∉ sorted.map (·.networkId)).foldlM
    live.claimSecrets owners
  each sorted live.lockServed
  gather sorted (live.coord.importRow env r uuid)

end Live

namespace Coordinator

def storeRow (st : Coordinator K) (row : NetworkConfig × Registry) : Coordinator K :=
  match st.networks[row.1.networkId]? with
  | some ns => st.setNetwork row.1.networkId { ns with stored := ⟨some row.1, some row.2⟩ }
  | none => { st with shelf := st.shelf.insert row.1.networkId ⟨some row.1, some row.2⟩ }

def replaceServed (env : CoordText) (r : AdminReading) (st : Coordinator K)
    (row : NetworkConfig × Registry) : Coordinator K :=
  match st.networks[row.1.networkId]? with
  | some ns => { st with
      networks := st.networks.insert row.1.networkId (ns.applyImport env st.signing.keys r row.1 row.2) }
  | none => st

end Coordinator

namespace Live

/-- `Db::save_networks`, one transaction. -/
def saveNetworks (saved : Bool) (rows : List (NetworkConfig × Registry)) : EStateM ApiError (Live K) Unit :=
  fun live =>
    if saved then .ok () { live with coord := rows.foldl storeRow live.coord }
    else .error (.internal "saving imported configuration") live

variable (env : CoordText) (r : AdminReading)

def applyInPlace (created : List (NetworkConfig × Registry)) (row : NetworkConfig × Registry) : EStateM ApiError (Live K) (List (NetworkConfig × Registry)) := do
  let live ← get
  match live.coord.networks[row.1.networkId]? with
  | some _ =>
    set { live with coord := live.coord.replaceServed env r row }
    return created
  | none => return created ++ [row]

/-- `AppState::add_network`: its lock is new. -/
def addNetwork (row : NetworkConfig × Registry) (live : Live K) :
    Live K where
  coord := live.coord.setNetwork row.1.networkId
    (new env.encode row.1 row.2 ⟨some row.1, some row.2⟩ r.clock.now r.clock.nowMs)
  poisoned := Function.update live.poisoned row.1.networkId false

def createInPlace (row : NetworkConfig × Registry) :
    EStateM ApiError (Live K) Unit := do
  modify (addNetwork env r row)
  let live ← get
  check (live.lockNet row.1.networkId)
  set { live with coord := { live.coord with
    networks := live.coord.networks.modify row.1.networkId fun ns => { ns with startedAt := 0 } } }

/-- `AppState::import`. -/
def importInPlace (cfgs : List NetworkConfig) (uuid : String → String) :
    EStateM ApiError (Live K) (List String) := do
  let live ← get
  let rows ← check (live.importPlan env r cfgs uuid)
  saveNetworks r.db.config rows
  let created ← rows.foldlM (applyInPlace env r) []
  created.foldlM (fun _ => createInPlace env r) ()
  return rows.map (·.1.networkId)

end Live

/-! ### What the three loops make of an entry -/

namespace Coordinator

variable {env : CoordText} {r : AdminReading} {st st' : Coordinator K}

/-- What there is under an id: a network that is served, or rows of one that is not. -/
def entry (st : Coordinator K) (id : String) : Option NetState × Option StoredRows :=
  (st.networks[id]?, st.shelf[id]?)

def bare (st : Coordinator K) : Coordinator K := { st with networks := ∅, shelf := ∅ }

theorem ext_entry (hbare : st.bare = st'.bare) (hentry : ∀ id, st.entry id = st'.entry id) : st = st' := by
  obtain ⟨⟨networks, verifyingKeys⟩, shelf, signing, active⟩ := st
  obtain ⟨⟨networks', verifyingKeys'⟩, shelf', signing', active'⟩ := st'
  obtain ⟨rfl, rfl, rfl⟩ := hbare
  obtain rfl : networks = networks' := ext_getElem? fun id => congrArg Prod.fst (hentry id)
  obtain rfl : shelf = shelf' := ext_getElem? fun id => congrArg Prod.snd (hentry id)
  rfl

variable (rows : List (NetworkConfig × Registry)) (row : NetworkConfig × Registry) (id k : String)

theorem bare_applyRow : (applyRow env r st row).bare = st.bare := rfl

theorem bare_storeRow : (st.storeRow row).bare = st.bare := by
  unfold storeRow
  split <;> rfl

theorem bare_replaceServed : (st.replaceServed env r row).bare = st.bare := by
  unfold replaceServed
  split <;> rfl

def storedEntry (e : Option NetState × Option StoredRows) :
    Option NetState × Option StoredRows :=
  match e.1 with
  | some ns => (some { ns with stored := ⟨some row.1, some row.2⟩ }, none)
  | none => (none, some ⟨some row.1, some row.2⟩)

def replacedEntry (env : CoordText) (r : AdminReading) (keys : List KeyInfo) (row : NetworkConfig × Registry)
    (e : Option NetState × Option StoredRows) : Option NetState × Option StoredRows :=
  (e.1.map fun ns => ns.applyImport env keys r row.1 row.2, e.2)

def importedEntry (env : CoordText) (r : AdminReading) (keys : List KeyInfo) (row : NetworkConfig × Registry)
    (e : Option NetState × Option StoredRows) : Option NetState × Option StoredRows :=
  (some ((e.1.map fun ns => ns.applyImport env keys r row.1 row.2).getD (created env r row.1 row.2)),
    none)

theorem entry_setNetwork (ns : NetState) (k : String) :
    (st.setNetwork id ns).entry k = if id = k then (some ns, none) else st.entry k := by
  simp only [entry, setNetwork, getElem?_insert, getElem?_erase, compare_eq_iff_eq]
  split_ifs <;> rfl

theorem entry_storeRow :
    (st.storeRow row).entry k = if row.1.networkId = k then storedEntry row (st.entry k) else st.entry k := by
  unfold storeRow
  cases hns : st.networks[row.1.networkId]? with
  | some ns =>
    rw [entry_setNetwork]
    split_ifs with hk
    · subst hk
      simp [storedEntry, entry, hns]
    · rfl
  | none =>
    simp only [entry, getElem?_insert, compare_eq_iff_eq]
    split_ifs with hk
    · subst hk
      simp [storedEntry, hns]
    · rfl

theorem entry_replaceServed :
    (st.replaceServed env r row).entry k =
      if row.1.networkId = k then replacedEntry env r st.signing.keys row (st.entry k) else st.entry k := by
  unfold replaceServed
  cases hns : st.networks[row.1.networkId]? with
  | some ns =>
    simp only [entry, getElem?_insert, compare_eq_iff_eq]
    split_ifs with hk
    · subst hk
      simp [replacedEntry, hns]
    · rfl
  | none =>
    split_ifs with hk
    · subst hk
      simp [entry, replacedEntry, hns]
    · rfl

theorem entry_applyRow :
    (applyRow env r st row).entry k =
      if row.1.networkId = k then importedEntry env r st.signing.keys row (st.entry k) else st.entry k := by
  unfold applyRow
  rw [entry_setNetwork]
  split_ifs with hk
  · subst hk
    simp only [importedEntry, entry]
    cases st.networks[row.1.networkId]? <;> rfl
  · rfl

def rowsOf : List (NetworkConfig × Registry) :=
  rows.filter (·.1.networkId = id)

theorem entry_foldl_storeRow (st : Coordinator K) (id : String) :
    (rows.foldl storeRow st).entry id =
      (rowsOf rows id).foldl (fun e row => storedEntry row e) (st.entry id) :=
  foldl_entry (I := fun _ => True) (fun _ _ _ => trivial) (fun _ row k _ => entry_storeRow row k) rows trivial id

theorem bare_foldl_storeRow (st : Coordinator K) :
    (rows.foldl storeRow st).bare = st.bare :=
  foldl_keeps (I := fun s => bare s = bare st) (fun _ row h => (bare_storeRow row).trans h) rows rfl

theorem bare_foldl_replaceServed (st : Coordinator K) :
    (rows.foldl (replaceServed env r) st).bare = st.bare :=
  foldl_keeps (I := fun s => bare s = bare st) (fun _ row h => (bare_replaceServed row).trans h) rows rfl

theorem bare_foldl_applyRow (st : Coordinator K) :
    (rows.foldl (applyRow env r) st).bare = st.bare :=
  foldl_keeps (I := fun s => bare s = bare st) (fun _ row h => (bare_applyRow row).trans h) rows rfl

theorem signing_of_bare (h : st.bare = st'.bare) : st.signing = st'.signing := congrArg (·.signing) h

theorem entry_foldl_replaceServed (st : Coordinator K) (id : String) :
    (rows.foldl (replaceServed env r) st).entry id =
      (rowsOf rows id).foldl (fun e row => replacedEntry env r st.signing.keys row e) (st.entry id) :=
  foldl_entry (I := fun s => bare s = bare st) (fun _ row h => (bare_replaceServed row).trans h)
    (fun _ row k h => signing_of_bare h ▸ entry_replaceServed row k) rows rfl id

theorem entry_foldl_applyRow (env : CoordText) (r : AdminReading) (rows : List (NetworkConfig × Registry))
    (st : Coordinator K) (id : String) :
    (rows.foldl (applyRow env r) st).entry id =
      (rowsOf rows id).foldl (fun e row => importedEntry env r st.signing.keys row e) (st.entry id) :=
  foldl_entry (I := fun s => bare s = bare st) (fun _ row h => (bare_applyRow row).trans h)
    (fun _ row k h => signing_of_bare h ▸ entry_applyRow row k) rows rfl id

def createRow (env : CoordText) (r : AdminReading) (st : Coordinator K) (row : NetworkConfig × Registry) :
    Coordinator K :=
  st.setNetwork row.1.networkId (created env r row.1 row.2)

theorem bare_createRow : (createRow env r st row).bare = st.bare := rfl

theorem bare_foldl_createRow (st : Coordinator K) :
    (rows.foldl (createRow env r) st).bare = st.bare :=
  foldl_keeps (I := fun s => bare s = bare st) (fun _ row h => (bare_createRow row).trans h) rows rfl

theorem entry_foldl_createRow (st : Coordinator K) (id : String) :
    (rows.foldl (createRow env r) st).entry id =
      (rowsOf rows id).foldl (fun _ row => (some (created env r row.1 row.2), none)) (st.entry id) :=
  foldl_entry (f := fun row _ => (some (created env r row.1 row.2), none)) (I := fun _ => True)
    (fun _ _ _ => trivial) (fun _ _ k _ => entry_setNetwork _ _ k) rows trivial id

def unserved (st : Coordinator K) (rows : List (NetworkConfig × Registry)) : List (NetworkConfig × Registry) :=
  rows.filter fun row => st.networks[row.1.networkId]?.isNone

theorem rowsOf_unserved :
    rowsOf (st.unserved rows) id = if st.networks[id]?.isNone then rowsOf rows id else [] := by
  unfold rowsOf unserved
  rw [List.filter_filter]
  split_ifs with hid
  · refine List.filter_congr fun row _ => ?_
    by_cases hrow : row.1.networkId = id
    · simp [hrow, hid]
    · simp [hrow]
  · refine List.filter_eq_nil_iff.mpr fun row _ hrow => hid ?_
    simp only [Bool.and_eq_true, decide_eq_true_eq] at hrow
    exact hrow.1 ▸ hrow.2

theorem create_replace_store (st : Coordinator K) (hnodup : (rows.map (·.1.networkId)).Nodup) :
    (st.unserved rows).foldl (createRow env r)
        (rows.foldl (replaceServed env r) (rows.foldl storeRow st)) = rows.foldl (applyRow env r) st := by
  refine ext_entry ?_ fun id => ?_
  · rw [bare_foldl_createRow, bare_foldl_replaceServed, bare_foldl_storeRow, bare_foldl_applyRow]
  rw [entry_foldl_createRow, entry_foldl_replaceServed, entry_foldl_storeRow, entry_foldl_applyRow,
    rowsOf_unserved, signing_of_bare (bare_foldl_storeRow rows st)]
  by_cases hid : id ∈ rows.map (·.1.networkId)
  · obtain ⟨row, hrow, rfl⟩ := List.mem_map.mp hid
    have hrows : rowsOf rows row.1.networkId = [row] := filter_key_eq_singleton hnodup hrow
    rw [hrows]
    simp only [entry]
    cases st.networks[row.1.networkId]? <;> rfl
  · have hrows : rowsOf rows id = [] := filter_key_eq_nil hid
    rw [hrows]
    split_ifs <;> rfl

theorem unserved_replaceServed (rows : List (NetworkConfig × Registry)) :
    (st.replaceServed env r row).unserved rows = st.unserved rows := by
  refine List.filter_congr fun row' _ => ?_
  change ((st.replaceServed env r row).entry row'.1.networkId).1.isNone =
    (st.entry row'.1.networkId).1.isNone
  rw [entry_replaceServed]
  split_ifs
  · exact Option.isNone_map
  · rfl

theorem unserved_storeRow (rows : List (NetworkConfig × Registry)) :
    (st.storeRow row).unserved rows = st.unserved rows := by
  refine List.filter_congr fun row' _ => ?_
  change ((st.storeRow row).entry row'.1.networkId).1.isNone = (st.entry row'.1.networkId).1.isNone
  rw [entry_storeRow]
  split_ifs
  · unfold storedEntry
    cases (st.entry row'.1.networkId).1 <;> rfl
  · rfl

theorem unserved_foldl_storeRow (rows' : List (NetworkConfig × Registry)) (st : Coordinator K) :
    (rows.foldl storeRow st).unserved rows' = st.unserved rows' :=
  foldl_keeps (I := fun s => unserved s rows' = unserved st rows')
    (fun _ row h => (unserved_storeRow row rows').trans h) rows rfl

end Coordinator

/-! ### No step fails after the transaction -/

namespace Live

variable {env : CoordText} {r : AdminReading}

def freshLock (poisoned : String → Bool) (row : NetworkConfig × Registry) : String → Bool :=
  Function.update poisoned row.1.networkId false

theorem createInPlace_eq (row : NetworkConfig × Registry) (live : Live K) :
    createInPlace env r row live =
      .ok () ⟨live.coord.createRow env r row, freshLock live.poisoned row⟩ := by
  have hlock : (addNetwork env r row live).lockNet row.1.networkId = .ok () := by
    simp [lockNet, addNetwork]
  have hmodify : (addNetwork env r row live).coord.networks.modify row.1.networkId
      (fun ns => { ns with startedAt := 0 }) = (live.coord.createRow env r row).networks := by
    refine ext_getElem? fun id => ?_
    simp only [addNetwork, createRow, setNetwork, getElem?_modify,
      getElem?_insert, compare_eq_iff_eq]
    split_ifs <;> rfl
  refine modify_bind.trans (get_bind.trans ((bind_of_ok (check_of_ok hlock)).trans ?_))
  rw [hmodify]
  rfl

theorem applyInPlace_eq (created : List (NetworkConfig × Registry)) (row : NetworkConfig × Registry)
    (live : Live K) :
    applyInPlace env r created row live = .ok (created ++ live.coord.unserved [row])
      { live with coord := live.coord.replaceServed env r row } := by
  refine get_bind.trans ?_
  cases hns : live.coord.networks[row.1.networkId]? with
  | some ns =>
    have hserved : live.coord.unserved [row] = [] := by simp [unserved, hns]
    rw [hserved, List.append_nil]
    rfl
  | none => simp [unserved, replaceServed, hns, pure, EStateM.pure]

variable (rows : List (NetworkConfig × Registry))

theorem foldlM_applyInPlace (live : Live K) :
    rows.foldlM (applyInPlace env r) [] live = .ok (live.coord.unserved rows)
      { live with coord := rows.foldl (replaceServed env r) live.coord } := by
  have hloop (created : List (NetworkConfig × Registry)) :
      rows.foldlM (applyInPlace env r) created live = .ok (created ++ live.coord.unserved rows)
        { live with coord := rows.foldl (replaceServed env r) live.coord } := by
    induction rows generalizing created live with
    | nil => simp [unserved, pure, EStateM.pure]
    | cons row rows ih =>
      rw [List.foldlM_cons, bind_of_ok (applyInPlace_eq created row live), ih,
        unserved_replaceServed, List.append_assoc]
      congr 2
      exact (List.filter_append [row] rows).symm
  exact hloop []

theorem foldlM_createInPlace (live : Live K) :
    rows.foldlM (fun _ => createInPlace env r) () live =
      .ok () ⟨rows.foldl (createRow env r) live.coord, rows.foldl freshLock live.poisoned⟩ := by
  induction rows generalizing live with
  | nil => rfl
  | cons row rows ih =>
    rw [List.foldlM_cons, bind_of_ok (createInPlace_eq row live)]
    exact ih _

end Live

/-! ### What an import checks -/

namespace Coordinator

variable {env : CoordText} {r : AdminReading} {st : Coordinator K}

theorem checked_eq {cfgs acc checked : List NetworkConfig}
    (h : cfgs.foldlM (checkImported env r) acc = .ok checked) :
    checked = acc ++ cfgs.map (·.truncated) ∧
      ∀ cfg ∈ cfgs, validateNetworkWith env r.resolve cfg = .ok cfg.truncated := by
  induction cfgs generalizing acc with
  | nil =>
    simp only [List.foldlM_nil, pure_eq_ok] at h
    simp [h]
  | cons cfg cfgs ih =>
    simp only [List.foldlM_cons, bind_eq_ok, checkImported, ensure_eq_ok, mapError_eq_ok, pure_eq_ok] at h
    obtain ⟨_, ⟨-, -, -, -, -, -, cfg', hvalid, rfl⟩, h⟩ := h
    obtain rfl : cfg' = cfg.truncated := (validateNetworkWith_eq_ok hvalid).1
    obtain ⟨hchecked, hvalidated⟩ := ih h
    exact ⟨by simp [hchecked], List.forall_mem_cons.mpr ⟨hvalid, hvalidated⟩⟩

theorem claimed_nodup {claims owners owners' : List (String × String)}
    (h : claims.foldlM claimSecret owners = .ok owners') (howners : (owners.map Prod.fst).Nodup) :
    (owners'.map Prod.fst).Nodup ∧ owners' = claims.reverse ++ owners := by
  induction claims generalizing owners with
  | nil =>
    simp only [List.foldlM_nil, pure_eq_ok] at h
    subst h
    exact ⟨howners, rfl⟩
  | cons claim claims ih =>
    simp only [List.foldlM_cons, bind_eq_ok] at h
    obtain ⟨owners₁, hclaim, h⟩ := h
    have hnone : owners.lookup claim.1 = none := by
      unfold claimSecret at hclaim
      split at hclaim
      · cases hclaim
      · assumption
    have hfresh : claim.1 ∉ owners.map Prod.fst := by
      intro hmem
      obtain ⟨owner, howner, heq⟩ := List.mem_map.mp hmem
      have hne := List.lookup_eq_none_iff.mp hnone owner howner
      simp [heq] at hne
    simp only [claimSecret, hnone, Except.ok.injEq] at hclaim
    subst hclaim
    obtain ⟨hnodup, hall⟩ := ih h (List.nodup_cons.mpr ⟨hfresh, howners⟩)
    exact ⟨hnodup, by simp [hall]⟩

variable {uuid : String → String}

theorem importRow_cases {cfg : NetworkConfig} {row : NetworkConfig × Registry}
    (h : st.importRow env r uuid cfg = .ok row) :
    row.1 = cfg ∧ ∃ old reg, validateAssignments env cfg reg = .ok () ∧
      row.2 = importedRegistry old cfg reg r.clock.now := by
  simp only [importRow, bind_eq_ok, pure_eq_ok] at h
  obtain ⟨reg, -, _, hvalid, rfl⟩ := h
  exact ⟨rfl, _, reg, hvalid, rfl⟩

theorem importRow_rows {sorted : List NetworkConfig} {rows : List (NetworkConfig × Registry)}
    (h : List.Forall₂ (fun cfg row => st.importRow env r uuid cfg = .ok row) sorted rows) :
    rows.map Prod.fst = sorted ∧ ∀ row ∈ rows, ∃ old reg, validateAssignments env row.1 reg = .ok () ∧
      row.2 = importedRegistry old row.1 reg r.clock.now := by
  induction h with
  | nil => exact ⟨rfl, fun row hrow => absurd hrow List.not_mem_nil⟩
  | cons hrow _ ih =>
    obtain ⟨rfl, hkept⟩ := importRow_cases hrow
    exact ⟨by rw [List.map_cons, ih.1], List.forall_mem_cons.mpr ⟨hkept, ih.2⟩⟩

theorem importedEntry_runs (env : CoordText) (r : AdminReading) (keys : List KeyInfo)
    (row : NetworkConfig × Registry) (e : Option NetState × Option StoredRows) :
    ∃ ns, importedEntry env r keys row e = (some ns, none) ∧ ns.cfg = row.1 ∧
      ns.registry.members = row.2.members := by
  obtain ⟨served, rows⟩ := e
  cases served with
  | none => exact ⟨_, rfl, rfl, rfl⟩
  | some ns =>
    refine ⟨_, rfl, ?_⟩
    simp only [Option.map_some, Option.getD_some]
    obtain ⟨base, htrims, happly⟩ := applyImport_cases env keys r ns row.1 row.2
    have hpublish := publish_republishes env.net env.encode keys r.clock.now r.clock.nowMs r.db.mark base
    rw [happly]
    exact ⟨hpublish.cfg.trans htrims.cfg, hpublish.members.trans (congrArg Registry.members htrims.registry)⟩

end Coordinator

/-- No record of a network holds an address that is static for a member of another name. -/
def NetState.KeepsStatics (ns : NetState) : Prop :=
  ∀ m ∈ ns.cfg.members, ∀ ip ∈ m.2.1.addresses, ∀ rec_ ∈ ns.registry.records,
    ip ∈ rec_.addresses → rec_.name = m.1

/-- No two members, of one network or of two, have the same secret after trimming. -/
def Coordinator.SecretsApart (st : Coordinator K) : Prop :=
  ∀ (id₁ id₂ : String) (ns₁ ns₂ : NetState), st.networks[id₁]? = some ns₁ → st.networks[id₂]? = some ns₂ →
    ∀ m₁ ∈ ns₁.cfg.members, ∀ m₂ ∈ ns₂.cfg.members, ∀ s₁ ∈ m₁.2.1.secret, ∀ s₂ ∈ m₂.2.1.secret,
      trimText s₁ = trimText s₂ → id₁ = id₂ ∧ m₁ = m₂

theorem NetState.keepsStatics_of_validated {env : CoordText} {ns : NetState} {cfg : NetworkConfig}
    {old : Option NetworkConfig} {reg : Registry} {now : Nat} (hcfg : ns.cfg = cfg)
    (hmembers : ns.registry.members = (importedRegistry old cfg reg now).members)
    (hv : validateAssignments env cfg reg = .ok ()) : ns.KeepsStatics := by
  intro m hm ip hip rec_ hrec hheld
  obtain ⟨id, hid⟩ := Ipam.mem_records.mp hrec
  rw [hmembers, importedRegistry, getElem?_map] at hid
  obtain ⟨rec₀, hrec₀, heq⟩ := Option.map_eq_some_iff.mp hid
  have hsame : rec_.name = rec₀.name ∧ rec_.addresses = rec₀.addresses := by
    rw [← heq]
    split <;> exact ⟨rfl, rfl⟩
  rw [hsame.1]
  exact Ipam.name_of_validateAssignments hv (hcfg ▸ hm) hip (Ipam.mem_records.mpr ⟨id, hrec₀⟩) (hsame.2 ▸ hheld)

namespace Live

variable {env : CoordText} {r : AdminReading} {live : Live K}

theorem foldlM_claimSecrets {others : List (String × NetState)} {owners owners' : List (String × String)}
    (h : others.foldlM live.claimSecrets owners = .ok owners') :
    (others.flatMap fun p => secretsOf p.1 p.2.cfg).foldlM claimSecret owners =
      .ok owners' := by
  induction others generalizing owners with
  | nil => exact h
  | cons p others ih =>
    simp only [List.foldlM_cons, claimSecrets, bind_eq_ok] at h
    obtain ⟨owners₁, ⟨_, -, hclaim⟩, h⟩ := h
    rw [List.flatMap_cons, List.foldlM_append, bind_eq_ok]
    exact ⟨owners₁, hclaim, ih h⟩

/-- The networks there will be, with their configurations: those imported, and the others. -/
def claimants (live : Live K) (sorted : List NetworkConfig) : List (String × NetworkConfig) :=
  (sorted.map fun cfg => (cfg.networkId, cfg)) ++
    (live.coord.networks.toList.filter fun p => p.1 ∉ sorted.map (·.networkId)).map fun p => (p.1, p.2.cfg)

/-- What holds when an import gets to its commit. -/
structure Planned (env : CoordText) (r : AdminReading) (live : Live K) (cfgs : List NetworkConfig)
    (rows : List (NetworkConfig × Registry)) : Prop where
  validated : ∀ cfg ∈ cfgs, validateNetworkWith env r.resolve cfg = .ok cfg.truncated
  listed : ∀ cfg ∈ cfgs, ∃ row ∈ rows, row.1 = cfg.truncated
  nodup : (rows.map (·.1.networkId)).Nodup
  /-- The registries are those there were, and the configurations respect their addresses. -/
  kept : ∀ row ∈ rows, ∃ old reg, validateAssignments env row.1 reg = .ok () ∧
    row.2 = importedRegistry old row.1 reg r.clock.now
  claimed : (((live.claimants (rows.map Prod.fst)).flatMap fun p =>
    secretsOf p.1 p.2).map Prod.fst).Nodup

variable {cfgs : List NetworkConfig} {uuid : String → String} {rows : List (NetworkConfig × Registry)}

theorem importPlan_eq_ok (h : live.importPlan env r cfgs uuid = .ok rows) :
    Planned env r live cfgs rows := by
  simp only [importPlan, bind_eq_ok, gather_eq_ok] at h
  obtain ⟨checked, hchecked, owners, howners, owners', hothers, _, -, hrows⟩ := h
  obtain ⟨hall, hvalidated⟩ := checked_eq hchecked
  obtain ⟨hnodup, -⟩ := checked_eq_ok hchecked List.nodup_nil
  obtain ⟨hsorted, hkept⟩ := importRow_rows hrows
  have hperm := List.perm_insertionSort (fun a b : NetworkConfig => a.networkId ≤ b.networkId) checked
  refine ⟨hvalidated, fun cfg hcfg => ?_, ?_, hkept, ?_⟩
  · have hmem : cfg.truncated ∈ checked := by
      rw [hall]
      exact List.mem_map_of_mem hcfg
    rw [← hperm.mem_iff, ← hsorted] at hmem
    exact List.mem_map.mp hmem
  · have hids : rows.map (·.1.networkId) = (rows.map Prod.fst).map (·.networkId) := by
      rw [List.map_map]
      rfl
    rw [hids, hsorted]
    exact (hperm.map _).nodup_iff.mpr hnodup
  · have hclaims : ((live.claimants (rows.map Prod.fst)).flatMap fun p =>
        secretsOf p.1 p.2).foldlM claimSecret [] = .ok owners' := by
      rw [hsorted]
      simp only [claimants, List.flatMap_append, List.flatMap_map]
      rw [List.foldlM_append, bind_eq_ok]
      exact ⟨owners, howners, foldlM_claimSecrets hothers⟩
    obtain ⟨hclaimed, howners'⟩ := claimed_nodup hclaims List.nodup_nil
    rwa [howners', List.append_nil, List.map_reverse, List.nodup_reverse] at hclaimed

def imported (env : CoordText) (r : AdminReading) (live : Live K) (rows : List (NetworkConfig × Registry)) :
    Live K where
  coord := rows.foldl (applyRow env r) live.coord
  poisoned := (live.coord.unserved rows).foldl freshLock live.poisoned

def importRows (env : CoordText) (r : AdminReading) (live : Live K) (cfgs : List NetworkConfig)
    (uuid : String → String) : Except ApiError (List (NetworkConfig × Registry)) := do
  let rows ← live.importPlan env r cfgs uuid
  ensure (r.db.config = true) (.internal "saving imported configuration")
  return rows

theorem importInPlace_settles (env : CoordText) (r : AdminReading) (cfgs : List NetworkConfig)
    (uuid : String → String) (live : Live K) :
    Settles (importInPlace env r cfgs uuid) live (do
      let rows ← live.importRows env r cfgs uuid
      return (rows.map (·.1.networkId), live.imported env r rows)) := by
  unfold importInPlace importRows
  rw [bind_assoc]
  refine Settles.after_get (Settles.after_check fun rows hplan => ?_)
  change (saveNetworks r.db.config rows >>= _) live = _
  by_cases hsaved : r.db.config
  · have hsave : saveNetworks r.db.config rows live =
        .ok () { live with coord := rows.foldl storeRow live.coord } := by
      simp [saveNetworks, hsaved]
    rw [bind_of_ok hsave, bind_of_ok (foldlM_applyInPlace rows _), bind_of_ok (foldlM_createInPlace _ _)]
    simp only [unserved_foldl_storeRow,
      create_replace_store rows live.coord (importPlan_eq_ok hplan).nodup]
    simp only [ensure, hsaved, if_true]
    rfl
  · have hsave : saveNetworks r.db.config rows live =
        .error (.internal "saving imported configuration") live := by
      simp [saveNetworks, hsaved]
    simp only [ensure, hsaved]
    rfl

theorem foldlM_claimSecrets_eq (hlocks : ∀ id, live.poisoned id = false) (others : List (String × NetState))
    (owners : List (String × String)) :
    others.foldlM live.claimSecrets owners =
      (others.flatMap fun p => secretsOf p.1 p.2.cfg).foldlM claimSecret owners := by
  induction others generalizing owners with
  | nil => rfl
  | cons p others ih =>
    have hclaim : live.claimSecrets owners p =
        (secretsOf p.1 p.2.cfg).foldlM claimSecret owners := by
      simp only [claimSecrets, lockNet, ensure, hlocks, if_true]
      rfl
    rw [List.foldlM_cons, List.flatMap_cons, List.foldlM_append, hclaim]
    exact bind_congr ih

theorem importRows_eq (hlocks : ∀ id, live.poisoned id = false) (cfgs : List NetworkConfig)
    (uuid : String → String) :
    live.coord.importRows env r cfgs uuid = live.importRows env r cfgs uuid := by
  have hlocked (sorted : List NetworkConfig) : each sorted live.lockServed = .ok () := by
    refine each_eq_ok.mpr fun cfg _ => ?_
    unfold lockServed lockNet
    split
    · exact ensure_eq_ok.mpr (hlocks _)
    · rfl
  simp only [Coordinator.importRows, importRows, importPlan, List.foldlM_append, foldlM_claimSecrets_eq hlocks, hlocked,
    bind_assoc]
  rfl

theorem importInPlace_eq_importNetworks (hlocks : ∀ id, live.poisoned id = false) (cfgs : List NetworkConfig)
    (uuid : String → String) :
    ∃ poisoned, importInPlace env r cfgs uuid live =
      outcome (⟨(live.coord.importNetworks env r cfgs uuid).1, poisoned⟩,
        (live.coord.importNetworks env r cfgs uuid).2) := by
  rw [show importInPlace env r cfgs uuid live = _ from importInPlace_settles env r cfgs uuid live]
  unfold importNetworks
  rw [importRows_eq hlocks]
  cases live.importRows env r cfgs uuid with
  | ok rows => exact ⟨_, rfl⟩
  | error e => exact ⟨live.poisoned, rfl⟩

theorem importRows_eq_ok (h : live.importRows env r cfgs uuid = .ok rows) :
    Planned env r live cfgs rows := by
  simp only [importRows, bind_eq_ok, pure_eq_ok] at h
  obtain ⟨rows', hplan, -, -, rfl⟩ := h
  exact importPlan_eq_ok hplan

/-! ### What it leaves -/

section Planned

variable {cfgs : List NetworkConfig} {rows : List (NetworkConfig × Registry)}

theorem Planned.network (h : Planned env r live cfgs rows) {row : NetworkConfig × Registry} (hrow : row ∈ rows) :
    ∃ ns, (live.imported env r rows).coord.networks[row.1.networkId]? = some ns ∧ ns.cfg = row.1 ∧
      ns.registry.members = row.2.members := by
  have hentry := entry_foldl_applyRow env r rows live.coord row.1.networkId
  have hrows : rowsOf rows row.1.networkId = [row] := filter_key_eq_singleton h.nodup hrow
  obtain ⟨ns, hns, hcfg, hmembers⟩ := importedEntry_runs env r
    live.coord.signing.keys row (live.coord.entry row.1.networkId)
  rw [hrows, List.foldl_cons, List.foldl_nil, hns] at hentry
  exact ⟨ns, congrArg Prod.fst hentry, hcfg, hmembers⟩

variable {id : String}

theorem network_other (hid : id ∉ rows.map (·.1.networkId)) :
    (live.imported env r rows).coord.networks[id]? = live.coord.networks[id]? := by
  have hentry := entry_foldl_applyRow env r rows live.coord id
  have hrows : rowsOf rows id = [] := filter_key_eq_nil hid
  rw [hrows, List.foldl_nil] at hentry
  exact congrArg Prod.fst hentry

theorem Planned.mem_claimants (h : Planned env r live cfgs rows) {ns : NetState}
    (hns : (live.imported env r rows).coord.networks[id]? = some ns) :
    (id, ns.cfg) ∈ live.claimants (rows.map Prod.fst) := by
  unfold claimants
  rw [List.mem_append, List.map_map]
  by_cases hid : id ∈ rows.map (·.1.networkId)
  · obtain ⟨row, hrow, rfl⟩ := List.mem_map.mp hid
    obtain ⟨ns', hns', hcfg, -⟩ := h.network hrow
    cases hns'.symm.trans hns
    exact .inl (List.mem_map.mpr ⟨row, hrow, by rw [hcfg]; rfl⟩)
  · rw [network_other hid] at hns
    refine .inr (List.mem_map.mpr ⟨(id, ns), List.mem_filter.mpr ⟨?_, ?_⟩, rfl⟩)
    · exact mem_toList_iff_getElem?_eq_some.mpr hns
    · rw [List.map_map]
      exact decide_eq_true hid

def secretOf (x : String × String × MemberCfg × Role) : Option String := x.2.2.1.secret.map trimText

theorem map_fst_secretsOf (claimants : List (String × NetworkConfig)) :
    (claimants.flatMap fun p => secretsOf p.1 p.2).map Prod.fst =
      (claimants.flatMap fun p => p.2.members.map fun m => (p.1, m)).filterMap secretOf := by
  rw [List.map_flatMap, List.filterMap_flatMap]
  refine congrArg (List.flatMap · claimants) (funext fun p => ?_)
  simp only [secretsOf, List.map_filterMap, List.filterMap_map]
  refine congrArg (List.filterMap · p.2.members) (funext fun m => ?_)
  cases hm : m.2.1.secret <;> simp [secretOf, hm]

theorem Planned.secretsApart (h : Planned env r live cfgs rows) :
    (live.imported env r rows).coord.SecretsApart := by
  intro id₁ id₂ ns₁ ns₂ hns₁ hns₂ m₁ hm₁ m₂ hm₂ s₁ hs₁ s₂ hs₂ heq
  have hclaimed := h.claimed
  rw [map_fst_secretsOf] at hclaimed
  have hmem {id : String} {ns : NetState} {m : String × MemberCfg × Role}
      (hns : (live.imported env r rows).coord.networks[id]? = some ns) (hm : m ∈ ns.cfg.members) :
      (id, m) ∈ (live.claimants (rows.map Prod.fst)).flatMap fun p => p.2.members.map fun m => (p.1, m) :=
    List.mem_flatMap.mpr ⟨(id, ns.cfg), h.mem_claimants hns, List.mem_map_of_mem hm⟩
  have hsecret {id : String} {m : String × MemberCfg × Role} {s : String} (hs : m.2.1.secret = some s) :
      secretOf (id, m) = some (trimText s) := by
    simp [secretOf, hs]
  have hsame := eq_of_nodup_filterMap hclaimed (hmem hns₁ hm₁) (hmem hns₂ hm₂) (hsecret hs₁)
    (heq ▸ hsecret hs₂)
  exact Prod.mk.inj hsame

end Planned

/-- An import that fails changes nothing, running or stored. One that succeeds leaves no two members with
one secret; each network runs the configuration imported for it as validated, and no record of it holds
another member's static address. -/
theorem import_all_or_nothing (env : CoordText) (r : AdminReading) (live : Live K) (cfgs : List NetworkConfig)
    (uuid : String → String) :
    (∀ e live', importInPlace env r cfgs uuid live = .error e live' → live' = live) ∧
      ∀ ids live', importInPlace env r cfgs uuid live = .ok ids live' →
        live'.coord.SecretsApart ∧
          ∀ cfg ∈ cfgs, ∃ cfg' ns, validateNetworkWith env r.resolve cfg = .ok cfg' ∧
            live'.coord.networks[cfg.networkId]? = some ns ∧ ns.cfg = cfg' ∧ ns.KeepsStatics := by
  have hsettles := importInPlace_settles env r cfgs uuid live
  refine ⟨fun e live' h => (hsettles.error_iff.mp h).2, fun ids live' h => ?_⟩
  cases hrows : live.importRows env r cfgs uuid with
  | error e =>
    rw [show importInPlace env r cfgs uuid live = _ from hsettles, hrows] at h
    cases h
  | ok rows =>
    rw [show importInPlace env r cfgs uuid live = _ from hsettles, hrows] at h
    obtain rfl : live.imported env r rows = live' := (EStateM.Result.ok.inj h).2
    have hplanned := importRows_eq_ok hrows
    refine ⟨hplanned.secretsApart, fun cfg hcfg => ?_⟩
    obtain ⟨row, hrow, hcfg'⟩ := hplanned.listed cfg hcfg
    obtain ⟨ns, hns, hruns, hmembers⟩ := hplanned.network hrow
    obtain ⟨old, reg, hvalid, hreg⟩ := hplanned.kept row hrow
    rw [hreg] at hmembers
    refine ⟨cfg.truncated, ns, hplanned.validated cfg hcfg, ?_, hruns.trans hcfg', ?_⟩
    · rw [hcfg'] at hns
      exact hns
    · exact keepsStatics_of_validated hruns hmembers hvalid

open Coordinator.AtomicityExample in
/-- A network beside one that is served. -/
example : value (importInPlace ValidationExample.env (reading true)
    [{ ValidationExample.cfg with networkId := "branch" }] (fun _ => "v") ⟨coordinator, fun _ => false⟩) =
      some ["branch"] := by decide +kernel

end Live

end Nqvpn
