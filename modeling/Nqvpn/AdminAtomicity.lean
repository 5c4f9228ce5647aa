import Nqvpn.Admin
import Nqvpn.DurableRows

/-!
# What a failed operation leaves behind

Every operation on a network checks first, then writes the configuration, the
registry or both, and then acts on sessions and the view. `proposal` is what it
wants to write and `finish` what it does once the rows are stored; an operation is
exactly these two around one write of the rows. The main result says for every
operation, state and outcome of the database when a failure has no effect.
-/

namespace Nqvpn

open Fallible DurableRows

namespace NetState

def rows (ns : NetState) : Rows NetworkConfig Registry :=
  ⟨ns.cfg, ns.registry, ns.stored.config, ns.stored.registry⟩

def withRows (ns : NetState) (rows : Rows NetworkConfig Registry) : NetState :=
  { ns with
    cfg := rows.fst, registry := rows.snd
    stored := ⟨rows.storedFst, rows.storedSnd⟩ }

@[simp] theorem rows_withRows (ns : NetState) (rows : Rows NetworkConfig Registry) :
    (ns.withRows rows).rows = rows := rfl

theorem commit_eq (ns : NetState) (reg : Registry) (ok reload : Bool) :
    { ns with registry := reg }.commit ok reload =
      (ns.withRows ({ ns.rows with snd := reg }.commit ok reload).1,
        ({ ns.rows with snd := reg }.commit ok reload).2) := by
  obtain ⟨cfg, registry, directory, leases, sessions, retired, startedAt, deleted, lastPublishMs,
    flushScheduled, ⟨config, stored⟩⟩ := ns
  cases ok <;> cases reload <;> cases stored <;> rfl

section Ops

variable (env : CoordText) (keys : List KeyInfo) (r : AdminReading)

def rotated (ns : NetState) (node : NodeId) : Registry :=
  { ns.registry with members := ns.registry.members.modify node fun rec_ =>
      { rec_ with loginGen := rec_.loginGen + 1, replacedUnix := some r.clock.now
                  replacedFrom := some "secret rotated" } }

def proposal (ns : NetState) : NetworkOp → Except ApiError (Edit NetworkConfig Registry)
  | .updateNetwork spec => do
    let cfg ← ns.proposed env r { ns.cfg with cidrs := spec.cidrs, settings := spec.settings }
    return ⟨some cfg, none⟩
  | .createMember name role spec secret => do
    ensure (ns.cfg.memberByName name = none) (.badRequest s!"member {name.quote} already exists")
    let cfg ← ns.proposed env r
      (ns.cfg.insertMember name role { spec.apply MemberCfg.default with secret := some secret })
    return ⟨some cfg, none⟩
  | .updateMember name spec => do
    let _ ← orFail (ns.cfg.memberByName name) (ApiError.notFound s!"member {name.quote}")
    let cfg ← ns.proposed env r (ns.cfg.modifyMember name spec.apply)
    return ⟨some cfg, none⟩
  | .rotateMember name secret => do
    ensure ((ns.cfg.memberByName name).isSome = true) (.notFound s!"member {name.quote}")
    return ⟨some (ns.cfg.modifyMember name fun m => { m with secret := some secret }),
      (ns.registry.idOf name).map (ns.rotated r)⟩
  | .deleteMember name => do
    ensure (¬ ((ns.cfg.removeMember name).2 = false ∧ ns.registry.idOf name = none))
      (.notFound s!"member {name.quote}")
    return ⟨some (ns.cfg.removeMember name).1, (ns.registry.idOf name).map fun node =>
      { ns.registry with members := ns.registry.members.erase node }⟩
  | .setDisabled name disabled => do
    let node ← orFail (ns.registry.idOf name) (.notFound s!"member {name.quote} has never joined")
    let rec_ ← orFail ns.registry.members[node]? (.notFound s!"member {name.quote}")
    return ⟨none, some { ns.registry with
      members := ns.registry.members.insert node { rec_ with disabled } }⟩

/-- What an operation proposes to write when its checks pass. -/
inductive Proposes (ns : NetState) : NetworkOp → Edit NetworkConfig Registry → Prop
  | updateNetwork {spec cfg} :
      ns.proposed env r { ns.cfg with cidrs := spec.cidrs, settings := spec.settings } = .ok cfg →
      Proposes ns (.updateNetwork spec) ⟨some cfg, none⟩
  | createMember {name role spec secret cfg} :
      ns.cfg.memberByName name = none → ns.proposed env r
        (ns.cfg.insertMember name role { spec.apply MemberCfg.default with secret := some secret }) = .ok cfg →
      Proposes ns (.createMember name role spec secret) ⟨some cfg, none⟩
  | updateMember {name spec cfg} :
      ns.proposed env r (ns.cfg.modifyMember name spec.apply) = .ok cfg →
      Proposes ns (.updateMember name spec) ⟨some cfg, none⟩
  | rotateMember {name secret} : Proposes ns (.rotateMember name secret)
      ⟨some (ns.cfg.modifyMember name fun m => { m with secret := some secret }),
        (ns.registry.idOf name).map (ns.rotated r)⟩
  | deleteMember {name} : Proposes ns (.deleteMember name)
      ⟨some (ns.cfg.removeMember name).1, (ns.registry.idOf name).map fun node =>
        { ns.registry with members := ns.registry.members.erase node }⟩
  | setDisabled {name disabled node rec_} :
      ns.registry.idOf name = some node → ns.registry.members[node]? = some rec_ →
      Proposes ns (.setDisabled name disabled) ⟨none, some { ns.registry with
        members := ns.registry.members.insert node { rec_ with disabled } }⟩

variable {env r} in
theorem proposal_eq_ok {ns : NetState} {op : NetworkOp} {e : Edit NetworkConfig Registry}
    (h : ns.proposal env r op = .ok e) : ns.Proposes env r op e := by
  cases op <;> simp only [proposal, bind_eq_ok, pure_eq_ok, ensure_eq_ok, orFail_eq_ok] at h
  case updateNetwork =>
    obtain ⟨cfg, hcfg, rfl⟩ := h
    exact .updateNetwork hcfg
  case createMember =>
    obtain ⟨-, hnew, cfg, hcfg, rfl⟩ := h
    exact .createMember hnew hcfg
  case updateMember =>
    obtain ⟨-, -, cfg, hcfg, rfl⟩ := h
    exact .updateMember hcfg
  case rotateMember =>
    obtain ⟨-, -, rfl⟩ := h
    exact .rotateMember
  case deleteMember =>
    obtain ⟨-, -, rfl⟩ := h
    exact .deleteMember
  case setDisabled =>
    obtain ⟨node, hnode, rec_, hrec, rfl⟩ := h
    exact .setDisabled hnode hrec

/-- What an operation on `ns` does to `done`, where its rows are stored. -/
def finish (ns done : NetState) : NetworkOp → NetState
  | .updateNetwork _ =>
    let held := { done with
      directory := { done.directory with holdDownSecs := done.cfg.settings.holdDownSecs } }
    (if everyoneMustRejoin ns.cfg done.cfg then held.reconfigureAll "network settings changed"
      else held).publishNow env keys r
  | .createMember _ _ _ _ => done
  | .updateMember _ _ =>
    (done.reconfigureNamed (changedMembers ns.cfg done.cfg) "configuration changed").publishNow
      env keys r
  | .rotateMember name _ =>
    match ns.registry.idOf name with
    | some node => (done.closeSession node "secret rotated").publishNow env keys r
    | none => done
  | .deleteMember name =>
    match ns.registry.idOf name with
    | some node => ((done.closeSession node "member deleted").forget node).publishNow env keys r
    | none => done.publishNow env keys r
  | .setDisabled name disabled =>
    match ns.registry.idOf name with
    | some node =>
      (if disabled then done.evict node ((ns.registry.members[node]?).elim .client (·.role))
        else done).publishNow env keys r
    | none => done

def written (ns : NetState) (e : Edit NetworkConfig Registry) : Rows NetworkConfig Registry × Bool :=
  ns.rows.write e r.db.config r.db.registry r.db.reload

/-- How an operation that proposes `e` ends. -/
def Ends (ns : NetState) (op : NetworkOp) (e : Edit NetworkConfig Registry)
    (done : NetState × Except ApiError Unit) : Prop :=
  ((ns.written r e).2 = true ∧ done = (ns.finish env keys r (ns.withRows (ns.written r e).1) op, .ok ())) ∨
    ((ns.written r e).2 = false ∧ ∃ err, done = (ns.withRows (ns.written r e).1, .error err))

variable {env keys r} {ns : NetState}

theorem ends_config {cfg : NetworkConfig} {op : NetworkOp} {done : NetState × Except ApiError Unit}
    (hdone : done = if r.db.config then
        (ns.finish env keys r { ns with cfg, stored := ⟨some cfg, ns.stored.registry⟩ } op, .ok ())
      else ({ ns with cfg }, .error configFailed)) :
    ns.Ends env keys r op ⟨some cfg, none⟩ done := by
  subst hdone
  unfold Ends written
  cases r.db.config with
  | true => exact .inl ⟨rfl, rfl⟩
  | false => exact .inr ⟨rfl, configFailed, rfl⟩

theorem ends_registry {fst : Option NetworkConfig} {reg : Registry} {op : NetworkOp}
    {committed : NetState × Bool} {done : NetState × Except ApiError Unit}
    (hfst : fst = none ∨ r.db.config)
    (hcommitted : { ns with
        cfg := fst.getD ns.cfg, registry := reg
        stored := ⟨fst.or ns.stored.config, ns.stored.registry⟩ }.commit r.db.registry r.db.reload =
      committed)
    (hdone : done = if committed.2 then (ns.finish env keys r committed.1 op, .ok ())
      else (committed.1, .error commitFailed)) :
    ns.Ends env keys r op ⟨fst, some reg⟩ done := by
  have hwritten : committed = (ns.withRows (ns.written r ⟨fst, some reg⟩).1, (ns.written r ⟨fst, some reg⟩).2) := by
    refine (hcommitted.symm.trans (commit_eq { ns with
      cfg := fst.getD ns.cfg, stored := ⟨fst.or ns.stored.config, ns.stored.registry⟩ } reg _ _)).trans ?_
    cases fst with
    | none => rfl
    | some cfg =>
      have hdb : r.db.config := by simpa using hfst
      simp only [written, Rows.write, Rows.save, hdb, if_true]
      rfl
  subst hwritten hdone
  unfold Ends
  cases (ns.written r ⟨fst, some reg⟩).2 with
  | true => exact .inl ⟨rfl, rfl⟩
  | false => exact .inr ⟨rfl, commitFailed, rfl⟩

theorem exec_ends (ns : NetState) (op : NetworkOp) :
    (∃ err, ns.proposal env r op = .error err ∧ ns.exec env keys r op = (ns, .error err)) ∨
      ∃ e, ns.proposal env r op = .ok e ∧ ns.Ends env keys r op e (ns.exec env keys r op) := by
  cases op with
  | updateNetwork spec =>
    simp only [exec, updateNetwork, proposal]
    cases ns.proposed env r { ns.cfg with cidrs := spec.cidrs, settings := spec.settings } with
    | error err => exact .inl ⟨err, rfl, rfl⟩
    | ok cfg =>
      refine .inr ⟨_, rfl, ends_config ?_⟩
      cases r.db.config <;> rfl
  | createMember name role spec secret =>
    simp only [exec, createMember, proposal]
    by_cases hnew : ns.cfg.memberByName name = none
    · simp only [ensure, hnew, if_true, Except.bind, bind]
      cases ns.proposed env r
        (ns.cfg.insertMember name role { spec.apply MemberCfg.default with secret := some secret }) with
      | error err => exact .inl ⟨err, rfl, rfl⟩
      | ok cfg =>
        refine .inr ⟨_, rfl, ends_config ?_⟩
        cases r.db.config <;> rfl
    · simp only [ensure, hnew, if_false, Except.bind, bind]
      exact .inl ⟨_, rfl, rfl⟩
  | updateMember name spec =>
    simp only [exec, updateMember, proposal]
    cases ns.cfg.memberByName name with
    | none => exact .inl ⟨_, rfl, rfl⟩
    | some m =>
      cases ns.proposed env r (ns.cfg.modifyMember name spec.apply) with
      | error err => exact .inl ⟨err, rfl, rfl⟩
      | ok cfg =>
        refine .inr ⟨_, rfl, ends_config ?_⟩
        cases r.db.config <;> rfl
  | rotateMember name secret =>
    simp only [exec, rotateMember, proposal]
    cases hname : (ns.cfg.memberByName name).isSome with
    | false =>
      refine .inl ⟨ApiError.notFound s!"member {name.quote}", ?_, ?_⟩
      · simp [ensure, bind, Except.bind]
      · simp [Except.map]
    | true =>
      refine .inr ⟨⟨some (ns.cfg.modifyMember name fun m => { m with secret := some secret }),
        (ns.registry.idOf name).map (ns.rotated r)⟩,
        by simp [ensure, bind, Except.bind, pure, Except.pure], ?_⟩
      cases hnode : ns.registry.idOf name with
      | none =>
        refine ends_config ?_
        simp only [finish, hnode]
        cases r.db.config <;> rfl
      | some node =>
        cases hdb : r.db.config with
        | false =>
          unfold Ends written
          simp only [hdb, saveConfig]
          exact .inr ⟨rfl, configFailed, rfl⟩
        | true =>
          simp only [saveConfig, if_true]
          generalize hcommitted : NetState.commit _ r.db.registry r.db.reload = committed
          refine ends_registry (.inr hdb) hcommitted ?_
          simp only [finish, hnode]
          cases committed.2 <;> rfl
  | deleteMember name =>
    simp only [exec, deleteMember, proposal]
    by_cases hknown : (ns.cfg.removeMember name).2 = false ∧ ns.registry.idOf name = none
    · refine .inl ⟨ApiError.notFound s!"member {name.quote}", ?_, ?_⟩
      · simp [ensure, hknown, bind, Except.bind]
      · simp [hknown]
    · refine .inr ⟨⟨some (ns.cfg.removeMember name).1, (ns.registry.idOf name).map fun node =>
        { ns.registry with members := ns.registry.members.erase node }⟩,
        by simp [ensure, hknown, bind, Except.bind, pure, Except.pure], ?_⟩
      have hgoes : (!(ns.cfg.removeMember name).2 && (ns.registry.idOf name).isNone) = false := by
        simpa [Option.isSome_iff_ne_none] using hknown
      simp only [hgoes, Bool.false_eq_true, if_false]
      cases hnode : ns.registry.idOf name with
      | none =>
        refine ends_config ?_
        simp only [finish, hnode]
        cases r.db.config <;> rfl
      | some node =>
        cases hdb : r.db.config with
        | false =>
          unfold Ends written
          simp only [hdb, saveConfig]
          exact .inr ⟨rfl, configFailed, rfl⟩
        | true =>
          simp only [saveConfig, if_true]
          generalize hcommitted : NetState.commit _ r.db.registry r.db.reload = committed
          refine ends_registry (.inr hdb) hcommitted ?_
          simp [finish, hnode]
  | setDisabled name disabled =>
    simp only [exec, setDisabled, proposal]
    cases hnode : ns.registry.idOf name with
    | none => exact .inl ⟨_, rfl, rfl⟩
    | some node =>
      simp only [orFail, Option.elim_some, bind, Except.bind]
      cases hrec : ns.registry.members[node]? with
      | none => exact .inl ⟨_, rfl, rfl⟩
      | some rec_ =>
        refine .inr ⟨_, rfl, ends_registry (.inl rfl) rfl ?_⟩
        simp only [finish, hnode, hrec, Option.elim_some]
        rfl

theorem exec_inert_iff (hreload : r.db.reload) (ns : NetState) (op : NetworkOp) :
    ((∃ err, (ns.exec env keys r op).2 = .error err) → (ns.exec env keys r op).1.rows = ns.rows) ↔
      ∀ e, ns.proposal env r op = .ok e → ns.rows.Withstands e r.db.config r.db.registry := by
  rcases exec_ends ns op with ⟨err, hproposal, hexec⟩ | ⟨e, hproposal, hends⟩
  · rw [hexec, hproposal]
    exact ⟨fun _ e he => (nomatch he), fun _ _ => rfl⟩
  · have hforall : (∀ e', ns.proposal env r op = .ok e' →
        ns.rows.Withstands e' r.db.config r.db.registry) ↔
        ns.rows.Withstands e r.db.config r.db.registry := by
      rw [hproposal]
      exact ⟨fun h => h e rfl, fun h e' he => Except.ok.inj he ▸ h⟩
    rw [hforall, ← Rows.write_inert_iff, ← hreload]
    change _ ↔ ((ns.written r e).2 = false → (ns.written r e).1 = ns.rows)
    rcases hends with ⟨hok, hexec⟩ | ⟨hfail, err, hexec⟩
    · rw [hexec, hok]
      exact ⟨fun _ h => (nomatch h), fun _ ⟨_, h⟩ => (nomatch h)⟩
    · rw [hexec, hfail, rows_withRows]
      exact ⟨fun h _ => h ⟨err, rfl⟩, fun h _ => h rfl⟩

end Ops

end NetState

namespace Coordinator

variable {K : Type}

/-- The configuration and registry of every network, running and stored, are the same. -/
def SameRows (st st' : Coordinator K) : Prop :=
  (∀ id : String, (st'.networks[id]?).map NetState.rows = (st.networks[id]?).map NetState.rows) ∧
    st'.shelf = st.shelf

def Withstands (env : CoordText) (r : AdminReading) (st : Coordinator K) : AdminOp → Prop
  | .edit id op => ∀ (ns : NetState) (e : Edit NetworkConfig Registry), op.precheck = .ok () →
      st.networks[id]? = some ns → ns.proposal env r op = .ok e →
        ns.rows.Withstands e r.db.config r.db.registry
  | .createNetwork _ _ => True
  | .deleteNetwork _ => True
  | .importNetworks _ _ => True

theorem sameRows_insert {st : Coordinator K} {id : String} {ns ns' : NetState}
    (hns : st.networks[id]? = some ns) :
    SameRows st { st with networks := st.networks.insert id ns' } ↔ ns'.rows = ns.rows := by
  constructor
  · rintro ⟨h, -⟩
    have hid := h id
    simp only [Std.ExtTreeMap.getElem?_insert_self, hns, Option.map_some, Option.some.injEq] at hid
    exact hid
  · intro h
    refine ⟨fun id' => ?_, rfl⟩
    simp only [Std.ExtTreeMap.getElem?_insert]
    by_cases hid : id = id'
    · subst hid
      simp [hns, h]
    · simp [hid]

/-- If a rollback that is attempted succeeds, an operation that fails leaves every
configuration and registry, running and stored, as it was, exactly when its failed
write had nothing to undo. -/
theorem failed_mutation_inert_iff (env : CoordText) (r : AdminReading) (hreload : r.db.reload = true)
    (st : Coordinator K) (op : AdminOp) :
    ((∃ err, (st.exec env r op).2 = .error err) → SameRows st (st.exec env r op).1) ↔
      st.Withstands env r op := by
  cases op with
  | edit id op =>
    simp only [exec, edit, Withstands]
    cases hpre : op.precheck with
    | error err => exact ⟨fun _ _ _ h => absurd h (by simp), fun _ _ => ⟨fun _ => rfl, rfl⟩⟩
    | ok u =>
      cases hns : st.networks[id]? with
      | none => exact ⟨fun _ _ _ _ h => absurd h (by simp), fun _ _ => ⟨fun _ => rfl, rfl⟩⟩
      | some ns =>
        simp only [sameRows_insert hns, NetState.exec_inert_iff hreload]
        constructor
        · intro h ns' e _ hns' he
          cases hns'
          exact h e he
        · intro h e he
          exact h ns e trivial rfl he
  | createNetwork spec uuid =>
    simp only [exec, createNetwork, Withstands, iff_true]
    rintro ⟨err, herr⟩
    split at herr
    · exact ⟨fun _ => rfl, rfl⟩
    · cases herr
  | deleteNetwork id =>
    simp only [exec, deleteNetwork, Withstands, iff_true]
    rintro ⟨err, herr⟩
    split at herr
    · exact ⟨fun _ => rfl, rfl⟩
    · cases herr
  | importNetworks cfgs uuid =>
    simp only [exec, importNetworks, Withstands, iff_true]
    rintro ⟨err, herr⟩
    split at herr
    · exact ⟨fun _ => rfl, rfl⟩
    · cases herr

/-! ### A member whose new secret is not saved -/

namespace AtomicityExample

def cfg : NetworkConfig :=
  ⟨"acme", [], SettingsCfg.default, ∅,
    (∅ : Std.ExtTreeMap String MemberCfg).insert "laptop" { MemberCfg.default with secret := some "old" }⟩

def network : NetState :=
  NetState.new (fun _ => []) cfg (Registry.new "u") ⟨some cfg, some (Registry.new "u")⟩ 0 0

def coordinator : Coordinator Unit where
  networks := (∅ : Std.ExtTreeMap String NetState).insert "acme" network
  verifyingKeys := []
  shelf := ∅
  signing := ⟨[], fun _ => [], 0⟩
  active := ("k", ())

/-- A reading in which saving the configuration ends as `saved`. -/
def reading (saved : Bool) : AdminReading where
  resolve _ _ := []
  clock := ⟨0, 0, 0⟩
  db := ⟨saved, true, true, true, true⟩

def rotate : AdminOp := .edit "acme" (.rotateMember "laptop" "new")

end AtomicityExample

open AtomicityExample in
theorem failed_mutation_inert_rotation_saved :
    coordinator.Withstands .byteText (reading true) rotate := by
  refine (failed_mutation_inert_iff .byteText (reading true) rfl coordinator rotate).mp ?_
  rintro ⟨err, herr⟩
  have hok : (coordinator.exec .byteText (reading true) rotate).2.toBool := by decide +kernel
  rw [herr] at hok
  exact (nomatch hok)

open AtomicityExample in
/-- The operator is told that rotating failed, and the old secret no longer works. -/
theorem failed_rotation_replaces_secret :
    (∃ err, (coordinator.exec .byteText (reading false) rotate).2 = .error err) ∧
      (((coordinator.exec .byteText (reading false) rotate).1.networks["acme"]?).bind fun ns =>
        (ns.cfg.memberByName "laptop").bind fun m => m.1.secret) = some "new" ∧
      ¬ SameRows coordinator (coordinator.exec .byteText (reading false) rotate).1 := by
  have hsecret : (((coordinator.exec .byteText (reading false) rotate).1.networks["acme"]?).bind fun ns =>
      (ns.cfg.memberByName "laptop").bind fun m => m.1.secret) = some "new" := by decide +kernel
  refine ⟨⟨NetState.configFailed, by decide +kernel⟩, hsecret, fun hsame => ?_⟩
  have hrows := hsame.1 "acme"
  obtain ⟨ns, hns, hcfg⟩ := Option.map_eq_some_iff.mp hrows
  rw [hns, Option.bind_some, show ns.cfg = network.cfg from congrArg Rows.fst hcfg] at hsecret
  exact absurd hsecret (by decide +kernel)

end Coordinator

end Nqvpn
