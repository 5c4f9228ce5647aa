import Nqvpn.NetworkRuns

/-!
# What a credential is bound to

A credential names a node and a login generation. Generations are bumped by a join with
new keys, by a new secret, by an import and by a reclaim; the registry may fall back to
what is stored after a failed commit; and records come and go. The history kept here is
every credential issued, and every name a stored registry has given a node id to. Both
registries, the running one and the stored one, account for all of it.
-/

namespace Nqvpn

open Fallible DurableRows Registry Option List

/-- A network, the credentials issued since it exists, latest first, and who was stored
under which node id. -/
structure Issuance where
  net : NetState
  issued : List Claims
  assigned : List (NodeId × String)

def HistoryEvent.credential (env : CoordText) (ns : NetState) : HistoryEvent → Option Claims
  | .perform (.join name presented req peerIp signing t db) =>
    (ns.join env name presented req peerIp signing t db).2.toOption.map Prod.fst
  | _ => none

def Registry.names (reg : Registry) : List (NodeId × String) :=
  reg.members.toList.map fun p => (p.1, p.2.name)

def HistoryEvent.HasRoom (ns : NetState) (e : HistoryEvent) : Prop :=
  ∀ op ∈ e.op, ∀ name ∈ op.joins, ns.registry.idOf name = none → ns.registry.nextNodeId < maxNodeId

def Issuance.step (env : CoordText) (s : Issuance) (e : HistoryEvent) : Option Issuance :=
  (s.net.advance env e).map fun net =>
    { net
      issued := (e.credential env s.net).toList ++ s.issued
      assigned := net.stored.registry.elim [] names ++ s.assigned }

def issuanceSystem (env : CoordText) : TransitionSystem Issuance HistoryEvent where
  Initial s := (networkSystem env).Initial s.net ∧ s.issued = [] ∧ s.assigned = []
  step := Issuance.step env

variable {reg : Registry}

theorem Registry.mem_names {p : NodeId × String} :
    p ∈ reg.names ↔ ∃ r, reg.members[p.1]? = some r ∧ r.name = p.2 := by
  obtain ⟨id, name⟩ := p
  simp only [names, List.mem_map, Prod.exists, Std.ExtTreeMap.mem_toList_iff_getElem?_eq_some,
    Prod.mk.injEq]
  constructor
  · rintro ⟨_, r, hr, rfl, hname⟩
    exact ⟨r, hr, hname⟩
  · rintro ⟨r, hr, hname⟩
    exact ⟨id, r, hr, rfl, hname⟩

/-! ### A registry that accounts for the history -/

/-- What a record says of a credential issued under its node. -/
structure MemberRecord.Answers (r : MemberRecord) (c : Claims) : Prop where
  loginGen : c.loginGen ≤ r.loginGen
  keys : c.loginGen = r.loginGen → r.pubkey = some c.pubkey ∧ r.certFp = some c.certFp

structure Registry.Accounts (reg : Registry) (issued : List Claims) (assigned : List (NodeId × String)) :
    Prop where
  filed : reg.Filed
  next : reg.nextNodeId ≤ maxNodeId
  positive : 0 < reg.nextNodeId
  used : ∀ (id : NodeId) (r : MemberRecord), reg.members[id]? = some r → 0 < id ∧ id < reg.nextNodeId
  issued : ∀ c ∈ issued, c.nodeId < reg.nextNodeId ∧
    ∀ r, reg.members[c.nodeId]? = some r → r.Answers c
  assigned : ∀ p ∈ assigned, p.1 < reg.nextNodeId ∧ ∀ r, reg.members[p.1]? = some r → r.name = p.2

namespace Registry.Accounts

variable {reg reg' : Registry} {issued : List Claims} {assigned : List (NodeId × String)}

theorem of_new (uuid : String) : (new uuid).Accounts [] [] where
  filed := filed_new uuid
  next := (by decide : 1 ≤ maxNodeId)
  positive := Nat.one_pos
  used id r h := by simp [new] at h
  issued c hc := absurd hc not_mem_nil
  assigned p hp := absurd hp not_mem_nil

theorem withMark (h : reg.Accounts issued assigned) (hwm : Nat) :
    { reg with genHwm := hwm }.Accounts issued assigned :=
  { h with filed := { h.filed with } }

theorem amends (h : reg.Accounts issued assigned) (ha : reg.Amends reg') :
    reg'.Accounts issued assigned := by
  refine ⟨h.filed.amends ha, ha.nextNodeId.trans_le h.next, ?_, fun id r' hr' => ?_, fun c hc => ?_,
    fun p hp => ?_⟩
  · rw [ha.nextNodeId]
    exact h.positive
  · obtain ⟨r, hr, -⟩ := ha.members id r' hr'
    rw [ha.nextNodeId]
    exact h.used id r hr
  · rw [ha.nextNodeId]
    obtain ⟨hlt, hanswers⟩ := h.issued c hc
    refine ⟨hlt, fun r' hr' => ?_⟩
    obtain ⟨r, hr, hrec⟩ := ha.members _ r' hr'
    have hold := hanswers r hr
    refine ⟨hold.loginGen.trans hrec.loginGen, fun heq => ?_⟩
    rw [hrec.pubkey, hrec.certFp]
    exact hold.keys (le_antisymm hold.loginGen (heq ▸ hrec.loginGen))
  · rw [ha.nextNodeId]
    obtain ⟨hlt, hnamed⟩ := h.assigned p hp
    refine ⟨hlt, fun r' hr' => ?_⟩
    obtain ⟨r, hr, hrec⟩ := ha.members _ r' hr'
    exact hrec.name.trans (hnamed r hr)

theorem idFor_eq_next (h : reg.Accounts issued assigned) {name : String} (hnone : reg.idOf name = none) :
    reg.idFor name = reg.nextNodeId := by
  have hmem : reg.nextNodeId ∉ reg.members := by
    intro hmem
    obtain ⟨r, hr⟩ := isSome_iff_exists.mp (Std.ExtTreeMap.mem_iff_isSome_getElem?.mp hmem)
    exact (h.used _ r hr).2.false
  rw [idFor, hnone, getD_none, max_eq_left h.positive, freshId, if_neg hmem]

theorem assign (h : reg.Accounts issued assigned) : reg.Accounts issued (reg.names ++ assigned) := by
  refine { h with assigned := fun p hp => ?_ }
  rcases mem_append.mp hp with hp | hp
  · obtain ⟨r, hr, hname⟩ := mem_names.mp hp
    refine ⟨(h.used _ r hr).2, fun r' hr' => ?_⟩
    rw [← hname, some.inj (hr'.symm.trans hr)]
  · exact h.assigned p hp

theorem assign_of_subset (h : reg.Accounts issued assigned) {names : List (NodeId × String)}
    (hnames : ∀ p ∈ names, p ∈ assigned) : reg.Accounts issued (names ++ assigned) := by
  refine { h with assigned := fun p hp => ?_ }
  rcases mem_append.mp hp with hp | hp
  · exact h.assigned p (hnames p hp)
  · exact h.assigned p hp

end Registry.Accounts

namespace NetState

variable {env : CoordText} {ns ns' : NetState} {name presented : String} {req : JoinRequest}
  {peerIp : String} {signing : Signing} {t : Clock} {db : DbOutcome} {plan : JoinPlan} {granted : Granted}
  {reg : Registry} {relayAddr : Option String} {issued : List Claims} {assigned : List (NodeId × String)}

theorem keys_of_isReplacement_eq_false {r : MemberRecord} {key : String}
    (h : isReplacement (some r) req = false) (hkey : r.pubkey = some key) :
    key = req.pubkey ∧ r.certFp = some req.certFingerprint := by
  simp only [isReplacement, any_some, hkey, isSome_some, Bool.true_and,
    Bool.or_eq_false_iff, decide_eq_false_iff_not, not_not, some.injEq] at h
  exact h

variable {c : Claims} {rows : Rows NetworkConfig Registry}

theorem Plans.answers (h : ns.Plans env name presented req peerIp t plan granted reg relayAddr)
    (hreg : ns.registry.Accounts issued assigned) {id : NodeId} {r₁ : MemberRecord}
    (hr₁ : reg.members[id]? = some r₁) (hname : r₁.name = name) (hid : reg.idFor name = id) (hc : r₁.Answers c) : plan.record.Answers c := by
  have hrecord : reg.recordFor name plan.role t.now = { r₁ with name, role := plan.role } := by
    rw [recordFor, hid, hr₁, getD_some]
  have hsigns := h.signs
  rw [hrecord] at hsigns
  cases hrep : plan.replaced with
  | true =>
    have hgen : plan.record.loginGen = r₁.loginGen + 1 := by simpa [hrep] using hsigns.loginGen
    have hle := hc.loginGen
    exact ⟨by omega, fun heq => by omega⟩
  | false =>
    have hgen : plan.record.loginGen = r₁.loginGen := by simpa [hrep] using hsigns.loginGen
    refine ⟨hgen ▸ hc.loginGen, fun heq => ?_⟩
    obtain ⟨hpub, hcert⟩ := hc.keys (heq.trans hgen)
    obtain ⟨r₀, hr₀, ha⟩ := h.allots.amends.members id r₁ hr₁
    have hfound : ns.registry.byName name = some r₀ := by
      rw [← hname, ha.name]
      exact hreg.filed.byName_of_name hr₀
    have hnot := h.replaced
    rw [hrep, hfound] at hnot
    obtain ⟨hkey, hfp⟩ := keys_of_isReplacement_eq_false hnot.symm (ha.pubkey.symm.trans hpub)
    rw [hsigns.pubkey, hsigns.certFp, hkey, ← hfp, ← ha.certFp, hcert]
    exact ⟨rfl, rfl⟩

theorem Plans.accounts (h : ns.Plans env name presented req peerIp t plan granted reg relayAddr)
    (hreg : ns.registry.Accounts issued assigned)
    (hroom : ns.registry.idOf name = none → ns.registry.nextNodeId < maxNodeId) :
    plan.registry.Accounts issued assigned := by
  have hamended := hreg.amends h.allots.amends
  have hnext : plan.registry.nextNodeId = max reg.nextNodeId (min (reg.idFor name + 1) maxNodeId) :=
    congrArg nextNodeId h.registry_eq
  have hrecordName : plan.record.name = name := h.signs.name
  have hgrows : reg.nextNodeId ≤ plan.registry.nextNodeId := by
    rw [hnext]
    exact le_max_left _ _
  -- A name on record keeps its node; a new one gets a node nobody had.
  have hnode : (∃ r₁, reg.members[reg.idFor name]? = some r₁ ∧ r₁.name = name) ∨
      reg.idFor name = reg.nextNodeId ∧ reg.nextNodeId < plan.registry.nextNodeId := by
    cases hid : reg.idOf name with
    | some id =>
      obtain ⟨r₁, hr₁, hname⟩ := hamended.filed.idOf_eq_some.mp hid
      exact .inl ⟨r₁, idFor_of_idOf hid ▸ hr₁, hname⟩
    | none =>
      have hlt := hroom (h.allots.idOf_eq hreg.filed ▸ hid)
      rw [← h.allots.amends.nextNodeId] at hlt
      have heq := hamended.idFor_eq_next hid
      refine .inr ⟨heq, ?_⟩
      rw [hnext, heq]
      exact lt_max_of_lt_right (lt_min (Nat.lt_succ_self _) hlt)
  have hused : 0 < reg.idFor name ∧ reg.idFor name < plan.registry.nextNodeId := by
    rcases hnode with ⟨r₁, hr₁, -⟩ | ⟨heq, hlt⟩
    · obtain ⟨hpos, hlt⟩ := hamended.used _ r₁ hr₁
      exact ⟨hpos, hlt.trans_le hgrows⟩
    · rw [heq]
      exact ⟨hamended.positive, hlt⟩
  refine ⟨h.keepsFiled hreg.filed, ?_, hamended.positive.trans_le hgrows, fun id r' hr' => ?_, fun c hc => ?_, fun p hp => ?_⟩
  · rw [hnext]
    exact max_le hamended.next (min_le_right _ _)
  · rcases h.member_cases hr' with ⟨rfl, -⟩ | ⟨-, hr'⟩
    · exact hused
    · obtain ⟨hpos, hlt⟩ := hamended.used id r' hr'
      exact ⟨hpos, hlt.trans_le hgrows⟩
  · obtain ⟨hlt, hanswers⟩ := hamended.issued c hc
    refine ⟨hlt.trans_le hgrows, fun r' hr' => ?_⟩
    rcases h.member_cases hr' with ⟨hid, rfl⟩ | ⟨-, hr'⟩
    · rcases hnode with ⟨r₁, hr₁, hname⟩ | ⟨heq, -⟩
      · exact h.answers hreg hr₁ hname rfl (hanswers r₁ (hid ▸ hr₁))
      · exact absurd (hid.trans heq) hlt.ne
    · exact hanswers r' hr'
  · obtain ⟨hlt, hnamed⟩ := hamended.assigned p hp
    refine ⟨hlt.trans_le hgrows, fun r' hr' => ?_⟩
    rcases h.member_cases hr' with ⟨hid, rfl⟩ | ⟨-, hr'⟩
    · rcases hnode with ⟨r₁, hr₁, hname⟩ | ⟨heq, -⟩
      · rw [hrecordName, ← hname]
        exact hnamed r₁ (hid ▸ hr₁)
      · exact absurd (hid.trans heq) hlt.ne
    · exact hnamed r' hr'

/-! ### Both registries, step by step -/

/-- The running registry accounts for the history, and so does the stored one, which is the
same or as it was. -/
def Carries (rows : Rows NetworkConfig Registry) (issued : List Claims)
    (assigned : List (NodeId × String)) : Prop :=
  rows.snd.Accounts issued assigned ∧ ∃ reg, rows.storedSnd = some reg ∧ reg.Accounts issued assigned ∧
    (reg.names = rows.snd.names ∨ ∀ p ∈ reg.names, p ∈ assigned)

theorem carries_of_cases {rows' : Rows NetworkConfig Registry} (h : Carries rows issued assigned)
    (hold : ∀ reg, rows.storedSnd = some reg → ∀ p ∈ reg.names, p ∈ assigned)
    (hstored : rows'.storedSnd = rows.storedSnd ∨ rows'.storedSnd = some rows'.snd)
    (hsnd : rows'.snd.Accounts issued assigned) : Carries rows' issued assigned := by
  refine ⟨hsnd, ?_⟩
  rcases hstored with hsame | hnew
  · obtain ⟨-, reg, hreg, haccounts, -⟩ := h
    exact ⟨reg, hsame.trans hreg, haccounts, .inr (hold reg hreg)⟩
  · exact ⟨rows'.snd, hnew, hsnd, .inl rfl⟩

theorem Writes.carries {op : LockedOp} (h : ns.Writes env op rows)
    (hroom : ∀ name ∈ op.joins, ns.registry.idOf name = none → ns.registry.nextNodeId < maxNodeId)
    (hc : Carries ns.rows issued assigned)
    (hold : ∀ reg, ns.stored.registry = some reg → ∀ p ∈ reg.names, p ∈ assigned) :
    Carries rows issued assigned := by
  have hstored {reg : Registry} (hreg : ns.stored.registry = some reg) : reg.Accounts issued assigned := by
    obtain ⟨-, reg', hreg', haccounts, -⟩ := hc
    cases hreg'.symm.trans hreg
    exact haccounts
  cases h with
  | same => exact hc
  | @join name presented req peerIp signing t db plan planned =>
    obtain ⟨granted, reg, relayAddr, hplans⟩ := joinPlan_eq_ok planned
    obtain ⟨hrow, hsnd⟩ := Rows.commit_snd { ns.rows with snd := plan.registry } db.registry db.reload
    refine carries_of_cases hc hold hrow ?_
    rcases hsnd with hplan | hreload
    · rw [hplan]
      exact hplans.accounts hc.1 (hroom name rfl)
    · exact hstored hreload
  | @admin keys r op e proposed =>
    obtain ⟨hrow, hsnd⟩ := Rows.write_snd ns.rows e r.db.config r.db.registry r.db.reload
    refine carries_of_cases hc hold hrow ?_
    rcases hsnd with hsame | hedit | hreload
    · exact hsame.symm ▸ hc.1
    · exact hc.1.amends (proposal_amends proposed hedit).1
    · exact hstored hreload
  | importConfig => exact carries_of_cases hc hold (.inr rfl) (hc.1.amends (importedRegistry_amends _ _ _ _).1)

theorem Keeps.carries (h : Keeps rows ns) (hc : Carries rows issued assigned) : Carries ns.rows issued assigned := by
  obtain ⟨hsnd, reg, hreg, haccounts, hnames⟩ := hc
  obtain ⟨hwm, hregistry⟩ := h.registry
  have hrunning : ns.registry.Accounts issued assigned := hregistry ▸ hsnd.withMark hwm
  refine ⟨hrunning, ?_⟩
  rcases h.storedRegistry with hsame | hnew
  · refine ⟨reg, hsame.trans hreg, haccounts, hnames.imp_left fun hn => ?_⟩
    change reg.names = ns.registry.names
    rw [hregistry]
    exact hn
  · exact ⟨ns.registry, hnew, hrunning, .inl rfl⟩

theorem Leaves.carries {op : Option LockedOp} (h : ns.Leaves env op ns')
    (hroom : ∀ o ∈ op, ∀ name ∈ o.joins, ns.registry.idOf name = none → ns.registry.nextNodeId < maxNodeId)
    (hc : Carries ns.rows issued assigned)
    (hold : ∀ reg, ns.stored.registry = some reg → ∀ p ∈ reg.names, p ∈ assigned) :
    Carries ns'.rows issued assigned := by
  cases h with
  | nothing => exact hc
  | @done op rows returns writes keeps => exact keeps.carries (writes.carries (hroom op rfl) hc hold)

theorem Advances.carries {e : HistoryEvent} (h : ns.Advances env e ns') (hroom : e.HasRoom ns)
    (hc : Carries ns.rows issued assigned)
    (hold : ∀ reg, ns.stored.registry = some reg → ∀ p ∈ reg.names, p ∈ assigned) :
    Carries ns'.rows issued assigned := by
  cases h with
  | perform leaves => exact leaves.carries hroom hc hold
  | @crash during uuid now nowMs ns₁ cfg leaves config =>
    obtain ⟨-, reg, hreg, haccounts, -⟩ := leaves.carries hroom hc hold
    have hloaded : ns₁.stored.registry.getD (Registry.new uuid) = reg := by
      rw [show ns₁.stored.registry = _ from hreg, getD_some]
    refine ⟨?_, reg, hreg, haccounts, .inl ?_⟩
    · exact hloaded.symm ▸ haccounts
    · change reg.names = (ns₁.stored.registry.getD (Registry.new uuid)).names
      rw [hloaded]

/-! ### Handing out a credential -/

theorem Plans.issues (h : ns.Plans env name presented req peerIp t plan granted reg relayAddr)
    (hfiled : ns.registry.Filed) {done : NetState} (hc : c = joinClaims env done plan name req t.now) :
    plan.registry.members[c.nodeId]? = some plan.record ∧ plan.record.name = c.sub ∧
      plan.record.loginGen = c.loginGen ∧ plan.record.pubkey = some c.pubkey ∧
      plan.record.certFp = some c.certFp := by
  subst hc
  refine ⟨?_, h.signs.name, rfl, h.signs.pubkey, h.signs.certFp⟩
  have hid : plan.record.nodeId = reg.idFor name := by
    rw [h.signs.nodeId, (hfiled.amends h.allots.amends).recordFor_nodeId]
  change plan.registry.members[plan.record.nodeId]? = some plan.record
  rw [h.registry_eq, hid]
  exact Std.ExtTreeMap.getElem?_insert_self

end NetState

theorem Registry.Accounts.issue {issued : List Claims} {assigned : List (NodeId × String)}
    (h : reg.Accounts issued assigned) {c : Claims} {r : MemberRecord} (hr : reg.members[c.nodeId]? = some r)
    (hgen : r.loginGen = c.loginGen) (hpub : r.pubkey = some c.pubkey) (hcert : r.certFp = some c.certFp) :
    reg.Accounts (c :: issued) assigned := by
  refine { h with issued := fun c' hc' => ?_ }
  rcases mem_cons.mp hc' with rfl | hc'
  · refine ⟨(h.used _ r hr).2, fun r' hr' => ?_⟩
    cases hr'.symm.trans hr
    exact ⟨hgen.ge, fun _ => ⟨hpub, hcert⟩⟩
  · exact h.issued c' hc'

namespace Issuance

variable {env : CoordText} {s s' : Issuance}

/-- The node and the login generation of two credentials tell whether they are for the same
keys. -/
def Binds (issued : List Claims) : Prop :=
  ∀ c ∈ issued, ∀ c' ∈ issued, c.nodeId = c'.nodeId → c.loginGen = c'.loginGen →
    c.pubkey = c'.pubkey ∧ c.certFp = c'.certFp

def Increases (issued : List Claims) : Prop :=
  issued.Pairwise fun later earlier => later.nodeId = earlier.nodeId → earlier.loginGen ≤ later.loginGen

def Distinct (assigned : List (NodeId × String)) : Prop :=
  (∀ p ∈ assigned, p.1 ≠ 0) ∧ ∀ p ∈ assigned, ∀ p' ∈ assigned, p.1 = p'.1 → p.2 = p'.2

structure Consistent (s : Issuance) : Prop where
  carries : NetState.Carries s.net.rows s.issued s.assigned
  stored : ∀ reg, s.net.stored.registry = some reg → ∀ p ∈ reg.names, p ∈ s.assigned
  binds : Binds s.issued
  increases : Increases s.issued
  distinct : Distinct s.assigned
  named : ∀ c ∈ s.issued, (c.nodeId, c.sub) ∈ s.assigned

variable {reg : Registry} {issued : List Claims} {assigned : List (NodeId × String)} {c : Claims}
  {e : HistoryEvent} {ns : NetState}

theorem extend (h : reg.Accounts issued assigned) {r : MemberRecord} (hr : reg.members[c.nodeId]? = some r)
    (hgen : r.loginGen = c.loginGen) (hpub : r.pubkey = some c.pubkey) (hcert : r.certFp = some c.certFp)
    (hbinds : Binds issued) (hincreases : Increases issued) :
    Binds (c :: issued) ∧ Increases (c :: issued) := by
  have hanswers (c' : Claims) (hc' : c' ∈ issued) (hnode : c.nodeId = c'.nodeId) : r.Answers c' :=
    (h.issued c' hc').2 r (hnode ▸ hr)
  have hsame (c' : Claims) (hc' : c' ∈ issued) (hnode : c.nodeId = c'.nodeId)
      (hlogin : c.loginGen = c'.loginGen) : c.pubkey = c'.pubkey ∧ c.certFp = c'.certFp := by
    obtain ⟨hpub', hcert'⟩ := (hanswers c' hc' hnode).keys (hlogin.symm.trans hgen.symm)
    exact ⟨some.inj (hpub.symm.trans hpub'), some.inj (hcert.symm.trans hcert')⟩
  refine ⟨fun c₁ h₁ c₂ h₂ hnode hlogin => ?_, pairwise_cons.mpr ⟨fun c' hc' hnode => ?_, hincreases⟩⟩
  · rcases mem_cons.mp h₁ with heq₁ | hold₁ <;> rcases mem_cons.mp h₂ with heq₂ | hold₂
    · rw [heq₁, heq₂]
      exact ⟨rfl, rfl⟩
    · subst heq₁
      exact hsame c₂ hold₂ hnode hlogin
    · subst heq₂
      obtain ⟨hp, hf⟩ := hsame c₁ hold₁ hnode.symm hlogin.symm
      exact ⟨hp.symm, hf.symm⟩
    · exact hbinds c₁ hold₁ c₂ hold₂ hnode hlogin
  · exact hgen ▸ (hanswers c' hc' hnode).loginGen

theorem Distinct.append (h : Distinct assigned) (ha : reg.Accounts issued assigned) : Distinct (reg.names ++ assigned) := by
  have hnew {p p' : NodeId × String} (hp : p ∈ reg.names) (hp' : p' ∈ assigned) (hid : p.1 = p'.1) :
      p.2 = p'.2 := by
    obtain ⟨r, hr, hname⟩ := mem_names.mp hp
    rw [← hname]
    exact (ha.assigned p' hp').2 r (hid ▸ hr)
  refine ⟨fun p hp => ?_, fun p hp p' hp' hid => ?_⟩
  · rcases mem_append.mp hp with hp | hp
    · obtain ⟨r, hr, -⟩ := mem_names.mp hp
      exact (ha.used _ r hr).1.ne'
    · exact h.1 p hp
  · rcases mem_append.mp hp with hp | hp <;> rcases mem_append.mp hp' with hp' | hp'
    · obtain ⟨r, hr, hname⟩ := mem_names.mp hp
      obtain ⟨r', hr', hname'⟩ := mem_names.mp hp'
      rw [← hname, ← hname', some.inj (hr.symm.trans (hid ▸ hr'))]
    · exact hnew hp hp' hid
    · exact (hnew hp' hp hid.symm).symm
    · exact h.2 p hp p' hp' hid

theorem credential_eq_some (h : e.credential env ns = some c) :
    ∃ name presented req peerIp signing t db resp,
      e = .perform (.join name presented req peerIp signing t db) ∧
        (ns.join env name presented req peerIp signing t db).2 = .ok (c, resp) := by
  unfold HistoryEvent.credential at h
  split at h
  · rename_i name presented req peerIp signing t db
    obtain ⟨⟨c', resp⟩, hok, rfl⟩ := map_eq_some_iff.mp h
    refine ⟨name, presented, req, peerIp, signing, t, db, resp, rfl, ?_⟩
    cases hjoin : (ns.join env name presented req peerIp signing t db).2 with
    | error err =>
      rw [hjoin] at hok
      cases hok
    | ok x =>
      rw [hjoin] at hok
      cases hok
      rfl
  · cases h

theorem credential_recorded {ns' : NetState} (hfiled : ns.registry.Filed) (hcred : e.credential env ns = some c)
    (hstep : ns.advance env e = some ns') :
    ∃ r stored, ns'.stored.registry = some stored ∧ ns'.registry.members[c.nodeId]? = some r ∧
      stored.members[c.nodeId]? = some r ∧ r.name = c.sub ∧ r.loginGen = c.loginGen ∧
      r.pubkey = some c.pubkey ∧ r.certFp = some c.certFp := by
  obtain ⟨name, presented, req, peerIp, signing, t, db, resp, rfl, hok⟩ := credential_eq_some hcred
  obtain ⟨plan, hplan, hkeeps, hclaims⟩ := NetState.join_keeps hok
  obtain ⟨granted, reg, relayAddr, hplans⟩ := NetState.joinPlan_eq_ok hplan
  obtain ⟨hrecord, hsays⟩ := hplans.issues hfiled hclaims
  simp only [NetState.advance] at hstep
  split_ifs at hstep
  cases hstep
  obtain ⟨hwm, hreg⟩ := hkeeps.registry
  have hrunning : (ns.join env name presented req peerIp signing t db).1.registry.members[c.nodeId]? =
      some plan.record := by
    rw [hreg]
    exact hrecord
  rcases hkeeps.storedRegistry with hstored | hstored
  · exact ⟨plan.record, plan.registry, hstored, hrunning, hrecord, hsays⟩
  · exact ⟨plan.record, _, hstored, hrunning, hrunning, hsays⟩

theorem issue_carries (hc : s.Consistent) (hstep : s.net.advance env e = some ns) (hroom : e.HasRoom s.net) :
    NetState.Carries ns.rows ((e.credential env s.net).toList ++ s.issued) s.assigned ∧
      Binds ((e.credential env s.net).toList ++ s.issued) ∧
      Increases ((e.credential env s.net).toList ++ s.issued) := by
  have hcarries := (NetState.advance_eq_some hstep).carries hroom hc.carries hc.stored
  cases hcred : e.credential env s.net with
  | none => exact ⟨hcarries, hc.binds, hc.increases⟩
  | some c =>
    obtain ⟨r, stored, hstored, hrunning, hrow, -, hgen, hpub, hcert⟩ :=
      credential_recorded hc.carries.1.filed hcred hstep
    obtain ⟨hsnd, stored', hstored', haccounts, hnames⟩ := hcarries
    obtain rfl := some.inj (hstored'.symm.trans hstored)
    refine ⟨⟨hsnd.issue hrunning hgen hpub hcert, stored', hstored',
      haccounts.issue hrow hgen hpub hcert, hnames⟩, ?_⟩
    exact extend hsnd hrunning hgen hpub hcert hc.binds hc.increases

theorem step_consistent (hc : s.Consistent) (hroom : e.HasRoom s.net) (hstep : s.step env e = some s') : s'.Consistent := by
  obtain ⟨ns, hadvance, rfl⟩ := map_eq_some_iff.mp hstep
  obtain ⟨⟨hsnd, stored, hstored, haccounts, hnames⟩, hbinds, hincreases⟩ :=
    issue_carries hc hadvance hroom
  have hstored : ns.stored.registry = some stored := hstored
  have hadded : ns.stored.registry.elim [] names = stored.names := by rw [hstored, elim_some]
  have hrunning : ns.registry.Accounts ((e.credential env s.net).toList ++ s.issued)
      (stored.names ++ s.assigned) := by
    rcases hnames with hsame | hold
    · have hsame : stored.names = ns.registry.names := hsame
      rw [hsame]
      exact hsnd.assign
    · exact hsnd.assign_of_subset hold
  have hall (reg : Registry) (hreg : ns.stored.registry = some reg) (p : NodeId × String) (hp : p ∈ reg.names) :
      p ∈ stored.names ++ s.assigned := by
    cases hstored.symm.trans hreg
    exact mem_append_left _ hp
  have hnamed (c : Claims) (hissued : c ∈ (e.credential env s.net).toList ++ s.issued) :
      (c.nodeId, c.sub) ∈ stored.names ++ s.assigned := by
    rcases mem_append.mp hissued with hnew | hold
    · obtain ⟨r, reg, hreg, -, hrow, hname, -⟩ :=
        credential_recorded hc.carries.1.filed (mem_toList.mp hnew) hadvance
      exact hall reg hreg _ (mem_names.mpr ⟨r, hrow, hname⟩)
    · exact mem_append_right _ (hc.named c hold)
  refine ⟨?_, ?_, hbinds, hincreases, ?_, ?_⟩
  all_goals simp only [hadded]
  · exact ⟨hrunning, stored, hstored, haccounts.assign, .inr (hall stored hstored)⟩
  · exact hall
  · exact hc.distinct.append haccounts
  · exact hnamed

theorem initial_consistent (h : (issuanceSystem env).Initial s) : s.Consistent := by
  obtain ⟨net, issued, assigned⟩ := s
  obtain ⟨⟨r, cfg, uuid, hnet⟩, hissued, hassigned⟩ := h
  obtain rfl : net = _ := hnet
  obtain rfl : issued = [] := hissued
  obtain rfl : assigned = [] := hassigned
  have hempty (reg : Registry) (hreg : some (new uuid) = some reg) (p : NodeId × String)
      (hp : p ∈ reg.names) : p ∈ ([] : List (NodeId × String)) := by
    cases hreg
    obtain ⟨r, hr, -⟩ := mem_names.mp hp
    simp [new] at hr
  exact ⟨⟨.of_new uuid, _, rfl, .of_new uuid, .inl rfl⟩, hempty,
    fun c hc => absurd hc not_mem_nil, Pairwise.nil,
    ⟨fun p hp => absurd hp not_mem_nil, fun p hp => absurd hp not_mem_nil⟩,
    fun c hc => absurd hc not_mem_nil⟩

/-- Over all credentials a network has issued, while it has node ids left: node and login
generation tell the keys, the login generation of a node never decreases, and a node id is
not zero and belongs to one name for good. -/
theorem credentials_identify
    (h : (issuanceSystem env).ReachableWith (fun s e => e.HasRoom s.net) s) :
    Binds s.issued ∧ Increases s.issued ∧ Distinct s.assigned ∧
      ∀ c ∈ s.issued, (c.nodeId, c.sub) ∈ s.assigned := by
  have hc : s.Consistent := h.invariant (P := Consistent) (fun s hs => initial_consistent hs)
    fun s e s' hs hroom hstep => step_consistent hs hroom hstep
  exact ⟨hc.binds, hc.increases, hc.distinct, hc.named⟩

/-- A client joins, and then again from another machine. -/
theorem credentials_identify_replaced : ∃ s,
    (issuanceSystem .byteText).run ⟨NetworkExample.start, [], []⟩
        [.perform (NetworkExample.join "ann" "a1" "k" 50), .perform (NetworkExample.join "ann" "a1" "m" 60)] =
      some s ∧
      (s.issued.map fun c => (c.nodeId, c.loginGen, c.pubkey)) = [(1, 1, "m"), (1, 0, "k")] ∧
      Binds s.issued := by
  have hissued : ((issuanceSystem .byteText).run ⟨NetworkExample.start, [], []⟩
      [.perform (NetworkExample.join "ann" "a1" "k" 50),
        .perform (NetworkExample.join "ann" "a1" "m" 60)]).map
      (fun s => s.issued.map fun c => (c.nodeId, c.loginGen, c.pubkey)) =
        some [(1, 1, "m"), (1, 0, "k")] := by
    decide +kernel
  have hnext : ((issuanceSystem .byteText).step ⟨NetworkExample.start, [], []⟩
      (.perform (NetworkExample.join "ann" "a1" "k" 50))).map (fun s => s.net.registry.nextNodeId) =
        some 2 := by
    decide +kernel
  obtain ⟨s, hrun, hissued⟩ := map_eq_some_iff.mp hissued
  refine ⟨s, hrun, hissued, (@credentials_identify .byteText s ?_).1⟩
  simp only [TransitionSystem.run_cons, TransitionSystem.run_nil, bind_eq_some_iff,
    some.injEq, exists_eq_right] at hrun
  obtain ⟨s₁, h₁, h₂⟩ := hrun
  rw [h₁, map_some, some.injEq] at hnext
  refine .step (.step (.initial ⟨NetworkExample.start_initial, rfl, rfl⟩) ?_ h₁) ?_ h₂
  · rintro op hop name - -
    exact (by decide : 1 < maxNodeId)
  · rintro op hop name - -
    rw [hnext]
    decide

end Issuance

end Nqvpn
