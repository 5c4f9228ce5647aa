import Nqvpn.RefusedClient
import Nqvpn.Directory

/-!
# What a refused relay carries

A relay's hook lists the sessions in its two tables and closes them. Links come into
the tables from dialers and from accepted members, each with a task of its own; a link
registered in the place of another closes the one it replaced.
-/

namespace Nqvpn.Refused

open Std.ExtTreeMap

open Member (Task)

inductive LinkKind
  | client
  | mesh
deriving DecidableEq, Repr

/-- The steps of a relay's hook: list the client sessions, list the mesh sessions, close
them one by one. -/
inductive RelayHook
  | entered
  | listed (held : List Nat)
  | closing (held : List Nat)
deriving DecidableEq, Repr

/-- The task that holds one session: past the look at the flag, with a session that is
not registered, registered and about to close the session it replaced, running, and
about to unregister. -/
inductive LinkTask
  | checked (kind : LinkKind) (node : NodeId)
  | opened (kind : LinkKind) (node : NodeId)
  | inserted (kind : LinkKind) (node : NodeId) (old : Option Nat)
  | running (kind : LinkKind) (node : NodeId)
  | leaving (kind : LinkKind) (node : NodeId)
deriving DecidableEq, Repr

structure Relay where
  standing : Standing RelayHook := {}
  clients : Std.ExtTreeMap NodeId Nat := ∅
  mesh : Std.ExtTreeMap NodeId Nat := ∅
  /-- By the number of the session the task is for. -/
  tasks : Nat → Option LinkTask := fun _ => none
  /-- Sessions someone has called `close` on. -/
  closing : List Nat := []

inductive RelayEvent
  /-- A member's credential is verified. -/
  | verify (id : Nat) (kind : LinkKind) (node : NodeId)
  /-- A dialer sets out. -/
  | dial (id : Nat) (node : NodeId)
  | failed (id : Nat)
  | opened (id : Nat)
  | insert (id : Nat)
  | closeOld (id : Nat)
  | ended (id : Nat)
  | leave (id : Nat)
  /-- Closed for another reason, or by the other side. -/
  | close (id : Nat)
  | refuse (t : Task)
  | hookClients (t : Task)
  | hookMesh (t : Task)
  | hookClose (t : Task)
  | hookReturn (t : Task)
  | accept (t : Task) (reports : Bool)
deriving DecidableEq, Repr

namespace Relay

def table (r : Relay) : LinkKind → Std.ExtTreeMap NodeId Nat
  | .client => r.clients
  | .mesh => r.mesh

def setTable (r : Relay) (kind : LinkKind) (m : Std.ExtTreeMap NodeId Nat) : Relay :=
  match kind with
  | .client => { r with clients := m }
  | .mesh => { r with mesh := m }

def setTask (r : Relay) (id : Nat) (task : Option LinkTask) : Relay :=
  { r with tasks := Function.update r.tasks id task }

def step (r : Relay) : RelayEvent → Option Relay
  | .verify id kind node =>
    if r.tasks id = none ∧ r.standing.refused = false then
      some (r.setTask id (some (.checked kind node)))
    else none
  | .dial id node =>
    if r.tasks id = none ∧ r.standing.refused = false ∧ r.mesh[node]? = none then
      some (r.setTask id (some (.checked .mesh node)))
    else none
  | .failed id => match r.tasks id with
    | some (.checked _ _) => some (r.setTask id none)
    | _ => none
  | .opened id => match r.tasks id with
    | some (.checked kind node) => some (r.setTask id (some (.opened kind node)))
    | _ => none
  | .insert id => match r.tasks id with
    | some (.opened kind node) =>
      some ((r.setTable kind ((r.table kind).insert node id)).setTask id
        (some (.inserted kind node (r.table kind)[node]?)))
    | _ => none
  | .closeOld id => match r.tasks id with
    | some (.inserted kind node old) =>
      some { r.setTask id (some (.running kind node)) with closing := old.toList ++ r.closing }
    | _ => none
  | .ended id => match r.tasks id with
    | some (.running kind node) => some (r.setTask id (some (.leaving kind node)))
    | _ => none
  | .leave id => match r.tasks id with
    | some (.leaving kind node) =>
      -- Only its own entry: a newer session of the node may have replaced it.
      if (r.table kind)[node]? = some id then
        some ((r.setTable kind ((r.table kind).erase node)).setTask id none)
      else some (r.setTask id none)
    | _ => none
  | .close id => some { r with closing := id :: r.closing }
  | .refuse t => (r.standing.refuse t .entered).map fun s => { r with standing := s }
  | .hookClients t => match r.standing.hooks t with
    | some .entered => some { r with standing := r.standing.advance t (.listed (r.clients.toList.map Prod.snd)) }
    | _ => none
  | .hookMesh t => match r.standing.hooks t with
    | some (.listed held) =>
      some { r with
        standing := r.standing.advance t (.closing (held ++ r.mesh.toList.map Prod.snd)) }
    | _ => none
  | .hookClose t => match r.standing.hooks t with
    | some (.closing (id :: held)) =>
      some { r with standing := r.standing.advance t (.closing held), closing := id :: r.closing }
    | _ => none
  | .hookReturn t => match r.standing.hooks t with
    | some (.closing []) => some { r with standing := r.standing.finish t }
    | _ => none
  | .accept t reports => (r.standing.accept t reports).map fun s => { r with standing := s }

end Relay

namespace LinkTask

def inFlight : LinkTask → Bool
  | .checked _ _ | .opened _ _ | .inserted _ _ _ => true
  | .running _ _ | .leaving _ _ => false

def isOpen : LinkTask → Bool
  | .opened _ _ | .inserted _ _ _ | .running _ _ => true
  | .checked _ _ | .leaving _ _ => false

def place : LinkTask → Option (LinkKind × NodeId)
  | .inserted kind node _ | .running kind node => some (kind, node)
  | .checked _ _ | .opened _ _ | .leaving _ _ => none

end LinkTask

namespace Relay

def CarriesNothing (r : Relay) : Prop :=
  r.standing.barred = true → ∀ id task, r.tasks id = some task → task.isOpen = true → id ∈ r.closing

/-- A refusal finds no dial or accept under way and no other hook; the flag is not taken
down under a hook. -/
def Orderly (r : Relay) : RelayEvent → Prop
  | .refuse _ => (∀ id task, r.tasks id = some task → task.inFlight = false) ∧ r.standing.Quiet
  | .accept _ reports => reports = true → r.standing.Quiet
  | _ => True

def Live (r : Relay) (id : Nat) (kind : LinkKind) (node : NodeId) : Prop :=
  r.tasks id = some (.running kind node) ∧ id ∉ r.closing

/-- Every registered session that is not being closed is in its table, unless a newer
one has replaced it and is about to close it. -/
def Registered (r : Relay) : Prop :=
  ∀ id task kind node, r.tasks id = some task → task.place = some (kind, node) → id ∉ r.closing →
    (r.table kind)[node]? = some id ∨
      ∃ id' kind' node', r.tasks id' = some (.inserted kind' node' (some id))

structure Inv (r : Relay) : Prop where
  standing : r.standing.Inv
  grounded : r.standing.refused = true → ∀ id task, r.tasks id = some task → task.inFlight = false
  registered : r.Registered
  listed : ∀ t held, r.standing.hooks t = some (.listed held) →
    ∀ id node, r.Live id .client node → id ∈ held
  closing : ∀ t held, r.standing.hooks t = some (.closing held) →
    ∀ id kind node, r.Live id kind node → id ∈ held
  done : r.standing.barred = true → ∀ id kind node, ¬ r.Live id kind node

variable {r r' : Relay} {id : Nat} {kind : LinkKind} {node : NodeId} {task : Option LinkTask}

theorem Inv.carriesNothing (h : r.Inv) : r.CarriesNothing := by
  intro hb id task htask hopen
  have hground := h.grounded (h.standing.raisedBarred hb) id task htask
  cases task with
  | checked | leaving => exact (nomatch hopen)
  | opened | inserted => exact (nomatch hground)
  | running kind node => exact not_not.mp fun hc => h.done hb id kind node ⟨htask, hc⟩

theorem Inv.table_of_live (h : r.Inv) (hr : r.standing.refused) (hlive : r.Live id kind node) :
    (r.table kind)[node]? = some id := by
  rcases h.registered id _ kind node hlive.1 rfl hlive.2 with hin | ⟨id', kind', node', hid'⟩
  · exact hin
  · exact (nomatch h.grounded hr id' _ hid')

theorem Inv.mem_table (h : r.Inv) (hr : r.standing.refused) (hlive : r.Live id kind node) :
    id ∈ (r.table kind).toList.map Prod.snd :=
  List.mem_map.mpr ⟨(node, id),
    mem_toList_iff_getElem?_eq_some.mpr (h.table_of_live hr hlive), rfl⟩

theorem Inv.of_down (h : r.Inv) (hr : r.standing.refused ≠ true) (hstanding : r'.standing = r.standing)
    (hreg : r'.Registered) : r'.Inv := by
  have hquiet (t : Task) : r'.standing.hooks t = none := by
    rw [hstanding]
    exact not_not.mp fun ht => hr (h.standing.raised t ht)
  refine ⟨hstanding ▸ h.standing, fun hr' => absurd (hstanding ▸ hr') hr, hreg, fun t held ht => ?_,
    fun t held ht => ?_, fun hb => absurd (h.standing.raisedBarred (hstanding ▸ hb)) hr⟩
  · simp [hquiet t] at ht
  · simp [hquiet t] at ht

theorem Inv.of_live (h : r.Inv) (hstanding : r'.standing = r.standing)
    (hflight : ∀ id task, r'.tasks id = some task → task.inFlight → r.standing.refused → r.tasks id = some task)
    (hreg : r'.Registered) (hlive : ∀ id kind node, r'.Live id kind node → r.Live id kind node) : r'.Inv := by
  refine ⟨hstanding ▸ h.standing, fun hr id task htask => ?_, hreg,
    fun t held ht id node hid => h.listed t held (hstanding ▸ ht) id node (hlive id _ node hid),
    fun t held ht id kind node hid => h.closing t held (hstanding ▸ ht) id kind node (hlive id kind node hid),
    fun hb id kind node hid => h.done (hstanding ▸ hb) id kind node (hlive id kind node hid)⟩
  by_contra hf
  have hf := Bool.eq_true_of_not_eq_false hf
  have hr : r.standing.refused = true := hstanding ▸ hr
  rw [h.grounded hr id task (hflight id task htask hf hr)] at hf
  cases hf

theorem Inv.down_of_inFlight (h : r.Inv) {task : LinkTask} (htask : r.tasks id = some task)
    (hf : task.inFlight) : r.standing.refused ≠ true := by
  intro hr
  rw [h.grounded hr id task htask] at hf
  cases hf

@[simp] theorem table_setTable_self (r : Relay) (kind : LinkKind) (m : Std.ExtTreeMap NodeId Nat) :
    (r.setTable kind m).table kind = m := by
  cases kind <;> rfl

theorem table_setTable_of_ne (r : Relay) {kind' : LinkKind} (h : kind' ≠ kind) (m : Std.ExtTreeMap NodeId Nat) : (r.setTable kind m).table kind' = r.table kind' := by
  cases kind <;> cases kind' <;> first | rfl | exact absurd rfl h

@[simp] theorem table_setTask (r : Relay) (id : Nat) (task : Option LinkTask) (kind : LinkKind) :
    (r.setTask id task).table kind = r.table kind := by
  cases kind <;> rfl

theorem setTable_frame (r : Relay) (kind : LinkKind) (m : Std.ExtTreeMap NodeId Nat) :
    (r.setTable kind m).standing = r.standing ∧ (r.setTable kind m).tasks = r.tasks ∧
      (r.setTable kind m).closing = r.closing := by
  cases kind <;> exact ⟨rfl, rfl, rfl⟩

theorem tasks_setTask {id' : Nat} :
    (r.setTask id task).tasks id' = if id' = id then task else r.tasks id' := by
  simp [setTask, Function.update_apply]

theorem Registered.setTask (h : r.Registered) (hplace : ∀ task', task = some task' → task'.place = none)
    (hold : ∀ kind node old, r.tasks id ≠ some (.inserted kind node old)) :
    (r.setTask id task).Registered := by
  intro id' task' kind node htask' hp hc
  rw [tasks_setTask] at htask'
  split_ifs at htask' with hid
  · rw [hplace task' htask'] at hp
    cases hp
  · rcases h id' task' kind node htask' hp hc with hin | ⟨id'', kind', node', hid''⟩
    · exact .inl hin
    · refine .inr ⟨id'', kind', node', ?_⟩
      rwa [tasks_setTask, if_neg fun he => hold kind' node' _ (he ▸ hid'')]

theorem Registered.insert (h : r.Registered) (htask : r.tasks id = some (.opened kind node)) :
    ((r.setTable kind ((r.table kind).insert node id)).setTask id
      (some (.inserted kind node (r.table kind)[node]?))).Registered := by
  obtain ⟨-, htasks, hclosing⟩ := r.setTable_frame kind ((r.table kind).insert node id)
  intro id' task' kind' node' htask' hp hc
  rw [tasks_setTask, htasks] at htask'
  rw [table_setTask]
  split_ifs at htask' with hid
  · subst hid
    cases htask'
    cases hp
    exact .inl (by rw [table_setTable_self, getElem?_insert_self])
  · rcases h id' task' kind' node' htask' hp (hclosing ▸ hc) with hin | ⟨id'', kind'', node'', hid''⟩
    · by_cases hplace : kind' = kind ∧ node' = node
      · -- The session that stood there is the one to be closed.
        obtain ⟨rfl, rfl⟩ := hplace
        exact .inr ⟨id, kind', node', by rw [tasks_setTask, if_pos rfl, hin]⟩
      · left
        by_cases hkind : kind' = kind
        · subst hkind
          have hnode : node ≠ node' := fun he => hplace ⟨rfl, he.symm⟩
          simpa [getElem?_insert, hnode] using hin
        · rwa [table_setTable_of_ne r hkind]
    · refine .inr ⟨id'', kind'', node'', ?_⟩
      have hne : id'' ≠ id := fun he => by
        rw [he, htask] at hid''
        cases hid''
      rwa [tasks_setTask, if_neg hne, htasks]

theorem Registered.closeOld (h : r.Registered) {old : Option Nat}
    (htask : r.tasks id = some (.inserted kind node old)) :
    ({ r.setTask id (some (.running kind node)) with closing := old.toList ++ r.closing } :
      Relay).Registered := by
  -- Where a session is registered does not change, and `old` is closing now.
  have hkeep {id' : Nat} {task : LinkTask} {kind' : LinkKind} {node' : NodeId}
      (htask' : r.tasks id' = some task) (hp : task.place = some (kind', node'))
      (hc : id' ∉ old.toList ++ r.closing) :
      (r.table kind')[node']? = some id' ∨
        ∃ id'' k n, (r.setTask id (some (.running kind node))).tasks id'' =
          some (.inserted k n (some id')) := by
    rcases h id' task kind' node' htask' hp (fun hm => hc (List.mem_append_right _ hm)) with
      hin | ⟨id'', k, n, hid''⟩
    · exact .inl hin
    · refine .inr ⟨id'', k, n, ?_⟩
      have hne : id'' ≠ id := fun he => by
        rw [he, htask] at hid''
        cases hid''
        exact hc (List.mem_append_left _ (List.mem_singleton_self id'))
      rwa [tasks_setTask, if_neg hne]
  intro id' task' kind' node' htask' hp hc
  rw [show ({ r.setTask id (some (.running kind node)) with closing := old.toList ++ r.closing } :
    Relay).tasks id' = _ from tasks_setTask] at htask'
  split_ifs at htask' with hid
  · subst hid
    cases htask'
    cases kind' <;> exact hkeep htask hp hc
  · cases kind' <;> exact hkeep htask' hp hc

theorem Registered.erase (h : r.Registered) (htask : r.tasks id = some (.leaving kind node))
    (hmine : (r.table kind)[node]? = some id) : (r.setTable kind ((r.table kind).erase node)).Registered := by
  obtain ⟨-, htasks, hclosing⟩ := r.setTable_frame kind ((r.table kind).erase node)
  intro id' task' kind' node' htask' hp hc
  rw [htasks] at htask' ⊢
  refine (h id' task' kind' node' htask' hp (hclosing ▸ hc)).imp_left fun hin => ?_
  by_cases hkind : kind' = kind
  · subst hkind
    have hnode : node ≠ node' := by
      rintro rfl
      obtain rfl := Option.some.inj (hin.symm.trans hmine)
      rw [htask] at htask'
      cases htask'
      cases hp
    simpa [getElem?_erase, hnode] using hin
  · rwa [table_setTable_of_ne r hkind]

theorem Registered.close (h : r.Registered) : ({ r with closing := id :: r.closing } : Relay).Registered := by
  intro id' task' kind' node' htask' hp hc
  cases kind' <;> exact h id' task' _ node' htask' hp fun hm => hc (List.mem_cons_of_mem _ hm)

/-- The task of a session moves on, with the session not in its place in the table. -/
theorem Inv.setTask (h : r.Inv) (hold : ∀ kind node old, r.tasks id ≠ some (.inserted kind node old))
    (hplace : ∀ task', task = some task' → task'.place = none)
    (hground : ∀ task', task = some task' → task'.inFlight → r.standing.refused ≠ true) : (r.setTask id task).Inv := by
  refine h.of_live rfl (fun id' task' ht hf hr => ?_) (h.registered.setTask hplace hold) fun id' kind' node' hid' => ?_
  · rw [tasks_setTask] at ht
    split_ifs at ht
    · exact absurd hr (hground task' ht hf)
    · exact ht
  · obtain ⟨ht, hc⟩ := hid'
    rw [tasks_setTask] at ht
    split_ifs at ht
    · exact (nomatch hplace _ ht)
    · exact ⟨ht, hc⟩

theorem Inv.step {e : RelayEvent} (h : r.Inv) (ho : r.Orderly e) (hs : r.step e = some r') : r'.Inv := by
  cases e <;> simp only [Relay.step] at hs
  case verify id kind node =>
    split_ifs at hs with hc
    cases hs
    exact h.setTask (by simp [hc.1]) (fun _ ht => by cases ht; rfl) fun _ _ _ => by simp [hc.2]
  case dial id node =>
    split_ifs at hs with hc
    cases hs
    exact h.setTask (by simp [hc.1]) (fun _ ht => by cases ht; rfl) fun _ _ _ => by simp [hc.2.1]
  case failed id =>
    split at hs <;> cases hs
    rename_i htask
    exact h.setTask (by simp [htask]) nofun nofun
  case opened id =>
    split at hs <;> cases hs
    rename_i htask
    exact h.setTask (by simp [htask]) (fun _ ht => by cases ht; rfl) fun _ _ _ => h.down_of_inFlight htask rfl
  case insert id =>
    split at hs <;> cases hs
    rename_i kind node htask
    exact h.of_down (h.down_of_inFlight htask rfl) (r.setTable_frame kind _).1
      (h.registered.insert htask)
  case closeOld id =>
    split at hs <;> cases hs
    rename_i htask
    exact h.of_down (h.down_of_inFlight htask rfl) rfl (h.registered.closeOld htask)
  case ended id =>
    split at hs <;> cases hs
    rename_i htask
    exact h.setTask (by simp [htask]) (fun _ ht => by cases ht; rfl) fun _ ht hf => by cases ht; cases hf
  case leave id =>
    split at hs
    · rename_i kind node htask
      obtain ⟨hstanding, htasks, hclosing⟩ := r.setTable_frame kind ((r.table kind).erase node)
      split_ifs at hs with hmine <;> cases hs
      · have herase : (r.setTable kind ((r.table kind).erase node)).Inv := by
          refine h.of_live hstanding (fun id' task' ht _ _ => htasks ▸ ht) (h.registered.erase htask hmine)
            fun id' kind' node' hid' => ?_
          rwa [Live, htasks, hclosing] at hid'
        exact herase.setTask (by simp [htasks, htask]) nofun nofun
      · exact h.setTask (by simp [htask]) nofun nofun
    · cases hs
  case close id =>
    cases hs
    exact h.of_live rfl (fun _ _ ht _ _ => ht) h.registered.close
      fun id' kind node hid' => ⟨hid'.1, fun hc => hid'.2 (List.mem_cons_of_mem _ hc)⟩
  case refuse t =>
    obtain ⟨s, hrefuse, rfl⟩ := Option.map_eq_some_iff.mp hs
    obtain ⟨hstanding, rfl⟩ := Standing.Inv.refuse ho.2 hrefuse
    refine ⟨hstanding, fun _ => ho.1, h.registered, fun u held hu => ?_, fun u held hu => ?_, h.done⟩
    · exact (nomatch (Standing.hooks_update (fun v _ => ho.2 v) hu).2)
    · exact (nomatch (Standing.hooks_update (fun v _ => ho.2 v) hu).2)
  case hookClients t =>
    split at hs <;> cases hs
    rename_i ht
    have hr := h.standing.raised t (by simp [ht])
    refine ⟨h.standing.advance ht _, h.grounded, h.registered, fun u held hu id node hid => ?_,
      fun u held hu => ?_, h.done⟩
    · rw [RelayHook.listed.inj (h.standing.hooks_advance ht hu).2]
      exact h.mem_table hr hid
    · exact (nomatch (h.standing.hooks_advance ht hu).2)
  case hookMesh t =>
    split at hs <;> cases hs
    rename_i held ht
    have hr := h.standing.raised t (by simp [ht])
    refine ⟨h.standing.advance ht _, h.grounded, h.registered, fun u held' hu => ?_,
      fun u held' hu id kind node hid => ?_, h.done⟩
    · exact (nomatch (h.standing.hooks_advance ht hu).2)
    · rw [RelayHook.closing.inj (h.standing.hooks_advance ht hu).2]
      cases kind with
      | client => exact List.mem_append_left _ (h.listed t held ht id node hid)
      | mesh => exact List.mem_append_right _ (h.mem_table hr hid)
  case hookClose t =>
    split at hs <;> cases hs
    rename_i id held ht
    refine ⟨h.standing.advance ht _, h.grounded, h.registered.close,
      fun u held' hu => ?_, fun u held' hu id' kind node hid' => ?_,
      fun hb id' kind node hid' => ?_⟩
    · exact (nomatch (h.standing.hooks_advance ht hu).2)
    · rw [RelayHook.closing.inj (h.standing.hooks_advance ht hu).2]
      have hlive : r.Live id' kind node := ⟨hid'.1, fun hm => hid'.2 (List.mem_cons_of_mem _ hm)⟩
      rcases List.mem_cons.mp (h.closing t _ ht id' kind node hlive) with rfl | hm
      · exact absurd List.mem_cons_self hid'.2
      · exact hm
    · exact h.done hb id' kind node ⟨hid'.1, fun hm => hid'.2 (List.mem_cons_of_mem _ hm)⟩
  case hookReturn t =>
    split at hs <;> cases hs
    rename_i ht
    obtain ⟨hstanding, hquiet⟩ := h.standing.finish ht
    have hnone {u : Task} {p : RelayHook} (hu : (r.standing.finish t).hooks u = some p) : False := by
      rw [hquiet u] at hu
      cases hu
    exact ⟨hstanding, h.grounded, h.registered, fun u held hu => (hnone hu).elim,
      fun u held hu => (hnone hu).elim,
      fun _ id kind node hid => (List.not_mem_nil (h.closing t [] ht id kind node hid)).elim⟩
  case accept t reports =>
    obtain ⟨s, haccept, rfl⟩ := Option.map_eq_some_iff.mp hs
    obtain ⟨hstanding, hhooks, hbarred, hrefused⟩ := h.standing.accept ho haccept
    exact ⟨hstanding, fun hr => h.grounded (hrefused hr), h.registered,
      fun u held hu => h.listed u held (hhooks ▸ hu), fun u held hu => h.closing u held (hhooks ▸ hu),
      fun hb => absurd (hbarred.symm.trans hb) (by simp)⟩

theorem Registered.step {e : RelayEvent} (h : r.Registered) (hs : r.step e = some r') : r'.Registered := by
  cases e <;> simp only [Relay.step, Option.map_eq_some_iff] at hs
  case insert =>
    split at hs <;> cases hs
    exact h.insert ‹_›
  case closeOld =>
    split at hs <;> cases hs
    exact h.closeOld ‹_›
  case leave =>
    split at hs
    · split_ifs at hs <;> cases hs
      · exact (h.erase ‹_› ‹_›).setTask nofun (by simp [setTable_frame, *])
      · exact h.setTask nofun (by simp [*])
    · cases hs
  case close =>
    cases hs
    exact h.close
  case hookClose =>
    split at hs <;> cases hs
    exact h.close
  case verify | dial =>
    split_ifs at hs
    cases hs
    exact h.setTask (fun _ ht => by cases ht; rfl) (by simp [*])
  case failed | opened | ended =>
    split at hs <;> cases hs
    exact h.setTask (fun _ ht => by cases ht <;> rfl) (by simp [*])
  case refuse | accept =>
    obtain ⟨s, -, rfl⟩ := hs
    exact h
  case hookClients | hookMesh | hookReturn =>
    split at hs <;> cases hs
    exact h

end Relay

def relaySystem : TransitionSystem Relay RelayEvent where
  Initial r := r = {}
  step := Relay.step

theorem relay_inv {r : Relay} (h : relaySystem.ReachableWith Relay.Orderly r) :
    r.Inv := by
  refine h.invariant (fun r hr => ?_) fun r e r' hinv ho hs => hinv.step ho hs
  subst hr
  exact ⟨⟨fun _ hu => absurd rfl hu, fun hb => (nomatch hb), fun _ _ hu => absurd rfl hu⟩,
    fun hr => (nomatch hr), fun _ _ _ _ htask => (nomatch htask), fun _ _ _ _ _ hid => (nomatch hid.1),
    fun _ _ _ _ _ _ hid => (nomatch hid.1), fun hb => (nomatch hb)⟩

/-- Whatever the order of dials, accepts, ends and refusals: where no replaced session waits to be closed,
a live session is the one its table holds, and the only one of its node. -/
theorem one_session_per_node {r : Relay} {id : Nat} {kind : LinkKind} {node : NodeId}
    (h : relaySystem.Reachable r) (hlive : r.Live id kind node)
    (hnone : ∀ id kind node old, r.tasks id ≠ some (.inserted kind node (some old))) :
    (r.table kind)[node]? = some id ∧ ∀ id', r.Live id' kind node → id' = id := by
  have hreg : r.Registered := by
    refine h.invariant (fun r hr => ?_) fun _ _ _ hreg hs => hreg.step hs
    subst hr
    exact nofun
  have hheld (id' : Nat) (hid : r.Live id' kind node) : (r.table kind)[node]? = some id' := by
    rcases hreg id' _ kind node hid.1 rfl hid.2 with hin | ⟨id'', kind', node', hid''⟩
    · exact hin
    · exact absurd hid'' (hnone id'' kind' node' id')
  refine ⟨hheld id hlive, fun id' hid' => ?_⟩
  exact Option.some.inj ((hheld id' hid').symm.trans (hheld id hlive))

/-- A node comes back early. -/
def replaced : List RelayEvent :=
  [.verify 0 .client 7, .opened 0, .insert 0, .closeOld 0, .verify 1 .client 7, .opened 1, .insert 1,
    .closeOld 1]

theorem one_session_per_node_replaced :
    ∃ r, relaySystem.run {} replaced = some r ∧ r.clients[7]? = some 1 := by
  refine ⟨_, rfl, (one_session_per_node (.of_run (.of_initial rfl) (show relaySystem.run {} replaced = _ from rfl))
    (show Relay.Live _ 1 .client 7 from ⟨rfl, by decide⟩) ?_).1⟩
  rintro (_ | _ | id) _ _ _ ht <;> exact nomatch ht

/-! ### Both -/

/-- In every run in which a refusal finds no dial or accept under way and no hook
running, and the flag is not taken down under a hook, a barred member holds no open
session that is not being closed, on a client and on a relay. -/
theorem refused_member_carries_nothing (c : Client) (r : Relay) :
    (clientSystem.ReachableWith Client.Orderly c → c.CarriesNothing) ∧
      (relaySystem.ReachableWith Relay.Orderly r → r.CarriesNothing) :=
  ⟨fun h => (client_inv h).carriesNothing, fun h => (relay_inv h).carriesNothing⟩

def refusedWhileAttached : List ClientEvent :=
  [.check, .dialed, .attach, .refuse .renewal, .hookTake .renewal, .hookClear .renewal,
    .hookClose .renewal]

theorem refused_member_carries_nothing_attached : ∃ c : Client,
    clientSystem.run {} refusedWhileAttached = some c ∧ c.standing.barred = true ∧
      c.openSession = some 0 ∧ c.CarriesNothing := by
  refine ⟨_, rfl, rfl, rfl, (refused_member_carries_nothing _ {}).1 (.of_runWith (.initial rfl)
    (show clientSystem.RunWith _ {} refusedWhileAttached _ from ?_))⟩
  refine .cons trivial rfl (.cons trivial rfl (.cons trivial rfl (.cons ⟨?_, fun _ => rfl⟩ rfl
    (.cons trivial rfl (.cons trivial rfl (.cons trivial rfl .nil))))))
  rintro (hdial | ⟨id, hopen⟩)
  · exact (nomatch hdial)
  · exact (nomatch hopen)

/-- A client is refused while it dials: the hook finds nothing to close, and the dial
completes afterwards. -/
def refusedWhileDialing : List ClientEvent :=
  [.check, .refuse .renewal, .hookTake .renewal, .hookClear .renewal, .hookClose .renewal,
    .dialed, .attach]

def refusedWhileAccepting : List RelayEvent :=
  [.verify 0 .client 7, .refuse .control, .hookClients .control, .hookMesh .control,
    .hookReturn .control, .opened 0, .insert 0, .closeOld 0]

theorem refused_member_keeps_session :
    (∃ c : Client, clientSystem.run {} refusedWhileDialing = some c ∧ c.standing.barred = true ∧
      c.slot = some 0 ∧ ¬ c.CarriesNothing) ∧
    ∃ r : Relay, relaySystem.run {} refusedWhileAccepting = some r ∧ r.standing.barred = true ∧
      r.clients[7]? = some 0 ∧ ¬ r.CarriesNothing := by
  refine ⟨⟨_, rfl, rfl, rfl, fun h => ?_⟩, ⟨_, rfl, rfl, getElem?_insert_self, fun h => ?_⟩⟩
  · exact absurd (h rfl 0 rfl) (by decide)
  · exact absurd (h rfl 0 (.running .client 7) rfl rfl) (by decide)

end Nqvpn.Refused
