import Nqvpn.ConfigValidation
import Nqvpn.TransitionSystem

/-!
# One endpoint per network on a host

An endpoint holds an `flock` on a file named after its network for as long as it lives. The file name comes from
the id with every character replaced that could name a path, and `.` is one of them.
-/

namespace Nqvpn

/-- The id with all characters but letters, digits, `-` and `_` read as `_`. -/
def safeId (networkId : String) : String :=
  String.ofList (networkId.toList.map fun c => if isAsciiAlphanumeric c || c == '-' || c == '_' then c else '_')

structure EndpointGuard where
  pid : Nat
  networkId : String
deriving DecidableEq

def lockFile (networkId : String) : String := "nqvpn-" ++ safeId networkId ++ ".lock"

/-- The directory of the locks: the text in each file, and the guards that are alive. -/
structure LockDir where
  path : String
  files : String → Option String
  held : List EndpointGuard

namespace LockDir

variable (st : LockDir)

/-- What the files are named by is locked if some process has it open with an exclusive lock. -/
def locked (file : String) : Bool := st.held.any (lockFile ·.networkId = file)

def runningMessage (networkId heldBy path : String) : String :=
  s!"another nqvpn endpoint for network {networkId} is already running on this host ({heldBy}).\n\nTwo endpoints on one host overwrite each other's routes, and traffic then stops silently in one direction. A relay that has a VPN address is already a full member of the network, so running a client beside it is redundant — stop one of them.\n\nIf that relay is meant to be a pure forwarder, set want_vpn_ip = false and give it no gateway CIDRs; it will then take no address and never conflict.\n\nLock: {path}"

/-- `opens` says whether the file could be opened, `left` what it holds if the record could not be written. -/
def acquireIn (pid : Nat) (networkId who : String) (opens : Bool) (left : Option String) :
    Except String EndpointGuard × LockDir :=
  let file := lockFile networkId
  let path := s!"{st.path}/{file}"
  if opens then
    if st.locked file then
      let heldBy := trimText ((st.files file).getD "")
      (.error (runningMessage networkId (if heldBy.isEmpty then "unknown" else heldBy) path), st)
    else
      let files := Function.update st.files file (some (left.getD s!"pid {pid} — {who}\n"))
      (.ok ⟨pid, networkId⟩, { st with files, held := ⟨pid, networkId⟩ :: st.held })
  else (.error s!"opening endpoint lock {path}", st)

/-- The guard is dropped, or its process dies. -/
def release (g : EndpointGuard) : LockDir := { st with held := st.held.erase g }

end LockDir

inductive GuardEvent
  | acquire (pid : Nat) (networkId who : String) (opens : Bool) (left : Option String)
  | release (g : EndpointGuard)

namespace LockDir

def step (st : LockDir) : GuardEvent → Option LockDir
  | .acquire pid networkId who opens left => some (st.acquireIn pid networkId who opens left).2
  | .release g => if g ∈ st.held then some (st.release g) else none

/-- Files of earlier runs may be there, but no process. -/
def system : TransitionSystem LockDir GuardEvent where
  Initial st := st.held = []
  step := step

/-- The endpoint of `g` keeps one for `networkId` from starting: it is refused, and it would start if `g` were not
there. -/
def Prevents (st : LockDir) (g : EndpointGuard) (networkId : String) : Prop :=
  ∀ pid who left, ¬(st.acquireIn pid networkId who true left).1.isOk ∧
    ((st.release g).acquireIn pid networkId who true left).1.isOk

/-- The id with `.` read as `_`. -/
def undotted (networkId : String) : String :=
  String.ofList (networkId.toList.map fun c => if c = '.' then '_' else c)

variable {st : LockDir} {g : EndpointGuard} {networkId : String}

theorem locked_iff {file : String} : st.locked file = true ↔ ∃ g ∈ st.held, lockFile g.networkId = file := by
  simp [locked]

theorem acquireIn_isOk {pid : Nat} {who : String} {left : Option String} :
    (st.acquireIn pid networkId who true left).1.isOk ↔ ¬∃ g ∈ st.held, lockFile g.networkId = lockFile networkId := by
  rw [← locked_iff]
  cases h : st.locked (lockFile networkId) <;> simp [acquireIn, h, Except.isOk, Except.toBool]

/-- No two live guards have the same file. -/
def Exclusive (st : LockDir) : Prop := (st.held.map fun g => lockFile g.networkId).Nodup

theorem Exclusive.step (h : st.Exclusive) {e : GuardEvent} {st' : LockDir} (hs : st.step e = some st') :
    st'.Exclusive := by
  cases e with
  | acquire pid networkId who opens left =>
    cases hs
    cases opens with
    | false => exact h
    | true =>
      cases hlocked : st.locked (lockFile networkId) with
      | true => simpa [acquireIn, hlocked] using h
      | false =>
        simp only [acquireIn, if_true, hlocked, Bool.false_eq_true, if_false]
        refine List.nodup_cons.mpr ⟨fun hmem => ?_, h⟩
        have hlocked' := locked_iff.mpr (List.mem_map.mp hmem)
        rw [hlocked] at hlocked'
        cases hlocked'
  | release g =>
    simp only [LockDir.step] at hs
    split_ifs at hs
    cases hs
    exact h.sublist (List.erase_sublist.map _)

theorem exclusive (h : system.Reachable st) : st.Exclusive := by
  refine h.invariant (fun s hs => ?_) fun s e s' hs hstep => hs.step hstep
  rw [Exclusive, show s.held = [] from hs]
  exact List.nodup_nil

theorem prevents_iff (h : st.Exclusive) (hg : g ∈ st.held) :
    st.Prevents g networkId ↔ lockFile g.networkId = lockFile networkId := by
  have hmem (g' : EndpointGuard) : g' ∈ (st.release g).held ↔ g' ≠ g ∧ g' ∈ st.held :=
    (List.Nodup.of_map _ h).mem_erase_iff
  simp only [Prevents, acquireIn_isOk, not_not, forall_const, hmem]
  constructor
  · rintro ⟨⟨g', hg', hfile⟩, hfree⟩
    by_cases heq : g' = g
    · rw [← heq, hfile]
    · exact absurd ⟨g', ⟨heq, hg'⟩, hfile⟩ hfree
  · intro hfile
    refine ⟨⟨g, hg, hfile⟩, ?_⟩
    rintro ⟨g', ⟨hne, hg'⟩, hfile'⟩
    exact hne (List.inj_on_of_nodup_map h hg' hg (hfile'.trans hfile.symm))

theorem safeId_of_valid (h : validName networkId = .ok ()) : safeId networkId = undotted networkId := by
  simp only [validName, Fallible.ensure_eq_ok, Bool.and_eq_true, List.all_eq_true] at h
  rw [safeId, undotted]
  congr 1
  refine List.map_congr_left fun c hc => ?_
  have hchar := h.2 c hc
  by_cases hdot : c = '.'
  · subst hdot
    rfl
  · rw [if_neg hdot, if_pos (by simpa [hdot] using hchar)]

theorem undotted_of_not_mem (h : '.' ∉ networkId.toList) : undotted networkId = networkId := by
  have hchars : ∀ c ∈ networkId.toList, (if c = '.' then '_' else c) = id c := by
    intro c hc
    rw [if_neg (by rintro rfl; exact h hc), id]
  rw [undotted, List.map_congr_left hchars, List.map_id, String.ofList_toList]

/-- A guard keeps out the endpoints of exactly the networks with its id when `.` is read as `_`: of its own network
alone, if there is no `.` in the ids. -/
theorem endpoint_locks_separate (h : system.Reachable st) (hg : g ∈ st.held) (hvalid : validName g.networkId = .ok ())
    (hvalid' : validName networkId = .ok ()) :
    (st.Prevents g networkId ↔ undotted g.networkId = undotted networkId) ∧
    ('.' ∉ g.networkId.toList → '.' ∉ networkId.toList → (st.Prevents g networkId ↔ g.networkId = networkId)) := by
  have hiff : st.Prevents g networkId ↔ undotted g.networkId = undotted networkId := by
    rw [prevents_iff (exclusive h) hg, lockFile, lockFile, safeId_of_valid hvalid, safeId_of_valid hvalid',
      String.append_left_inj, String.append_right_inj]
  refine ⟨hiff, fun hdot hdot' => ?_⟩
  rw [hiff, undotted_of_not_mem hdot, undotted_of_not_mem hdot']

def empty : LockDir := ⟨"/run", fun _ => none, []⟩

/-- One endpoint has started. -/
def ofClient (networkId : String) : LockDir := (empty.acquireIn 1 networkId "client node 1" true none).2

theorem reachable_ofClient (networkId : String) : system.Reachable (ofClient networkId) :=
  .of_step (s := empty) (e := .acquire 1 networkId "client node 1" true none) (.of_initial rfl) rfl

theorem endpoint_locks_separate_acme :
    (ofClient "acme").Prevents ⟨1, "acme"⟩ "acme" ∧ ¬(ofClient "acme").Prevents ⟨1, "acme"⟩ "other-net" := by
  have hsep (networkId : String) (hvalid : validName networkId = .ok ()) :=
    (endpoint_locks_separate (reachable_ofClient "acme") List.mem_cons_self (by decide) hvalid).2 (by decide)
  exact ⟨(hsep "acme" (by decide) (by decide)).mpr rfl, fun h =>
    absurd ((hsep "other-net" (by decide) (by decide)).mp h) (by decide)⟩

/-- The endpoint of `a.b` keeps the one of `a_b` from starting. -/
theorem endpoint_lock_shared : validName "a.b" = .ok () ∧ validName "a_b" = .ok () ∧
    system.Reachable (ofClient "a.b") ∧ ⟨1, "a.b"⟩ ∈ (ofClient "a.b").held ∧
    (ofClient "a.b").Prevents ⟨1, "a.b"⟩ "a_b" := by
  have hreach := reachable_ofClient "a.b"
  exact ⟨by decide, by decide, hreach, List.mem_cons_self,
    (prevents_iff (exclusive hreach) List.mem_cons_self).mpr (by decide)⟩

end LockDir

end Nqvpn
