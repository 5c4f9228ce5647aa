import Nqvpn.NetState
import Nqvpn.VersionedReplica

/-!
# The member's copy of the network view

Pure data: replaced by a snapshot, changed by a delta. A snapshot older than
what is held is refused; a delta that does not fit leaves the copy alone and is
answered by asking for a snapshot. The copy is a replica in the sense of
`Versioned`.
-/

namespace Nqvpn

open Snapshot

namespace View

def new : Snapshot := default

def install (held s : Snapshot) : Except Nat Snapshot :=
  if s.normalize.gen < held.gen then .error held.gen else .ok s.normalize

/-- What a member does with one message of its control session, and the
generation it then asks to be caught up from. -/
def onPush (held : Snapshot) : Push → Snapshot × Option Nat
  | .snapshot s =>
    match install held s with
    | .ok s => (s, none)
    | .error _ => (held, none)
  | .delta d =>
    match held.apply d with
    | .ok s => (s, none)
    | .error gap => (held, some gap.held)
  | .raw _ => (held, none)
  | .close _ => (held, none)

def afterPush (held : Snapshot) (p : Push) : Snapshot := (onPush held p).1

end View

def snapshotVersioned : Versioned Snapshot Delta where
  gen := gen
  baseGen := Delta.baseGen
  topGen := Delta.gen
  diff := diff
  install held s := View.afterPush held (.snapshot s)
  apply held d := View.afterPush held (.delta d)
  Canonical := Normal
  baseGen_diff _ _ := rfl
  topGen_diff _ _ := rfl
  install_canonical held s hs := by
    simp only [View.afterPush, View.onPush, View.install, normalize_gen]
    by_cases h : s.gen < held.gen
    · simp [h]
    · simp only [h, if_false]
      exact hs
  apply_old held d h := by simp [View.afterPush, View.onPush, apply, h]
  apply_gap held d h hbase := by
    simp [View.afterPush, View.onPush, apply, Nat.not_le.mpr h, hbase]
  apply_diff a b ha hb h := by
    have happly := apply_diff a b h
    rw [ha, hb] at happly
    simp [View.afterPush, View.onPush, happly]

namespace Push

def toMessage : Push → Versioned.Message Snapshot Delta
  | .delta d => .delta d
  | .snapshot s => .snapshot s
  | .raw _ => .other
  | .close _ => .other

theorem deliver_toMessage (held : Snapshot) (p : Push) :
    snapshotVersioned.deliver held p.toMessage = View.afterPush held p := by
  cases p <;> rfl

end Push

end Nqvpn
