import Nqvpn.KeyedList
import Nqvpn.Addressing
import Mathlib.Data.UInt
import Mathlib.Data.String.Basic

/-!
# The network view: snapshots and deltas

A `Snapshot` is the whole view of one network at one generation. The
coordinator and every member run the same `normalize`, `diff`, `apply` and
`digest` over it. The main result is `apply_diff`: applying the difference of
two raw snapshots to the normalized older one gives the normalized newer one.
-/

namespace Nqvpn

open KeyedList MapPatch

/-- One member as pushed to every other member. -/
structure PeerInfo where
  nodeId : NodeId
  name : String
  role : Role
  prefixes : List IpNet
  pubkey : String
  online : Bool
  loginGen : Nat
deriving DecidableEq, Repr

structure AttachmentEntry where
  nodeId : NodeId
  relayId : NodeId
deriving DecidableEq, Repr

structure RelayEndpoint where
  relayId : NodeId
  name : String
  addr : String
  certFp : String
deriving DecidableEq, Repr

structure NetworkMtu where
  mtu : Nat
  limitedBy : String
deriving DecidableEq, Repr

structure KeyInfo where
  kid : String
  key : String
  state : String
deriving DecidableEq, Repr

@[ext] structure Snapshot where
  gen : Nat
  members : List PeerInfo
  attachments : List AttachmentEntry
  relays : List RelayEndpoint
  mtu : NetworkMtu
  keys : List KeyInfo
  reservedPrefixes : List IpNet
deriving DecidableEq, Repr

/-- What changed between two generations; `none` for a field means unchanged. -/
structure Delta where
  baseGen : Nat
  gen : Nat
  membersChanged : List PeerInfo
  membersRemoved : List NodeId
  attachmentsChanged : List AttachmentEntry
  attachmentsRemoved : List NodeId
  relays : Option (List RelayEndpoint)
  mtu : Option NetworkMtu
  keys : Option (List KeyInfo)
  reservedPrefixes : Option (List IpNet)
deriving DecidableEq, Repr

structure GenerationGap where
  base : Nat
  held : Nat
deriving DecidableEq, Repr

namespace Snapshot

def default : Snapshot :=
  ⟨0, [], [], [], ⟨0, ""⟩, [], []⟩

variable (s : Snapshot) (l : List PeerInfo)

def normalize : Snapshot :=
  { s with
    members := keepLastSorted PeerInfo.nodeId s.members
    attachments := keepLastSorted AttachmentEntry.nodeId s.attachments
    relays := keepLastSorted RelayEndpoint.relayId s.relays
    keys := keepLastSorted KeyInfo.kid s.keys
    reservedPrefixes := sortDedup IpNet.prefixOrder s.reservedPrefixes }

def fnv1a (bytes : List UInt8) : UInt64 :=
  bytes.foldl (fun h b => (h ^^^ b.toUInt64) * 0x100000001b3) 0xcbf29ce484222325

/-- Content digest, independent of `gen`; `encode` is the wire serializer. -/
def digest (encode : Snapshot → List UInt8) (s : Snapshot) : UInt64 :=
  fnv1a (encode { s with gen := 0 }.normalize)

def memberMap : Std.ExtTreeMap NodeId PeerInfo :=
  collect PeerInfo.nodeId id l

def attachmentMap (l : List AttachmentEntry) : Std.ExtTreeMap NodeId NodeId :=
  collect AttachmentEntry.nodeId AttachmentEntry.relayId l

def attachmentEntry (p : NodeId × NodeId) : AttachmentEntry := ⟨p.1, p.2⟩

def changedField {α : Type} [DecidableEq α] (old new : α) : Option α :=
  if old ≠ new then some new else none

def diff (newer : Snapshot) : Delta where
  baseGen := s.gen
  gen := newer.gen
  membersChanged := (changed (memberMap s.members) (memberMap newer.members)).map Prod.snd
  membersRemoved := removed (memberMap s.members) (memberMap newer.members)
  attachmentsChanged :=
    (changed (attachmentMap s.attachments) (attachmentMap newer.attachments)).map attachmentEntry
  attachmentsRemoved := removed (attachmentMap s.attachments) (attachmentMap newer.attachments)
  relays := changedField s.relays newer.relays
  mtu := changedField s.mtu newer.mtu
  keys := changedField s.keys newer.keys
  reservedPrefixes := changedField s.reservedPrefixes newer.reservedPrefixes

def patch (d : Delta) : Snapshot where
  gen := d.gen
  members :=
    (insertAll (eraseAll (memberMap s.members) d.membersRemoved)
      (d.membersChanged.map fun m => (m.nodeId, m))).toList.map Prod.snd
  attachments :=
    (insertAll (eraseAll (attachmentMap s.attachments) d.attachmentsRemoved)
      (d.attachmentsChanged.map fun a => (a.nodeId, a.relayId))).toList.map attachmentEntry
  relays := d.relays.getD s.relays
  mtu := d.mtu.getD s.mtu
  keys := d.keys.getD s.keys
  reservedPrefixes := d.reservedPrefixes.getD s.reservedPrefixes

/-- A delta up to a generation already held is a harmless duplicate; one not
based on exactly the generation held is a gap. -/
def apply (d : Delta) : Except GenerationGap Snapshot :=
  if d.gen ≤ s.gen then .ok s
  else if d.baseGen ≠ s.gen then .error ⟨d.baseGen, s.gen⟩
  else .ok (s.patch d).normalize

@[simp] theorem normalize_gen : s.normalize.gen = s.gen := rfl

@[simp] theorem normalize_normalize : s.normalize.normalize = s.normalize := by
  simp [normalize, keepLastSorted_keepLastSorted, sortDedup_sortDedup IpNet.prefixOrder_injective]

def Normal : Prop := s.normalize = s

theorem normal_normalize : s.normalize.Normal := normalize_normalize s

theorem normal_default : default.Normal := rfl

theorem Normal.set_gen {s : Snapshot} (h : s.Normal) (gen : Nat) :
    ({ s with gen := gen } : Snapshot).Normal := by
  change ({ s.normalize with gen := gen } : Snapshot) = { s with gen := gen }
  rw [h]

theorem memberMap_normalize :
    memberMap s.normalize.members = memberMap s.members :=
  collect_keepLastSorted _ _ _

theorem attachmentMap_normalize :
    attachmentMap s.normalize.attachments = attachmentMap s.attachments :=
  collect_keepLastSorted _ _ _

theorem toList_memberMap :
    (memberMap l).toList.map Prod.snd = keepLastSorted PeerInfo.nodeId l :=
  map_toList_collect _ _ _ (fun _ => rfl) l

theorem toList_attachmentMap (l : List AttachmentEntry) :
    (attachmentMap l).toList.map attachmentEntry = keepLastSorted AttachmentEntry.nodeId l :=
  map_toList_collect _ _ _ (fun _ => rfl) l

theorem memberMap_key {l : List PeerInfo} {k : NodeId} {m : PeerInfo}
    (h : (memberMap l)[k]? = some m) : m.nodeId = k := by
  rw [memberMap, getElem?_collect, List.findRev?_eq_find?_reverse] at h
  obtain ⟨m', hf, rfl⟩ := Option.map_eq_some_iff.mp h
  simpa using List.find?_some hf

theorem rekey_membersChanged (l' : List PeerInfo) :
    ((changed (memberMap l) (memberMap l')).map Prod.snd).map (fun m => (m.nodeId, m)) =
      changed (memberMap l) (memberMap l') := by
  rw [List.map_map]
  refine (List.map_congr_left ?_).trans (List.map_id _)
  rintro ⟨k, m⟩ hkm
  have hm := Std.ExtTreeMap.mem_toList_iff_getElem?_eq_some.mp (List.mem_filter.mp hkm).1
  exact Prod.ext (memberMap_key hm) rfl

theorem members_patch_diff (a b : Snapshot) :
    (a.normalize.patch (a.diff b)).members = keepLastSorted PeerInfo.nodeId b.members := by
  simp only [patch, diff, rekey_membersChanged, memberMap_normalize,
    insertAll_changed_eraseAll_removed, toList_memberMap]

theorem attachments_patch_diff (a b : Snapshot) :
    (a.normalize.patch (a.diff b)).attachments =
      keepLastSorted AttachmentEntry.nodeId b.attachments := by
  have hrekey : ∀ l : List (NodeId × NodeId),
      (l.map attachmentEntry).map (fun e => (e.nodeId, e.relayId)) = l := by
    intro l
    rw [List.map_map]
    exact List.map_id l
  simp [patch, diff, hrekey, attachmentMap_normalize, insertAll_changed_eraseAll_removed, toList_attachmentMap]

theorem canon_changedField {α : Type} [DecidableEq α] (canon : α → α)
    (hcanon : ∀ x, canon (canon x) = canon x) (old new : α) :
    canon ((changedField old new).getD (canon old)) = canon new := by
  by_cases h : old = new
  · simp [changedField, h, hcanon]
  · simp [changedField, h]

theorem normalize_patch_diff (a b : Snapshot) :
    (a.normalize.patch (a.diff b)).normalize = b.normalize := by
  apply Snapshot.ext
  case gen => rfl
  case members =>
    change keepLastSorted _ (a.normalize.patch (a.diff b)).members = _
    rw [members_patch_diff, keepLastSorted_keepLastSorted]
    rfl
  case attachments =>
    change keepLastSorted _ (a.normalize.patch (a.diff b)).attachments = _
    rw [attachments_patch_diff, keepLastSorted_keepLastSorted]
    rfl
  case relays => exact canon_changedField _ (keepLastSorted_keepLastSorted _) a.relays b.relays
  case mtu => exact canon_changedField id (fun _ => rfl) a.mtu b.mtu
  case keys => exact canon_changedField _ (keepLastSorted_keepLastSorted _) a.keys b.keys
  case reservedPrefixes =>
    exact canon_changedField _ (sortDedup_sortDedup IpNet.prefixOrder_injective)
      a.reservedPrefixes b.reservedPrefixes

/-- Applying a difference reproduces the newer snapshot, whatever the order and
repetitions of the raw lists. -/
theorem apply_diff (a b : Snapshot) (h : a.gen < b.gen) :
    a.normalize.apply (a.diff b) = .ok b.normalize := by
  have hgen : ¬(a.diff b).gen ≤ a.normalize.gen := by
    change ¬b.gen ≤ a.gen
    omega
  have hbase : ¬(a.diff b).baseGen ≠ a.normalize.gen := fun hne => hne rfl
  rw [apply, if_neg hgen, if_neg hbase, normalize_patch_diff]

end Snapshot

end Nqvpn
