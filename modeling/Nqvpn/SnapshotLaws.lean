import Nqvpn.Admission

/-!
# Laws of snapshots and deltas

A snapshot is changed in place by a delta, and a delta that does not apply leaves it as it was.
Its canonical form depends only on the last entry of each key, so that lookups by binary search,
scans and digests agree for all who hold the same content.
-/

namespace Nqvpn

open KeyedList AttachmentEntry

namespace Snapshot

/-! ### Deltas -/

variable (s : Snapshot) (id : NodeId)

/-- `apply`, with what it leaves in place. -/
def applyInPlace (d : Delta) : Snapshot × Except GenerationGap Unit :=
  if d.gen ≤ s.gen then (s, .ok ())
  else if d.baseGen ≠ s.gen then (s, .error ⟨d.baseGen, s.gen⟩)
  else ((s.patch d).normalize, .ok ())

theorem apply_eq_applyInPlace (d : Delta) :
    s.apply d = (s.applyInPlace d).2.map fun _ => (s.applyInPlace d).1 := by
  unfold apply applyInPlace
  split_ifs <;> rfl

def applyChain (s : Snapshot) : List Delta → Snapshot × Except GenerationGap Unit
  | [] => (s, .ok ())
  | d :: ds =>
    match (s.applyInPlace d).2 with
    | .ok _ => (s.applyInPlace d).1.applyChain ds
    | .error gap => ((s.applyInPlace d).1, .error gap)

def diffs : Snapshot → List Snapshot → List Delta
  | _, [] => []
  | a, b :: bs => a.diff b :: diffs b bs

theorem digest_normalize (encode : Snapshot → List UInt8) (s : Snapshot) :
    s.normalize.digest encode = s.digest encode := by
  have hsame : ({ s.normalize with gen := 0 } : Snapshot).normalize = { s with gen := 0 }.normalize :=
    normalize_normalize { s with gen := 0 }
  unfold digest
  rw [hsame]

theorem applyInPlace_stale {s : Snapshot} {d : Delta} (h : d.gen ≤ s.gen) : s.applyInPlace d = (s, .ok ()) := by
  rw [applyInPlace, if_pos h]

variable {a b : Snapshot} {bs : List Snapshot}

theorem applyInPlace_diff (h : a.gen < b.gen) :
    a.normalize.applyInPlace (a.diff b) = (b.normalize, .ok ()) := by
  have hnewer : ¬ (a.diff b).gen ≤ a.normalize.gen := not_le.mpr h
  have hbase : ¬ (a.diff b).baseGen ≠ a.normalize.gen := fun hne => hne rfl
  rw [applyInPlace, if_neg hnewer, if_neg hbase, normalize_patch_diff]

theorem applyChain_diffs (h : (a :: bs).IsChain fun s s' => s.gen < s'.gen) :
    a.normalize.applyChain (diffs a bs) = ((bs.getLastD a).normalize, .ok ()) := by
  induction bs generalizing a with
  | nil => rfl
  | cons b bs ih =>
    obtain ⟨hgen, hrest⟩ := List.isChain_cons_cons.mp h
    rw [diffs, applyChain, applyInPlace_diff hgen]
    rw [ih hrest, List.getLastD_cons]

theorem gen_lt_getLastD (h : (a :: b :: bs).IsChain fun s s' => s.gen < s'.gen) :
    a.gen < (bs.getLastD b).gen := by
  have : Trans (fun s s' : Snapshot => s.gen < s'.gen) (fun s s' : Snapshot => s.gen < s'.gen)
      (fun s s' : Snapshot => s.gen < s'.gen) := ⟨fun h₁ h₂ => lt_trans h₁ h₂⟩
  have hpairs := List.pairwise_cons.mp (List.isChain_iff_pairwise.mp h)
  refine hpairs.1 _ ?_
  rw [← List.getLast_eq_getLastD (by simp)]
  exact List.getLast_mem _

/-- Differences reproduce the newer snapshot, one by one or at once; what is not newer is passed
over and what has another base is refused, with the snapshot as it was. -/
theorem diff_apply_laws (encode : Snapshot → List UInt8) :
    (∀ a b : Snapshot, a.gen < b.gen →
      (a.normalize.applyInPlace (a.diff b)).2 = .ok () ∧
      (a.normalize.applyInPlace (a.diff b)).1 = b.normalize ∧
      (a.normalize.applyInPlace (a.diff b)).1.gen = b.gen ∧
      (a.normalize.applyInPlace (a.diff b)).1.digest encode = b.digest encode) ∧
    (∀ (s : Snapshot) (d : Delta), d.gen ≤ s.gen → s.applyInPlace d = (s, .ok ())) ∧
    (∀ (s : Snapshot) (d : Delta), s.gen < d.gen → d.baseGen ≠ s.gen →
      s.applyInPlace d = (s, .error ⟨d.baseGen, s.gen⟩)) ∧
    ∀ (a : Snapshot) (bs : List Snapshot), ((a :: bs).IsChain fun s s' => s.gen < s'.gen) →
      a.normalize.applyChain (diffs a bs) = a.normalize.applyInPlace (a.diff (bs.getLastD a)) := by
  refine ⟨fun a b h => ?_, fun s d h => applyInPlace_stale h, fun s d hnewer hbase => ?_,
    fun a bs h => ?_⟩
  · rw [applyInPlace_diff h]
    exact ⟨rfl, rfl, rfl, digest_normalize encode b⟩
  · rw [applyInPlace, if_neg (not_le.mpr hnewer), if_pos hbase]
  · rw [applyChain_diffs h]
    cases bs with
    | nil => exact (applyInPlace_stale le_rfl).symm
    | cons b bs =>
      rw [List.getLastD_cons]
      exact (applyInPlace_diff (gen_lt_getLastD h)).symm

namespace TwiceListed

def entry (client relay : NodeId) : AttachmentEntry := ⟨client, relay⟩

def older : Snapshot := { default with gen := 3, attachments := [entry 5 1, entry 5 2] }

def newer : Snapshot := { default with gen := 4, attachments := [entry 5 2, entry 5 1] }

end TwiceListed

open TwiceListed in
/-- Of the two entries the last one counts, before and after. -/
theorem diff_apply_laws_twice_listed :
    (older.normalize.applyInPlace (older.diff newer)).1 = newer.normalize ∧
      older.normalize.attachments = [entry 5 2] ∧ newer.normalize.attachments = [entry 5 1] :=
  ⟨((diff_apply_laws fun _ => []).1 older newer (by decide)).2.1, by decide, by decide⟩

/-! ### Canonical form -/

def attachmentOf : Option NodeId :=
  (BinarySearch.search nodeId s.attachments id).map relayId

/-- Raw snapshots whose lists differ by reorderings that keep the entries of one key in order, and
by generation. -/
structure Reordered (a b : Snapshot) : Prop where
  members : SameByKey PeerInfo.nodeId a.members b.members
  attachments : SameByKey nodeId a.attachments b.attachments
  relays : SameByKey RelayEndpoint.relayId a.relays b.relays
  mtu : a.mtu = b.mtu
  keys : SameByKey KeyInfo.kid a.keys b.keys
  reservedPrefixes : SameByKey IpNet.prefixOrder a.reservedPrefixes b.reservedPrefixes

/-- Every list of one snapshot holds the last entries of the list of the other. -/
structure LastEntries (raw s : Snapshot) : Prop where
  members : HoldsLast PeerInfo.nodeId raw.members s.members
  attachments : HoldsLast nodeId raw.attachments s.attachments
  relays : HoldsLast RelayEndpoint.relayId raw.relays s.relays
  keys : HoldsLast KeyInfo.kid raw.keys s.keys
  reservedPrefixes : HoldsLast IpNet.prefixOrder raw.reservedPrefixes s.reservedPrefixes

theorem lastEntries_normalize : s.LastEntries s.normalize where
  members := keepLastSorted_holdsLast _ _
  attachments := keepLastSorted_holdsLast _ _
  relays := keepLastSorted_holdsLast _ _
  keys := keepLastSorted_holdsLast _ _
  reservedPrefixes := sortDedup_holdsLast IpNet.prefixOrder_injective _

theorem member_normalize :
    s.normalize.member id = s.members.findRev? (fun m => m.nodeId = id) := by
  have hcanonical : Canonical PeerInfo.nodeId s.normalize.members := canonical_keepLastSorted _ _
  rw [member, BinarySearch.search_eq_find? _ hcanonical]
  exact find?_keepLastSorted PeerInfo.nodeId id s.members

theorem attachmentOf_normalize :
    s.normalize.attachmentOf id =
      (s.attachments.findRev? (fun a => a.nodeId = id)).map relayId := by
  have hcanonical : Canonical nodeId s.normalize.attachments := canonical_keepLastSorted _ _
  rw [attachmentOf, BinarySearch.search_eq_find? _ hcanonical]
  exact congrArg _ (find?_keepLastSorted nodeId id s.attachments)

theorem Reordered.normalize_eq (h : a.Reordered b) : a.normalize = { b.normalize with gen := a.gen } := by
  have ha := a.lastEntries_normalize
  have hb := b.lastEntries_normalize
  apply Snapshot.ext
  case gen => rfl
  case members => exact ha.members.unique hb.members h.members.findRev?
  case attachments => exact ha.attachments.unique hb.attachments h.attachments.findRev?
  case relays => exact ha.relays.unique hb.relays h.relays.findRev?
  case mtu => exact h.mtu
  case keys => exact ha.keys.unique hb.keys h.keys.findRev?
  case reservedPrefixes =>
    exact ha.reservedPrefixes.unique hb.reservedPrefixes h.reservedPrefixes.findRev?

theorem Reordered.digest_eq (h : a.Reordered b) (encode : Snapshot → List UInt8) :
    a.digest encode = b.digest encode := by
  have hzero : ({ a with gen := 0 } : Snapshot).Reordered { b with gen := 0 } :=
    { h with }
  unfold digest
  rw [hzero.normalize_eq]
  rfl

/-- The canonical form holds the last entry of each key in order; lookups on it find what a scan of
the raw snapshot for the last entry finds, and it does not depend on how the entries of different
keys are ordered. -/
theorem canonical_form (encode : Snapshot → List UInt8) :
    (∀ s : Snapshot, s.normalize.normalize = s.normalize) ∧
    (∀ s : Snapshot, s.LastEntries s.normalize) ∧
    (∀ (s : Snapshot) (id : NodeId),
      s.normalize.member id = s.members.findRev? (fun m => m.nodeId = id) ∧
      s.normalize.attachmentOf id =
        (s.attachments.findRev? (fun a => a.nodeId = id)).map relayId) ∧
    ∀ a b : Snapshot, a.Reordered b →
      a.normalize = { b.normalize with gen := a.gen } ∧ a.digest encode = b.digest encode :=
  ⟨normalize_normalize, lastEntries_normalize, fun s id => ⟨s.member_normalize id, s.attachmentOf_normalize id⟩,
    fun _ _ h => ⟨h.normalize_eq, h.digest_eq encode⟩⟩

namespace TwiceListed

def mixed : Snapshot := { default with gen := 7, attachments := [entry 5 1, entry 8 3, entry 5 2] }
def grouped : Snapshot := { default with gen := 9, attachments := [entry 8 3, entry 5 1, entry 5 2] }

theorem mixed_reordered : mixed.Reordered grouped where
  members := fun _ => rfl
  attachments := by
    intro k
    by_cases h5 : k = 5
    · subst h5
      rfl
    · simp [mixed, grouped, entry, List.filter_cons, Ne.symm h5]
  relays := fun _ => rfl
  mtu := rfl
  keys := fun _ => rfl
  reservedPrefixes := fun _ => rfl

end TwiceListed

open TwiceListed in
theorem canonical_form_mixed : mixed.digest (fun _ => [1]) = grouped.digest (fun _ => [1]) ∧
    mixed.normalize.attachmentOf 5 = some 2 :=
  ⟨((canonical_form fun _ => [1]).2.2.2 mixed grouped mixed_reordered).2, by
    rw [((canonical_form fun _ => [1]).2.2.1 mixed 5).2]
    decide⟩

end Snapshot

end Nqvpn
