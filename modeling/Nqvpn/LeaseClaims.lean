import Nqvpn.Leases

/-!
# Claims, one heartbeat at a time

What a heartbeat makes of the leases, field by field. The loop over the clients a relay declares
keeps the claims it knows by their session id and numbers the others in the order they come, so
that no two claims ever have one number.
-/

namespace Nqvpn

open Std.ExtTreeMap

theorem insert_eq_self_iff {κ β : Type} [Ord κ] [Std.TransOrd κ] [Std.LawfulEqOrd κ]
    {m : Std.ExtTreeMap κ β} {k : κ} {v : β} : m.insert k v = m ↔ m[k]? = some v := by
  constructor
  · intro h
    rw [← h]
    exact getElem?_insert_self
  · intro h
    apply ext_getElem?
    intro a
    rw [getElem?_insert]
    split_ifs with ha
    · rw [← Std.LawfulEqOrd.compare_eq_iff_eq.mp ha, h]
    · rfl

namespace Leases

def declaring (l : Leases) (node : NodeId) (hb : Heartbeat) (isClient : NodeId → Bool)
    (maxAttached : Nat) : Declaring :=
  (hb.attached.take maxAttached).foldl (Declaring.add (l.declared.getD node ∅) isClient)
    ⟨∅, l.nextSeq, false⟩

theorem seen_lastSeen (l : Leases) (node : NodeId) (now : Nat) :
    (l.seen node now).1.lastSeen = l.lastSeen.insert node now := by
  unfold seen
  simp only
  split_ifs <;> rfl

variable {node : NodeId} {mine : Std.ExtTreeMap NodeId Claim} {start : Nat} {isClient : NodeId → Bool}

theorem heartbeat_relay (l : Leases) (node : NodeId) (hb : Heartbeat) (now : Nat)
    (isClient : NodeId → Bool) (maxAttached : Nat) :
    (l.heartbeat node .relay hb now isClient maxAttached).1 =
      { (l.seen node now).1 with
        reported := l.reported.insert node ⟨hb.gen, hb.digest, now⟩
        declared := l.declared.insert node (l.declaring node hb isClient maxAttached).keep
        meshUp := l.meshUp.insert node hb.meshUp
        nextSeq := (l.declaring node hb isClient maxAttached).nextSeq } := by
  unfold heartbeat seen
  simp only
  split_ifs <;> rfl

theorem heartbeat_client (l : Leases) (node : NodeId) (hb : Heartbeat) (now : Nat)
    (isClient : NodeId → Bool) (maxAttached : Nat) :
    (l.heartbeat node .client hb now isClient maxAttached).1 =
      { (l.seen node now).1 with
        reported := l.reported.insert node ⟨hb.gen, hb.digest, now⟩
        attachedTo := hb.attachedTo.elim (l.attachedTo.erase node) (l.attachedTo.insert node) } := by
  unfold heartbeat seen reportAttachment
  simp only
  cases hb.attachedTo <;> split_ifs <;> rfl

theorem elim_erase_insert_eq_self_iff {m : Std.ExtTreeMap NodeId NodeId} {o : Option NodeId} : o.elim (m.erase node) (m.insert node) = m ↔ m[node]? = o := by
  cases o with
  | some r => exact insert_eq_self_iff
  | none =>
    constructor
    · intro h
      have h' : m.erase node = m := h
      rw [← h']
      exact getElem?_erase_self
    · intro h
      apply ext_getElem?
      intro a
      simp only [Option.elim_none, getElem?_erase]
      split_ifs with ha
      · rw [← compare_eq_iff_eq.mp ha, h]
      · rfl

/-! ### The loop -/

theorem Declaring.add_cases (mine : Std.ExtTreeMap NodeId Claim) (isClient : NodeId → Bool)
    (s : Declaring) (c : AttachedClient) :
    isClient c.nodeId = false ∧ s.add mine isClient c = s ∨
      isClient c.nodeId ∧
        ((∃ x : Claim, mine[c.nodeId]? = some x ∧ x.sessionId = c.sessionId ∧
            s.add mine isClient c = { s with keep := s.keep.insert c.nodeId x }) ∨
          (∀ x : Claim, mine[c.nodeId]? = some x → x.sessionId ≠ c.sessionId) ∧
            s.add mine isClient c =
              ⟨s.keep.insert c.nodeId ⟨c.sessionId, s.nextSeq + 1⟩, s.nextSeq + 1, true⟩) := by
  unfold Declaring.add
  cases hclient : isClient c.nodeId with
  | false => exact .inl ⟨rfl, rfl⟩
  | true =>
    refine .inr ⟨rfl, ?_⟩
    simp only [Bool.not_true, Bool.false_eq_true, if_false]
    cases hmine : mine[c.nodeId]? with
    | none => exact .inr ⟨fun x hx => (nomatch hx), rfl⟩
    | some x =>
      by_cases hid : x.sessionId = c.sessionId
      · exact .inl ⟨x, rfl, hid, by simp only [if_pos hid]⟩
      · refine .inr ⟨fun y hy => ?_, by simp only [if_neg hid]⟩
        cases hy
        exact hid

theorem kept_of_unchanged (mine : Std.ExtTreeMap NodeId Claim) (isClient : NodeId → Bool)
    (cs : List AttachedClient) (start : Nat) :
    (cs.foldl (Declaring.add mine isClient) ⟨∅, start, false⟩).changed = false →
      ∀ (c : NodeId) (x : Claim),
        (cs.foldl (Declaring.add mine isClient) ⟨∅, start, false⟩).keep[c]? = some x → mine[c]? = some x := by
  refine List.foldlRecOn (motive := fun s : Declaring => s.changed = false →
    ∀ (c : NodeId) (x : Claim), s.keep[c]? = some x → mine[c]? = some x) cs _ ?_ ?_
  · intro _ c x hx
    simp at hx
  · intro s ih a _ hchanged c x hx
    rcases Declaring.add_cases mine isClient s a with ⟨-, heq⟩ | ⟨-, ⟨y, hy, -, heq⟩ | ⟨-, heq⟩⟩
    · rw [heq] at hchanged hx
      exact ih hchanged c x hx
    · rw [heq] at hchanged hx
      simp only [getElem?_insert, compare_eq_iff_eq] at hx
      split_ifs at hx with hc
      · cases hx
        exact hc ▸ hy
      · exact ih hchanged c x hx
    · rw [heq] at hchanged
      cases hchanged

/-- The loop after numbering from `start` on: claims kept have their old number, claims that are
new have one of their own. -/
structure Declaring.Numbers (mine : Std.ExtTreeMap NodeId Claim) (start : Nat) (s : Declaring) : Prop where
  le : start ≤ s.nextSeq
  source : ∀ (c : NodeId) (x : Claim), s.keep[c]? = some x →
    mine[c]? = some x ∨ start < x.seq ∧ x.seq ≤ s.nextSeq
  distinct : ∀ (c c' : NodeId) (x x' : Claim), s.keep[c]? = some x → s.keep[c']? = some x' →
    start < x.seq → x.seq = x'.seq → c = c'

theorem numbers_foldl (hmine : ∀ (c : NodeId) (x : Claim), mine[c]? = some x → x.seq ≤ start)
    (isClient : NodeId → Bool) (cs : List AttachedClient) :
    (cs.foldl (Declaring.add mine isClient) ⟨∅, start, false⟩).Numbers mine start := by
  refine List.foldlRecOn (motive := Declaring.Numbers mine start) cs _ ?_ ?_
  · refine ⟨le_rfl, fun c x hx => ?_, fun c c' x x' hx => ?_⟩
    · simp at hx
    · simp at hx
  · intro s ih a _
    rcases Declaring.add_cases mine isClient s a with ⟨-, heq⟩ | ⟨-, ⟨y, hy, -, heq⟩ | ⟨-, heq⟩⟩
    · rw [heq]
      exact ih
    · -- A known claim: its number is an old one.
      rw [heq]
      have hcases {c : NodeId} {x : Claim} (hx : (s.keep.insert a.nodeId y)[c]? = some x) :
          mine[c]? = some x ∨ s.keep[c]? = some x := by
        simp only [getElem?_insert, compare_eq_iff_eq] at hx
        split_ifs at hx with hc
        · cases hx
          exact .inl (hc ▸ hy)
        · exact .inr hx
      refine ⟨ih.le, fun c x hx => (hcases hx).elim .inl (ih.source c x), fun c c' x x' hx hx' hlt heq => ?_⟩
      rcases hcases hx with hold | hx
      · exact absurd hlt (not_lt.mpr (hmine c x hold))
      · rcases hcases hx' with hold | hx'
        · exact absurd (heq ▸ hlt) (not_lt.mpr (hmine c' x' hold))
        · exact ih.distinct c c' x x' hx hx' hlt heq
    · -- A new one: the next number.
      rw [heq]
      have hcases {c : NodeId} {x : Claim}
          (hx : (s.keep.insert a.nodeId ⟨a.sessionId, s.nextSeq + 1⟩)[c]? = some x) :
          c = a.nodeId ∧ x.seq = s.nextSeq + 1 ∨ s.keep[c]? = some x := by
        simp only [getElem?_insert, compare_eq_iff_eq] at hx
        split_ifs at hx with hc
        · cases hx
          exact .inl ⟨hc.symm, rfl⟩
        · exact .inr hx
      have hbound {c : NodeId} {x : Claim} (hx : s.keep[c]? = some x) : x.seq ≤ s.nextSeq := by
        rcases ih.source c x hx with hold | ⟨-, hle⟩
        · exact (hmine c x hold).trans ih.le
        · exact hle
      refine ⟨ih.le.trans (Nat.le_succ _), fun c x hx => ?_, fun c c' x x' hx hx' hlt heq => ?_⟩
      · rcases hcases hx with ⟨-, hseq⟩ | hx
        · exact .inr ⟨hseq ▸ Nat.lt_succ_of_le ih.le, hseq.le⟩
        · exact (ih.source c x hx).imp_right fun h => ⟨h.1, h.2.trans (Nat.le_succ _)⟩
      · rcases hcases hx with ⟨hc, hseq⟩ | hx
        · rcases hcases hx' with ⟨hc', -⟩ | hx'
          · rw [hc, hc']
          · have hle := hbound hx'
            omega
        · rcases hcases hx' with ⟨-, hseq'⟩ | hx'
          · have hle := hbound hx
            omega
          · exact ih.distinct c c' x x' hx hx' hlt heq

/-- The loop after some clients, each listed once: every one of them has a claim with its session
id, the old one if there was one with that id, else a new one. -/
structure Declaring.Follows (mine : Std.ExtTreeMap NodeId Claim) (start : Nat) (done : List AttachedClient)
    (s : Declaring) : Prop where
  le : start ≤ s.nextSeq
  entry : ∀ a ∈ done, ∃ x : Claim, s.keep[a.nodeId]? = some x ∧ x.sessionId = a.sessionId ∧
    (mine[a.nodeId]? = some x ∨
      (∀ y : Claim, mine[a.nodeId]? = some y → y.sessionId ≠ a.sessionId) ∧ start < x.seq)
  listed : ∀ (c : NodeId) (x : Claim), s.keep[c]? = some x → ∃ a ∈ done, a.nodeId = c

theorem Declaring.Follows.add {done : List AttachedClient} {s : Declaring} (h : s.Follows mine start done)
    {a : AttachedClient} (hclient : isClient a.nodeId) (hnew : ∀ b ∈ done, b.nodeId ≠ a.nodeId) :
    (s.add mine isClient a).Follows mine start (done ++ [a]) := by
  -- A claim is filed for the client at hand; those of the others stay.
  have hinsert {x : Claim} {n : Nat} {changed : Bool} (hle : start ≤ n) (hid : x.sessionId = a.sessionId)
      (hx : mine[a.nodeId]? = some x ∨
        (∀ y : Claim, mine[a.nodeId]? = some y → y.sessionId ≠ a.sessionId) ∧ start < x.seq) :
      Declaring.Follows mine start (done ++ [a]) ⟨s.keep.insert a.nodeId x, n, changed⟩ := by
    refine ⟨hle, fun b hb => ?_, fun c y hy => ?_⟩
    · rcases List.mem_append.mp hb with hold | hsame
      · obtain ⟨y, hy, hrest⟩ := h.entry b hold
        refine ⟨y, ?_, hrest⟩
        simp only [getElem?_insert, compare_eq_iff_eq]
        rw [if_neg (Ne.symm (hnew b hold))]
        exact hy
      · rw [List.mem_singleton.mp hsame]
        exact ⟨x, getElem?_insert_self, hid, hx⟩
    · simp only [getElem?_insert, compare_eq_iff_eq] at hy
      split_ifs at hy with hc
      · exact ⟨a, List.mem_append_right done List.mem_cons_self, hc⟩
      · obtain ⟨b, hb, hbc⟩ := h.listed c y hy
        exact ⟨b, List.mem_append_left [a] hb, hbc⟩
  rcases Declaring.add_cases mine isClient s a with ⟨hno, -⟩ | ⟨-, ⟨x, hx, hid, heq⟩ | ⟨hother, heq⟩⟩
  · rw [hclient] at hno
    cases hno
  · rw [heq]
    exact hinsert h.le hid (.inl hx)
  · rw [heq]
    exact hinsert (h.le.trans (Nat.le_succ _)) rfl (.inr ⟨hother, Nat.lt_succ_of_le h.le⟩)

theorem follows_foldl {cs : List AttachedClient} (hclients : ∀ a ∈ cs, isClient a.nodeId)
    (hnodup : (cs.map AttachedClient.nodeId).Nodup) :
    (cs.foldl (Declaring.add mine isClient) ⟨∅, start, false⟩).Follows mine start cs := by
  have hloop : ∀ (todo done : List AttachedClient) (s : Declaring), s.Follows mine start done →
      (∀ a ∈ todo, isClient a.nodeId) → ((done ++ todo).map AttachedClient.nodeId).Nodup →
      (todo.foldl (Declaring.add mine isClient) s).Follows mine start (done ++ todo) := by
    intro todo
    induction todo with
    | nil =>
      intro done s hs _ _
      rw [List.append_nil]
      exact hs
    | cons a todo ih =>
      intro done s hs hall hnd
      rw [List.append_cons] at hnd ⊢
      refine ih (done ++ [a]) _ (hs.add (hall a List.mem_cons_self) fun b hb hsame => ?_)
        (fun b hb => hall b (List.mem_cons_of_mem a hb)) hnd
      rw [List.map_append, List.map_append] at hnd
      have hdisjoint := (List.nodup_append.mp (List.nodup_append.mp hnd).1).2.2
      exact hdisjoint b.nodeId (List.mem_map_of_mem hb) a.nodeId (by simp) hsame
  have hempty : Declaring.Follows mine start [] ⟨∅, start, false⟩ := by
    refine ⟨le_rfl, fun a ha => ?_, fun c x hx => ?_⟩
    · cases ha
    · simp at hx
  exact hloop cs [] _ hempty hclients hnodup

end Leases

end Nqvpn
