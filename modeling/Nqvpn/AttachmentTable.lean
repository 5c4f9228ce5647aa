import Nqvpn.LeaseClaims
import Nqvpn.TransitionSystem

/-!
# Where the attachment table comes from

The table is computed from nested maps that are iterated in no particular order. Every order gives
the same table because no two claims have one number: a client is attached to the relay whose claim
on it has the highest number, among those the client's own report does not veto.
-/

namespace Nqvpn

open Std.ExtTreeMap Option

namespace Leases

def HasClaim (l : Leases) (relay client : NodeId) (x : Claim) : Prop :=
  ∃ claims, l.declared[relay]? = some claims ∧ claims[client]? = some x

def Vetoed (l : Leases) (relay client : NodeId) : Prop :=
  (l.attachedTo[client]?).any (fun r => r != relay) = true

instance decidableVetoed (l : Leases) (relay client : NodeId) : Decidable (l.Vetoed relay client) :=
  inferInstanceAs (Decidable (_ = true))

/-- The relay's claim on the client has the highest number of those that are not vetoed. -/
def IsAttached (l : Leases) (client relay : NodeId) : Prop :=
  ∃ x, l.HasClaim relay client x ∧ ¬ l.Vetoed relay client ∧
    ∀ relay' x', l.HasClaim relay' client x' → ¬ l.Vetoed relay' client → x'.seq ≤ x.seq

/-! ### Any order of iteration -/

/-- The relays and each one's claims, in the order a loop may come across them. -/
structure Lists (l : Leases) (listing : List (NodeId × List (NodeId × Claim))) : Prop where
  nodup : (listing.map Prod.fst).Nodup
  claims : ∀ d ∈ listing, ∃ claims, l.declared[d.1]? = some claims ∧ d.2.Perm claims.toList
  complete : ∀ relay ∈ l.declared, relay ∈ listing.map Prod.fst

def attachmentsOf (l : Leases) (listing : List (NodeId × List (NodeId × Claim))) :
    Std.ExtTreeMap NodeId NodeId :=
  (listing.foldl (fun best (d : NodeId × List (NodeId × Claim)) => d.2.foldl (l.bestClaim d.1) best)
    ∅).map (fun _ b => b.2)

def MayAttach (l : Leases) (table : Std.ExtTreeMap NodeId NodeId) : Prop :=
  ∃ listing, l.Lists listing ∧ l.attachmentsOf listing = table

variable {l l' : Leases}

theorem mayAttach_attachments (l : Leases) : l.MayAttach l.attachments := by
  refine ⟨l.declared.toList.map fun d => (d.1, d.2.toList), ⟨?_, fun d hd => ?_, fun relay hrelay => ?_⟩, ?_⟩
  · rw [List.map_map]
    have hkeys : l.declared.keys.Nodup := nodup_keys
    rw [← map_fst_toList_eq_keys] at hkeys
    exact hkeys
  · obtain ⟨⟨relay, claims⟩, hmem, rfl⟩ := List.mem_map.mp hd
    exact ⟨claims, mem_toList_iff_getElem?_eq_some.mp hmem, List.Perm.refl _⟩
  · rw [List.map_map]
    have hkey := mem_keys.mpr hrelay
    rw [← map_fst_toList_eq_keys] at hkey
    exact hkey
  · unfold attachmentsOf attachments
    rw [List.foldl_map]

def claimsOf (listing : List (NodeId × List (NodeId × Claim))) : List (NodeId × NodeId × Claim) :=
  listing.flatMap fun d => d.2.map fun p => (d.1, p)
variable {listing : List (NodeId × List (NodeId × Claim))} {client relay : NodeId} {x : Claim}
  {done : List (NodeId × NodeId × Claim)} {best : Std.ExtTreeMap NodeId (Nat × NodeId)}
  {table : Std.ExtTreeMap NodeId NodeId}

theorem Lists.mem_claimsOf (h : l.Lists listing) :
    (relay, client, x) ∈ claimsOf listing ↔ l.HasClaim relay client x := by
  simp only [claimsOf, List.mem_flatMap, List.mem_map]
  constructor
  · rintro ⟨d, hd, p, hp, heq⟩
    cases heq
    obtain ⟨claims, hclaims, hperm⟩ := h.claims d hd
    exact ⟨claims, hclaims, mem_toList_iff_getElem?_eq_some.mp (hperm.mem_iff.mp hp)⟩
  · rintro ⟨claims, hclaims, hx⟩
    have hrelay : relay ∈ l.declared := by
      rw [mem_iff_isSome_getElem?, hclaims]
      rfl
    obtain ⟨d, hd, rfl⟩ := List.mem_map.mp (h.complete relay hrelay)
    obtain ⟨claims', hclaims', hperm⟩ := h.claims d hd
    cases hclaims.symm.trans hclaims'
    refine ⟨d, hd, (client, x), hperm.mem_iff.mpr ?_, rfl⟩
    exact mem_toList_iff_getElem?_eq_some.mpr hx

/-- What the loop has picked after some claims. -/
structure Picks (l : Leases) (done : List (NodeId × NodeId × Claim))
    (best : Std.ExtTreeMap NodeId (Nat × NodeId)) : Prop where
  picked : ∀ (c : NodeId) (b : Nat × NodeId), best[c]? = some b →
    (∃ x, (b.2, c, x) ∈ done ∧ x.seq = b.1) ∧ ¬ l.Vetoed b.2 c ∧
      ∀ relay x, (relay, c, x) ∈ done → ¬ l.Vetoed relay c → x.seq ≤ b.1
  unpicked : ∀ c : NodeId, best[c]? = none → ∀ relay x, (relay, c, x) ∈ done → l.Vetoed relay c

theorem Picks.step (h : l.Picks done best) (t : NodeId × NodeId × Claim) :
    l.Picks (done ++ [t]) (l.bestClaim t.1 best t.2) := by
  obtain ⟨relay, client, x⟩ := t
  have hmem {r c : NodeId} {y : Claim} : (r, c, y) ∈ done ++ [(relay, client, x)] ↔
      (r, c, y) ∈ done ∨ r = relay ∧ c = client ∧ y = x := by simp
  -- The claim takes the place of what was picked, or nothing was.
  have htake (hveto : ¬ l.Vetoed relay client)
      (hbest : ∀ r y, (r, client, y) ∈ done → ¬ l.Vetoed r client → y.seq ≤ x.seq) :
      l.Picks (done ++ [(relay, client, x)]) (best.insert client (x.seq, relay)) := by
    refine ⟨fun c b hb => ?_, fun c hc r y hy => ?_⟩
    · simp only [getElem?_insert, compare_eq_iff_eq] at hb
      split_ifs at hb with hclient
      · cases hb
        subst hclient
        refine ⟨⟨x, hmem.mpr (.inr ⟨rfl, rfl, rfl⟩), rfl⟩, hveto, fun r y hy hr => ?_⟩
        rcases hmem.mp hy with hold | ⟨-, -, rfl⟩
        · exact hbest r y hold hr
        · exact le_rfl
      · obtain ⟨⟨y, hy, hseq⟩, hfree, hmax⟩ := h.picked c b hb
        refine ⟨⟨y, hmem.mpr (.inl hy), hseq⟩, hfree, fun r z hz hr => ?_⟩
        rcases hmem.mp hz with hold | ⟨-, hsame, -⟩
        · exact hmax r z hold hr
        · exact absurd hsame.symm hclient
    · simp only [getElem?_insert, compare_eq_iff_eq] at hc
      split_ifs at hc with hclient
      rcases hmem.mp hy with hold | ⟨-, hsame, -⟩
      · exact h.unpicked c hc r y hold
      · exact absurd hsame.symm hclient
  -- The claim is passed over.
  have hskip (hpast : ¬ l.Vetoed relay client →
      ∃ b, best[client]? = some b ∧ x.seq ≤ b.1) : l.Picks (done ++ [(relay, client, x)]) best := by
    refine ⟨fun c b hb => ?_, fun c hc r y hy => ?_⟩
    · obtain ⟨⟨y, hy, hseq⟩, hfree, hmax⟩ := h.picked c b hb
      refine ⟨⟨y, hmem.mpr (.inl hy), hseq⟩, hfree, fun r z hz hr => ?_⟩
      rcases hmem.mp hz with hold | ⟨rfl, rfl, rfl⟩
      · exact hmax r z hold hr
      · obtain ⟨b', hb', hle⟩ := hpast hr
        cases hb.symm.trans hb'
        exact hle
    · rcases hmem.mp hy with hold | ⟨rfl, rfl, rfl⟩
      · exact h.unpicked c hc r y hold
      · by_contra hr
        obtain ⟨b', hb', -⟩ := hpast hr
        rw [hc] at hb'
        cases hb'
  unfold bestClaim
  split_ifs with hveto
  · exact hskip fun hfree => absurd hveto hfree
  · split
    · rename_i b hb
      split_ifs with hlt
      · exact hskip fun _ => ⟨b, hb, le_of_lt hlt⟩
      · refine htake hveto fun r y hy hr => ?_
        exact ((h.picked client b hb).2.2 r y hy hr).trans (not_lt.mp hlt)
    · rename_i hb
      exact htake hveto fun r y hy hr => absurd (h.unpicked client hb r y hy) hr

theorem picks_foldl (todo : List (NodeId × NodeId × Claim)) (h : l.Picks done best) :
    l.Picks (done ++ todo) (todo.foldl (fun best t => l.bestClaim t.1 best t.2) best) := by
  induction todo generalizing done best with
  | nil =>
    rw [List.append_nil]
    exact h
  | cons t todo ih =>
    rw [List.foldl_cons, List.append_cons]
    exact ih (h.step t)

theorem exists_picks (l : Leases) (listing : List (NodeId × List (NodeId × Claim))) :
    ∃ best, l.Picks (claimsOf listing) best ∧ l.attachmentsOf listing = best.map (fun _ b => b.2) := by
  have hempty : l.Picks [] ∅ := by
    refine ⟨fun c b hb => ?_, fun c _ r x hx => ?_⟩
    · simp at hb
    · cases hx
  refine ⟨_, picks_foldl (claimsOf listing) hempty, ?_⟩
  unfold attachmentsOf claimsOf
  rw [List.foldl_flatMap]
  simp [List.foldl_map]

/-! ### Distinct numbers -/

/-- No two claims have one number, and none is ahead of the counter. -/
structure Numbered (l : Leases) : Prop where
  bound : ∀ relay client x, l.HasClaim relay client x → x.seq ≤ l.nextSeq
  distinct : ∀ relay client x relay' client' x', l.HasClaim relay client x →
    l.HasClaim relay' client' x' → x.seq = x'.seq → relay = relay' ∧ client = client'

theorem Numbered.getElem?_eq_some (h : l.Numbered) (htable : l.MayAttach table) :
    table[client]? = some relay ↔ l.IsAttached client relay := by
  obtain ⟨listing, hlists, rfl⟩ := htable
  obtain ⟨best, hpicks, heq⟩ := l.exists_picks listing
  rw [heq, getElem?_map]
  constructor
  · intro hfound
    obtain ⟨b, hb, rfl⟩ := map_eq_some_iff.mp hfound
    obtain ⟨⟨x, hx, hseq⟩, hfree, hmax⟩ := hpicks.picked client b hb
    refine ⟨x, hlists.mem_claimsOf.mp hx, hfree, fun relay' x' hx' hfree' => ?_⟩
    rw [hseq]
    exact hmax relay' x' (hlists.mem_claimsOf.mpr hx') hfree'
  · rintro ⟨x, hx, hfree, hmax⟩
    cases hb : best[client]? with
    | none => exact absurd (hpicks.unpicked client hb relay x (hlists.mem_claimsOf.mpr hx)) hfree
    | some b =>
      obtain ⟨⟨y, hy, hseq⟩, hfree', hmax'⟩ := hpicks.picked client b hb
      have hy' := hlists.mem_claimsOf.mp hy
      have hle := hmax b.2 y hy' hfree'
      have hge := hmax' relay x (hlists.mem_claimsOf.mpr hx) hfree
      have hsame : y.seq = x.seq := by omega
      rw [map_some, (h.distinct b.2 client y relay client x hy' hx hsame).1]

theorem Numbered.eq_attachments (h : l.Numbered) (htable : l.MayAttach table) : table = l.attachments := by
  refine ext_getElem? fun client => ext fun relay => ?_
  rw [h.getElem?_eq_some htable, h.getElem?_eq_some l.mayAttach_attachments]

theorem Numbered.mem_attachments (h : l.Numbered) :
    client ∈ l.attachments ↔ ∃ relay x, l.HasClaim relay client x ∧ ¬ l.Vetoed relay client := by
  obtain ⟨listing, hlists, heq⟩ := l.mayAttach_attachments
  obtain ⟨best, hpicks, hbest⟩ := l.exists_picks listing
  rw [mem_iff_isSome_getElem?]
  constructor
  · intro hfound
    obtain ⟨relay, hrelay⟩ := isSome_iff_exists.mp hfound
    obtain ⟨x, hx, hfree, -⟩ := (h.getElem?_eq_some l.mayAttach_attachments).mp hrelay
    exact ⟨relay, x, hx, hfree⟩
  · rintro ⟨relay, x, hx, hfree⟩
    rw [← heq, hbest, getElem?_map, isSome_map]
    by_contra hnone
    rw [not_isSome_iff_eq_none] at hnone
    exact hfree (hpicks.unpicked client hnone relay x (hlists.mem_claimsOf.mpr hx))

/-! ### Every operation keeps the numbers distinct -/

theorem Numbered.of_claims (h : l.Numbered) (hseq : l'.nextSeq = l.nextSeq)
    (hclaims : ∀ relay client x, l'.HasClaim relay client x → l.HasClaim relay client x) : l'.Numbered where
  bound relay client x hx := hseq ▸ h.bound relay client x (hclaims relay client x hx)
  distinct relay client x relay' client' x' hx hx' := h.distinct relay client x relay' client' x'
    (hclaims relay client x hx) (hclaims relay' client' x' hx')

theorem seen_claims (l : Leases) (node : NodeId) (now : Nat) :
    (l.seen node now).1.declared = l.declared ∧ (l.seen node now).1.attachedTo = l.attachedTo ∧
      (l.seen node now).1.nextSeq = l.nextSeq := by
  unfold seen
  simp only
  split_ifs <;> exact ⟨rfl, rfl, rfl⟩

theorem HasClaim.of_declared (h : l'.HasClaim relay client x) (hdeclared : l'.declared = l.declared) : l.HasClaim relay client x := by
  obtain ⟨claims, hclaims, hx⟩ := h
  exact ⟨claims, hdeclared ▸ hclaims, hx⟩

theorem hasClaim_remove {node : NodeId} (h : (l.remove node).HasClaim relay client x) : l.HasClaim relay client x ∧ client ≠ node := by
  obtain ⟨claims, hclaims, hx⟩ := h
  simp only [remove, offline, getElem?_map] at hclaims
  obtain ⟨claims₀, hclaims₀, rfl⟩ := map_eq_some_iff.mp hclaims
  rw [getElem?_erase] at hx
  split_ifs at hx with hne
  exact ⟨⟨claims₀, hclaims₀, hx⟩, fun heq => hne (compare_eq_iff_eq.mpr heq.symm)⟩

theorem hasClaim_removeRelay {node : NodeId} (h : (l.removeRelay node).HasClaim relay client x) :
    l.HasClaim relay client x ∧ client ≠ node ∧ relay ≠ node := by
  obtain ⟨⟨claims, hclaims, hx⟩, hclient⟩ := hasClaim_remove h
  rw [getElem?_erase] at hclaims
  split_ifs at hclaims with hne
  exact ⟨⟨claims, hclaims, hx⟩, hclient, fun heq => hne (compare_eq_iff_eq.mpr heq.symm)⟩

theorem hasClaim_heartbeat_relay {node : NodeId} {hb : Heartbeat} {now maxAttached : Nat}
    {isClient : NodeId → Bool} :
    (l.heartbeat node .relay hb now isClient maxAttached).1.HasClaim relay client x ↔
      relay = node ∧ (l.declaring node hb isClient maxAttached).keep[client]? = some x ∨
        relay ≠ node ∧ l.HasClaim relay client x := by
  rw [heartbeat_relay]
  simp only [HasClaim, getElem?_insert, compare_eq_iff_eq]
  by_cases hrelay : node = relay
  · subst hrelay
    simp
  · simp [hrelay, Ne.symm hrelay]

theorem Numbered.heartbeat (h : l.Numbered) (node : NodeId) (role : Role) (hb : Heartbeat) (now : Nat)
    (isClient : NodeId → Bool) (maxAttached : Nat) :
    (l.heartbeat node role hb now isClient maxAttached).1.Numbered := by
  cases role with
  | client =>
    obtain ⟨hdeclared, -, hseq⟩ := l.seen_claims node now
    exact h.of_claims hseq fun relay client x hx => hx.of_declared hdeclared
  | relay =>
    have hmine : ∀ (c : NodeId) (x : Claim), (l.declared.getD node ∅)[c]? = some x →
        l.HasClaim node c x := by
      intro c x hx
      rw [getD_eq_getD_getElem?] at hx
      cases hdeclared : l.declared[node]? with
      | none =>
        rw [hdeclared] at hx
        simp at hx
      | some claims =>
        rw [hdeclared] at hx
        exact ⟨claims, hdeclared, hx⟩
    have hnumbers : (l.declaring node hb isClient maxAttached).Numbers (l.declared.getD node ∅) l.nextSeq :=
      numbers_foldl (fun c x hx => h.bound node c x (hmine c x hx)) isClient _
    have hseq : (l.heartbeat node .relay hb now isClient maxAttached).1.nextSeq =
        (l.declaring node hb isClient maxAttached).nextSeq := by rw [heartbeat_relay]
    -- A claim is an old one, or has one of the new numbers.
    have hsource {relay client : NodeId} {x : Claim}
        (hx : (l.heartbeat node .relay hb now isClient maxAttached).1.HasClaim relay client x) :
        l.HasClaim relay client x ∨ relay = node ∧ l.nextSeq < x.seq ∧
          x.seq ≤ (l.declaring node hb isClient maxAttached).nextSeq ∧
          (l.declaring node hb isClient maxAttached).keep[client]? = some x := by
      rcases hasClaim_heartbeat_relay.mp hx with ⟨rfl, hkeep⟩ | ⟨-, hold⟩
      · rcases hnumbers.source client x hkeep with hold | ⟨hlt, hle⟩
        · exact .inl (hmine client x hold)
        · exact .inr ⟨rfl, hlt, hle, hkeep⟩
      · exact .inl hold
    refine ⟨fun relay client x hx => ?_, fun relay client x relay' client' x' hx hx' heq => ?_⟩
    · rw [hseq]
      rcases hsource hx with hold | ⟨-, -, hle, -⟩
      · exact (h.bound relay client x hold).trans hnumbers.le
      · exact hle
    · rcases hsource hx with hold | ⟨rfl, hlt, -, hkeep⟩ <;>
        rcases hsource hx' with hold' | ⟨rfl, hlt', -, hkeep'⟩
      · exact h.distinct relay client x relay' client' x' hold hold' heq
      · have hle := h.bound relay client x hold
        omega
      · have hle := h.bound relay' client' x' hold'
        omega
      · exact ⟨rfl, hnumbers.distinct client client' x x' hkeep hkeep' hlt heq⟩

/-! ### Runs -/

inductive Op
  | seen (node : NodeId) (now : Nat)
  | heartbeat (node : NodeId) (role : Role) (hb : Heartbeat) (now : Nat) (isClient : NodeId → Bool)
    (maxAttached : Nat)
  | expire (now window : Nat)
  | offline (node : NodeId)
  | remove (node : NodeId)
  | removeRelay (relay : NodeId)

def perform (l : Leases) : Op → Leases
  | .seen node now => (l.seen node now).1
  | .heartbeat node role hb now isClient maxAttached =>
    (l.heartbeat node role hb now isClient maxAttached).1
  | .expire now window => (l.expire now window).1
  | .offline node => l.offline node
  | .remove node => l.remove node
  | .removeRelay relay => l.removeRelay relay

def system : TransitionSystem Leases Op where
  Initial l := l = default
  step l op := some (l.perform op)

theorem Numbered.foldl_offline (h : l.Numbered) (nodes : List NodeId) : (nodes.foldl offline l).Numbered :=
  List.foldlRecOn nodes offline h fun _ hl _ _ => hl.of_claims rfl fun _ _ _ hx => hx.of_declared rfl

theorem Numbered.perform (h : l.Numbered) (op : Op) : (l.perform op).Numbered := by
  cases op with
  | seen node now =>
    obtain ⟨hdeclared, -, hseq⟩ := l.seen_claims node now
    exact h.of_claims hseq fun relay client x hx => hx.of_declared hdeclared
  | heartbeat node role hb now isClient maxAttached => exact h.heartbeat node role hb now isClient maxAttached
  | expire now window => exact h.foldl_offline _
  | offline node => exact h.foldl_offline [node]
  | remove node => exact h.of_claims rfl fun relay client x hx => (hasClaim_remove hx).1
  | removeRelay relay => exact h.of_claims rfl fun relay client x hx => (hasClaim_removeRelay hx).1

theorem Numbered.of_reachable (h : system.Reachable l) : l.Numbered := by
  refine h.invariant (fun l hl => ?_) fun l op l' hl hstep => ?_
  · subst hl
    have hnone (relay client : NodeId) (x : Claim) : ¬ default.HasClaim relay client x := by
      rintro ⟨claims, hclaims, -⟩
      simp [default] at hclaims
    exact ⟨fun relay client x hx => absurd hx (hnone relay client x),
      fun relay client x _ _ _ hx => absurd hx (hnone relay client x)⟩
  · cases hstep
    exact hl.perform op

theorem vetoed_foldl_offline {nodes : List NodeId} (h : (nodes.foldl offline l).Vetoed relay client) : l.Vetoed relay client := by
  revert h
  refine List.foldlRecOn (motive := fun l' : Leases => l'.Vetoed relay client → l.Vetoed relay client)
    nodes offline (fun h => h) fun l' ih node _ h => ih ?_
  unfold Vetoed offline at h
  simp only [getElem?_erase] at h
  split_ifs at h
  · simp at h
  · exact h

theorem Numbered.mem_attachments_foldl_offline (h : l.Numbered) (hclient : client ∈ l.attachments)
    (nodes : List NodeId) :
    client ∈ (nodes.foldl offline l).attachments := by
  obtain ⟨relay, x, hx, hfree⟩ := h.mem_attachments.mp hclient
  refine (h.foldl_offline nodes).mem_attachments.mpr ⟨relay, x, ?_, fun hveto => hfree (vetoed_foldl_offline hveto)⟩
  exact List.foldlRecOn (motive := fun l' : Leases => l'.HasClaim relay client x) nodes offline hx
    fun _ hl _ _ => hl.of_declared rfl

/-- Whatever the maps are iterated like, the table is the one of the best claims; silence takes
nobody out of it, and a removed node is gone from it. -/
theorem attachment_derivation (h : system.Reachable l) :
    (∀ relay client x, l.HasClaim relay client x → x.seq ≤ l.nextSeq) ∧
    (∀ relay client x relay' client' x', l.HasClaim relay client x → l.HasClaim relay' client' x' →
      x.seq = x'.seq → relay = relay' ∧ client = client') ∧
    (∀ client, client ∈ l.attachments ↔ ∃ relay x, l.HasClaim relay client x ∧ ¬ l.Vetoed relay client) ∧
    (∀ client relay, l.attachments[client]? = some relay ↔ l.IsAttached client relay) ∧
    (∀ table, l.MayAttach table → table = l.attachments) ∧
    (∀ node, ∀ client ∈ l.attachments, client ∈ (l.offline node).attachments) ∧
    (∀ now window, ∀ client ∈ l.attachments, client ∈ (l.expire now window).1.attachments) ∧
    (∀ node client relay, (l.remove node).attachments[client]? = some relay → client ≠ node) ∧
    (∀ node client relay, (l.removeRelay node).attachments[client]? = some relay →
      client ≠ node ∧ relay ≠ node) := by
  have hnum := Numbered.of_reachable h
  refine ⟨hnum.bound, hnum.distinct, fun client => hnum.mem_attachments,
    fun client relay => hnum.getElem?_eq_some l.mayAttach_attachments,
    fun table => hnum.eq_attachments, fun node client hc => hnum.mem_attachments_foldl_offline hc [node],
    fun now window client hc => hnum.mem_attachments_foldl_offline hc _,
    fun node client relay hr => ?_, fun node client relay hr => ?_⟩
  · obtain ⟨x, hx, -⟩ := ((hnum.perform (.remove node)).getElem?_eq_some (mayAttach_attachments _)).mp hr
    exact (hasClaim_remove hx).2
  · obtain ⟨x, hx, -⟩ := ((hnum.perform (.removeRelay node)).getElem?_eq_some (mayAttach_attachments _)).mp hr
    exact (hasClaim_removeRelay hx).2

def moved : List Op :=
  [.heartbeat 1 .relay ⟨0, 0, [⟨5, 1⟩], [], none, 0, none⟩ 10 (fun n => n == 5) 3,
    .heartbeat 2 .relay ⟨0, 0, [⟨5, 1⟩], [], none, 0, none⟩ 20 (fun n => n == 5) 3]

theorem attachment_derivation_moved : ∃ l, system.run default moved = some l ∧ l.IsAttached 5 2 := by
  have htable : (system.run default moved).map (fun l => l.attachments[(5 : NodeId)]?) = some (some 2) := by
    decide +kernel
  obtain ⟨l, hrun, htable⟩ := map_eq_some_iff.mp htable
  have hreach : system.Reachable l := .of_run (.of_initial rfl) hrun
  exact ⟨l, hrun, ((attachment_derivation hreach).2.2.2.1 5 2).mp htable⟩

/-! ### A heartbeat that reports no change -/

theorem eq_of_size_eq {m m' : Std.ExtTreeMap NodeId Claim}
    (hsub : ∀ (c : NodeId) (x : Claim), m[c]? = some x → m'[c]? = some x) (hsize : m.size = m'.size) :
    m = m' := by
  have hkeys : m.keys ⊆ m'.keys := by
    intro c hc
    obtain ⟨x, hx⟩ := isSome_iff_exists.mp
      (mem_iff_isSome_getElem?.mp (mem_keys.mp hc))
    rw [mem_keys, mem_iff_isSome_getElem?, hsub c x hx]
    rfl
  have hnodup : m.keys.Nodup := nodup_keys
  have hperm : m.keys.Perm m'.keys := by
    refine (hnodup.subperm hkeys).perm_of_length_le ?_
    rw [length_keys, length_keys, hsize]
  refine ext_getElem? fun c => ?_
  cases hc : m[c]? with
  | some x => exact (hsub c x hc).symm
  | none =>
    have hout : c ∉ m := by
      rw [mem_iff_isSome_getElem?, hc]
      simp
    have hout' : c ∉ m' := fun hin =>
      hout (mem_keys.mp (hperm.mem_iff.mpr (mem_keys.mpr hin)))
    rw [getElem?_eq_none hout']

/-- The leases differ by a relay with no claims at most. -/
structure SameClaims (l l' : Leases) : Prop where
  attachedTo : l'.attachedTo = l.attachedTo
  declared : l'.declared = l.declared ∨
    ∃ node : NodeId, l.declared[node]? = none ∧ l'.declared = l.declared.insert node ∅

theorem SameClaims.hasClaim (h : l.SameClaims l') :
    l'.HasClaim relay client x ↔ l.HasClaim relay client x := by
  rcases h.declared with hsame | ⟨node, hnone, hempty⟩
  · unfold HasClaim
    rw [hsame]
  · unfold HasClaim
    rw [hempty]
    simp only [getElem?_insert, compare_eq_iff_eq]
    by_cases hnode : node = relay
    · subst hnode
      simp [hnone]
    · simp [hnode]

theorem SameClaims.attachmentsOf (h : l.SameClaims l') : l'.attachmentsOf = l.attachmentsOf := by
  have hbest : l'.bestClaim = l.bestClaim := by
    unfold bestClaim
    rw [h.attachedTo]
  unfold Leases.attachmentsOf
  rw [hbest]

theorem attachmentsOf_filter {node : NodeId} (h : ∀ d ∈ listing, d.1 = node → d.2 = []) :
    l.attachmentsOf (listing.filter fun d => d.1 ≠ node) = l.attachmentsOf listing := by
  refine congrArg (map _) ?_
  generalize (∅ : Std.ExtTreeMap NodeId (Nat × NodeId)) = best
  induction listing generalizing best with
  | nil => rfl
  | cons d listing ih =>
    have hrest := ih fun e he => h e (List.mem_cons_of_mem d he)
    by_cases hd : d.1 = node
    · rw [List.filter_cons_of_neg (by simpa using hd), hrest, List.foldl_cons,
        h d List.mem_cons_self hd, List.foldl_nil]
    · rw [List.filter_cons_of_pos (by simpa using hd), List.foldl_cons, List.foldl_cons, hrest]

theorem SameClaims.attachments (h : l.SameClaims l') : l'.attachments = l.attachments := by
  have hlisted (l : Leases) : l.attachments =
      l.attachmentsOf (l.declared.toList.map fun d => (d.1, d.2.toList)) := by
    unfold Leases.attachmentsOf Leases.attachments
    rw [List.foldl_map]
  rw [hlisted l', hlisted l, h.attachmentsOf]
  rcases h.declared with hsame | ⟨node, hnone, hempty⟩
  · rw [hsame]
  · have hfilter : (l.declared.insert node ∅).toList.filter (fun d => d.1 ≠ node) = l.declared.toList := by
      refine KeyedList.Canonical.ext ((KeyedList.canonical_toList _).sublist List.filter_sublist)
        (KeyedList.canonical_toList _) ?_
      rintro ⟨relay, claims⟩
      simp only [List.mem_filter, mem_toList_iff_getElem?_eq_some,
        getElem?_insert, compare_eq_iff_eq, decide_eq_true_eq]
      by_cases hrelay : node = relay
      · simp [← hrelay, hnone]
      · simp [hrelay, Ne.symm hrelay]
    rw [hempty, ← attachmentsOf_filter, List.filter_map, ← hfilter]
    · rfl
    · intro d hd heq
      obtain ⟨e, he, rfl⟩ := List.mem_map.mp hd
      have hfound := mem_toList_iff_getElem?_eq_some.mp he
      rw [heq, getElem?_insert_self] at hfound
      rw [← some.inj hfound]
      rfl

theorem SameClaims.mayAttach (h : l.SameClaims l') :
    l'.MayAttach table ↔ l.MayAttach table := by
  unfold MayAttach
  rw [h.attachmentsOf]
  rcases h.declared with hsame | ⟨node, hnone, hempty⟩
  · have hlists (listing) : l'.Lists listing ↔ l.Lists listing :=
      ⟨fun ⟨hn, hc, hall⟩ => ⟨hn, hsame ▸ hc, hsame ▸ hall⟩,
        fun ⟨hn, hc, hall⟩ => ⟨hn, hsame ▸ hc, hsame ▸ hall⟩⟩
    simp [hlists]
  · have hother {relay : NodeId} (hne : relay ≠ node) : l'.declared[relay]? = l.declared[relay]? := by
      rw [hempty, getElem?_insert]
      simp [Ne.symm hne]
    have hmem {relay : NodeId} (hne : relay ≠ node) : relay ∈ l'.declared ↔ relay ∈ l.declared := by
      rw [mem_iff_isSome_getElem?, hother hne, ← mem_iff_isSome_getElem?]
    have hself : l'.declared[node]? = some ∅ := by
      rw [hempty, getElem?_insert_self]
    constructor
    · rintro ⟨listing, hlists, rfl⟩
      refine ⟨listing.filter fun d => d.1 ≠ node, ⟨?_, fun d hd => ?_, fun relay hrelay => ?_⟩,
        attachmentsOf_filter fun d hd heq => ?_⟩
      · exact hlists.nodup.sublist (List.filter_sublist.map Prod.fst)
      · obtain ⟨hmem, hne⟩ := List.mem_filter.mp hd
        obtain ⟨claims, hclaims, hperm⟩ := hlists.claims d hmem
        exact ⟨claims, hother (by simpa using hne) ▸ hclaims, hperm⟩
      · have hne : relay ≠ node := by
          rintro rfl
          rw [mem_iff_isSome_getElem?, hnone] at hrelay
          cases hrelay
        obtain ⟨d, hd, rfl⟩ := List.mem_map.mp (hlists.complete relay ((hmem hne).mpr hrelay))
        exact List.mem_map.mpr ⟨d, List.mem_filter.mpr ⟨hd, by simpa using hne⟩, rfl⟩
      · obtain ⟨claims, hclaims, hperm⟩ := hlists.claims d hd
        rw [heq, hself] at hclaims
        cases hclaims
        exact List.perm_nil.mp hperm
    · rintro ⟨listing, hlists, rfl⟩
      have hfresh : node ∉ listing.map Prod.fst := by
        intro hin
        obtain ⟨d, hd, rfl⟩ := List.mem_map.mp hin
        obtain ⟨claims, hclaims, -⟩ := hlists.claims d hd
        rw [hnone] at hclaims
        cases hclaims
      refine ⟨(node, []) :: listing, ⟨?_, fun d hd => ?_, fun relay hrelay => ?_⟩, rfl⟩
      · exact List.nodup_cons.mpr ⟨hfresh, hlists.nodup⟩
      · rcases List.mem_cons.mp hd with rfl | hd
        · exact ⟨∅, hself, by simp⟩
        · have hne : d.1 ≠ node := fun heq => hfresh (heq ▸ List.mem_map_of_mem hd)
          obtain ⟨claims, hclaims, hperm⟩ := hlists.claims d hd
          exact ⟨claims, (hother hne).trans hclaims, hperm⟩
      · by_cases hne : relay = node
        · rw [hne]
          exact List.mem_cons_self
        · exact List.mem_cons_of_mem _ (hlists.complete relay ((hmem hne).mp hrelay))

variable {node : NodeId} {hb : Heartbeat} {now maxAttached : Nat} {isClient : NodeId → Bool}

theorem heartbeat_relay_unreported
    (h : (l.heartbeat node .relay hb now isClient maxAttached).2 = false) :
    (l.seen node now).2 = false ∧
      (l.declaring node hb isClient maxAttached).keep = l.declared.getD node ∅ := by
  obtain ⟨hdeclared, -, hseq⟩ := l.seen_claims node now
  simp only [heartbeat, declare, Bool.or_eq_false_iff, bne_eq_false_iff_eq, hdeclared, hseq] at h
  obtain ⟨hseen, hchanged, hsize⟩ := h
  exact ⟨hseen, eq_of_size_eq (kept_of_unchanged _ isClient _ l.nextSeq hchanged) hsize⟩

theorem heartbeat_client_unreported
    (h : (l.heartbeat node .client hb now isClient maxAttached).2 = false) :
    (l.seen node now).2 = false ∧ l.attachedTo[node]? = hb.attachedTo := by
  obtain ⟨-, hattached, -⟩ := l.seen_claims node now
  simp only [heartbeat, reportAttachment, Bool.or_eq_false_iff, bne_eq_false_iff_eq, hattached] at h
  exact h

theorem heartbeat_sameClaims {role : Role}
    (h : (l.heartbeat node role hb now isClient maxAttached).2 = false) :
    (l.seen node now).2 = false ∧
      l.SameClaims (l.heartbeat node role hb now isClient maxAttached).1 := by
  obtain ⟨hdeclared, hattached, -⟩ := l.seen_claims node now
  cases role with
  | relay =>
    obtain ⟨hseen, hkeep⟩ := heartbeat_relay_unreported h
    refine ⟨hseen, ?_, ?_⟩
    · exact hattached
    · rw [heartbeat_relay, hkeep, getD_eq_getD_getElem?]
      cases hnode : l.declared[node]? with
      | none => exact .inr ⟨node, hnode, rfl⟩
      | some claims => exact .inl (insert_eq_self_iff.mpr hnode)
  | client =>
    obtain ⟨hseen, hreport⟩ := heartbeat_client_unreported h
    refine ⟨hseen, ?_, ?_⟩
    · rw [heartbeat_client]
      exact elim_erase_insert_eq_self_iff.mpr hreport
    · exact .inl hdeclared

/-- A heartbeat that is not reported as a change leaves who is online, every claim, and every table
that can be computed as they were. -/
theorem unreported_heartbeat_inert {role : Role}
    (h : (l.heartbeat node role hb now isClient maxAttached).2 = false) :
    (∀ n, (l.heartbeat node role hb now isClient maxAttached).1.isOnline n = l.isOnline n) ∧
    (∀ relay client x, (l.heartbeat node role hb now isClient maxAttached).1.HasClaim relay client x ↔
      l.HasClaim relay client x) ∧
    (∀ table, (l.heartbeat node role hb now isClient maxAttached).1.MayAttach table ↔
      l.MayAttach table) ∧
    (l.heartbeat node role hb now isClient maxAttached).1.attachments = l.attachments := by
  obtain ⟨hseen, hsame⟩ := heartbeat_sameClaims h
  refine ⟨fun n => ?_, fun relay client x => hsame.hasClaim, fun table => hsame.mayAttach, ?_⟩
  · have hlast : (l.heartbeat node role hb now isClient maxAttached).1.lastSeen =
        l.lastSeen.insert node now := by
      cases role with
      | relay =>
        exact seen_lastSeen l node now
      | client =>
        exact seen_lastSeen l node now
    have hon : l.lastSeen.contains node := by
      unfold seen at hseen
      simp only at hseen
      split_ifs at hseen with hon
      exact hon
    unfold isOnline
    rw [hlast, contains_insert]
    by_cases hn : node = n
    · subst hn
      simp [hon]
    · simp [hn]
  · exact hsame.attachments

/-- A relay lists a client twice, and a node that is no client. -/
theorem unreported_heartbeat_inert_duplicates :
    ((default.heartbeat 1 .relay ⟨0, 0, [⟨5, 1⟩], [], none, 0, none⟩ 10 (fun n => n == 5) 3).1.heartbeat 1
        .relay ⟨0, 0, [⟨5, 1⟩, ⟨7, 2⟩, ⟨5, 1⟩], [], none, 0, none⟩ 20 (fun n => n == 5) 3).1.attachments =
      (default.heartbeat 1 .relay ⟨0, 0, [⟨5, 1⟩], [], none, 0, none⟩ 10 (fun n => n == 5) 3).1.attachments :=
  (unreported_heartbeat_inert (by decide +kernel)).2.2.2

end Leases

end Nqvpn
