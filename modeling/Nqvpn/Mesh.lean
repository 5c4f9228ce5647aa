import Nqvpn.RelayForward
import Nqvpn.TransitionSystem

/-!
# The relay mesh

Relays that forward datagrams to one another, with whatever tables each of them
has at the moment it forwards. Client sessions and the relays' own endpoints
inject frames; mesh links deliver in any order, late or not at all. Every
injected frame has a number, under which the mesh's history records its copies.

The routing rule a relay applies is a parameter, so that what the hop guard
ensures by itself can be told from what the rule ensures.
-/

namespace Nqvpn

open RelayNet List

/-- A relay without fault injection. -/
structure HonestRelay where
  net : RelayNet
  chaosOff : net.chaos = none

/-- A datagram on a mesh link. Trace notes are nobody's frame. -/
structure Transit where
  frame : Option Nat
  sender : NodeId
  receiver : NodeId
  datagram : Datagram
  lane : UInt8
deriving DecidableEq

/-- A frame handed to a member at a relay. -/
structure Delivery where
  frame : Option Nat
  relay : NodeId
  node : NodeId
  datagram : Datagram
deriving DecidableEq

/-- A frame entering the mesh, under the node id its session authenticated as, or
the relay's own for its endpoint's frames. -/
structure Injection where
  relay : NodeId
  node : NodeId
  datagram : Datagram
deriving DecidableEq

structure MeshState where
  relays : Std.ExtTreeMap NodeId HonestRelay := ∅
  flight : List Transit := []
  injected : List Injection := []
  processed : List (Option Nat × NodeId) := []
  crossed : List Transit := []
  delivered : List Delivery := []

inductive MeshEvent (χ : Type)
  /-- A relay appears, or its tables and sessions change, in any way. -/
  | configure (relay : NodeId) (r : HonestRelay)
  | inject (relay node : NodeId) (datagram : Datagram) (lane : UInt8) (allowed : Bool) (choice : χ)
      (m : Moment)
  | selfSend (relay : NodeId) (datagram : Datagram) (lane : UInt8) (choice : χ) (m : Moment)
  | arrive (x : Transit) (allowed : Bool) (choice : χ) (m : Moment)
  | lose (x : Transit)

def Transit.leaving (frame : Option Nat) (relay : NodeId) (c : NodeId × Datagram × UInt8) : Transit :=
  { frame, sender := relay, receiver := c.1, datagram := c.2.1, lane := c.2.2 }

def Delivery.made (frame : Option Nat) (relay : NodeId) (d : NodeId × Datagram) : Delivery :=
  { frame, relay, node := d.1, datagram := d.2 }

namespace MeshState

/-- Record what a relay did with a datagram. Its trace note, if it wrote one,
goes back over the link `back` the datagram came on. -/
def absorb (st : MeshState) (relay : NodeId) (net : RelayNet) (frame : Option Nat)
    (back : Option NodeId) (effects : List Effect) : MeshState :=
  let crossings := (effects.filterMap Effect.crossing).map (Transit.leaving frame relay)
  let deliveries := (effects.filterMap (Effect.delivery net.myNodeId)).map (Delivery.made frame relay)
  let notes := effects.filterMap fun e =>
    match e, back with
    | .answerNote datagram, some peer =>
      some { frame := none, sender := relay, receiver := peer, datagram, lane := 0 : Transit }
    | _, _ => none
  { st with
    processed := (frame, relay) :: st.processed
    crossed := crossings ++ st.crossed
    flight := crossings ++ (notes ++ st.flight)
    delivered := deliveries ++ st.delivered }

def enter (st : MeshState) (inj : Injection) : MeshState :=
  { st with injected := st.injected ++ [inj] }

def takeOff (st : MeshState) (x : Transit) : MeshState :=
  { st with flight := st.flight.erase x }

variable {χ : Type} (pick : RelayNet → χ → Origin → NodeId → NodeId → Route)

def step (st : MeshState) : MeshEvent χ → Option MeshState
  | .configure relay r => some { st with relays := st.relays.insert relay r }
  | .inject relay node datagram lane allowed choice m => do
    let r ← st.relays[relay]?
    let effects := r.net.forwardLimitedBy (pick r.net choice) (.client node) datagram lane allowed m
    return (st.enter ⟨relay, node, datagram⟩).absorb relay r.net (some st.injected.length) none effects
  | .selfSend relay datagram lane choice m => do
    let r ← st.relays[relay]?
    let effects := r.net.selfSendBy (pick r.net choice) datagram lane m
    return (st.enter ⟨relay, r.net.myNodeId, datagram⟩).absorb relay r.net (some st.injected.length)
      none effects
  | .arrive x allowed choice m =>
    if x ∈ st.flight then do
      let r ← st.relays[x.receiver]?
      let effects := r.net.meshReceiveBy (pick r.net choice) x.sender x.datagram x.lane allowed m
      return (st.takeOff x).absorb x.receiver r.net x.frame (some x.sender) effects
    else none
  | .lose x => if x ∈ st.flight then some (st.takeOff x) else none

end MeshState

/-- A mesh whose relays pick their routing rule by `pick`. -/
def meshSystem {χ : Type} (pick : RelayNet → χ → Origin → NodeId → NodeId → Route) :
    TransitionSystem MeshState (MeshEvent χ) where
  Initial st := st.flight = [] ∧ st.injected = [] ∧ st.processed = [] ∧ st.crossed = [] ∧
    st.delivered = []
  step := MeshState.step pick

def relayMesh : TransitionSystem MeshState (MeshEvent Unit) :=
  meshSystem (fun net _ => net.tables.route)

def lawlessMesh : TransitionSystem MeshState (MeshEvent (Origin → NodeId → NodeId → Route)) :=
  meshSystem (fun _ rule => rule)

namespace MeshState

/-! ### The account of one frame -/

def inFlight (st : MeshState) (t : Nat) : Nat := st.flight.countP (·.frame = some t)

def crossings (st : MeshState) (t : Nat) : Nat := st.crossed.countP (·.frame = some t)

def processings (st : MeshState) (t : Nat) : Nat := st.processed.countP (·.1 = some t)

def deliveries (st : MeshState) (t : Nat) : Nat := st.delivered.countP (·.frame = some t)

variable {st : MeshState} {relay : NodeId} {net : RelayNet} {frame : Option Nat}
  {back : Option NodeId} {effects : List Effect} {cs : List (NodeId × Datagram × UInt8)}
  {ds : List (NodeId × Datagram)}

theorem countP_map_const {α β : Type} (f : α → β) (key : β → Option Nat) (t : Nat) (l : List α)
    (h : ∀ a, key (f a) = frame) :
    (l.map f).countP (key · = some t) = if frame = some t then l.length else 0 := by
  induction l with
  | nil => simp
  | cons a l ih =>
    split_ifs <;> simp_all

variable (relay back effects) in
theorem countP_notes (t : Nat) : (effects.filterMap fun e =>
    match e, back with
    | .answerNote datagram, some peer =>
      some { frame := none, sender := relay, receiver := peer, datagram, lane := 0 : Transit }
    | _, _ => none).countP (·.frame = some t) = 0 := by
  rw [countP_eq_zero]
  intro x hx
  obtain ⟨e, -, he⟩ := mem_filterMap.mp hx
  split at he
  · cases he
    simp
  · cases he

variable (st relay frame back) in
theorem inFlight_absorb (h : net.Passes effects cs ds) (t : Nat) :
    (st.absorb relay net frame back effects).inFlight t =
      (if frame = some t then cs.length else 0) + st.inFlight t := by
  simp only [inFlight, absorb, countP_append, countP_notes, h.crossing]
  rw [countP_map_const (Transit.leaving frame relay) Transit.frame t cs (fun _ => rfl)]
  omega

variable (st relay frame back) in
theorem crossings_absorb (h : net.Passes effects cs ds) (t : Nat) :
    (st.absorb relay net frame back effects).crossings t =
      (if frame = some t then cs.length else 0) + st.crossings t := by
  simp only [crossings, absorb, countP_append, h.crossing]
  rw [countP_map_const (Transit.leaving frame relay) Transit.frame t cs (fun _ => rfl)]

variable (st relay frame back) in
theorem deliveries_absorb (h : net.Passes effects cs ds) (t : Nat) :
    (st.absorb relay net frame back effects).deliveries t =
      (if frame = some t then ds.length else 0) + st.deliveries t := by
  simp only [deliveries, absorb, countP_append, h.delivery]
  rw [countP_map_const (Delivery.made frame relay) Delivery.frame t ds (fun _ => rfl)]

variable (st relay net frame back effects) in
theorem processings_absorb (t : Nat) :
    (st.absorb relay net frame back effects).processings t =
      (if frame = some t then 1 else 0) + st.processings t := by
  simp only [processings, absorb, countP_cons]
  by_cases h : frame = some t <;> simp [h, Nat.add_comm]

variable {x : Transit} {t : Nat}

theorem inFlight_takeOff (hx : x ∈ st.flight) (t : Nat) :
    (st.takeOff x).inFlight t = st.inFlight t - if x.frame = some t then 1 else 0 := by
  simp [inFlight, takeOff, countP_erase, hx]

theorem inFlight_pos (hx : x ∈ st.flight) (ht : x.frame = some t) :
    0 < st.inFlight t :=
  countP_pos_iff.mpr ⟨x, hx, by simpa using ht⟩

theorem mem_flight_absorb (h : net.Passes effects cs ds)
    (hx : x ∈ (st.absorb relay net frame back effects).flight) (ht : x.frame = some t) :
    x ∈ st.flight ∨ frame = some t ∧ ∃ c ∈ cs, x = Transit.leaving frame relay c := by
  simp only [absorb, mem_append, h.crossing] at hx
  rcases hx with hx | hx | hx
  · obtain ⟨c, hc, rfl⟩ := mem_map.mp hx
    exact .inr ⟨ht, c, hc, rfl⟩
  · have hnone := countP_eq_zero.mp
      (countP_notes relay back effects t) x hx
    exact absurd (by simpa using ht) hnone
  · exact .inl hx

theorem mem_crossed_absorb (h : net.Passes effects cs ds)
    (hx : x ∈ (st.absorb relay net frame back effects).crossed) :
    x ∈ st.crossed ∨ ∃ c ∈ cs, x = Transit.leaving frame relay c := by
  simp only [absorb, mem_append, h.crossing] at hx
  rcases hx with hx | hx
  · obtain ⟨c, hc, rfl⟩ := mem_map.mp hx
    exact .inr ⟨c, hc, rfl⟩
  · exact .inl hx

theorem mem_delivered_absorb (h : net.Passes effects cs ds) {x : Delivery}
    (hx : x ∈ (st.absorb relay net frame back effects).delivered) :
    x ∈ st.delivered ∨ ∃ d ∈ ds, x = Delivery.made frame relay d := by
  simp only [absorb, mem_append, h.delivery] at hx
  rcases hx with hx | hx
  · obtain ⟨d, hd, rfl⟩ := mem_map.mp hx
    exact .inr ⟨d, hd, rfl⟩
  · exact .inl hx

end MeshState

/-! ### Copies -/

/-- `d` is `original` with another hop byte. -/
def IsCopy (d original : Datagram) : Prop := ∃ hop, d = original.set offHop hop

theorem IsCopy.refl (d : Datagram) : IsCopy d d := by
  by_cases h : offHop < d.length
  · exact ⟨d[offHop], (set_getElem_self h).symm⟩
  · exact ⟨0, (set_eq_of_length_le (by omega)).symm⟩

theorem IsCopy.bump {d original buf : Datagram} {hop : UInt8} (h : IsCopy d original)
    (hb : bumpHop d = some (buf, hop)) : IsCopy buf original := by
  obtain ⟨hop₀, rfl⟩ := h
  obtain ⟨-, rfl, -⟩ := bumpHop_eq_some hb
  exact ⟨hop, set_set ..⟩

def hopOf (d : Datagram) : Nat := (d.byteAt offHop).toNat

namespace MeshState

/-- What holds of frame `t`, injected as `inj`, whatever the routing rule is: at
most one copy is on its way or delivered, relays process it one after another,
and each relay that passes it on raises its hop count below the cap. -/
structure Tracked (st : MeshState) (t : Nat) (inj : Injection) : Prop where
  single : st.inFlight t + st.deliveries t ≤ 1
  chained : st.processings t + st.inFlight t ≤ 1 + st.crossings t
  guarded : 0 < st.crossings t + st.deliveries t →
    hopOf inj.datagram + st.crossings t + st.deliveries t ≤ maxHops.toNat
  flightHop : ∀ x ∈ st.flight, x.frame = some t →
    hopOf x.datagram = hopOf inj.datagram + st.crossings t
  flightCopy : ∀ x ∈ st.flight, x.frame = some t → IsCopy x.datagram inj.datagram
  crossedCopy : ∀ x ∈ st.crossed, x.frame = some t → IsCopy x.datagram inj.datagram
  deliveredCopy : ∀ x ∈ st.delivered, x.frame = some t → IsCopy x.datagram inj.datagram

/-- A relay is about to process `d`, the only copy of frame `t` there is. -/
structure Ready (st : MeshState) (t : Nat) (inj : Injection) (d : Datagram) : Prop where
  grounded : st.inFlight t = 0
  undelivered : st.deliveries t = 0
  chained : st.processings t ≤ st.crossings t
  guarded : 0 < st.crossings t → hopOf inj.datagram + st.crossings t ≤ maxHops.toNat
  hop : hopOf d = hopOf inj.datagram + st.crossings t
  copied : IsCopy d inj.datagram
  crossedCopy : ∀ x ∈ st.crossed, x.frame = some t → IsCopy x.datagram inj.datagram

variable {st st' : MeshState} {t : Nat} {inj : Injection} {d : Datagram} {x : Transit} {net : RelayNet}
  {effects : List Effect} {cs : List (NodeId × Datagram × UInt8)} {ds : List (NodeId × Datagram)} {χ : Type}
  {node relay : NodeId} {frame : Option Nat} {back : Option NodeId}

theorem Ready.not_mem_flight (h : st.Ready t inj d) (hx : x ∈ st.flight) : x.frame ≠ some t := by
  intro ht
  have := inFlight_pos hx ht
  have := h.grounded
  omega

theorem Ready.not_mem_delivered (h : st.Ready t inj d) {x : Delivery} (hx : x ∈ st.delivered) : x.frame ≠ some t := by
  intro ht
  have hpos : 0 < st.deliveries t := countP_pos_iff.mpr ⟨x, hx, by simpa using ht⟩
  have := h.undelivered
  omega

theorem Ready.absorb (h : st.Ready t inj d) {rule : Origin → NodeId → NodeId → Route} (relay : NodeId)
    {origin : Origin} (back : Option NodeId) (ho : Outcome rule net origin d effects cs ds) :
    (st.absorb relay net (some t) back effects).Tracked t inj := by
  have ⟨hgrounded, hundelivered, hchained, hguarded, hhop, hcopied, hcrossed⟩ := h
  have hone := ho.atMostOne
  have hflying := inFlight_absorb st relay (some t) back ho.passes t
  have hcross := crossings_absorb st relay (some t) back ho.passes t
  have hdeliver := deliveries_absorb st relay (some t) back ho.passes t
  have hprocess := processings_absorb st relay net (some t) back effects t
  simp only [if_true] at hflying hcross hdeliver hprocess
  -- A copy that goes on has passed the guard at this relay.
  have hpassed (buf : Datagram) (hop : UInt8) (hb : bumpHop d = some (buf, hop)) :
      hopOf buf = hopOf inj.datagram + st.crossings t + 1 ∧ hopOf buf ≤ maxHops.toNat ∧
        IsCopy buf inj.datagram := by
    obtain ⟨hnext, hcap⟩ := bumpHop_hop_lt hb
    unfold hopOf at hhop ⊢
    exact ⟨by omega, hcap, hcopied.bump hb⟩
  have hcs (c : NodeId × Datagram × UInt8) (hc : c ∈ cs) : hopOf c.2.1 =
      hopOf inj.datagram + st.crossings t + 1 ∧ hopOf c.2.1 ≤ maxHops.toNat ∧
        IsCopy c.2.1 inj.datagram := by
    obtain ⟨-, hop, -, hb, -⟩ := ho.crossing c hc
    exact hpassed _ hop hb
  have hds (e : NodeId × Datagram) (he : e ∈ ds) : hopOf e.2 =
      hopOf inj.datagram + st.crossings t + 1 ∧ hopOf e.2 ≤ maxHops.toNat ∧
        IsCopy e.2 inj.datagram := by
    obtain ⟨-, hop, -, hb, -⟩ := ho.delivery e he
    exact hpassed _ hop hb
  refine ⟨by omega, by omega, fun hpos => ?_, fun x hx ht => ?_, fun x hx ht => ?_,
    fun x hx ht => ?_, fun x hx ht => ?_⟩
  · rcases Nat.eq_zero_or_pos (cs.length + ds.length) with hz | hnew
    · have := hguarded
      omega
    · have hbound : hopOf inj.datagram + st.crossings t + 1 ≤ maxHops.toNat := by
        rcases Nat.eq_zero_or_pos cs.length with hc | hc
        · obtain ⟨e, he⟩ := exists_mem_of_length_pos (show 0 < ds.length by omega)
          have := hds e he
          omega
        · obtain ⟨c, hc⟩ := exists_mem_of_length_pos hc
          have := hcs c hc
          omega
      omega
  · rcases mem_flight_absorb ho.passes hx ht with hx | ⟨-, c, hc, rfl⟩
    · exact absurd ht (h.not_mem_flight hx)
    · have hlen := length_pos_of_mem hc
      have := (hcs c hc).1
      simp only [Transit.leaving]
      omega
  · rcases mem_flight_absorb ho.passes hx ht with hx | ⟨-, c, hc, rfl⟩
    · exact absurd ht (h.not_mem_flight hx)
    · exact (hcs c hc).2.2
  · rcases mem_crossed_absorb ho.passes hx with hx | ⟨c, hc, rfl⟩
    · exact hcrossed x hx ht
    · exact (hcs c hc).2.2
  · rcases mem_delivered_absorb ho.passes hx with hx | ⟨e, he, rfl⟩
    · exact absurd ht (h.not_mem_delivered hx)
    · exact (hds e he).2.2

/-! ### Steps -/

/-- Everything one step can do. -/
inductive StepTo {χ : Type} (pick : RelayNet → χ → Origin → NodeId → NodeId → Route)
    (st : MeshState) : MeshState → Prop
  | configured (relays : Std.ExtTreeMap NodeId HonestRelay) : StepTo pick st { st with relays }
  | entered {relay node : NodeId} {d : Datagram} {net : RelayNet} {choice : χ}
      {effects : List Effect} {cs : List (NodeId × Datagram × UInt8)} {ds : List (NodeId × Datagram)} :
      Outcome (pick net choice) net (.client node) d effects cs ds →
      StepTo pick st ((st.enter ⟨relay, node, d⟩).absorb relay net (some st.injected.length) none
        effects)
  | arrived {x : Transit} {net : RelayNet} {choice : χ} {effects : List Effect}
      {cs : List (NodeId × Datagram × UInt8)} {ds : List (NodeId × Datagram)} : x ∈ st.flight →
      Outcome (pick net choice) net (.relay x.sender) x.datagram effects cs ds →
      StepTo pick st ((st.takeOff x).absorb x.receiver net x.frame (some x.sender) effects)
  | lost {x : Transit} : x ∈ st.flight → StepTo pick st (st.takeOff x)

variable {pick : RelayNet → χ → Origin → NodeId → NodeId → Route}

theorem step_cases {e : MeshEvent χ}
    (h : st.step pick e = some st') :
    StepTo pick st st' := by
  cases e with
  | configure relay r =>
    cases h
    exact .configured _
  | inject relay node datagram lane allowed choice m =>
    obtain ⟨r, -, h⟩ := Option.bind_eq_some_iff.mp h
    cases h
    obtain ⟨cs, ds, ho⟩ := outcome_forwardLimitedBy (pick r.net choice) r.chaosOff
      (.client node) datagram lane allowed m
    exact .entered ho
  | selfSend relay datagram lane choice m =>
    obtain ⟨r, -, h⟩ := Option.bind_eq_some_iff.mp h
    cases h
    obtain ⟨cs, ds, ho⟩ := outcome_selfSendBy (pick r.net choice) r.chaosOff datagram lane m
    exact .entered ho
  | arrive x allowed choice m =>
    simp only [step] at h
    split_ifs at h with hx
    obtain ⟨r, -, h⟩ := Option.bind_eq_some_iff.mp h
    cases h
    obtain ⟨cs, ds, ho⟩ := outcome_meshReceiveBy (pick r.net choice) r.chaosOff x.sender
      x.datagram x.lane allowed m
    exact .arrived hx ho
  | lose x =>
    simp only [step] at h
    split_ifs at h with hx
    cases h
    exact .lost hx

theorem mem_of_mem_takeOff {y : Transit} (h : y ∈ (st.takeOff x).flight) :
    y ∈ st.flight :=
  mem_of_mem_erase h

theorem Tracked.takeOff (h : st.Tracked t inj) (hx : x ∈ st.flight) : (st.takeOff x).Tracked t inj := by
  have hflying := inFlight_takeOff hx t
  refine ⟨?_, ?_, h.guarded, fun y hy => h.flightHop y (mem_of_mem_takeOff hy),
    fun y hy => h.flightCopy y (mem_of_mem_takeOff hy), h.crossedCopy, h.deliveredCopy⟩
  · have := h.single
    change (st.takeOff x).inFlight t + st.deliveries t ≤ 1
    omega
  · have := h.chained
    change st.processings t + (st.takeOff x).inFlight t ≤ 1 + st.crossings t
    omega

theorem Tracked.ready (h : st.Tracked t inj) (hx : x ∈ st.flight) (ht : x.frame = some t) :
    (st.takeOff x).Ready t inj x.datagram := by
  have hflying := inFlight_takeOff hx t
  have hpos := inFlight_pos hx ht
  obtain ⟨hsingle, hchained, hguarded, hhop, hcopy, hcrossed, -⟩ := h
  rw [if_pos ht] at hflying
  have hdelivered : st.deliveries t = 0 := by omega
  exact
    { grounded := by omega
      undelivered := hdelivered
      chained := show st.processings t ≤ st.crossings t by omega
      guarded := fun hc => by
        have hc' : 0 < st.crossings t := hc
        have := hguarded (by omega)
        change hopOf inj.datagram + st.crossings t ≤ maxHops.toNat
        omega
      hop := hhop x hx ht
      copied := hcopy x hx ht
      crossedCopy := hcrossed }

theorem Tracked.absorb_other (h : st.Tracked t inj) (hp : net.Passes effects cs ds) (hne : frame ≠ some t) :
    (st.absorb relay net frame back effects).Tracked t inj := by
  have hflying := inFlight_absorb st relay frame back hp t
  have hcross := crossings_absorb st relay frame back hp t
  have hdeliver := deliveries_absorb st relay frame back hp t
  have hprocess := processings_absorb st relay net frame back effects t
  simp only [if_neg hne, Nat.zero_add] at hflying hcross hdeliver hprocess
  have hflight (x : Transit) (hx : x ∈ (st.absorb relay net frame back effects).flight)
      (ht : x.frame = some t) : x ∈ st.flight := by
    rcases mem_flight_absorb hp hx ht with hx | ⟨heq, -⟩
    · exact hx
    · exact absurd heq hne
  refine ⟨?_, ?_, ?_, fun x hx ht => ?_, fun x hx ht => h.flightCopy x (hflight x hx ht) ht,
    fun x hx ht => ?_, fun x hx ht => ?_⟩
  · rw [hflying, hdeliver]
    exact h.single
  · rw [hprocess, hflying, hcross]
    exact h.chained
  · rw [hcross, hdeliver]
    exact h.guarded
  · rw [hcross]
    exact h.flightHop x (hflight x hx ht) ht
  · rcases mem_crossed_absorb hp hx with hx | ⟨c, -, rfl⟩
    · exact h.crossedCopy x hx ht
    · exact absurd ht hne
  · rcases mem_delivered_absorb hp hx with hx | ⟨c, -, rfl⟩
    · exact h.deliveredCopy x hx ht
    · exact absurd ht hne

def Unborn (st : MeshState) (t : Nat) : Prop :=
  st.inFlight t = 0 ∧ st.crossings t = 0 ∧ st.processings t = 0 ∧ st.deliveries t = 0

structure Inv (st : MeshState) : Prop where
  unborn : ∀ t, st.injected.length ≤ t → st.Unborn t
  tracked : ∀ t inj, st.injected[t]? = some inj → st.Tracked t inj

theorem Unborn.absorb_other (h : st.Unborn t) (hp : net.Passes effects cs ds) (hne : frame ≠ some t) :
    (st.absorb relay net frame back effects).Unborn t := by
  unfold Unborn at h ⊢
  rw [inFlight_absorb _ _ _ _ hp, crossings_absorb _ _ _ _ hp, deliveries_absorb _ _ _ _ hp,
    processings_absorb]
  simpa [if_neg hne] using h

theorem Unborn.takeOff (h : st.Unborn t) (hx : x ∈ st.flight) : (st.takeOff x).Unborn t := by
  obtain ⟨hflight, hrest⟩ := h
  refine ⟨?_, hrest⟩
  rw [inFlight_takeOff hx, hflight, Nat.zero_sub]

theorem Unborn.not_mem_crossed (h : st.Unborn t) (hx : x ∈ st.crossed) : x.frame ≠ some t := by
  simpa using countP_eq_zero.mp h.2.1 x hx

theorem Unborn.ready (h : st.Unborn t) (inj : Injection) :
    (st.enter inj).Ready t inj inj.datagram := by
  have ⟨hflight, hcross, hprocess, hdeliver⟩ := h
  exact
    { grounded := hflight
      undelivered := hdeliver
      chained := show st.processings t ≤ st.crossings t by omega
      guarded := fun hpos => by
        have hpos' : 0 < st.crossings t := hpos
        omega
      hop := show hopOf inj.datagram = hopOf inj.datagram + st.crossings t by omega
      copied := IsCopy.refl _
      crossedCopy := fun x hx ht => absurd ht (h.not_mem_crossed hx) }

theorem Inv.step (h : st.Inv) (hs : StepTo pick st st') : st'.Inv := by
  cases hs with
  | configured relays =>
    exact ⟨h.unborn, fun t inj ht => by
      have ⟨h₁, h₂, h₃, h₄, h₅, h₆, h₇⟩ := h.tracked t inj ht
      exact ⟨h₁, h₂, h₃, h₄, h₅, h₆, h₇⟩⟩
  | @entered relay node d net choice effects cs ds ho =>
    refine ⟨fun t ht => ?_, fun t inj ht => ?_⟩
    · have hlen : st.injected.length + 1 ≤ t := by
        simpa [MeshState.absorb, enter] using ht
      have hold : (st.enter ⟨relay, node, d⟩).Unborn t := h.unborn t (by omega)
      exact hold.absorb_other ho.passes (by simp; omega)
    · change (st.injected ++ [⟨relay, node, d⟩])[t]? = some inj at ht
      rcases Nat.lt_trichotomy t st.injected.length with hlt | rfl | hgt
      · rw [getElem?_append_left hlt] at ht
        have ⟨h₁, h₂, h₃, h₄, h₅, h₆, h₇⟩ := h.tracked t inj ht
        have hold : (st.enter ⟨relay, node, d⟩).Tracked t inj := ⟨h₁, h₂, h₃, h₄, h₅, h₆, h₇⟩
        exact hold.absorb_other ho.passes (by simp; omega)
      · rw [getElem?_concat_length, Option.some.injEq] at ht
        subst ht
        exact ((h.unborn _ (Nat.le_refl _)).ready _).absorb relay none ho
      · rw [getElem?_eq_none (by simp; omega)] at ht
        cases ht
  | @arrived x net choice effects cs ds hx ho =>
    refine ⟨fun t ht => ?_, fun t inj ht => ?_⟩
    · have hold := h.unborn t ht
      refine (hold.takeOff hx).absorb_other ho.passes fun hframe => ?_
      have := inFlight_pos hx hframe
      have := hold.1
      omega
    · by_cases hframe : x.frame = some t
      · rw [hframe]
        exact ((h.tracked t inj ht).ready hx hframe).absorb x.receiver (some x.sender) ho
      · exact ((h.tracked t inj ht).takeOff hx).absorb_other ho.passes hframe
  | lost hx =>
    exact ⟨fun t ht => (h.unborn t ht).takeOff hx, fun t inj ht => (h.tracked t inj ht).takeOff hx⟩

theorem reachable_mesh_inv
    (h : (meshSystem pick).Reachable st) : st.Inv := by
  refine h.invariant (fun s hs => ?_) (fun s e s' hinv he => hinv.step (step_cases he))
  obtain ⟨hflight, hinjected, hprocessed, hcrossed, hdelivered⟩ := hs
  refine ⟨fun t _ => ?_, fun t inj ht => ?_⟩
  · simp [Unborn, inFlight, crossings, processings, deliveries, hflight, hprocessed, hcrossed,
      hdelivered]
  · simp [hinjected] at ht

/-! ### What the routing rule adds -/

def SentBy (node : NodeId) (d : Datagram) : Prop :=
  ∃ h, RoutedHeader.parse d = some h ∧ h.srcId = node

/-- What holds of frame `t` when relays route by their tables. -/
structure Routed (st : MeshState) (t : Nat) (inj : Injection) : Prop where
  once : st.crossings t ≤ 1
  flightSrc : ∀ x ∈ st.flight, x.frame = some t → SentBy inj.node x.datagram
  deliveredSrc : ∀ x ∈ st.delivered, x.frame = some t → SentBy inj.node x.datagram

theorem SentBy.bump {buf : Datagram} {hop : UInt8} (h : SentBy node d) (hb : bumpHop d = some (buf, hop)) : SentBy node buf := by
  obtain ⟨hdr, hparse, hsrc⟩ := h
  obtain ⟨-, rfl, -⟩ := bumpHop_eq_some hb
  exact ⟨_, hdr.parse_set_hop hparse hop, hsrc⟩

abbrev byTables (net : RelayNet) (_ : Unit) : Origin → NodeId → NodeId → Route := net.tables.route

theorem Routed.absorb_other (h : st.Routed t inj) (hp : net.Passes effects cs ds) (hne : frame ≠ some t) :
    (st.absorb relay net frame back effects).Routed t inj := by
  refine ⟨?_, fun x hx ht => ?_, fun x hx ht => ?_⟩
  · rw [crossings_absorb _ _ _ _ hp, if_neg hne, Nat.zero_add]
    exact h.once
  · rcases mem_flight_absorb hp hx ht with hx | ⟨heq, -⟩
    · exact h.flightSrc x hx ht
    · exact absurd heq hne
  · rcases mem_delivered_absorb hp hx with hx | ⟨d, -, rfl⟩
    · exact h.deliveredSrc x hx ht
    · exact absurd ht hne

theorem routed_of_entered (hnew : st.Unborn t)
    (ho : Outcome net.tables.route net (.client node) d effects cs ds) :
    ((st.enter ⟨relay, node, d⟩).absorb relay net (some t) none effects).Routed t
      ⟨relay, node, d⟩ := by
  have hready := hnew.ready ⟨relay, node, d⟩
  refine ⟨?_, fun x hx ht => ?_, fun x hx ht => ?_⟩
  · have hone := ho.atMostOne
    have hzero : (st.enter ⟨relay, node, d⟩).crossings t = 0 := hnew.2.1
    rw [crossings_absorb _ _ _ _ ho.passes, if_pos rfl, hzero]
    omega
  · rcases mem_flight_absorb ho.passes hx ht with hx | ⟨-, c, hc, rfl⟩
    · exact absurd ht (hready.not_mem_flight hx)
    · obtain ⟨h, hop, hparse, hbump, hroute⟩ := ho.crossing c hc
      exact SentBy.bump ⟨h, hparse, Tables.route_client_src hroute (by simp)⟩ hbump
  · rcases mem_delivered_absorb ho.passes hx with hx | ⟨e, he, rfl⟩
    · exact absurd ht (hready.not_mem_delivered hx)
    · obtain ⟨h, hop, hparse, hbump, hroute⟩ := ho.delivery e he
      refine SentBy.bump ⟨h, hparse, ?_⟩ hbump
      rcases hroute with hroute | ⟨hroute, -⟩
      · exact Tables.route_client_src hroute (by simp)
      · exact Tables.route_client_src hroute (by simp)

theorem Routed.arrived (h : st.Routed t inj) (hx : x ∈ st.flight) (hframe : x.frame = some t)
    (ho : Outcome net.tables.route net (.relay x.sender) x.datagram effects cs ds) :
    ((st.takeOff x).absorb x.receiver net x.frame (some x.sender) effects).Routed t inj := by
  have hstay : cs = [] := by
    refine eq_nil_iff_forall_not_mem.mpr fun c hc => ?_
    obtain ⟨hdr, -, -, -, hroute⟩ := ho.crossing c hc
    exact net.tables.route_relay_ne_mesh _ _ _ _ hroute
  subst hstay
  refine ⟨?_, fun y hy ht => ?_, fun y hy ht => ?_⟩
  · rw [crossings_absorb _ _ _ _ ho.passes, length_nil, ite_self, Nat.zero_add]
    exact h.once
  · rcases mem_flight_absorb ho.passes hy ht with hy | ⟨-, c, hc, -⟩
    · exact h.flightSrc y (mem_of_mem_takeOff hy) ht
    · cases hc
  · rcases mem_delivered_absorb ho.passes hy with hy | ⟨e, he, rfl⟩
    · exact h.deliveredSrc y hy ht
    · obtain ⟨-, hop, -, hbump, -⟩ := ho.delivery e he
      exact (h.flightSrc x hx hframe).bump hbump

theorem routed_step (hinv : st.Inv) (h : ∀ t inj, st.injected[t]? = some inj → st.Routed t inj)
    (hs : StepTo byTables st st') :
    ∀ t inj, st'.injected[t]? = some inj → st'.Routed t inj := by
  intro t inj ht
  cases hs with
  | configured relays => exact ⟨(h t inj ht).once, (h t inj ht).flightSrc, (h t inj ht).deliveredSrc⟩
  | @entered relay node d net choice effects cs ds ho =>
    change (st.injected ++ [⟨relay, node, d⟩])[t]? = some inj at ht
    rcases Nat.lt_trichotomy t st.injected.length with hlt | rfl | hgt
    · rw [getElem?_append_left hlt] at ht
      have hold : (st.enter ⟨relay, node, d⟩).Routed t inj :=
        ⟨(h t inj ht).once, (h t inj ht).flightSrc, (h t inj ht).deliveredSrc⟩
      exact hold.absorb_other ho.passes (by simp; omega)
    · rw [getElem?_concat_length, Option.some.injEq] at ht
      subst ht
      exact routed_of_entered (hinv.unborn _ (Nat.le_refl _)) ho
    · rw [getElem?_eq_none (by simp; omega)] at ht
      cases ht
  | @arrived x net choice effects cs ds hx ho =>
    by_cases hframe : x.frame = some t
    · exact (h t inj ht).arrived hx hframe ho
    · have hold : (st.takeOff x).Routed t inj :=
        ⟨(h t inj ht).once, fun y hy => (h t inj ht).flightSrc y (mem_of_mem_takeOff hy),
          (h t inj ht).deliveredSrc⟩
      exact hold.absorb_other ho.passes hframe
  | lost hx =>
    exact ⟨(h t inj ht).once, fun y hy => (h t inj ht).flightSrc y (mem_of_mem_takeOff hy),
      (h t inj ht).deliveredSrc⟩

theorem reachable_routed (h : relayMesh.Reachable st) (ht : st.injected[t]? = some inj) : st.Routed t inj := by
  have hboth : st.Inv ∧ ∀ t inj, st.injected[t]? = some inj → st.Routed t inj := by
    refine h.invariant (P := fun s => s.Inv ∧ ∀ t inj, s.injected[t]? = some inj → s.Routed t inj)
      (fun s hs => ⟨reachable_mesh_inv (.of_initial hs), fun t inj ht => ?_⟩) fun s e s' hs he => ?_
    · rw [hs.2.1] at ht
      simp at ht
    · have hto : StepTo byTables s s' := step_cases he
      exact ⟨hs.1.step hto, routed_step hs.1 hs.2 hto⟩
  exact hboth.2 t inj ht

end MeshState

/-- Under any tables, a frame crosses at most one mesh link, at most two relays
process it, at most one member gets it, no copy differs from it outside the hop
byte, and a delivered copy carries the id its sender authenticated as. Without
any routing rule, the hop guard still bounds how often it is passed on. -/
theorem mesh_loop_free :
    (∀ st, relayMesh.Reachable st → ∀ t inj, st.injected[t]? = some inj →
      st.crossings t ≤ 1 ∧ st.processings t ≤ 2 ∧ st.deliveries t ≤ 1 ∧
        (∀ x ∈ st.crossed, x.frame = some t → IsCopy x.datagram inj.datagram) ∧
        ∀ x ∈ st.delivered, x.frame = some t →
          IsCopy x.datagram inj.datagram ∧ MeshState.SentBy inj.node x.datagram) ∧
    ∀ st, lawlessMesh.Reachable st → ∀ t inj, st.injected[t]? = some inj →
      st.crossings t + st.deliveries t ≤ maxHops.toNat := by
  refine ⟨fun st hst t inj ht => ?_, fun st hst t inj ht => ?_⟩
  · have htracked := (MeshState.reachable_mesh_inv hst).tracked t inj ht
    have hrouted := MeshState.reachable_routed hst ht
    have hsingle := htracked.single
    have hchained := htracked.chained
    have honce := hrouted.once
    exact ⟨honce, by omega, by omega, htracked.crossedCopy,
      fun x hx hf => ⟨htracked.deliveredCopy x hx hf, hrouted.deliveredSrc x hx hf⟩⟩
  · have hguarded := ((MeshState.reachable_mesh_inv hst).tracked t inj ht).guarded
    omega

/-- Relay `me` holds client `here` and knows client `there` at relay `peer`. -/
def pairedRelay (me peer here there : NodeId) : HonestRelay where
  net :=
    { tables := (((Tables.new me).setLocal here true).setMesh peer true).replaceAttachments
        [(there, peer)]
      clients := Std.ExtTreeMap.ofList [(here, ())]
      meshSessions := Std.ExtTreeMap.ofList [(peer, ())] }
  chaosOff := rfl

def acrossTheMesh : List (MeshEvent Unit) :=
  let frame := (RoutedHeader.new tData 10 20 0).write
  [.configure 1 (pairedRelay 1 2 10 20), .configure 2 (pairedRelay 2 1 20 10),
    .inject 1 10 frame 0 true () ⟨true, true, 0⟩,
    .arrive ⟨some 0, 1, 2, frame.set offHop 1, 0⟩ true () ⟨true, true, 0⟩]

theorem mesh_loop_free_across : ∃ st, relayMesh.run {} acrossTheMesh = some st ∧
    st.crossings 0 = 1 ∧ st.processings 0 = 2 ∧ st.deliveries 0 = 1 ∧
      ∀ x ∈ st.delivered, x.frame = some 0 → MeshState.SentBy 10 x.datagram := by
  have hfacts : (relayMesh.run {} acrossTheMesh).map
      (fun st => (st.crossings 0, st.processings 0, st.deliveries 0,
        st.injected[0]?.map Injection.node)) = some (1, 2, 1, some 10) := by decide
  obtain ⟨st, hrun, heq⟩ := Option.map_eq_some_iff.mp hfacts
  simp only [Prod.mk.injEq] at heq
  obtain ⟨hcross, hprocess, hdeliver, hinj⟩ := heq
  obtain ⟨inj, hinj, hnode⟩ := Option.map_eq_some_iff.mp hinj
  have hinit : relayMesh.Initial {} := ⟨rfl, rfl, rfl, rfl, rfl⟩
  have hreach : relayMesh.Reachable st := (TransitionSystem.Reachable.of_initial hinit).of_run hrun
  have h := (mesh_loop_free.1 st hreach 0 inj hinj).2.2.2.2
  exact ⟨st, hrun, hcross, hprocess, hdeliver, fun x hx hf => hnode ▸ (h x hx hf).2⟩

end Nqvpn
