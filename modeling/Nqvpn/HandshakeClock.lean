import Nqvpn.SessionMachine
import Nqvpn.Watermark

/-!
# The timestamps of handshakes

Whatever its clock does, an engine puts a later timestamp into each first handshake message than into the one
before, until it has used up the largest one there is: after that the last second begins again. A responder
holds the newest timestamp it has accepted from a key, so what arrives in the order sent is accepted, and what
was overtaken or arrives again is not.
-/

namespace Nqvpn

open List

namespace Tai64n

def largest : Tai64n := ⟨2 ^ 64 - 1, 999999999⟩

def Proper (ts : Tai64n) : Prop := ts.secs < 2 ^ 64 ∧ ts.nanos < 10 ^ 9

variable {ts : Tai64n}

theorem Proper.fits (h : ts.Proper) : ts.Fits :=
  ⟨h.1, h.2.trans (by decide)⟩

theorem Proper.le_largest (h : ts.Proper) : ts ≤ largest := by
  obtain ⟨hsecs, hnanos⟩ := h
  refine not_lt.mp fun hlt => ?_
  rcases lt_iff.mp hlt with hsec | ⟨-, hnano⟩
  · change 2 ^ 64 - 1 < ts.secs at hsec
    omega
  · change 999999999 < ts.nanos at hnano
    omega

theorem Proper.succ (h : ts.Proper) : ts.succ.Proper := by
  obtain ⟨hsecs, hnanos⟩ := h
  unfold Tai64n.succ
  split_ifs with hcarry
  · exact ⟨lt_of_le_of_lt (min_le_right _ _) (by decide), Nat.pow_pos (by decide)⟩
  · refine ⟨hsecs, ?_⟩
    change ts.nanos + 1 < 10 ^ 9
    omega

theorem Proper.lt_succ_iff (h : ts.Proper) : ts < ts.succ ↔ ts ≠ largest := by
  obtain ⟨secs, nanos⟩ := ts
  obtain ⟨hsecs, hnanos⟩ := h
  simp only at hsecs hnanos
  rw [lt_iff, ne_eq, largest, Tai64n.mk.injEq]
  unfold Tai64n.succ
  simp only
  split_ifs with hcarry
  · simp only [lt_min_iff]
    omega
  · exact ⟨fun _ hlargest => hcarry hlargest.2.ge, fun _ => .inr ⟨rfl, Nat.lt_succ_self nanos⟩⟩

theorem Fits.toBytes_lt_iff {ts' : Tai64n} (h : ts.Fits) (h' : ts'.Fits) : ts.toBytes < ts'.toBytes ↔ ts < ts' := by
  have hsecs : BigEndian.toBytes 8 ts.secs < BigEndian.toBytes 8 ts'.secs ↔ ts.secs < ts'.secs :=
    BigEndian.toBytes_lt_iff (w := 8) h.1 h'.1
  have hnanos : BigEndian.toBytes 4 ts.nanos < BigEndian.toBytes 4 ts'.nanos ↔ ts.nanos < ts'.nanos :=
    BigEndian.toBytes_lt_iff (w := 4) h.2 h'.2
  have heq : BigEndian.toBytes 8 ts.secs = BigEndian.toBytes 8 ts'.secs ↔ ts.secs = ts'.secs := by
    refine ⟨fun hbytes => ?_, fun hsame => by rw [hsame]⟩
    have hread : BigEndian.ofBytes (BigEndian.toBytes 8 ts.secs) = ts.secs := BigEndian.ofBytes_toBytes (w := 8) h.1
    rw [← hread, hbytes]
    exact BigEndian.ofBytes_toBytes (w := 8) h'.1
  rw [toBytes, toBytes, BigEndian.append_lt_append_iff (by rw [BigEndian.length_toBytes, BigEndian.length_toBytes]),
    hsecs, hnanos, heq, lt_iff]

/-! ### Dating -/

def Timely (clock : Tai64n) : Prop := clock.secs < 2 ^ 64 - 1 ∧ clock.nanos < 10 ^ 9

/-- The timestamp given out after `last`. -/
def after (last clock : Tai64n) : Tai64n := if clock ≤ last then last.succ else clock

/-- The timestamps given out after `last`, for a sequence of clock readings. -/
def dated : Tai64n → List Tai64n → List Tai64n
  | _, [] => []
  | last, clock :: clocks => after last clock :: dated (after last clock) clocks

variable {last clock : Tai64n} {clocks : List Tai64n}

theorem Timely.proper (h : clock.Timely) : clock.Proper := ⟨by have := h.1; omega, h.2⟩

theorem Proper.after (h : last.Proper) (hclock : clock.Timely) : (after last clock).Proper := by
  unfold Tai64n.after
  split_ifs
  · exact h.succ
  · exact hclock.proper

theorem Proper.lt_after_iff (h : last.Proper) (hclock : clock.Timely) : last < Tai64n.after last clock ↔ last ≠ largest := by
  unfold Tai64n.after
  split_ifs with hle
  · exact h.lt_succ_iff
  · refine ⟨?_, fun _ => not_le.mp hle⟩
    rintro - rfl
    exact hle hclock.proper.le_largest

theorem isChain_dated (h : last.Proper) (hclocks : ∀ clock ∈ clocks, clock.Timely) :
    (last :: dated last clocks).IsChain (· < ·) ↔ largest ∉ (last :: dated last clocks).dropLast := by
  induction clocks generalizing last with
  | nil => simp [dated]
  | cons clock clocks ih =>
    have hclock := hclocks clock mem_cons_self
    have hrest := ih (h.after hclock) fun c hc => hclocks c (mem_cons_of_mem clock hc)
    rw [dated, isChain_cons_cons, h.lt_after_iff hclock, hrest, dropLast_cons_cons, mem_cons, not_or]
    exact and_congr_left fun _ => ne_comm

theorem pairwise_dated (hclocks : ∀ clock ∈ clocks, clock.Timely) :
    (dated zero clocks).Pairwise (· < ·) ↔ largest ∉ (dated zero clocks).dropLast := by
  have hzero : zero.Proper := ⟨by decide, by decide⟩
  cases clocks with
  | nil => simp [dated]
  | cons clock clocks =>
    have hrest := isChain_dated (hzero.after (hclocks clock mem_cons_self))
      fun c hc => hclocks c (mem_cons_of_mem clock hc)
    rw [dated, ← isChain_iff_pairwise]
    exact hrest

/-- After `k` handshakes the clock has come this far into the last second. -/
def Early (k : Nat) (ts : Tai64n) : Prop :=
  (ts.secs = 2 ^ 64 - 1 → ts.nanos + 2 ≤ k) ∧ (ts.secs = 2 ^ 64 - 2 → 1 ≤ k)

theorem Early.after {k : Nat} (h : Early k last) (hlast : last.Proper) (hclock : clock.Timely) :
    Early (k + 1) (Tai64n.after last clock) := by
  obtain ⟨hnanos, hone⟩ := h
  obtain ⟨hsecs, -⟩ := hclock
  have hbound := hlast.1
  refine ⟨fun hlate => ?_, fun _ => Nat.le_add_left 1 k⟩
  -- The clock is earlier, so this is the successor of what was given out before.
  unfold Tai64n.after at hlate ⊢
  split_ifs at hlate ⊢
  · unfold Tai64n.succ at hlate ⊢
    split_ifs at hlate ⊢
    · simp only at hlate ⊢
      omega
    · simp only at hlate ⊢
      omega
  · omega

theorem early_dated {k : Nat} (h : Early k last) (hlast : last.Proper) (hclocks : ∀ clock ∈ clocks, clock.Timely)
    {i : Nat} (hts : (dated last clocks)[i]? = some ts) : Early (i + k + 1) ts := by
  induction clocks generalizing last k i with
  | nil => cases hts
  | cons clock clocks ih =>
    have hclock := hclocks clock mem_cons_self
    cases i with
    | zero =>
      obtain rfl : Tai64n.after last clock = ts := Option.some.inj hts
      rw [Nat.zero_add]
      exact h.after hlast hclock
    | succ i =>
      have hrest := ih (h.after hlast hclock) (hlast.after hclock)
        (fun c hc => hclocks c (mem_cons_of_mem clock hc)) hts
      rwa [show i + 1 + k + 1 = i + (k + 1) + 1 by omega]

theorem largest_not_mem_dated (hclocks : ∀ clock ∈ clocks, clock.Timely)
    (hlength : (dated zero clocks).length ≤ 10 ^ 9 + 1) : largest ∉ (dated zero clocks).dropLast := by
  intro hmem
  obtain ⟨i, hi⟩ := List.mem_iff_getElem?.mp hmem
  have hlt : i < (dated zero clocks).dropLast.length := (List.getElem?_eq_some_iff.mp hi).1
  rw [List.length_dropLast] at hlt
  rw [List.getElem?_dropLast, if_pos hlt] at hi
  have hearly : Early 0 zero := ⟨fun h => (nomatch h), fun h => (nomatch h)⟩
  have hfar := (early_dated hearly ⟨by decide, by decide⟩ hclocks hi).1 rfl
  change 999999999 + 2 ≤ i + 0 + 1 at hfar
  omega

end Tai64n

def stampOf (m : Initiation) : Tai64n := .fromPayload m.payload

/-! ### What an engine sends -/

def EngineEffect.initiation? : EngineEffect → Option Initiation
  | send f _ | sendCounted f _ =>
    match f.message with
    | .initiation m => some m
    | _ => none
  | _ => none

def sentInitiations (effects : List EngineEffect) : List Initiation := effects.filterMap EngineEffect.initiation?

theorem sentInitiations_append (effects effects' : List EngineEffect) :
    sentInitiations (effects ++ effects') = sentInitiations effects ++ sentInitiations effects' :=
  filterMap_append

theorem sentInitiations_counts {α : Type} (l : List α) (c : EngineCounter) :
    sentInitiations (l.map fun _ => EngineEffect.count c) = [] := by
  induction l with
  | nil => rfl
  | cons _ l ih => exact ih

namespace Engine

variable {codec : EngineCodec} {e : Engine} {peer : NodeId}

def Dates (e : Engine) (clock : Tai64n) (result : Engine × List EngineEffect) : Prop :=
  sentInitiations result.2 = [] ∧ result.1.lastTs = e.lastTs ∨
    ∃ m, sentInitiations result.2 = [m] ∧ m.payload = (e.nextTs clock).toBytes ∧ result.1.lastTs = e.nextTs clock

def Undated (e : Engine) (result : Engine × List EngineEffect) : Prop :=
  sentInitiations result.2 = [] ∧ result.1.lastTs = e.lastTs

section

variable {e' : Engine} {now : Nat} {r : Reading} {es : List EngineEffect} {msg : Option Message}

theorem Sends.begins_nothing (h : Sends peer now e e' es) : sentInitiations es = [] := by
  induction h with
  | nothing => rfl
  | counted _ _ ih | noted _ ih | queued _ _ ih => exact ih
  | sealed _ _ hx _ ih => obtain ⟨lane, rfl | rfl⟩ := hx <;> exact ih

theorem Heeds.begins_nothing (h : Heeds codec peer r msg e e' es) : sentInitiations es = [] := by
  induction h with
  | held | refused | stale => rfl
  | yieldedNext _ _ _ _ ih | yieldedFirst _ _ _ _ ih => exact ih
  | completed _ _ _ _ hsends | answered _ _ _ _ _ _ hsends => exact hsends.begins_nothing
  | replaced _ _ _ hsends hperm =>
    have hsame : (sentInitiations _).Perm (sentInitiations _) := hperm.filterMap EngineEffect.initiation?
    rw [hsends.begins_nothing] at hsame
    exact hsame.eq_nil

theorem Asks.dates (h : Asks codec peer r e e' es) : e.Dates r.clock (e', es) := by
  cases h with
  | nothing => exact .inl ⟨rfl, rfl⟩
  | rekey | first => exact .inr ⟨_, rfl, rfl, rfl⟩

end

theorem dates_outbound (codec : EngineCodec) (e : Engine) (packet : Packet) (r : Reading) :
    e.Dates r.clock (e.outbound codec packet r) := by
  cases howner : e.ownerFor packet with
  | none =>
    obtain ⟨hsame, heffects⟩ := outbound_of_no_owner codec r howner
    refine .inl ⟨filterMap_eq_nil_iff.mpr fun x hx => ?_, by rw [hsame]⟩
    rcases heffects x hx with ⟨c, rfl⟩ | rfl <;> rfl
  | some owner =>
    obtain ⟨mid, es, es', hsends, hasks, heffects⟩ := forwards_outbound codec howner r
    have hdates := hasks.dates
    rw [hsends.only] at hdates
    rw [Dates, heffects, sentInitiations_append, hsends.begins_nothing]
    exact hdates

theorem undated_inbound (codec : EngineCodec) (e : Engine) (datagram : Datagram) (r : Reading) :
    e.Undated (e.inbound codec datagram r) := by
  cases receives_inbound codec e datagram r with
  | nothing notes hsame hcounts =>
    refine ⟨filterMap_eq_nil_iff.mpr fun x hx => ?_, by rw [hsame]⟩
    rcases hcounts x hx with rfl | rfl <;> rfl
  | handshake _ _ _ hheeds => exact ⟨hheeds.begins_nothing, by rw [hheeds.only]⟩
  | data _ _ _ hreads =>
    rcases hreads with ⟨hsame, c, heffects⟩ | ⟨t, inner, es, es', -, hsends, heffects, hes'⟩
    · exact ⟨by rw [heffects]; rfl, by rw [hsame]⟩
    · refine ⟨?_, by rw [hsends.only]⟩
      rw [heffects, sentInitiations_append, hsends.begins_nothing]
      rcases hes' with rfl | rfl | ⟨rfl, -⟩ <;> rfl

end Engine

/-! ### Runs of the initiator -/

def EngineCall.clock? : EngineCall → Option Tai64n
  | .outbound _ clock _ => some clock
  | .inbound _ clock _ => some clock
  | _ => none

def EngineCall.Timely (call : EngineCall) : Prop := ∀ clock ∈ call.clock?, clock.Timely

namespace TimedEngine

variable (codec : EngineCodec) in
def initiations : TimedEngine → List EngineCall → List Initiation
  | _, [] => []
  | x, call :: calls =>
    sentInitiations (x.effects codec call) ++ ((x.step codec call).map fun y => y.initiations calls).getD []

variable {codec : EngineCodec} {x y : TimedEngine} {call : EngineCall}

theorem dates_step (hs : x.step codec call = some y) :
    sentInitiations (x.effects codec call) = [] ∧ y.engine.lastTs = x.engine.lastTs ∨
      ∃ m clock, call.clock? = some clock ∧ sentInitiations (x.effects codec call) = [m] ∧
        m.payload = (x.engine.nextTs clock).toBytes ∧ y.engine.lastTs = x.engine.nextTs clock := by
  cases call with
  | pass secs | setMine hosts nets | setPolicy policy | setTrace target =>
    cases hs
    exact .inl ⟨rfl, rfl⟩
  | outbound packet clock ephemeral =>
    cases hs
    rcases x.engine.dates_outbound codec packet ⟨x.now, clock, ephemeral⟩ with
      hnone | ⟨m, hsent, hpayload, hlast⟩
    · exact .inl hnone
    · exact .inr ⟨m, clock, rfl, hsent, hpayload, hlast⟩
  | inbound datagram clock ephemeral =>
    cases hs
    exact .inl (Engine.undated_inbound codec x.engine datagram ⟨x.now, clock, ephemeral⟩)
  | expire =>
    cases hs
    exact .inl ⟨sentInitiations_counts _ _, rfl⟩
  | reconcile kind view exits =>
    cases hs
    cases kind with
    | client =>
      refine .inl ⟨sentInitiations_counts _ _, ?_⟩
      change (x.engine.reconcileView codec view exits).1.lastTs = x.engine.lastTs
      unfold Engine.reconcileView
      dsimp only
      split_ifs <;> rfl
    | relay => exact .inl ⟨rfl, rfl⟩

theorem initiations_cons (hs : x.step codec call = some y) (calls : List EngineCall) :
    x.initiations codec (call :: calls) = sentInitiations (x.effects codec call) ++ y.initiations codec calls := by
  rw [initiations, hs]
  rfl

theorem initiations_dated (codec : EngineCodec) (x : TimedEngine) (hlast : x.engine.lastTs.Proper) {calls : List EngineCall}
    (hcalls : ∀ call ∈ calls, call.Timely) :
    (∃ clocks, (∀ clock ∈ clocks, clock.Timely) ∧
      (x.initiations codec calls).map stampOf = Tai64n.dated x.engine.lastTs clocks) ∧
    ∀ m ∈ x.initiations codec calls, (stampOf m).Proper ∧ m.payload = (stampOf m).toBytes := by
  induction calls generalizing x with
  | nil => exact ⟨⟨[], fun _ h => (nomatch h), rfl⟩, fun _ h => (nomatch h)⟩
  | cons call calls ih =>
    have hrest : ∀ c ∈ calls, c.Timely := fun c hc => hcalls c (mem_cons_of_mem call hc)
    cases hs : x.step codec call with
    | none => cases call <;> cases hs
    | some y =>
      rw [initiations_cons hs]
      rcases dates_step hs with ⟨hsent, hsame⟩ | ⟨m, clock, hclock, hsent, hpayload, hdated⟩
      · rw [hsent, nil_append, ← hsame]
        exact ih y (hsame ▸ hlast) hrest
      · have htimely := hcalls call mem_cons_self clock hclock
        have hproper : (Tai64n.after x.engine.lastTs clock).Proper := hlast.after htimely
        have hstamp : stampOf m = Tai64n.after x.engine.lastTs clock := by
          rw [stampOf, hpayload]
          exact Tai64n.fromPayload_toBytes hproper.fits
        have hlast' : y.engine.lastTs = Tai64n.after x.engine.lastTs clock := hdated
        obtain ⟨⟨clocks, hclocks, hdates⟩, hpayloads⟩ := ih y (hlast' ▸ hproper) hrest
        rw [hsent, singleton_append]
        refine ⟨⟨clock :: clocks, ?_, ?_⟩, ?_⟩
        · exact forall_mem_cons.mpr ⟨htimely, hclocks⟩
        · rw [map_cons, hdates, hlast', hstamp]
          rfl
        · refine forall_mem_cons.mpr ⟨⟨hstamp ▸ hproper, ?_⟩, hpayloads⟩
          rw [hstamp]
          exact hpayload

end TimedEngine

end Nqvpn
