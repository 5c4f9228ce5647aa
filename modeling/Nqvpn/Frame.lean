import Nqvpn.Addressing
import Nqvpn.BigEndian

/-!
# Data-plane frames

A routed frame is a 15-byte header followed by a payload no relay reads. Relays
parse the header and own one byte of it: the hop count, which `bumpHop` raises
and caps. A relay answers a traced frame with a trace note, a frame of another
type that is never routed.
-/

namespace Nqvpn

open BigEndian List

abbrev Datagram := List UInt8

def tData : UInt8 := 0x01
def tHandshake : UInt8 := 0x02
def tProbe : UInt8 := 0xF1
def tReply : UInt8 := 0xF2
def tTraceNote : UInt8 := 0xF3

def routedHeaderLen : Nat := 15
def probeLen : Nat := 17
def traceNoteLen : Nat := 19

def flagTrace : UInt8 := 0x01

def maxHops : UInt8 := 2

def offFlags : Nat := 9
def offHop : Nat := 10

namespace Datagram

def byteAt (buf : Datagram) (i : Nat) : UInt8 := buf.getD i 0

def u32At (buf : Datagram) (i : Nat) : Nat := ofBytes ((buf.drop i).take 4)

def u64At (buf : Datagram) (i : Nat) : Nat := ofBytes ((buf.drop i).take 8)

end Datagram

structure RoutedHeader where
  kind : UInt8
  srcId : NodeId
  dstId : NodeId
  flags : UInt8
  hop : UInt8
  trace : Nat
deriving DecidableEq, Repr

namespace RoutedHeader

def new (kind : UInt8) (srcId dstId : NodeId) (trace : Nat) : RoutedHeader :=
  { kind, srcId, dstId, flags := 0, hop := 0, trace }

def write (h : RoutedHeader) : Datagram :=
  h.kind :: (toBytes 4 h.srcId ++ (toBytes 4 h.dstId ++
    h.flags :: h.hop :: toBytes 4 h.trace))

def parse (buf : Datagram) : Option RoutedHeader :=
  if buf.length < routedHeaderLen then none
  else
    let kind := buf.byteAt 0
    if kind ≠ tData ∧ kind ≠ tHandshake then none
    else some {
      kind
      srcId := buf.u32At 1
      dstId := buf.u32At 5
      flags := buf.byteAt offFlags
      hop := buf.byteAt offHop
      trace := buf.u32At 11 }

def traced (h : RoutedHeader) : Bool := h.flags &&& flagTrace != 0

def Fits (h : RoutedHeader) : Prop :=
  (h.kind = tData ∨ h.kind = tHandshake) ∧
    h.srcId < 2 ^ 32 ∧ h.dstId < 2 ^ 32 ∧ h.trace < 2 ^ 32

@[simp] theorem length_write (h : RoutedHeader) : h.write.length = routedHeaderLen := by
  simp [write, routedHeaderLen]

theorem parse_write_append {h : RoutedHeader} (hfits : h.Fits) (payload : Datagram) :
    parse (h.write ++ payload) = some h := by
  obtain ⟨hkind, hsrc, hdst, htrace⟩ := hfits
  have hroutes : ¬ (h.kind ≠ tData ∧ h.kind ≠ tHandshake) := by tauto
  -- Each field is read where it was written.
  change (if h.kind ≠ tData ∧ h.kind ≠ tHandshake then none
    else some (⟨h.kind, ofBytes (toBytes 4 h.srcId), ofBytes (toBytes 4 h.dstId), h.flags, h.hop,
      ofBytes (toBytes 4 h.trace)⟩ : RoutedHeader)) = some h
  rw [if_neg hroutes, ofBytes_toBytes (w := 4) hsrc, ofBytes_toBytes (w := 4) hdst,
    ofBytes_toBytes (w := 4) htrace]

end RoutedHeader

/-- Count one more hop in place: the raised count, or nothing when the frame has
travelled as far as any legitimate path allows. -/
def bumpHop (buf : Datagram) : Option (Datagram × UInt8) :=
  if buf.length < routedHeaderLen then none
  else
    let hop := buf.byteAt offHop
    -- `saturating_add`
    let next := if hop = 255 then 255 else hop + 1
    if maxHops < next then none else some (buf.set offHop next, next)
variable {buf buf' : Datagram} {i j : Nat} {hop : UInt8} {h : RoutedHeader}

theorem byteAt_set_self (h : i < buf.length) (b : UInt8) :
    Datagram.byteAt (buf.set i b) i = b := by
  simp [Datagram.byteAt, getD_eq_getElem?_getD, h]

theorem byteAt_set_of_ne (buf : Datagram) (h : i ≠ j) (b : UInt8) :
    Datagram.byteAt (buf.set i b) j = buf.byteAt j := by
  simp [Datagram.byteAt, getD_eq_getElem?_getD, getElem?_set_ne h]

theorem bumpHop_eq_some (h : bumpHop buf = some (buf', hop)) :
    routedHeaderLen ≤ buf.length ∧ buf' = buf.set offHop hop ∧
      hop.toNat = (buf.byteAt offHop).toNat + 1 ∧ hop.toNat ≤ maxHops.toNat := by
  simp only [bumpHop] at h
  split_ifs at h with hlen hfull hcap hcap
  · obtain ⟨rfl, rfl⟩ := h
    exact absurd (by decide) hcap
  · obtain ⟨rfl, rfl⟩ := h
    refine ⟨by omega, rfl, ?_, UInt8.le_iff_toNat_le.mp (UInt8.not_lt.mp hcap)⟩
    have hne : (buf.byteAt offHop).toNat ≠ 255 := fun e => hfull (UInt8.toNat_inj.mp e)
    have hlt := (buf.byteAt offHop).toNat_lt
    rw [UInt8.toNat_add, UInt8.toNat_one]
    omega

theorem bumpHop_hop_lt (h : bumpHop buf = some (buf', hop)) :
    (buf'.byteAt offHop).toNat = (buf.byteAt offHop).toNat + 1 ∧
      (buf'.byteAt offHop).toNat ≤ maxHops.toNat := by
  obtain ⟨hlen, rfl, hnext, hcap⟩ := bumpHop_eq_some h
  have hin : offHop < buf.length := by
    have : offHop < routedHeaderLen := by decide
    omega
  rw [byteAt_set_self hin]
  exact ⟨hnext, hcap⟩

/-- Count `n` more hops. -/
def bumpHops : Nat → Datagram → Option Datagram
  | 0, buf => some buf
  | n + 1, buf => (bumpHop buf).bind fun bumped => bumpHops n bumped.1

theorem bumpHops_le {n : Nat} (h : bumpHops n buf = some buf') :
    n = 0 ∨ (buf.byteAt offHop).toNat + n ≤ maxHops.toNat := by
  induction n generalizing buf with
  | zero => exact .inl rfl
  | succ n ih =>
    obtain ⟨⟨next, hop⟩, hbump, hrest⟩ := Option.bind_eq_some_iff.mp h
    obtain ⟨hnext, hcap⟩ := bumpHop_hop_lt hbump
    have hle := ih hrest
    dsimp only at hle
    omega

theorem u32At_set_of_outside (buf : Datagram) (h : i < j ∨ j + 4 ≤ i) (b : UInt8) :
    Datagram.u32At (buf.set i b) j = buf.u32At j := by
  unfold Datagram.u32At
  congr 1
  apply ext_getElem?
  intro k
  simp only [getElem?_take, getElem?_drop]
  split
  · rw [getElem?_set_ne (by omega)]
  · rfl

theorem RoutedHeader.parse_set_hop (hparse : RoutedHeader.parse buf = some h) (b : UInt8) :
    RoutedHeader.parse (buf.set offHop b) = some { h with hop := b } := by
  simp only [RoutedHeader.parse] at hparse ⊢
  split_ifs at hparse with hlen hkind
  rw [Option.some.injEq] at hparse
  subst hparse
  have hin : offHop < buf.length := by
    have : offHop < routedHeaderLen := by decide
    omega
  rw [length_set, if_neg hlen, byteAt_set_of_ne buf (by decide), if_neg hkind,
    byteAt_set_of_ne buf (by decide), byteAt_set_self hin, u32At_set_of_outside buf (by decide),
    u32At_set_of_outside buf (by decide), u32At_set_of_outside buf (by decide)]

theorem bumpHop_of_parse (hparse : RoutedHeader.parse buf = some h) (hhop : h.hop = 0 ∨ h.hop = 1) : bumpHop buf = some (buf.set offHop (h.hop + 1), h.hop + 1) := by
  simp only [RoutedHeader.parse] at hparse
  split_ifs at hparse with hlen hkind
  cases hparse
  simp only [bumpHop, if_neg hlen]
  simp only at hhop ⊢
  rcases hhop with hzero | hone
  · rw [hzero]
    rfl
  · rw [hone]
    rfl

theorem RoutedHeader.head?_ne_note (hparse : RoutedHeader.parse buf = some h) : buf.head? ≠ some tTraceNote := by
  intro hhead
  have hfirst : buf.byteAt 0 = tTraceNote := by
    rw [Datagram.byteAt, getD_eq_getElem?_getD, ← head?_eq_getElem?, hhead, Option.getD_some]
  simp only [RoutedHeader.parse, hfirst] at hparse
  split_ifs at hparse with hlen hkind
  exact hkind ⟨by decide, by decide⟩

/-- What a relay did with a frame. -/
inductive Decision
  | deliverLocal
  | forwardMesh
  | terminateHere
  | dropSrcSpoofed
  | dropNoSecondHop
  | dropMeshLinkDown
  | dropDstUnknown
  | dropNoEndpoint
  | dropTooManyHops
  | dropSendFailed
  | dropRateLimited
  | dropMalformed
deriving DecidableEq, Repr

namespace Decision

def toU8 : Decision → UInt8
  | deliverLocal => 1
  | forwardMesh => 2
  | terminateHere => 3
  | dropSrcSpoofed => 16
  | dropNoSecondHop => 17
  | dropMeshLinkDown => 18
  | dropDstUnknown => 19
  | dropNoEndpoint => 20
  | dropTooManyHops => 21
  | dropSendFailed => 22
  | dropRateLimited => 23
  | dropMalformed => 24

def fromU8 : UInt8 → Option Decision
  | 1 => some deliverLocal
  | 2 => some forwardMesh
  | 3 => some terminateHere
  | 16 => some dropSrcSpoofed
  | 17 => some dropNoSecondHop
  | 18 => some dropMeshLinkDown
  | 19 => some dropDstUnknown
  | 20 => some dropNoEndpoint
  | 21 => some dropTooManyHops
  | 22 => some dropSendFailed
  | 23 => some dropRateLimited
  | 24 => some dropMalformed
  | _ => none

theorem fromU8_toU8 (d : Decision) : fromU8 d.toU8 = some d := by
  cases d <;> rfl

end Decision

/-- A keepalive of one hop, or the far end's echo of it. -/
structure Probe where
  kind : UInt8
  seq : Nat
  tSent : Nat
deriving DecidableEq, Repr

namespace Probe

def encode (p : Probe) : Datagram :=
  p.kind :: (toBytes 8 p.seq ++ toBytes 8 p.tSent)

def parse (buf : Datagram) : Option Probe :=
  if buf.length < probeLen ∨ (buf.byteAt 0 ≠ tProbe ∧ buf.byteAt 0 ≠ tReply) then none
  else some ⟨buf.byteAt 0, buf.u64At 1, buf.u64At 9⟩

def intoReply (p : Probe) : Probe := { p with kind := tReply }

def Fits (p : Probe) : Prop :=
  (p.kind = tProbe ∨ p.kind = tReply) ∧ p.seq < 2 ^ 64 ∧ p.tSent < 2 ^ 64

theorem parse_encode_append {p : Probe} (hfits : p.Fits) (rest : Datagram) :
    parse (p.encode ++ rest) = some p := by
  obtain ⟨hkind, hseq, hsent⟩ := hfits
  have hfirst : Datagram.byteAt (p.encode ++ rest) 0 = p.kind := rfl
  have hlen : ¬ (p.encode ++ rest).length < probeLen := by
    simp only [encode, probeLen, cons_append, length_cons, length_append, length_toBytes]
    omega
  rw [parse, hfirst, if_neg (by tauto)]
  change some (⟨p.kind, ofBytes (toBytes 8 p.seq), ofBytes (toBytes 8 p.tSent)⟩ : Probe) = some p
  rw [ofBytes_toBytes (w := 8) hseq, ofBytes_toBytes (w := 8) hsent]

end Probe

/-- A relay's report about one traced frame. -/
structure TraceNote where
  origin : NodeId
  trace : Nat
  hop : UInt8
  relayId : NodeId
  decision : Decision
  detail : Nat
deriving DecidableEq, Repr

namespace TraceNote

def encode (n : TraceNote) : Datagram :=
  tTraceNote :: (toBytes 4 n.origin ++ (toBytes 4 n.trace ++
    n.hop :: (toBytes 4 n.relayId ++ n.decision.toU8 :: toBytes 4 n.detail)))

def parse (buf : Datagram) : Option TraceNote :=
  if buf.length < traceNoteLen ∨ buf.byteAt 0 ≠ tTraceNote then none
  else do
    let decision ← Decision.fromU8 (buf.byteAt 14)
    return {
      origin := buf.u32At 1
      trace := buf.u32At 5
      hop := buf.byteAt 9
      relayId := buf.u32At 10
      decision
      detail := buf.u32At 15 }

def Fits (n : TraceNote) : Prop :=
  n.origin < 2 ^ 32 ∧ n.trace < 2 ^ 32 ∧ n.relayId < 2 ^ 32 ∧ n.detail < 2 ^ 32

theorem parse_encode_append {n : TraceNote} (hfits : n.Fits) (rest : Datagram) :
    parse (n.encode ++ rest) = some n := by
  obtain ⟨horigin, htrace, hrelay, hdetail⟩ := hfits
  have hlen : ¬ (n.encode ++ rest).length < traceNoteLen := by
    simp only [encode, traceNoteLen, cons_append, length_cons, length_append, length_toBytes]
    omega
  have hnote : ¬ Datagram.byteAt (n.encode ++ rest) 0 ≠ tTraceNote := by simp [Datagram.byteAt, encode]
  change (Decision.fromU8 n.decision.toU8).bind (fun d => some (⟨ofBytes (toBytes 4 n.origin),
    ofBytes (toBytes 4 n.trace), n.hop, ofBytes (toBytes 4 n.relayId), d,
    ofBytes (toBytes 4 n.detail)⟩ : TraceNote)) = some n
  rw [Decision.fromU8_toU8, ofBytes_toBytes (w := 4) horigin, ofBytes_toBytes (w := 4) htrace,
    ofBytes_toBytes (w := 4) hrelay, ofBytes_toBytes (w := 4) hdetail]
  rfl

end TraceNote

theorem RoutedHeader.first_of_parse (hparse : RoutedHeader.parse buf = some h) :
    buf.byteAt 0 = tData ∨ buf.byteAt 0 = tHandshake := by
  simp only [RoutedHeader.parse] at hparse
  split_ifs at hparse with hlen hkind
  tauto

theorem Probe.first_of_parse {p : Probe} (hparse : Probe.parse buf = some p) :
    buf.byteAt 0 = tProbe ∨ buf.byteAt 0 = tReply := by
  simp only [Probe.parse] at hparse
  split_ifs at hparse with hkind
  tauto

theorem TraceNote.first_of_parse {n : TraceNote} (hparse : TraceNote.parse buf = some n) :
    buf.byteAt 0 = tTraceNote := by
  simp only [TraceNote.parse] at hparse
  split_ifs at hparse with hkind
  tauto

/-- What is written is read back, whatever follows it; the type byte keeps the three kinds apart;
and counting a hop touches the hop byte alone and stops at the cap. -/
theorem frame_headers :
    (∀ h : RoutedHeader, h.Fits → ∀ rest, RoutedHeader.parse (h.write ++ rest) = some h) ∧
      (∀ p : Probe, p.Fits → ∀ rest, Probe.parse (p.encode ++ rest) = some p) ∧
      (∀ n : TraceNote, n.Fits → ∀ rest, TraceNote.parse (n.encode ++ rest) = some n) ∧
      (∀ buf, ¬ ((RoutedHeader.parse buf).isSome ∧ (Probe.parse buf).isSome) ∧
        ¬ ((RoutedHeader.parse buf).isSome ∧ (TraceNote.parse buf).isSome) ∧
        ¬ ((Probe.parse buf).isSome ∧ (TraceNote.parse buf).isSome)) ∧
      ∀ buf h, RoutedHeader.parse buf = some h →
        (∀ buf' hop, bumpHop buf = some (buf', hop) →
          buf'.length = buf.length ∧ (∀ i ≠ offHop, buf'[i]? = buf[i]?) ∧
            RoutedHeader.parse buf' = some { h with hop := hop }) ∧
        ∀ n, (bumpHops n buf).isSome → n ≤ maxHops.toNat := by
  refine ⟨fun h => RoutedHeader.parse_write_append, fun p => Probe.parse_encode_append,
    fun n => TraceNote.parse_encode_append, fun buf => ?_, fun buf h hparse => ⟨?_, fun n hn => ?_⟩⟩
  · simp only [Option.isSome_iff_exists]
    refine ⟨?_, ?_, ?_⟩
    · rintro ⟨⟨h, hh⟩, p, hp⟩
      rcases RoutedHeader.first_of_parse hh with hb | hb <;>
        rcases Probe.first_of_parse hp with hb' | hb' <;> exact absurd (hb.symm.trans hb') (by decide)
    · rintro ⟨⟨h, hh⟩, n, hn⟩
      have hb' := TraceNote.first_of_parse hn
      rcases RoutedHeader.first_of_parse hh with hb | hb <;> exact absurd (hb.symm.trans hb') (by decide)
    · rintro ⟨⟨p, hp⟩, n, hn⟩
      have hb' := TraceNote.first_of_parse hn
      rcases Probe.first_of_parse hp with hb | hb <;> exact absurd (hb.symm.trans hb') (by decide)
  · intro buf' hop hbump
    obtain ⟨-, rfl, -⟩ := bumpHop_eq_some hbump
    exact ⟨length_set, fun i hi => getElem?_set_ne hi.symm, RoutedHeader.parse_set_hop hparse hop⟩
  · obtain ⟨buf', hbuf'⟩ := Option.isSome_iff_exists.mp hn
    rcases bumpHops_le hbuf' with rfl | hle <;> omega

end Nqvpn
