import Nqvpn.PeerTable

/-!
# The lanes of a flow

An endpoint picks the lane of a packet by the flow it belongs to, so that no connection is spread over lanes and
reordered. The lane is always one there is. Two packets of a flow take the same one if both carry their ports or
neither does; the first fragment of a datagram carries them, and the others do not.
-/

namespace Nqvpn

namespace Packet

structure Flow where
  proto : UInt8
  addrs : List UInt8
  ports : List UInt8

variable (packet : Packet) {flow : Flow} {p q : Packet}

def headerLen : Nat := (packet.getD 0 0 &&& 0x0f).toNat * 4

def fragOffset : Nat := (packet.getD 6 0 &&& 0x1f).toNat * 256 + (packet.getD 7 0).toNat

/-- The four bytes after the header, where the packet starts its datagram and they are there. -/
def portBytes : Option (List UInt8) :=
  if packet.fragOffset = 0 ∧ packet.headerLen + 4 ≤ packet.length then some ((packet.drop packet.headerLen).take 4)
  else none

/-- An IPv4 packet of the flow. The ports of TCP and UDP tell flows apart, and a fragment that is not the first
belongs to the flow of its datagram. -/
structure OfFlow (flow : Flow) (packet : Packet) : Prop where
  version : packet.version = some 4
  header : 20 ≤ packet.headerLen ∧ packet.headerLen ≤ packet.length
  proto : packet.getD 9 0 = flow.proto
  addrs : (packet.drop 12).take 8 = flow.addrs
  ports : flow.proto = 6 ∨ flow.proto = 17 → packet.fragOffset = 0 → packet.portBytes = some flow.ports

/-- With TCP and UDP, both packets start their datagrams or neither does. SCTP and UDP-Lite have ports as well: both
packets show the same ones. -/
def Alike (flow : Flow) (p q : Packet) : Prop :=
  (flow.proto = 6 ∨ flow.proto = 17 → (p.fragOffset = 0 ↔ q.fragOffset = 0)) ∧
    (flow.proto = 132 ∨ flow.proto = 136 → p.portBytes = q.portBytes)

theorem OfFlow.flowParts (h : OfFlow flow p) : p.flowParts = some (flow.proto, flow.addrs, p.portBytes) := by
  have hlen : ¬ p.length < 20 := Nat.not_lt.mpr (h.header.1.trans h.header.2)
  unfold Packet.flowParts
  simp only [h.version, if_neg hlen, h.proto, h.addrs]
  rfl

namespace FlowExample

/-- The IPv4 header of a fragment, with its flags and offset. -/
def header (flags offset : UInt8) : Packet :=
  [0x45, 0, 0, 28, 0, 7, flags, offset, 64, 17, 0, 0, 10, 0, 0, 1, 10, 0, 0, 2]

def whole : Packet := header 0 0 ++ [4, 210, 0, 80, 0, 8, 0, 0]
def first : Packet := header 0x20 0 ++ [4, 210, 0, 80, 0, 16, 0, 0]
end FlowExample

end Packet

end Nqvpn
