import Nqvpn.CallProgram
import Nqvpn.EndpointRoutes
import Nqvpn.IpText

/-!
# The journal of underlay pins

A pin is a host route through the real gateway; it outlives the process that made it. The journal
maps each pinned host to its gateway, and a file holds it as text, one pin per line. What the file
holds is read back as the map it was written from.
-/

namespace Nqvpn

open TextScan IpText List

theorem IpAddr.order_injective : Function.Injective IpAddr.order := by
  intro a b h
  cases a with
  | v4 a =>
    cases b with
    | v4 b =>
      simp only [order, EmbeddingLike.apply_eq_iff_eq, Prod.mk.injEq, true_and] at h
      rw [BitVec.eq_of_toNat_eq h]
    | v6 b => simp [order] at h
  | v6 a =>
    cases b with
    | v4 b => simp [order] at h
    | v6 b =>
      simp only [order, EmbeddingLike.apply_eq_iff_eq, Prod.mk.injEq, true_and] at h
      rw [BitVec.eq_of_toNat_eq h]

instance IpAddr.instLinearOrder : LinearOrder IpAddr := LinearOrder.lift' IpAddr.order order_injective

instance IpAddr.instTransOrd : Std.TransOrd IpAddr := inferInstance

instance IpAddr.instLawfulEqOrd : Std.LawfulEqOrd IpAddr where
  eq_of_compare h := compare_eq_iff_eq.mp h

/-! ### Gateways -/

/-- A next hop, and the interface it is reached through where known. -/
structure Gateway where
  addr : IpAddr
  ifindex : Option UInt32
deriving DecidableEq, Repr

def stripPlus : List Char → List Char
  | [] => []
  | c :: s => if c = '+' then s else c :: s

theorem stripPlus_eq_self {s : List Char} (hs : s.head? ≠ some '+') : stripPlus s = s := by
  cases s with
  | nil => rfl
  | cons c s =>
    rw [head?_cons, ne_eq, Option.some.injEq] at hs
    rw [stripPlus, if_neg hs]

/-- A `u32` in decimal: a plus sign and leading zeros are allowed. -/
def parseU32 (s : List Char) : Option UInt32 :=
  match readNumber 10 (stripPlus s).length true (2 ^ 32) (stripPlus s) with
  | some (n, []) => some (UInt32.ofNat n)
  | _ => none

theorem parseU32_toDigits (i : UInt32) : parseU32 (Nat.toDigits 10 i.toNat) = some i := by
  have hhead : (Nat.toDigits 10 i.toNat).head? ≠ some '+' := by
    intro h
    have hdigit := isDigit_of_mem_toDigits (by decide) (by decide) (mem_of_head? h)
    revert hdigit
    decide
  have hlen : 0 < (Nat.toDigits 10 i.toNat).length := Nat.length_toDigits_pos
  have hread : readNumber 10 (Nat.toDigits 10 i.toNat).length true (2 ^ 32)
      (Nat.toDigits 10 i.toNat ++ []) = some (i.toNat, []) :=
    readNumber_toDigits (by decide) (by decide) i.toNat_lt
      ((Nat.length_toDigits_le_iff (by decide) hlen).mp le_rfl) hlen (clear_nil 10)
  rw [append_nil] at hread
  rw [parseU32, stripPlus_eq_self hhead]
  simp only [hread, UInt32.ofNat_toNat]

namespace Gateway

def print (gw : Gateway) : List Char :=
  match gw.ifindex with
  | some i => IpText.print gw.addr ++ '%' :: Nat.toDigits 10 i.toNat
  | none => IpText.print gw.addr

def parse (s : List Char) : Option Gateway :=
  match splitOnce '%' s with
  | some (a, i) => do return { addr := ← IpText.parse a, ifindex := some (← parseU32 i) }
  | none => do return { addr := ← IpText.parse s, ifindex := none }

theorem percent_notMem_print (ip : IpAddr) : '%' ∉ IpText.print ip := by
  intro h
  have haddr := IpText.isAddrChar_of_mem_print h
  revert haddr
  decide

theorem parse_print (gw : Gateway) : parse gw.print = some gw := by
  obtain ⟨addr, ifindex⟩ := gw
  cases ifindex with
  | some i =>
    simp [print, parse, splitOnce_append (percent_notMem_print addr), IpText.parse_print,
      parseU32_toDigits]
  | none => simp [print, parse, splitOnce_eq_none (percent_notMem_print addr), IpText.parse_print]

end Gateway

/-! ### The journal -/

abbrev PinJournal := Std.ExtTreeMap IpAddr Gateway

namespace PinJournal

variable (pin : IpAddr × Gateway)

def line : List Char := print pin.1 ++ ' ' :: pin.2.print

/-- What `persist` leaves at the journal's path: no file for an empty journal. -/
def file (pinned : PinJournal) : Option (List Char) :=
  if pinned.isEmpty then none else some (pinned.toList.flatMap fun pin => line pin ++ ['\n'])

def parseLine (l : List Char) : Option (IpAddr × Gateway) := do
  let (a, b) ← splitOnce ' ' l
  return (← parse (trim a), ← Gateway.parse (trim b))

def load : Option (List Char) → PinJournal
  | none => ∅
  | some text =>
    MapPatch.insertAll ∅ ((((lines text).map trim).filter (· ≠ [])).filterMap parseLine)

variable {c : Char}

theorem isWhitespace_of_mem_print {ip : IpAddr} (hc : c ∈ print ip) :
    isWhitespace c = false :=
  isWhitespace_of_isAddrChar (isAddrChar_of_mem_print hc)

theorem isWhitespace_of_mem_gateway {gw : Gateway} (hc : c ∈ gw.print) :
    isWhitespace c = false := by
  obtain ⟨addr, ifindex⟩ := gw
  cases ifindex with
  | none => exact isWhitespace_of_mem_print hc
  | some i =>
    simp only [Gateway.print, mem_append, mem_cons] at hc
    rcases hc with hc | rfl | hc
    · exact isWhitespace_of_mem_print hc
    · decide
    · apply IpText.isWhitespace_of_isAddrChar
      have h10 : isDigit 10 c := isDigit_of_mem_toDigits (by decide) (by decide) hc
      simp [IpText.isAddrChar, IpText.isDigit_mono h10]

theorem notMem_of_isWhitespace {s : List Char} (hs : ∀ c ∈ s, isWhitespace c = false)
    (hc : isWhitespace c) : c ∉ s := by
  intro hmem
  rw [hs c hmem] at hc
  cases hc

theorem trim_of_no_whitespace {s : List Char} (hs : ∀ c ∈ s, isWhitespace c = false) : trim s = s :=
  trim_eq_self (fun c hc => hs c (mem_of_head? hc)) fun c hc => hs c (mem_of_getLast? hc)

theorem print_gateway_ne_nil (gw : Gateway) : gw.print ≠ [] := by
  obtain ⟨addr, ifindex⟩ := gw
  cases ifindex with
  | none => exact IpText.print_ne_nil addr
  | some i => simp [Gateway.print]

theorem trim_line : trim (line pin) = line pin := by
  apply trim_eq_self
  · intro c hc
    rw [line, head?_append_of_ne_nil _ (print_ne_nil _)] at hc
    exact isWhitespace_of_mem_print (mem_of_head? hc)
  · intro c hc
    rw [line, append_cons, getLast?_append_of_ne_nil _ (print_gateway_ne_nil _)] at hc
    exact isWhitespace_of_mem_gateway (mem_of_getLast? hc)

theorem parseLine_line : parseLine (line pin) = some pin := by
  have hblank : ' ' ∉ print pin.1 :=
    notMem_of_isWhitespace (fun _ hc => isWhitespace_of_mem_print hc) (by decide)
  simp [parseLine, line, splitOnce_append hblank,
    trim_of_no_whitespace fun _ hc => isWhitespace_of_mem_print hc,
    trim_of_no_whitespace fun _ hc => isWhitespace_of_mem_gateway hc, parse_print,
    Gateway.parse_print]

theorem lineEnd_notMem_line (hc : isWhitespace c) (hblank : c ≠ ' ')
    (pin : IpAddr × Gateway) : c ∉ line pin := by
  rw [line, mem_append, mem_cons]
  rintro (h | h | h)
  · exact notMem_of_isWhitespace (fun _ hd => isWhitespace_of_mem_print hd) hc h
  · exact hblank h
  · exact notMem_of_isWhitespace (fun _ hd => isWhitespace_of_mem_gateway hd) hc h

theorem load_file (pinned : PinJournal) : load (file pinned) = pinned := by
  rw [file]
  by_cases hempty : pinned.isEmpty
  · rw [if_pos hempty, load]
    exact (Std.ExtTreeMap.isEmpty_iff.mp hempty).symm
  · rw [if_neg hempty, load]
    have hlines : lines (pinned.toList.flatMap fun pin => line pin ++ ['\n']) =
        pinned.toList.map line := by
      have hwritten : (pinned.toList.flatMap fun pin => line pin ++ ['\n']) =
          (pinned.toList.map line).flatMap (· ++ ['\n']) := by rw [flatMap_map]
      rw [hwritten, lines_flatMap]
      intro l hl
      obtain ⟨pin, -, rfl⟩ := mem_map.mp hl
      exact ⟨lineEnd_notMem_line (by decide) (by decide) pin,
        lineEnd_notMem_line (by decide) (by decide) pin⟩
    have htrim : (pinned.toList.map line).map trim = pinned.toList.map line := by
      simp [map_map, Function.comp_def, trim_line]
    have hfilter : (pinned.toList.map line).filter (· ≠ []) = pinned.toList.map line := by
      rw [filter_eq_self]
      intro l hl
      obtain ⟨pin, -, rfl⟩ := mem_map.mp hl
      simp [line]
    have hparse : (pinned.toList.map line).filterMap parseLine = pinned.toList := by
      simp [parseLine_line]
    rw [hlines, htrim, hfilter, hparse, MapPatch.insertAll_toList]

end PinJournal

end Nqvpn
