import Mathlib.Data.Prod.Lex
import Mathlib.Data.Nat.Digits.Lemmas

/-!
# Node ids, roles, addresses and prefixes

The vocabulary every other part of the model shares. Addresses are bit vectors
of their family's width; a prefix carries a length its family allows.
-/

namespace Nqvpn

abbrev NodeId := Nat

/-- `u32::MAX`, the largest node id. -/
def maxNodeId : NodeId := 2 ^ 32 - 1

/-- `u64::saturating_add`. -/
def satAdd (a b : Nat) : Nat := min (a + b) (2 ^ 64 - 1)

inductive Role
  | client
  | relay
deriving DecidableEq, Repr

inductive IpAddr
  | v4 (addr : BitVec 32)
  | v6 (addr : BitVec 128)
deriving DecidableEq, Repr

inductive IpNet
  | v4 (addr : BitVec 32) (prefixLen : Fin 33)
  | v6 (addr : BitVec 128) (prefixLen : Fin 129)
deriving DecidableEq, Repr

namespace IpNet

def prefixLen : IpNet → Nat
  | v4 _ len => len
  | v6 _ len => len

def addr : IpNet → IpAddr
  | v4 a _ => .v4 a
  | v6 a _ => .v6 a

/-- The bits of an address of width `w` that a prefix of length `len` fixes. -/
def mask {w : Nat} (a : BitVec w) (len : Nat) : BitVec w := (a >>> (w - len)) <<< (w - len)

def trunc : IpNet → IpNet
  | v4 a len => .v4 (mask a len) len
  | v6 a len => .v6 (mask a len) len

def containsAddr : IpNet → IpAddr → Bool
  | v4 a len, .v4 b => mask a len == mask b len
  | v6 a len, .v6 b => mask a len == mask b len
  | _, _ => false

def host : IpAddr → IpNet
  | .v4 a => v4 a 32
  | .v6 a => v6 a 128

def isDefault (n : IpNet) : Bool := n.prefixLen == 0

def prefixOrder : IpNet → Nat ×ₗ Nat ×ₗ Nat
  | v4 a len => toLex (4, toLex (a.toNat, len))
  | v6 a len => toLex (6, toLex (a.toNat, len))

theorem prefixOrder_injective : Function.Injective prefixOrder := by
  intro p q h
  cases p with
  | v4 a len =>
    cases q with
    | v4 b len' =>
      simp only [prefixOrder, EmbeddingLike.apply_eq_iff_eq, Prod.mk.injEq, true_and] at h
      rw [BitVec.eq_of_toNat_eq h.1, Fin.ext h.2]
    | v6 b len' => simp [prefixOrder] at h
  | v6 a len =>
    cases q with
    | v4 b len' => simp [prefixOrder] at h
    | v6 b len' =>
      simp only [prefixOrder, EmbeddingLike.apply_eq_iff_eq, Prod.mk.injEq, true_and] at h
      rw [BitVec.eq_of_toNat_eq h.1, Fin.ext h.2]

end IpNet

/-- The textual form of prefixes, as the address library prints and parses it. -/
structure IpNetText where
  render : IpNet → String
  parse : String → Option IpNet
  parse_render : ∀ n, parse (render n) = some n

theorem IpNetText.render_injective (text : IpNetText) : Function.Injective text.render := by
  intro m n h
  have hm := text.parse_render m
  rw [h, text.parse_render, Option.some.injEq] at hm
  exact hm.symm

/-! ### A textual form to evaluate the model with: one character per byte -/

namespace IpNetText

def toChars (family : Char) (addr len : Nat) : List Char :=
  family :: Char.ofNat len :: (Nat.digits 256 addr).map Char.ofNat

def addrOfChars (cs : List Char) : Nat := Nat.ofDigits 256 (cs.map Char.toNat)

theorem toNat_ofNat {n : Nat} (h : n < 256) : (Char.ofNat n).toNat = n := by
  have hv : n.isValidChar := .inl (by omega)
  rw [Char.ofNat, dif_pos hv]
  rfl

theorem addrOfChars_digits (a : Nat) : addrOfChars ((Nat.digits 256 a).map Char.ofNat) = a := by
  rw [addrOfChars, List.map_map, List.map_congr_left (g := id), List.map_id, Nat.ofDigits_digits]
  intro d hd
  exact toNat_ofNat (Nat.digits_lt_base (by decide) hd)

def byteText : IpNetText where
  render
    | .v4 a len => String.ofList (toChars '4' a.toNat len)
    | .v6 a len => String.ofList (toChars '6' a.toNat len)
  parse s :=
    match s.toList with
    | '4' :: len :: cs =>
      if h : len.toNat < 33 then some (.v4 (BitVec.ofNat 32 (addrOfChars cs)) ⟨len.toNat, h⟩)
      else none
    | '6' :: len :: cs =>
      if h : len.toNat < 129 then some (.v6 (BitVec.ofNat 128 (addrOfChars cs)) ⟨len.toNat, h⟩)
      else none
    | _ => none
  parse_render n := by
    cases n with
    | v4 a len | v6 a len =>
      have hlen : (Char.ofNat len).toNat = len := toNat_ofNat (by omega)
      simp [toChars, hlen, addrOfChars_digits]

end IpNetText

end Nqvpn
