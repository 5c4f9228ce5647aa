import Mathlib.Data.Nat.Digits.Lemmas
import Mathlib.Data.String.Basic
import Mathlib.Logic.Encodable.Basic
import Mathlib.Logic.Equiv.List

/-!
# Values as bytes

Every encodable value has a writing as bytes: a zero byte, then the digits of its
number in base 256. Models that take a codec as a parameter are evaluated with it.
-/

namespace ByteCoding

open Encodable

instance encodableChar : Encodable Char :=
  ofLeftInjection Char.toNat (fun n => some (Char.ofNat n)) (by simp)

instance encodableString : Encodable String :=
  ofLeftInjection String.toList (fun cs => some (String.ofList cs)) (by simp)

instance encodableByte : Encodable UInt8 :=
  ofLeftInjection UInt8.toNat (fun n => some (UInt8.ofNat n)) (by simp)

variable {α : Type*} [Encodable α]

def print (v : α) : List UInt8 := 0 :: (Nat.digits 256 (encode v)).map UInt8.ofNat

def parse : List UInt8 → Option α
  | 0 :: bytes => decode (Nat.ofDigits 256 (bytes.map UInt8.toNat))
  | _ => none

theorem parse_print (v : α) : parse (print v) = some v := by
  have hdigits : ((Nat.digits 256 (encode v)).map UInt8.ofNat).map UInt8.toNat =
      Nat.digits 256 (encode v) := by
    rw [List.map_map]
    conv_rhs => rw [← List.map_id (Nat.digits 256 (encode v))]
    refine List.map_congr_left fun d hd => ?_
    have hlt : d < 256 := Nat.digits_lt_base (by decide) hd
    change d % 2 ^ 8 = d
    omega
  rw [print, parse, hdigits, Nat.ofDigits_digits, encodek]

end ByteCoding
