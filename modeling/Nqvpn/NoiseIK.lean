import Nqvpn.ByteCoding
import Mathlib.Tactic.DeriveEncodable

/-!
# Ideal Noise IK

The handshake pattern IK and its transport messages as symbolic terms. A party
reads a message only if it was made for exactly the keys, the prologue and the
transcript the party holds; everything else fails to authenticate. The keys of a
transcript are as secret as the static keys in it: someone who holds neither of
the two static keys can pass on a message of it, but not make one.

`K` is the type of static public keys, `P` of prologues, `T` of the payload the
first message carries. Ephemeral keys are drawn fresh and are numbered.
-/

namespace NoiseIK

/-- The first message, sent by the initiator. -/
structure Initiation (K P T : Type) where
  initiator : K
  responder : K
  prologue : P
  payload : T
  ephemeral : Nat
deriving DecidableEq, Repr

/-- A completed handshake: the first message, and the responder's ephemeral. It
is also what the second message consists of. -/
structure Transcript (K P T : Type) where
  first : Initiation K P T
  ephemeral : Nat
deriving DecidableEq, Repr

/-- A transport message under the keys of a transcript. -/
structure Sealed (K P T : Type) where
  transcript : Transcript K P T
  fromInitiator : Bool
  counter : Nat
  plaintext : List UInt8
deriving DecidableEq, Repr

inductive Message (K P T : Type)
  | initiation (m : Initiation K P T)
  | reply (t : Transcript K P T)
  | sealed (c : Sealed K P T)
deriving DecidableEq, Repr

def maxMessage : Nat := 65535
def tagLen : Nat := 16

variable {K P T : Type}

section Reading

variable [DecidableEq K] [DecidableEq P] [DecidableEq T]

/-- The responder with static key `me` reads a first message. -/
def readInitiation (me : K) (prologue : P) : Option (Message K P T) → Option (Initiation K P T)
  | some (.initiation m) => if m.responder = me ∧ m.prologue = prologue then some m else none
  | _ => none

/-- The initiator that sent `first` reads the reply. -/
def readReply (first : Initiation K P T) : Option (Message K P T) → Option (Transcript K P T)
  | some (.reply t) => if t.first = first then some t else none
  | _ => none

/-- A party of the transcript opens what the other side sealed under `counter`. -/
def unlock (t : Transcript K P T) (fromInitiator : Bool) (counter : Nat) :
    Option (Message K P T) → Option (List UInt8)
  | some (.sealed c) =>
    if c.transcript = t ∧ c.fromInitiator = fromInitiator ∧ c.counter = counter ∧
        c.plaintext.length + tagLen ≤ maxMessage then some c.plaintext
    else none
  | _ => none

variable {msg : Option (Message K P T)}

omit [DecidableEq T] in
theorem readInitiation_eq_some {me : K} {prologue : P}
    {m : Initiation K P T} : readInitiation me prologue msg = some m ↔
      msg = some (.initiation m) ∧ m.responder = me ∧ m.prologue = prologue := by
  unfold readInitiation
  split
  · rename_i m'
    constructor
    · intro h
      split_ifs at h with hm
      cases h
      exact ⟨rfl, hm⟩
    · rintro ⟨h, hm⟩
      cases h
      rw [if_pos hm]
  · rename_i hne
    exact ⟨fun h => (nomatch h), fun h => absurd h.1 (hne m)⟩

theorem readReply_eq_some {first : Initiation K P T}
    {t : Transcript K P T} :
    readReply first msg = some t ↔ msg = some (.reply t) ∧ t.first = first := by
  unfold readReply
  split
  · rename_i t'
    constructor
    · intro h
      split_ifs at h with ht
      cases h
      exact ⟨rfl, ht⟩
    · rintro ⟨h, ht⟩
      cases h
      rw [if_pos ht]
  · rename_i hne
    exact ⟨fun h => (nomatch h), fun h => absurd h.1 (hne t)⟩

theorem unlock_eq_some {t : Transcript K P T} {fromInitiator : Bool} {counter : Nat} {plaintext : List UInt8} :
    unlock t fromInitiator counter msg = some plaintext ↔
      msg = some (.sealed ⟨t, fromInitiator, counter, plaintext⟩) ∧
        plaintext.length + tagLen ≤ maxMessage := by
  unfold unlock
  split
  · rename_i c
    constructor
    · intro h
      split_ifs at h with hc
      obtain ⟨rfl, rfl, rfl, hlen⟩ := hc
      cases h
      exact ⟨rfl, hlen⟩
    · rintro ⟨h, hlen⟩
      cases h
      rw [if_pos ⟨rfl, rfl, rfl, hlen⟩]
  · rename_i hne
    exact ⟨fun h => (nomatch h), fun h => absurd h.1 (hne _)⟩

end Reading

/-! ### What an attacker can make -/

def Message.first : Message K P T → Initiation K P T
  | initiation m => m
  | reply t => t.first
  | sealed c => c.transcript.first

/-- Someone who holds the private keys of `bad` can make this message. -/
def Message.forgeable (bad : K → Bool) (m : Message K P T) : Bool :=
  bad m.first.initiator || bad m.first.responder

/-! ### Messages as bytes -/

/-- How messages are written as bytes. Bytes that are not the writing of a message
authenticate nowhere. -/
structure Codec (K P T : Type) where
  write : Message K P T → List UInt8
  read : List UInt8 → Option (Message K P T)
  read_write : ∀ m, read (write m) = some m

deriving instance Encodable for Initiation

deriving instance Encodable for Transcript

deriving instance Encodable for Sealed

deriving instance Encodable for Message

def Codec.numbering [Encodable K] [Encodable P] [Encodable T] : Codec K P T where
  write := ByteCoding.print
  read := ByteCoding.parse
  read_write := ByteCoding.parse_print

end NoiseIK
