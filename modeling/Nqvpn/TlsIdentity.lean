import Mathlib.Data.List.Infix
import Mathlib.Logic.Function.Basic

/-!
# The TLS identity in the state directory

Certificate and key are two files, replaced one after the other, each by a rename. They are read back
without asking whether they belong together. So a key that parses must never be beside another pair's
certificate, and that includes the instant between the two renames.
-/

namespace Nqvpn

inductive IdentityFile
  | cert
  | key
deriving DecidableEq, Repr

structure TlsIdentity where
  certDer : List UInt8
  keyDer : List UInt8
deriving DecidableEq, Repr

/-- `tls.crt` and `tls.key`, and the temporary file of each. -/
structure StateDir where
  file : IdentityFile → Option (List UInt8)
  tmp : IdentityFile → Option (List UInt8)

namespace StateDir

variable (d : StateDir) (f : IdentityFile) (bytes : List UInt8)

def withTmp (content : Option (List UInt8)) : StateDir := { d with tmp := Function.update d.tmp f content }

def renamed : StateDir := { d.withTmp f none with file := Function.update d.file f (some bytes) }

/-- `write_atomic`: the directory after each of its steps. -/
def writeAtomic : List StateDir :=
  d.withTmp f none :: (bytes.inits.map fun part => d.withTmp f (some part)) ++ [d.renamed f bytes]

theorem file_of_mem_writeAtomic {d' : StateDir} (h : d' ∈ d.writeAtomic f bytes) :
    d'.file = d.file ∨ d'.file = (d.renamed f bytes).file := by
  simp only [writeAtomic, List.cons_append, List.mem_cons, List.mem_append, List.mem_map,
    List.not_mem_nil, or_false] at h
  rcases h with rfl | ⟨part, -, rfl⟩ | rfl
  · exact .inl rfl
  · exact .inl rfl
  · exact .inr rfl

end StateDir

namespace TlsIdentity

section
-- Which bytes parse as a private key, and which certificates and keys belong together.
variable (keyParses : List UInt8 → Bool) (belongs : TlsIdentity → Prop)

def fromDer (cert key : List UInt8) : Option TlsIdentity :=
  if cert.isEmpty then none else if keyParses key then some ⟨cert, key⟩ else none

def load (d : StateDir) : Option TlsIdentity :=
  (d.file .cert).bind fun cert => (d.file .key).bind fun key => fromDer keyParses cert key

/-- The directory after each step, and at the end, and what is returned. `made` is the pair that is
generated. -/
def loadOrCreate (d : StateDir) (made : TlsIdentity) : List StateDir × StateDir × TlsIdentity :=
  match load keyParses d with
  | some id => ([d], d, id)
  | none =>
    let d' := d.renamed .cert made.certDer
    (d :: (d.writeAtomic .cert made.certDer ++ d'.writeAtomic .key made.keyDer),
      d'.renamed .key made.keyDer, made)

def Generated (made : TlsIdentity) : Prop :=
  belongs made ∧ fromDer keyParses made.certDer made.keyDer = some made

/-- Calls one after another, each to its end or to a crash, and the identities they return. -/
inductive Calls (start : StateDir) : StateDir → List TlsIdentity → Prop
  | start : Calls start start []
  | crash {d d' : StateDir} {ids : List TlsIdentity} {made : TlsIdentity} (before : Calls start d ids)
    (generated : Generated keyParses belongs made) (at_ : d' ∈ (loadOrCreate keyParses d made).1) :
    Calls start d' ids
  | returns {d : StateDir} {ids : List TlsIdentity} {made : TlsIdentity} (before : Calls start d ids)
    (generated : Generated keyParses belongs made) :
    Calls start (loadOrCreate keyParses d made).2.1 ((loadOrCreate keyParses d made).2.2 :: ids)

/-- A key that parses is beside its certificate. -/
def Paired (d : StateDir) : Prop :=
  ∀ key, d.file .key = some key → keyParses key →
    ∃ cert, d.file .cert = some cert ∧ cert ≠ [] ∧ belongs ⟨cert, key⟩

end

variable {keyParses : List UInt8 → Bool} {belongs : TlsIdentity → Prop} {start d d' : StateDir}
  {id made : TlsIdentity} {ids : List TlsIdentity}

theorem Paired.load (h : Paired keyParses belongs d) (hload : load keyParses d = some id) : belongs id := by
  obtain ⟨cert, hcert, hload⟩ := Option.bind_eq_some_iff.mp hload
  obtain ⟨key, hkey, hload⟩ := Option.bind_eq_some_iff.mp hload
  unfold fromDer at hload
  split_ifs at hload with hne hparses
  cases hload
  obtain ⟨cert', hcert', -, hbelongs⟩ := h key hkey hparses
  cases hcert.symm.trans hcert'
  exact hbelongs

theorem Paired.unparsed (h : Paired keyParses belongs d) (hload : TlsIdentity.load keyParses d = none)
    {key : List UInt8} (hkey : d.file .key = some key) : ¬ keyParses key := by
  intro hparses
  obtain ⟨cert, hcert, hne, -⟩ := h key hkey hparses
  simp [TlsIdentity.load, hcert, hkey, fromDer, hne, hparses] at hload

theorem Generated.paired (h : Generated keyParses belongs made) (hcert : d.file .cert = some made.certDer)
    (hkey : d.file .key = some made.keyDer) :
    Paired keyParses belongs d ∧ TlsIdentity.load keyParses d = some made := by
  refine ⟨fun key hkey' _ => ⟨made.certDer, hcert, ?_, ?_⟩, ?_⟩
  · intro hne
    have hnone := h.2
    simp [fromDer, hne] at hnone
  · cases hkey.symm.trans hkey'
    exact h.1
  · rw [TlsIdentity.load, hcert, hkey]
    exact h.2

/-- The new certificate is written while no key parses. -/
theorem Paired.crash (h : Paired keyParses belongs d) (hmade : Generated keyParses belongs made)
    (hload : TlsIdentity.load keyParses d = none) (hd' : d' ∈ (loadOrCreate keyParses d made).1) :
    Paired keyParses belongs d' := by
  have hof {d' : StateDir} (hfile : d'.file .key = d.file .key) : Paired keyParses belongs d' :=
    fun key hkey hparses => absurd hparses (h.unparsed hload (hfile ▸ hkey))
  rw [loadOrCreate, hload] at hd'
  rcases List.mem_cons.mp hd' with rfl | hd'
  · exact h
  rcases List.mem_append.mp hd' with hd' | hd' <;>
    rcases StateDir.file_of_mem_writeAtomic _ _ _ hd' with hfile | hfile
  · exact hof (congrFun hfile _)
  · exact hof (congrFun hfile _)
  · exact hof (congrFun hfile _)
  · exact (hmade.paired (congrFun hfile _) (congrFun hfile _)).1

theorem Calls.loaded (hstart : Paired keyParses belongs start) (h : Calls keyParses belongs start d ids) :
    Paired keyParses belongs d ∧ ∀ id ∈ ids, load keyParses d = some id := by
  induction h with
  | start => exact ⟨hstart, nofun⟩
  | @crash d d' ids made _ hmade hd' ih =>
    obtain ⟨hpaired, hloaded⟩ := ih
    cases hload : load keyParses d with
    | some id =>
      rw [loadOrCreate, hload, List.mem_singleton] at hd'
      exact hd' ▸ ⟨hpaired, hloaded⟩
    | none =>
      refine ⟨hpaired.crash hmade hload hd', fun id hid => ?_⟩
      cases hload.symm.trans (hloaded id hid)
  | @returns d ids made _ hmade ih =>
    obtain ⟨hpaired, hloaded⟩ := ih
    cases hload : load keyParses d with
    | some id =>
      simp only [loadOrCreate, hload]
      exact ⟨hpaired, List.forall_mem_cons.mpr ⟨rfl, fun id' hid => hload ▸ hloaded id' hid⟩⟩
    | none =>
      simp only [loadOrCreate, hload]
      obtain ⟨hnew, hmine⟩ := hmade.paired (d := (d.renamed .cert made.certDer).renamed .key made.keyDer) rfl rfl
      refine ⟨hnew, List.forall_mem_cons.mpr ⟨hmine, fun id hid => ?_⟩⟩
      cases hload.symm.trans (hloaded id hid)

/-- From a directory in which a key that parses is beside its certificate, whatever crashes: every
identity that is returned is a matching pair, and there is only one. -/
theorem tls_identity_survives_crashes (hstart : Paired keyParses belongs start)
    (h : Calls keyParses belongs start d ids) :
    (∀ id ∈ ids, belongs id) ∧ ∀ id ∈ ids, ∀ id' ∈ ids, id = id' := by
  obtain ⟨hpaired, hloaded⟩ := h.loaded hstart
  refine ⟨fun id hid => hpaired.load (hloaded id hid), fun id hid id' hid' => ?_⟩
  exact Option.some.inj ((hloaded id hid).symm.trans (hloaded id' hid'))

namespace IdentityExample

/-- A certificate and a key belong together if they hold the same bytes. -/
def Same (id : TlsIdentity) : Prop := id.certDer = id.keyDer

def parses (key : List UInt8) : Bool := !key.isEmpty

def dir (cert key : Option (List UInt8)) : StateDir := ⟨fun | .cert => cert | .key => key, fun _ => none⟩

theorem generated (b : UInt8) : Generated parses Same ⟨[b], [b]⟩ := ⟨rfl, rfl⟩

end IdentityExample

open IdentityExample in
/-- Two calls on an empty directory. -/
theorem tls_identity_survives_crashes_twice :
    ∃ d ids, Calls parses Same (dir none none) d ids ∧ ids.length = 2 ∧ ∀ id ∈ ids, Same id := by
  have hstart : Paired parses Same (dir none none) := by
    intro key hkey
    cases hkey
  have hcalls : Calls parses Same (dir none none) _ _ :=
    (Calls.start.returns (generated 1)).returns (generated 2)
  exact ⟨_, _, hcalls, rfl, (tls_identity_survives_crashes hstart hcalls).1⟩

open IdentityExample in
/-- The certificate is lost, and the first pair's key is left. A call stops when it has replaced the
certificate, and the next returns what it finds. -/
theorem tls_identity_mixed_after_crash : ∃ d, Calls parses Same (dir none (some [1])) d [⟨[2], [1]⟩] := by
  have hcrash : Calls parses Same (dir none (some [1])) ((dir none (some [1])).renamed .cert [2]) [] :=
    Calls.start.crash (generated 2) (by simp [loadOrCreate, load, dir, StateDir.writeAtomic])
  exact ⟨_, hcrash.returns (generated 3)⟩

end TlsIdentity

end Nqvpn
