import Nqvpn.Addressing
import Nqvpn.TextScan

/-!
# The text of addresses

How the standard library prints an address and reads it back: octets in decimal; segments in
hexadecimal with the first longest run of zeros left out; an embedded v4 address in the last two
segments. What is printed is read back as the address it came from.
-/

namespace Nqvpn.IpText

open TextScan List

/-! ### Places of a number -/

/-- The lowest `w` places of `n`, highest first. -/
def places (base : Nat) : Nat → Nat → List Nat
  | 0, _ => []
  | w + 1, n => places base w (n / base) ++ [n % base]

def ofPlaces (base : Nat) (ds : List Nat) : Nat := ds.foldl (fun acc d => base * acc + d) 0

@[simp] theorem length_places (base w n : Nat) : (places base w n).length = w := by
  induction w generalizing n with
  | zero => rfl
  | succ w ih => simp [places, ih]

theorem ofPlaces_concat (base : Nat) (ds : List Nat) (d : Nat) :
    ofPlaces base (ds ++ [d]) = base * ofPlaces base ds + d := by
  simp [ofPlaces, foldl_append]

theorem ofPlaces_places {base w n : Nat} (h : n < base ^ w) : ofPlaces base (places base w n) = n := by
  induction w generalizing n with
  | zero =>
    have hn : n = 0 := by simpa using h
    rw [hn]
    rfl
  | succ w ih =>
    have hdiv : n / base < base ^ w := by
      refine Nat.div_lt_of_lt_mul ?_
      rwa [pow_succ, Nat.mul_comm] at h
    rw [places, ofPlaces_concat, ih hdiv, Nat.div_add_mod]

theorem lt_of_mem_places {base w n d : Nat} (hb : 0 < base) (hd : d ∈ places base w n) : d < base := by
  induction w generalizing n with
  | zero => cases hd
  | succ w ih =>
    rw [places, mem_append, mem_singleton] at hd
    rcases hd with hd | hd
    · exact ih hd
    · rw [hd]
      exact Nat.mod_lt n hb

theorem places_add (base w v n : Nat) :
    places base (w + v) n = places base w (n / base ^ v) ++ places base v n := by
  induction v generalizing n with
  | zero => simp [places]
  | succ v ih =>
    rw [← Nat.add_assoc, places, ih, places, Nat.div_div_eq_div_mul, ← pow_succ', append_assoc]

/-! ### Printing -/

def octets (a : BitVec 32) : List Nat := places (2 ^ 8) 4 a.toNat

def segments (a : BitVec 128) : List Nat := places (2 ^ 16) 8 a.toNat

def printGroups (radix : Nat) (sep : Char) : List Nat → List Char
  | [] => []
  | g :: gs => Nat.toDigits radix g ++ gs.flatMap fun g => sep :: Nat.toDigits radix g

def printV4 (a : BitVec 32) : List Char := printGroups 10 '.' (octets a)

structure Span where
  start : Nat
  len : Nat
deriving DecidableEq, Repr

/-- Scans the segments from the `i`-th on for the first longest run of zeros. -/
def scanZeros (longest current : Span) (i : Nat) : List Nat → Span
  | [] => longest
  | segment :: rest =>
    if segment = 0 then
      let current : Span := ⟨if current.len = 0 then i else current.start, current.len + 1⟩
      scanZeros (if longest.len < current.len then current else longest) current (i + 1) rest
    else scanZeros longest ⟨0, 0⟩ (i + 1) rest

def zeroRun (segments : List Nat) : Span := scanZeros ⟨0, 0⟩ ⟨0, 0⟩ 0 segments

def printSegments (segments : List Nat) : List Char :=
  let zeros := zeroRun segments
  if 1 < zeros.len then
    printGroups 16 ':' (segments.take zeros.start) ++ ':' :: ':' ::
      printGroups 16 ':' (segments.drop (zeros.start + zeros.len))
  else printGroups 16 ':' segments

def printV6 (a : BitVec 128) : List Char :=
  -- A v4-mapped address shows its v4 address.
  if a.toNat / 2 ^ 32 = 0xffff then "::ffff:".toList ++ printV4 (BitVec.ofNat 32 a.toNat)
  else printSegments (segments a)

def print : IpAddr → List Char
  | .v4 a => printV4 a
  | .v6 a => printV6 a

/-! ### Parsing -/

def readSeparator {α : Type} (sep : Char) (index : Nat) (inner : List Char → Option (α × List Char))
    (s : List Char) : Option (α × List Char) :=
  if 0 < index then
    match s with
    | c :: rest => if c = sep then inner rest else none
    | [] => none
  else inner s

def readOctets : Nat → Nat → List Char → Option (List Nat × List Char)
  | 0, _, s => some ([], s)
  | left + 1, i, s => do
    let (g, s) ← readSeparator '.' i (readNumber 10 3 false (2 ^ 8)) s
    let (gs, s) ← readOctets left (i + 1) s
    return (g :: gs, s)

def readIpv4 (s : List Char) : Option (List Nat × List Char) := readOctets 4 0 s

/-- At most `left` segments, from the `i`-th on. The flag says that the last two were given as an
embedded v4 address, which is tried first wherever two segments are left. -/
def readGroups : Nat → Nat → List Char → List Nat × Bool × List Char
  | 0, _, s => ([], false, s)
  | left + 1, i, s =>
    match if 0 < left then readSeparator ':' i readIpv4 s else none with
    | some (v4, rest) => (places (2 ^ 16) 2 (ofPlaces (2 ^ 8) v4), true, rest)
    | none =>
      match readSeparator ':' i (readNumber 16 4 true (2 ^ 16)) s with
      | none => ([], false, s)
      | some (g, rest) =>
        let (gs, v4, rest) := readGroups left (i + 1) rest
        (g :: gs, v4, rest)

def readIpv6 (s : List Char) : Option (List Nat × List Char) :=
  let (head, headIpv4, s) := readGroups 8 0 s
  if head.length = 8 then some (head, s)
  else if headIpv4 then none
  else
    match s with
    | ':' :: ':' :: s =>
      let (tail, _, s) := readGroups (8 - (head.length + 1)) 0 s
      some (head ++ replicate (8 - head.length - tail.length) 0 ++ tail, s)
    | _ => none

def parse (s : List Char) : Option IpAddr :=
  let read : Option (IpAddr × List Char) :=
    match readIpv4 s with
    | some (gs, rest) => some (.v4 (BitVec.ofNat 32 (ofPlaces (2 ^ 8) gs)), rest)
    | none => (readIpv6 s).map fun (gs, rest) => (.v6 (BitVec.ofNat 128 (ofPlaces (2 ^ 16) gs)), rest)
  match read with
  | some (ip, []) => some ip
  | _ => none

/-! ### Reading what was printed -/

def Clear (radix : Nat) (s : List Char) : Prop := ∀ c, s.head? = some c → isDigit radix c = false

theorem clear_nil (radix : Nat) : Clear radix [] := by
  rintro c ⟨⟩

variable {s : List Char} {c : Char} {radix : Nat}

theorem clear_cons (hc : isDigit radix c = false) :
    Clear radix (c :: s) := by
  rintro d hd
  rw [head?_cons, Option.some.injEq] at hd
  rwa [← hd]

variable {rest : List Char} {gs : List Nat} {sep : Char}

theorem clear_flatMap_append (hsep : isDigit radix sep = false) (hrest : Clear radix rest) :
    Clear radix ((gs.flatMap fun g => sep :: Nat.toDigits radix g) ++ rest) := by
  cases gs with
  | nil => exact hrest
  | cons g gs => exact clear_cons hsep

theorem readSeparator_cons {α : Type} {i : Nat} {inner : List Char → Option (α × List Char)} : readSeparator sep (i + 1) inner (sep :: s) = inner s := by
  simp [readSeparator]

theorem readSeparator_eq_none {α : Type} {i : Nat}
    {inner : List Char → Option (α × List Char)} (hs : s.head? ≠ some sep) :
    readSeparator sep (i + 1) inner s = none := by
  cases s with
  | nil => rfl
  | cons c s =>
    rw [head?_cons, ne_eq, Option.some.injEq] at hs
    simp [readSeparator, hs]

variable {g : Nat}

theorem readOctet_toDigits (hg : g < 2 ^ 8) (hrest : Clear 10 rest) :
    readNumber 10 3 false (2 ^ 8) (Nat.toDigits 10 g ++ rest) = some (g, rest) :=
  readNumber_toDigits (by decide) (by decide) hg (by omega) (by decide) hrest

theorem readOctets_flatMap (hgs : ∀ g ∈ gs, g < 2 ^ 8)
    (hrest : Clear 10 rest) (i : Nat) :
    readOctets gs.length (i + 1) ((gs.flatMap fun g => '.' :: Nat.toDigits 10 g) ++ rest) =
      some (gs, rest) := by
  induction gs generalizing i with
  | nil => rfl
  | cons g gs ih =>
    have hg := hgs g mem_cons_self
    have hgs' : ∀ g' ∈ gs, g' < 2 ^ 8 := fun g' hg' => hgs g' (mem_cons_of_mem g hg')
    rw [flatMap_cons, cons_append, cons_append, append_assoc, length_cons,
      readOctets, readSeparator_cons, readOctet_toDigits hg (clear_flatMap_append (by decide) hrest)]
    simp [ih hgs']

theorem readIpv4_printGroups (hlen : gs.length = 4) (hgs : ∀ g ∈ gs, g < 2 ^ 8) (hrest : Clear 10 rest) :
    readIpv4 (printGroups 10 '.' gs ++ rest) = some (gs, rest) := by
  cases gs with
  | nil => cases hlen
  | cons g gs =>
    have hg := hgs g mem_cons_self
    have htail := readOctets_flatMap (fun g' hg' => hgs g' (mem_cons_of_mem g hg')) hrest 0
    rw [length_cons, Nat.add_right_cancel_iff] at hlen
    rw [hlen] at htail
    rw [printGroups, append_assoc, readIpv4, readOctets]
    simp only [readSeparator, lt_irrefl, if_false]
    rw [readOctet_toDigits hg (clear_flatMap_append (by decide) hrest)]
    simp [htail]

theorem readIpv4_eq_none (hs : (s.dropWhile (isDigit 10)).head? ≠ some '.') :
    readIpv4 s = none := by
  rw [readIpv4, readOctets]
  simp only [readSeparator, lt_irrefl, if_false]
  cases hread : readNumber 10 3 false (2 ^ 8) s with
  | none => rfl
  | some r =>
    have hrest : r.2 = s.dropWhile (isDigit 10) := by
      rw [readNumber] at hread
      split_ifs at hread
      rw [Option.some.injEq] at hread
      rw [← hread]
    rw [← hrest] at hs
    simp [readOctets, readSeparator_eq_none hs]

theorem readIpv4_toDigits_eq_none (hclear : Clear 10 rest)
    (hdot : rest.head? ≠ some '.') : readIpv4 (Nat.toDigits 16 g ++ rest) = none := by
  apply readIpv4_eq_none
  have hrest : rest.dropWhile (isDigit 10) = rest := by
    cases rest with
    | nil => rfl
    | cons c rest => simp [hclear c rfl]
  rw [dropWhile_append]
  split
  · rwa [hrest]
  · rename_i hne
    intro h
    have hmem : '.' ∈ (Nat.toDigits 16 g).dropWhile (isDigit 10) := by
      refine mem_of_head? ?_
      rwa [head?_append_of_ne_nil] at h
      simpa using hne
    have hdigit := isDigit_of_mem_toDigits (by decide) (by decide)
      ((dropWhile_sublist _).subset hmem)
    revert hdigit
    decide

theorem readGroup_toDigits (hg : g < 2 ^ 16) (hrest : Clear 16 rest) :
    readNumber 16 4 true (2 ^ 16) (Nat.toDigits 16 g ++ rest) = some (g, rest) :=
  readNumber_toDigits (by decide) (by decide) hg (by omega) (by decide) hrest

def AtColon (s : List Char) : Prop := ∀ c, s.head? = some c → c = ':'

theorem AtColon.clear (h : AtColon s)
    (hradix : isDigit radix ':' = false) : Clear radix s := by
  intro c hc
  rw [h c hc]
  exact hradix

theorem AtColon.no_dot (h : AtColon s) : s.head? ≠ some '.' := by
  intro hdot
  exact absurd (h '.' hdot) (by decide)

theorem atColon_nil : AtColon [] := by
  rintro c ⟨⟩

theorem atColon_cons (s : List Char) : AtColon (':' :: s) := by
  rintro c hc
  rw [head?_cons, Option.some.injEq] at hc
  exact hc.symm

theorem atColon_flatMap_append (hrest : AtColon rest) :
    AtColon ((gs.flatMap fun g => ':' :: Nat.toDigits 16 g) ++ rest) := by
  cases gs with
  | nil => exact hrest
  | cons g gs => exact atColon_cons _

section
variable {left i g : Nat} {rest : List Char} {s : List Char}

theorem readGroups_stop (hv4 : readSeparator ':' i readIpv4 s = none)
    (hgroup : readSeparator ':' i (readNumber 16 4 true (2 ^ 16)) s = none) :
    readGroups left i s = ([], false, s) := by
  cases left with
  | zero => rfl
  | succ left => simp only [readGroups, hv4, hgroup, ite_self]

theorem readGroups_group (hv4 : readSeparator ':' i readIpv4 s = none)
    (hgroup : readSeparator ':' i (readNumber 16 4 true (2 ^ 16)) s = some (g, rest)) :
    readGroups (left + 1) i s =
      (g :: (readGroups left (i + 1) rest).1, (readGroups left (i + 1) rest).2) := by
  simp only [readGroups, hv4, hgroup, ite_self]

theorem readGroups_first (hg : g < 2 ^ 16) (hrest : AtColon rest) :
    readGroups (left + 1) 0 (Nat.toDigits 16 g ++ rest) =
      (g :: (readGroups left 1 rest).1, (readGroups left 1 rest).2) :=
  readGroups_group (readIpv4_toDigits_eq_none (hrest.clear (by decide)) hrest.no_dot)
    (readGroup_toDigits hg (hrest.clear (by decide)))

theorem readGroups_next (hg : g < 2 ^ 16) (hrest : AtColon rest) :
    readGroups (left + 1) (i + 1) (':' :: (Nat.toDigits 16 g ++ rest)) =
      (g :: (readGroups left (i + 2) rest).1, (readGroups left (i + 2) rest).2) := by
  apply readGroups_group
  · exact readIpv4_toDigits_eq_none (hrest.clear (by decide)) hrest.no_dot
  · exact readGroup_toDigits hg (hrest.clear (by decide))

def AtGap (s : List Char) : Prop := s = [] ∨ ∃ t, s = ':' :: ':' :: t

theorem AtGap.atColon (h : AtGap s) : AtColon s := by
  rcases h with rfl | ⟨t, rfl⟩
  · exact atColon_nil
  · exact atColon_cons _

theorem readIpv4_colon (s : List Char) : readIpv4 (':' :: s) = none := by
  apply readIpv4_eq_none
  simp [show isDigit 10 ':' = false by decide]

theorem readGroup_colon (s : List Char) : readNumber 16 4 true (2 ^ 16) (':' :: s) = none :=
  readNumber_eq_none (clear_cons (by decide))

theorem readGroups_atGap (h : AtGap s) (i : Nat) :
    readGroups left i s = ([], false, s) := by
  rcases h with rfl | ⟨t, rfl⟩
  · exact readGroups_stop (by cases i <;> rfl) (by cases i <;> rfl)
  · cases i with
    | zero => exact readGroups_stop (readIpv4_colon (':' :: t)) (readGroup_colon (':' :: t))
    | succ i =>
      apply readGroups_stop
      · rw [readSeparator_cons, readIpv4_colon]
      · rw [readSeparator_cons, readGroup_colon]

theorem readGroups_flatMap {gs : List Nat} (hgs : ∀ g ∈ gs, g < 2 ^ 16) (hlen : gs.length ≤ left)
    (hrest : AtGap rest) (i : Nat) :
    readGroups left (i + 1) ((gs.flatMap fun g => ':' :: Nat.toDigits 16 g) ++ rest) =
      (gs, false, rest) := by
  induction gs generalizing left i with
  | nil => exact readGroups_atGap hrest (i + 1)
  | cons g gs ih =>
    obtain ⟨left, rfl⟩ : ∃ k, left = k + 1 := ⟨left - 1, by simp at hlen; omega⟩
    rw [flatMap_cons, cons_append, cons_append, append_assoc,
      readGroups_next (hgs g mem_cons_self) (atColon_flatMap_append hrest.atColon),
      ih (fun g' hg' => hgs g' (mem_cons_of_mem g hg')) (by simpa using hlen) (i + 1)]

theorem readGroups_printGroups {gs : List Nat} (hgs : ∀ g ∈ gs, g < 2 ^ 16) (hlen : gs.length ≤ left)
    (hrest : AtGap rest) :
    readGroups left 0 (printGroups 16 ':' gs ++ rest) = (gs, false, rest) := by
  cases gs with
  | nil => exact readGroups_atGap hrest 0
  | cons g gs =>
    obtain ⟨left, rfl⟩ : ∃ k, left = k + 1 := ⟨left - 1, by simp at hlen; omega⟩
    rw [printGroups, append_assoc,
      readGroups_first (hgs g mem_cons_self) (atColon_flatMap_append hrest.atColon),
      readGroups_flatMap (fun g' hg' => hgs g' (mem_cons_of_mem g hg')) (by simpa using hlen)
        hrest 0]

end

/-! ### Round trips -/

theorem readIpv6_whole (hgs : ∀ g ∈ gs, g < 2 ^ 16) (hlen : gs.length = 8) :
    readIpv6 (printGroups 16 ':' gs) = some (gs, []) := by
  have hread := readGroups_printGroups hgs hlen.le (.inl rfl : AtGap [])
  rw [append_nil] at hread
  simp [readIpv6, hread, hlen]

theorem readIpv6_gap {pre post : List Nat} (hpre : ∀ g ∈ pre, g < 2 ^ 16)
    (hpost : ∀ g ∈ post, g < 2 ^ 16) (hlen : pre.length + post.length < 8) :
    readIpv6 (printGroups 16 ':' pre ++ ':' :: ':' :: printGroups 16 ':' post) =
      some (pre ++ replicate (8 - pre.length - post.length) 0 ++ post, []) := by
  have hgap : AtGap (':' :: ':' :: printGroups 16 ':' post) := .inr ⟨_, rfl⟩
  have hhead := readGroups_printGroups hpre (show pre.length ≤ 8 by omega) hgap
  have htail := readGroups_printGroups hpost (show post.length ≤ 8 - (pre.length + 1) by omega)
    (.inl rfl : AtGap [])
  rw [append_nil] at htail
  simp only [readIpv6, hhead, htail]
  rw [if_neg (by omega), if_neg Bool.false_ne_true]

/-- The run of zeros that `span` marks in `segments`. -/
def Span.Marks (span : Span) (segments : List Nat) : Prop :=
  span.start + span.len ≤ segments.length ∧
    ∀ j, span.start ≤ j → j < span.start + span.len → segments[j]? = some 0

variable {span : Span}

theorem Span.Marks.append {segments : List Nat} (h : span.Marks segments)
    (more : List Nat) : span.Marks (segments ++ more) := by
  refine ⟨?_, fun j h₁ h₂ => ?_⟩
  · rw [length_append]
    have := h.1
    omega
  · rw [getElem?_append_left (by have := h.1; omega)]
    exact h.2 j h₁ h₂

theorem marks_empty (start : Nat) (segments : List Nat) (h : start ≤ segments.length) :
    Span.Marks ⟨start, 0⟩ segments :=
  ⟨h, fun j h₁ h₂ => absurd h₂ (by simpa using h₁)⟩

theorem Span.Marks.extend {segments : List Nat} (h : span.Marks segments)
    (hend : span.start + span.len = segments.length) :
    Span.Marks ⟨span.start, span.len + 1⟩ (segments ++ [0]) := by
  refine ⟨?_, fun j h₁ h₂ => ?_⟩
  · simp
    omega
  · by_cases hj : j < segments.length
    · rw [getElem?_append_left hj]
      exact h.2 j h₁ (by omega)
    · have hj' : j = segments.length := by
        simp only at h₂
        omega
      simp [hj']

theorem scanZeros_marks {longest current : Span} {before : List Nat} (rest : List Nat)
    (hlongest : longest.Marks before) (hcurrent : current.Marks before)
    (hend : current.len = 0 ∨ current.start + current.len = before.length) :
    (scanZeros longest current before.length rest).Marks (before ++ rest) := by
  induction rest generalizing longest current before with
  | nil => simpa [scanZeros] using hlongest
  | cons segment rest ih =>
    have hassoc : before ++ segment :: rest = before ++ [segment] ++ rest := by simp
    have hlen : before.length + 1 = (before ++ [segment]).length := by simp
    rw [hassoc, scanZeros, hlen]
    by_cases hzero : segment = 0
    · subst hzero
      -- The current run grows by this segment, from here if it was empty.
      have hgrown : Span.Marks
          ⟨if current.len = 0 then before.length else current.start, current.len + 1⟩
          (before ++ [0]) := by
        rcases hend with hend | hend
        · rw [if_pos hend, hend]
          exact (marks_empty before.length before le_rfl).extend rfl
        · split_ifs with h0
          · rw [h0]
            exact (marks_empty before.length before le_rfl).extend rfl
          · exact hcurrent.extend hend
      refine ih ?_ hgrown (.inr ?_)
      · by_cases hlonger : longest.len < current.len + 1
        · rwa [if_pos hlonger]
        · rw [if_neg hlonger]
          exact hlongest.append [0]
      · by_cases h0 : current.len = 0
        · simp [h0]
        · simp [h0]
          omega
    · rw [if_neg hzero]
      exact ih (hlongest.append _) (marks_empty 0 _ (Nat.zero_le _)) (.inl rfl)

theorem zeroRun_marks (segments : List Nat) : (zeroRun segments).Marks segments :=
  have hempty : Span.Marks ⟨0, 0⟩ [] := marks_empty 0 [] le_rfl
  scanZeros_marks segments hempty hempty (.inl rfl)

theorem Span.Marks.split {segments : List Nat} (h : span.Marks segments) :
    segments.take span.start ++ replicate span.len 0 ++ segments.drop (span.start + span.len) =
      segments := by
  have hrun : (segments.drop span.start).take span.len = replicate span.len 0 := by
    apply ext_getElem?
    intro j
    by_cases hj : j < span.len
    · rw [getElem?_take_of_lt hj, getElem?_drop, h.2 _ (by omega) (by omega),
        getElem?_replicate_of_lt hj]
    · rw [getElem?_eq_none (by simp; omega), getElem?_eq_none (by simp; omega)]
  rw [← hrun, append_assoc, ← drop_drop, take_append_drop, take_append_drop]

theorem lt_of_mem_segments {a : BitVec 128} (hg : g ∈ segments a) : g < 2 ^ 16 :=
  lt_of_mem_places (by decide) hg

variable (a : BitVec 128)

theorem length_segments : (segments a).length = 8 := length_places _ _ _

theorem ofPlaces_segments : ofPlaces (2 ^ 16) (segments a) = a.toNat :=
  ofPlaces_places a.isLt

theorem ofPlaces_octets (a : BitVec 32) : ofPlaces (2 ^ 8) (octets a) = a.toNat :=
  ofPlaces_places a.isLt

theorem readIpv4_printV4 (a : BitVec 32) (hrest : Clear 10 rest) :
    readIpv4 (printV4 a ++ rest) = some (octets a, rest) :=
  readIpv4_printGroups (length_places _ _ _) (fun _ hg => lt_of_mem_places (by decide) hg) hrest

theorem segments_mapped {a : BitVec 128} (h : a.toNat / 2 ^ 32 = 0xffff) :
    segments a = replicate 5 0 ++ [0xffff] ++
      places (2 ^ 16) 2 (ofPlaces (2 ^ 8) (octets (BitVec.ofNat 32 a.toNat))) := by
  have hhigh : places (2 ^ 16) 6 0xffff = replicate 5 0 ++ [0xffff] := by decide
  have hlow : places (2 ^ 16) 2 (a.toNat % 2 ^ 32) = places (2 ^ 16) 2 a.toNat := by
    simp only [places, nil_append, singleton_append, cons.injEq, and_true]
    omega
  rw [segments, places_add (2 ^ 16) 6 2, ← pow_mul, h, hhigh, ofPlaces_octets, BitVec.toNat_ofNat,
    hlow]

theorem readIpv6_mapped (b : BitVec 32) :
    readIpv6 ("::ffff:".toList ++ printV4 b) =
      some (replicate 5 0 ++ [0xffff] ++ places (2 ^ 16) 2 (ofPlaces (2 ^ 8) (octets b)), []) := by
  have hdigits : "::ffff:".toList ++ printV4 b =
      ':' :: ':' :: (Nat.toDigits 16 0xffff ++ ':' :: printV4 b) := rfl
  have hhead : readGroups 8 0 (':' :: ':' :: (Nat.toDigits 16 0xffff ++ ':' :: printV4 b)) =
      ([], false, ':' :: ':' :: (Nat.toDigits 16 0xffff ++ ':' :: printV4 b)) :=
    readGroups_atGap (.inr ⟨_, rfl⟩) 0
  have hembedded : readGroups 6 1 (':' :: printV4 b) =
      (places (2 ^ 16) 2 (ofPlaces (2 ^ 8) (octets b)), true, []) := by
    have hread := readIpv4_printV4 b (clear_nil 10)
    rw [append_nil] at hread
    simp [readGroups, readSeparator_cons, hread]
  have htail : readGroups 7 0 (Nat.toDigits 16 0xffff ++ ':' :: printV4 b) =
      (0xffff :: places (2 ^ 16) 2 (ofPlaces (2 ^ 8) (octets b)), true, []) := by
    rw [readGroups_first (by decide) (atColon_cons _), hembedded]
  rw [hdigits, readIpv6, hhead]
  simp only [length_nil, htail]
  simp

theorem readIpv6_printSegments (hgs : ∀ g ∈ gs, g < 2 ^ 16) (hlen : gs.length = 8) :
    readIpv6 (printSegments gs) = some (gs, []) := by
  unfold printSegments
  have hmarks := zeroRun_marks gs
  generalize zeroRun gs = zeros at hmarks
  by_cases hrun : 1 < zeros.len
  · have hbound := hmarks.1
    have hpre : (gs.take zeros.start).length = zeros.start := by
      rw [length_take]
      omega
    have hpost : (gs.drop (zeros.start + zeros.len)).length = 8 - (zeros.start + zeros.len) := by
      rw [length_drop, hlen]
    have hgap : 8 - zeros.start - (8 - (zeros.start + zeros.len)) = zeros.len := by omega
    simp only [if_pos hrun]
    rw [readIpv6_gap (fun g hg => hgs g (mem_of_mem_take hg))
      (fun g hg => hgs g (mem_of_mem_drop hg)) (by omega), hpre, hpost, hgap, hmarks.split]
  · simp only [if_neg hrun]
    exact readIpv6_whole hgs hlen

theorem readIpv6_printV6 : readIpv6 (printV6 a) = some (segments a, []) := by
  rw [printV6]
  by_cases hmapped : a.toNat / 2 ^ 32 = 0xffff
  · rw [if_pos hmapped, readIpv6_mapped, ← segments_mapped hmapped]
  · rw [if_neg hmapped]
    exact readIpv6_printSegments (fun g hg => lt_of_mem_segments hg) (length_segments a)

theorem readIpv4_printGroups_eq_none (hrest : AtColon rest) :
    readIpv4 (printGroups 16 ':' gs ++ rest) = none := by
  cases gs with
  | nil =>
    cases rest with
    | nil => rfl
    | cons c rest =>
      obtain rfl := hrest c rfl
      exact readIpv4_colon rest
  | cons g gs =>
    rw [printGroups, append_assoc]
    have hcolon : AtColon ((gs.flatMap fun g => ':' :: Nat.toDigits 16 g) ++ rest) :=
      atColon_flatMap_append hrest
    exact readIpv4_toDigits_eq_none (hcolon.clear (by decide)) hcolon.no_dot

theorem readIpv4_printV6 : readIpv4 (printV6 a) = none := by
  rw [printV6]
  by_cases hmapped : a.toNat / 2 ^ 32 = 0xffff
  · rw [if_pos hmapped]
    exact readIpv4_colon _
  · rw [if_neg hmapped, printSegments]
    by_cases hrun : 1 < (zeroRun (segments a)).len
    · simp only [if_pos hrun]
      exact readIpv4_printGroups_eq_none (atColon_cons _)
    · simp only [if_neg hrun]
      have hnone : readIpv4 (printGroups 16 ':' (segments a) ++ []) = none :=
        readIpv4_printGroups_eq_none atColon_nil
      rwa [append_nil] at hnone

theorem parse_print (ip : IpAddr) : parse (print ip) = some ip := by
  cases ip with
  | v4 a =>
    have hread := readIpv4_printV4 a (clear_nil 10)
    rw [append_nil] at hread
    simp only [parse, print, hread, ofPlaces_octets, BitVec.ofNat_toNat, BitVec.setWidth_eq]
  | v6 a =>
    simp only [parse, print, readIpv4_printV6, readIpv6_printV6, Option.map_some, ofPlaces_segments,
      BitVec.ofNat_toNat, BitVec.setWidth_eq]

example : print (.v6 0x20010db8000000000000000000000001) = "2001:db8::1".toList := by decide

/-! ### Characters -/

def isAddrChar (c : Char) : Bool := isDigit 16 c || c == '.' || c == ':'

theorem isDigit_mono (h : isDigit 10 c) : isDigit 16 c := by
  simp only [isDigit, toDigit, Option.isSome_ite] at h ⊢
  split_ifs at h ⊢ <;> omega

theorem isAddrChar_of_mem_printGroups
    (hdigit : ∀ g, ∀ d ∈ Nat.toDigits radix g, isAddrChar d) (hsep : isAddrChar sep) (hc : c ∈ printGroups radix sep gs) : isAddrChar c := by
  cases gs with
  | nil => cases hc
  | cons g gs =>
    rw [printGroups, mem_append, mem_flatMap] at hc
    rcases hc with hc | ⟨g', -, hc⟩
    · exact hdigit g c hc
    · rcases mem_cons.mp hc with rfl | hc
      · exact hsep
      · exact hdigit g' c hc

theorem isAddrChar_of_mem_printV4 {a : BitVec 32} (hc : c ∈ printV4 a) :
    isAddrChar c := by
  refine isAddrChar_of_mem_printGroups (fun g d hd => ?_) (by decide) hc
  have h10 : isDigit 10 d := isDigit_of_mem_toDigits (by decide) (by decide) hd
  simp [isAddrChar, isDigit_mono h10]

theorem isAddrChar_of_mem_segments (hc : c ∈ printGroups 16 ':' gs) :
    isAddrChar c := by
  refine isAddrChar_of_mem_printGroups (fun g d hd => ?_) (by decide) hc
  have h16 : isDigit 16 d := isDigit_of_mem_toDigits (by decide) (by decide) hd
  simp [isAddrChar, h16]

theorem isAddrChar_of_mem_printSegments (hc : c ∈ printSegments gs) :
    isAddrChar c := by
  unfold printSegments at hc
  by_cases hrun : 1 < (zeroRun gs).len
  · simp only [if_pos hrun, mem_append, mem_cons] at hc
    rcases hc with hc | rfl | rfl | hc
    · exact isAddrChar_of_mem_segments hc
    · decide
    · decide
    · exact isAddrChar_of_mem_segments hc
  · simp only [if_neg hrun] at hc
    exact isAddrChar_of_mem_segments hc

theorem isAddrChar_of_mem_print {ip : IpAddr} (hc : c ∈ print ip) :
    isAddrChar c := by
  cases ip with
  | v4 a => exact isAddrChar_of_mem_printV4 hc
  | v6 a =>
    rw [print, printV6] at hc
    by_cases hmapped : a.toNat / 2 ^ 32 = 0xffff
    · rw [if_pos hmapped, mem_append] at hc
      rcases hc with hc | hc
      · have hall : "::ffff:".toList.all isAddrChar := by decide
        exact all_eq_true.mp hall c hc
      · exact isAddrChar_of_mem_printV4 hc
    · rw [if_neg hmapped] at hc
      exact isAddrChar_of_mem_printSegments hc

theorem toNat_of_isAddrChar (h : isAddrChar c) : 46 ≤ c.toNat ∧ c.toNat ≤ 122 := by
  simp only [isAddrChar, isDigit, toDigit, Option.isSome_ite, Bool.or_eq_true, beq_iff_eq,
    Char.le_def, UInt32.le_iff_toNat_le] at h
  rcases h with (h | rfl) | rfl
  · split_ifs at h with h₁ h₂ h₃
    · exact ⟨le_trans (by decide) h₁.1, le_trans h₁.2 (by decide)⟩
    · exact ⟨le_trans (by decide) h₂.1, le_trans h₂.2 (by decide)⟩
    · exact ⟨le_trans (by decide) h₃.1, le_trans h₃.2 (by decide)⟩
    · exact absurd h (lt_irrefl _)
  · decide
  · decide

theorem isWhitespace_of_isAddrChar (h : isAddrChar c) : isWhitespace c = false := by
  have hbounds := toNat_of_isAddrChar h
  simp only [isWhitespace, Bool.or_eq_false_iff, Bool.and_eq_false_iff, decide_eq_false_iff_not,
    beq_eq_false_iff_ne]
  omega

theorem print_ne_nil (ip : IpAddr) : print ip ≠ [] := by
  intro h
  have hparse := parse_print ip
  have hnil : parse [] = none := by decide
  rw [h, hnil] at hparse
  cases hparse

end Nqvpn.IpText
