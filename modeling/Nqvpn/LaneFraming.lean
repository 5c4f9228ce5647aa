import Nqvpn.BigEndian
import Nqvpn.PieceStream

/-!
# Frames on a lane

Each frame on a lane's stream comes behind its length in two bytes. A peer may write frames that no
honest one would; the reader skips them and is in step with the next.
-/

namespace Nqvpn

open BigEndian PieceStream List

/-- The largest tunnel MTU, what a frame adds to a packet, and some slack. -/
def maxLaneFrame : Nat := 9000 + 39 + 256

/-- Packets whose length has no two bytes are left out. -/
def writeLane (packets : List (List UInt8)) : List UInt8 :=
  packets.flatMap fun p => if p.length < 2 ^ 16 then toBytes 2 p.length ++ p else []

/-- At most `n` frames from a lane; ends where the stream does. -/
def readLane : Nat → List (List UInt8) → List (List UInt8)
  | 0, _ => []
  | n + 1, s =>
    match readExact 2 s with
    | none => []
    | some (header, s) =>
      match readExact (ofBytes header) s with
      | none => []
      | some (frame, s) =>
        -- Skipped without buffering it.
        if maxLaneFrame < ofBytes header then readLane n s else frame :: readLane n s

variable {s packets : List (List UInt8)} {f rest : List UInt8}

theorem readLane_frame (n : Nat) (hf : f.length < 2 ^ 16)
    (hs : s.flatten = toBytes 2 f.length ++ (f ++ rest)) : ∃ s', s'.flatten = rest ∧
      readLane (n + 1) s = if maxLaneFrame < f.length then readLane n s' else f :: readLane n s' := by
  obtain ⟨s₁, hheader, hs₁⟩ := readExact_append hs
  obtain ⟨s', hframe, hs'⟩ := readExact_append hs₁
  rw [length_toBytes] at hheader
  refine ⟨s', hs', ?_⟩
  simp only [readLane, hheader, ofBytes_toBytes (w := 2) hf, hframe]

/-- Whatever packets a lane was given and however its stream was cut: the other side gets those
within the limit, in order, and goes on with what comes after them. -/
theorem lane_in_sync (n : Nat) (hs : s.flatten = writeLane packets ++ rest) :
    ∃ s', s'.flatten = rest ∧ readLane (packets.countP (·.length < 2 ^ 16) + n) s =
      packets.filter (·.length ≤ maxLaneFrame) ++ readLane n s' := by
  induction packets generalizing s with
  | nil => exact ⟨s, hs, by simp⟩
  | cons p packets ih =>
    rw [writeLane, flatMap_cons, ← writeLane] at hs
    by_cases hp : p.length < 2 ^ 16
    · rw [if_pos hp, append_assoc, append_assoc] at hs
      obtain ⟨s₁, hs₁, hread⟩ := readLane_frame (packets.countP (·.length < 2 ^ 16) + n) hp hs
      obtain ⟨s', hs', ih⟩ := ih hs₁
      refine ⟨s', hs', ?_⟩
      rw [countP_cons_of_pos (by simpa using hp), Nat.add_right_comm, hread, ih]
      by_cases hbig : maxLaneFrame < p.length
      · rw [if_pos hbig, filter_cons_of_neg (by simpa using hbig)]
      · rw [if_neg hbig, filter_cons_of_pos (by simpa using hbig), cons_append]
    · have hbig : maxLaneFrame < p.length := by
        unfold maxLaneFrame
        omega
      rw [if_neg hp, nil_append] at hs
      rw [countP_cons_of_neg (by simpa using hp), filter_cons_of_neg (by simpa using hbig)]
      exact ih hs

/-- With a frame over the limit, and the start of another. -/
theorem lane_in_sync_oversized :
    readLane 2 [[0], [1, 7], writeLane [replicate 9296 0] ++ [0]] = [[7]] := by
  have hs : [[0], [1, 7], writeLane [replicate 9296 0] ++ [0]].flatten =
      writeLane [[7], replicate 9296 0] ++ [0] := by simp [-reduceReplicate, writeLane, toBytes]
  obtain ⟨s', -, h⟩ := lane_in_sync 0 hs
  simpa [-reduceReplicate, maxLaneFrame, readLane] using h

end Nqvpn
