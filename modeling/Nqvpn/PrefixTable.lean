import Nqvpn.EndpointRoutes
import Nqvpn.Prefixes

/-!
# Tables of prefixes

A table filled entry by entry holds for each prefix the last entry made for it, and its lookup
finds the longest prefix that covers the address. The table of an endpoint that took a view in is
filled with what the view attributes to the other members.
-/

namespace Nqvpn

open LongestMatch List

namespace LpmTable

/-- Each prefix is truncated, and stands once. -/
structure Sound (t : LpmTable) : Prop where
  trunc : ∀ e ∈ t, e.1.trunc = e.1
  unique : ∀ e ∈ t, ∀ e' ∈ t, e.1 = e'.1 → e = e'

variable {t : LpmTable} {e : IpNet × NodeId} {es : List (IpNet × NodeId)} {n : IpNet} {id : NodeId}

theorem mem_insert {net : IpNet} {node : NodeId} :
    e ∈ t.insert net node ↔ e = (net.trunc, node) ∨ e ∈ t ∧ e.1 ≠ net.trunc := by
  simp [insert, remove]

theorem sound_nil : Sound [] := ⟨by simp, by simp⟩

theorem Sound.insert (h : t.Sound) (net : IpNet) (node : NodeId) :
    Sound (t.insert net node) := by
  constructor
  · intro e he
    rcases mem_insert.mp he with rfl | ⟨he, -⟩
    · exact net.trunc_trunc
    · exact h.trunc e he
  · intro e he e' he' heq
    rcases mem_insert.mp he with rfl | ⟨he, hne⟩
    · rcases mem_insert.mp he' with rfl | ⟨-, hne'⟩
      · rfl
      · exact absurd heq.symm hne'
    · rcases mem_insert.mp he' with rfl | ⟨he', -⟩
      · exact absurd heq hne
      · exact h.unique e he e' he' heq

def longestEntry (t : LpmTable) (ip : IpAddr) : Option (IpNet × NodeId) :=
  longest (fun e : IpNet × NodeId => e.1.prefixLen) (t.filter (·.1.containsAddr ip))

theorem lookup_eq_map (t : LpmTable) (ip : IpAddr) : t.lookup ip = (t.longestEntry ip).map (·.2) := by
  rw [lookup, longestEntry, longest]
  congr 2
  funext best e
  cases best <;> rfl

theorem longestEntry_eq_some (h : t.Sound) {ip : IpAddr} :
    t.longestEntry ip = some e ↔
      IsLongest (fun e : IpNet × NodeId => e.1.prefixLen) (·.1.containsAddr ip) t e := by
  refine ⟨isLongest_of_longest, fun hlongest => longest_eq_some hlongest fun e' he' hcovers hlen => ?_⟩
  exact h.unique e' he' e hlongest.mem
    (IpNet.eq_of_containsAddr (h.trunc e' he') (h.trunc e hlongest.mem) hlen hcovers hlongest.covers)

def fill (t : LpmTable) (es : List (IpNet × NodeId)) : LpmTable :=
  es.foldl (fun t e => t.insert e.1 e.2) t

theorem fill_append (t : LpmTable) (es es' : List (IpNet × NodeId)) :
    t.fill (es ++ es') = (t.fill es).fill es' := foldl_append

theorem Sound.fill (h : t.Sound) (es : List (IpNet × NodeId)) : Sound (t.fill es) := by
  induction es generalizing t with
  | nil => exact h
  | cons e es ih => exact ih (h.insert e.1 e.2)

theorem mem_fill :
    (n, id) ∈ fill [] es ↔ ∃ e, es.findRev? (fun e => e.1.trunc = n) = some e ∧ e.2 = id := by
  induction es using reverseRecOn with
  | nil => simp [fill]
  | append_singleton es e ih =>
    rw [fill_append, fill, foldl_cons, foldl_nil, mem_insert, ih]
    by_cases hn : e.1.trunc = n
    · simp [hn, eq_comm]
    · simp [hn, Ne.symm hn]

theorem mem_of_findRev? (h : es.findRev? (fun e => e.1.trunc = n) = some e) : e ∈ es ∧ e.1.trunc = n := by
  rw [findRev?_eq_find?_reverse] at h
  exact ⟨mem_reverse.mp (mem_of_find?_eq_some h), by simpa using find?_some h⟩

theorem exists_of_mem_fill (h : (n, id) ∈ fill [] es) : ∃ net, (net, id) ∈ es ∧ net.trunc = n := by
  obtain ⟨⟨net, id'⟩, hfind, rfl⟩ := mem_fill.mp h
  exact ⟨net, mem_of_findRev? hfind⟩

theorem exists_mem_fill (he : e ∈ es) :
    ∃ id, (e.1.trunc, id) ∈ fill [] es := by
  cases hfind : es.findRev? (fun e' => e'.1.trunc = e.1.trunc) with
  | none =>
    rw [findRev?_eq_find?_reverse, find?_eq_none] at hfind
    have hself := hfind e (mem_reverse.mpr he)
    simp at hself
  | some e' => exact ⟨e'.2, mem_fill.mpr ⟨e', hfind, rfl⟩⟩

theorem mem_fill_filter {keep : IpNet × NodeId → Bool} (h : (n, id) ∈ fill [] es)
    (hkeep : ∀ net, net.trunc = n → keep (net, id)) : (n, id) ∈ fill [] (es.filter keep) := by
  obtain ⟨⟨net, id'⟩, hfind, rfl⟩ := mem_fill.mp h
  refine mem_fill.mpr ⟨(net, id'), ?_, rfl⟩
  have hpass := hkeep net (mem_of_findRev? hfind).2
  rw [findRev?_eq_find?_reverse] at hfind ⊢
  rw [← filter_reverse, find?_filter]
  obtain ⟨hnet, before, after, hsplit, hnone⟩ := find?_eq_some_iff_append.mp hfind
  refine find?_eq_some_iff_append.mpr ⟨by simpa [hpass] using hnet, before, after, hsplit, ?_⟩
  intro e he
  have := hnone e he
  simp [this]

end LpmTable

end Nqvpn
