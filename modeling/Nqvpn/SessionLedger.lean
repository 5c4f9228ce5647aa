import Nqvpn.Seal
import Mathlib.Data.List.Perm.Subperm
import Mathlib.Logic.Function.Basic
import Mathlib.Logic.Relation

/-!
# The life of sessions

Sessions at named places, seen from outside: a session is started with a fresh
ephemeral key, its handshake completes, it seals and opens packets, it moves
within its place and is dropped. Whatever a place does with its sessions is made of
these steps. The ledger also lists every packet ever sealed and every packet ever
opened, with the place that did it. Whatever steps are taken, no packet is sealed
twice or opened twice, and both ends of a packet are sessions their places may have.
-/

namespace Nqvpn

open PairSession List

namespace PairSession

def uid (s : PairSession) : Nat :=
  match s.stage with
  | .handshake first => first.ephemeral
  | .transport t _ => if s.initiator then t.first.ephemeral else t.ephemeral

/-! ### What the operations of a session do -/

variable {s s' : PairSession} {packet : List UInt8} {ctr : Nat}

theorem sealPacket_eq_some {c : SealedPacket} (h : s.sealPacket packet = some (s', ctr, c)) :
    ∃ t, s.stage = .transport t ctr ∧ s'.stage = .transport t (ctr + 1) ∧
      s'.initiator = s.initiator ∧ s'.replay = s.replay ∧ c = ⟨t, s.initiator, ctr, packet⟩ := by
  cases hs : s.stage with
  | handshake first => simp [sealPacket, hs] at h
  | transport t n =>
    simp only [sealPacket, hs] at h
    split_ifs at h
    obtain ⟨rfl, rfl, rfl⟩ := h
    exact ⟨t, rfl, rfl, rfl, rfl, rfl⟩

theorem unsealFrame_eq_ok {msg : Option Message} (h : s.unsealFrame ctr msg = .ok (s', packet)) :
    ∃ t n, s.stage = .transport t n ∧ s.replay.check ctr ∧
      msg = some (.sealed ⟨t, !s.initiator, ctr, packet⟩) ∧
      s' = { s with replay := s.replay.commit ctr } := by
  cases hs : s.stage with
  | handshake first => simp [unsealFrame, hs] at h
  | transport t n =>
    simp only [unsealFrame, hs] at h
    split_ifs at h with hcheck
    split at h
    · cases h
    · rename_i plaintext hopen
      obtain ⟨rfl, rfl⟩ := h
      exact ⟨t, n, rfl, by simpa using hcheck, (NoiseIK.unlock_eq_some.mp hopen).1, rfl⟩

end PairSession

def sealerUid (c : SealedPacket) : Nat :=
  if c.fromInitiator then c.transcript.first.ephemeral else c.transcript.ephemeral

def openerUid (c : SealedPacket) : Nat :=
  if c.fromInitiator then c.transcript.ephemeral else c.transcript.first.ephemeral

structure Ledger (ι : Type) where
  live : ι → List PairSession
  /-- The next ephemeral key to be drawn. -/
  next : Nat
  sealed : List (ι × SealedPacket)
  opened : List (ι × SealedPacket)

namespace Ledger

variable {ι : Type}

/-- Where the sessions are: each is one its place may have, and they are told apart
by the keys they drew. -/
structure Placed (ok : ι → Bool → Initiation → Prop) (live : ι → List PairSession) (next : Nat) :
    Prop where
  bound : ∀ i, ∀ s ∈ live i, ok i s.initiator s.first
  fresh : ∀ i, ∀ s ∈ live i, s.uid < next
  nodup : ∀ i, ((live i).map uid).Nodup
  apart : ∀ i j, i ≠ j → ∀ s ∈ live i, ∀ s' ∈ live j, s.uid ≠ s'.uid

structure Inv (ok : ι → Bool → Initiation → Prop) (L : Ledger ι) : Prop where
  placed : Placed ok L.live L.next
  /-- The window of a session stands for the packets it has opened. -/
  window : ∀ i, ∀ s ∈ L.live i,
    s.replay.Tracks {n | ∃ x ∈ L.opened, openerUid x.2 = s.uid ∧ x.2.counter = n}
  /-- The counter of a session is above those of the packets it has sealed. -/
  nonce : ∀ i, ∀ s ∈ L.live i, ∀ x ∈ L.sealed, sealerUid x.2 = s.uid →
    ∃ t n, s.stage = .transport t n ∧ x.2.counter < n
  sealedFresh : ∀ x ∈ L.sealed, sealerUid x.2 < L.next
  openedFresh : ∀ x ∈ L.opened, openerUid x.2 < L.next
  sealedBound : ∀ x ∈ L.sealed, ok x.1 x.2.fromInitiator x.2.transcript.first
  openedBound : ∀ x ∈ L.opened, ok x.1 (!x.2.fromInitiator) x.2.transcript.first
  sealedOnce : (L.sealed.map (·.2)).Nodup
  openedOnce : (L.opened.map (·.2)).Nodup

variable {ok : ι → Bool → Initiation → Prop} {s s' : PairSession} {packet : List UInt8} {ctr : Nat}
  {c : SealedPacket} {rest : List PairSession} {i : ι} {L L' : Ledger ι}

theorem nodup_uid {l l' : List PairSession} (h : l.Subperm l') (hnodup : (l'.map uid).Nodup) :
    (l.map uid).Nodup := by
  obtain ⟨m, hperm, hsub⟩ := h
  exact (hperm.map uid).nodup_iff.mp (hnodup.sublist (hsub.map uid))

theorem rest_subset {l : List PairSession} (hp : l.Perm (s :: rest)) : rest ⊆ l :=
  fun _ hx => hp.mem_iff.mpr (mem_cons_of_mem s hx)

namespace Placed

variable {live : ι → List PairSession} {next : Nat}

theorem keep (h : Placed ok live next) {live' : ι → List PairSession}
    (hsub : ∀ i, (live' i).Subperm (live i)) : Placed ok live' next where
  bound i s hs := h.bound i s ((hsub i).subset hs)
  fresh i s hs := h.fresh i s ((hsub i).subset hs)
  nodup i := nodup_uid (hsub i) (h.nodup i)
  apart i j hij s hs s' hs' := h.apart i j hij s ((hsub i).subset hs) s' ((hsub j).subset hs')

theorem uid_ne (h : Placed ok live next) (hp : (live i).Perm (s :: rest))
    {j : ι} {x : PairSession} (hx : x ∈ live j) (hother : j = i → x ∈ rest) : x.uid ≠ s.uid := by
  by_cases hj : j = i
  · subst hj
    have hnodup := (hp.map uid).nodup_iff.mp (h.nodup j)
    rw [map_cons, nodup_cons] at hnodup
    intro he
    exact hnodup.1 (mem_map.mpr ⟨x, hother rfl, he⟩)
  · exact h.apart j i hj x hx s (hp.mem_iff.mpr mem_cons_self)

end Placed

namespace Inv

theorem keep (h : Inv ok L) {live' : ι → List PairSession}
    (hsub : ∀ i, (live' i).Subperm (L.live i)) : Inv ok { L with live := live' } :=
  { h with
    placed := h.placed.keep hsub
    window := fun i s hs => h.window i s ((hsub i).subset hs)
    nonce := fun i s hs => h.nonce i s ((hsub i).subset hs) }

theorem drawn (h : Inv ok L) : Inv ok { L with next := L.next + 1 } :=
  { h with
    placed := { h.placed with
      fresh := fun i s hs => (h.placed.fresh i s hs).trans (Nat.lt_succ_self _) }
    sealedFresh := fun x hx => (h.sealedFresh x hx).trans (Nat.lt_succ_self _)
    openedFresh := fun x hx => (h.openedFresh x hx).trans (Nat.lt_succ_self _) }

theorem mono {ok' : ι → Bool → Initiation → Prop} (hok : ∀ i role first, ok i role first →
    ok' i role first) (h : Inv ok L) : Inv ok' L :=
  { h with
    placed := { h.placed with bound := fun i s hs => hok _ _ _ (h.placed.bound i s hs) }
    sealedBound := fun x hx => hok _ _ _ (h.sealedBound x hx)
    openedBound := fun x hx => hok _ _ _ (h.openedBound x hx) }

end Inv

/-! ### Every step keeps the account -/

variable [DecidableEq ι]

/-- What can happen to sessions. `ok` says which sessions a place may have: in which
role, and from which first message. -/
inductive Step (ok : ι → Bool → Initiation → Prop) : Ledger ι → Ledger ι → Prop
  /-- Sessions are moved around or dropped. -/
  | keep {L : Ledger ι} {live' : ι → List PairSession} :
      (∀ i, (live' i).Subperm (L.live i)) → Step ok L { L with live := live' }
  | start {L : Ledger ι} (i : ι) (s : PairSession) : ok i s.initiator s.first → s.uid = L.next →
      s.replay = .default →
      Step ok L { L with live := Function.update L.live i (s :: L.live i), next := L.next + 1 }
  | finish {L : Ledger ι} {i : ι} {s : PairSession} {rest : List PairSession} (t : Transcript) :
      (L.live i).Perm (s :: rest) → s.stage = .handshake t.first → s.initiator = true →
      Step ok L { L with
        live := Function.update L.live i ({ s with stage := .transport t 0 } :: rest) }
  | sealed {L : Ledger ι} {i : ι} {s s' : PairSession} {rest : List PairSession}
      {packet : List UInt8} {ctr : Nat} {c : SealedPacket} : (L.live i).Perm (s :: rest) →
      s.sealPacket packet = some (s', ctr, c) →
      Step ok L { L with
        live := Function.update L.live i (s' :: rest), sealed := (i, c) :: L.sealed }
  | opened {L : Ledger ι} {i : ι} {s s' : PairSession} {rest : List PairSession}
      {packet : List UInt8} {ctr : Nat} {c : SealedPacket} : (L.live i).Perm (s :: rest) →
      s.unsealFrame ctr (some (.sealed c)) = .ok (s', packet) →
      Step ok L { L with
        live := Function.update L.live i (s' :: rest), opened := (i, c) :: L.opened }

  /-- An ephemeral key is drawn and not used. -/
  | drawn {L : Ledger ι} : Step ok L { L with next := L.next + 1 }

theorem mem_update_cons {live : ι → List PairSession} {j : ι} {x : PairSession} (hrest : rest ⊆ live i)
    (hx : x ∈ Function.update live i (s :: rest) j) : j = i ∧ x = s ∨ x ∈ live j ∧ (j = i → x ∈ rest) := by
  by_cases hj : j = i
  · subst hj
    rw [Function.update_self] at hx
    rcases mem_cons.mp hx with rfl | hx
    · exact .inl ⟨rfl, rfl⟩
    · exact .inr ⟨hrest hx, fun _ => hx⟩
  · rw [Function.update_of_ne hj] at hx
    exact .inr ⟨hx, fun he => absurd he hj⟩

theorem forall_update_cons {live : ι → List PairSession} {P : ι → PairSession → Prop} (hrest : rest ⊆ live i)
    (hnew : P i s) (hold : ∀ j, ∀ x ∈ live j, (j = i → x ∈ rest) → P j x) :
    ∀ j, ∀ x ∈ Function.update live i (s :: rest) j, P j x := by
  intro j x hx
  rcases mem_update_cons hrest hx with ⟨rfl, rfl⟩ | ⟨hx, hother⟩
  · exact hnew
  · exact hold j x hx hother

namespace Placed

variable {live : ι → List PairSession} {next : Nat}

theorem put (h : Placed ok live next) {next' : Nat}
    (hrest : rest.Subperm (live i)) (hok : ok i s.initiator s.first) (hfresh : s.uid < next')
    (hle : next ≤ next') (hnew : ∀ j, ∀ x ∈ live j, (j = i → x ∈ rest) → x.uid ≠ s.uid) :
    Placed ok (Function.update live i (s :: rest)) next' where
  bound := forall_update_cons hrest.subset hok fun j x hx _ => h.bound j x hx
  fresh := forall_update_cons hrest.subset hfresh fun j x hx _ => (h.fresh j x hx).trans_le hle
  nodup j := by
    by_cases hj : j = i
    · subst hj
      rw [Function.update_self, map_cons, nodup_cons]
      refine ⟨fun hin => ?_, nodup_uid hrest (h.nodup j)⟩
      obtain ⟨x, hx, hxu⟩ := mem_map.mp hin
      exact hnew j x (hrest.subset hx) (fun _ => hx) hxu
    · rw [Function.update_of_ne hj]
      exact h.nodup j
  apart j k hjk x hx y hy := by
    rcases mem_update_cons hrest.subset hx with ⟨rfl, rfl⟩ | ⟨hxold, hxrest⟩
    · rcases mem_update_cons hrest.subset hy with ⟨rfl, rfl⟩ | ⟨hyold, hyrest⟩
      · exact absurd rfl hjk
      · exact (hnew k y hyold hyrest).symm
    · rcases mem_update_cons hrest.subset hy with ⟨rfl, rfl⟩ | ⟨hyold, -⟩
      · exact hnew j x hxold hxrest
      · exact h.apart j k hjk x hxold y hyold

theorem replace (h : Placed ok live next) (hp : (live i).Perm (s :: rest)) (huid : s'.uid = s.uid)
    (hrole : s'.initiator = s.initiator) (hfirst : s'.first = s.first) :
    Placed ok (Function.update live i (s' :: rest)) next := by
  have hs : s ∈ live i := hp.mem_iff.mpr mem_cons_self
  refine h.put ?_ ?_ ?_ le_rfl fun j x hx hother => ?_
  · exact ((sublist_cons_self s rest).subperm).trans hp.symm.subperm
  · rw [hrole, hfirst]
    exact h.bound i s hs
  · rw [huid]
    exact h.fresh i s hs
  · rw [huid]
    exact h.uid_ne hp hx hother

end Placed

namespace Inv

theorem start (h : Inv ok L) (hok : ok i s.initiator s.first) (hu : s.uid = L.next) (hr : s.replay = .default) :
    Inv ok { L with live := Function.update L.live i (s :: L.live i), next := L.next + 1 } := by
  -- Nothing has been opened under a key that is only now drawn.
  have hnone : {n | ∃ y ∈ L.opened, openerUid y.2 = s.uid ∧ y.2.counter = n} = ∅ := by
    refine Set.eq_empty_of_forall_notMem ?_
    rintro n ⟨y, hy, hyu, -⟩
    have := h.openedFresh y hy
    omega
  refine { h.drawn with
    placed := h.placed.put (Subperm.refl _) hok (hu ▸ Nat.lt_succ_self _) (Nat.le_succ _) fun j x hx _ => ?_
    window := forall_update_cons (Subset.refl _) ?_ fun j x hx _ => h.window j x hx
    nonce := forall_update_cons (Subset.refl _) (fun y hy hyu => ?_) fun j x hx _ => h.nonce j x hx }
  · have := h.placed.fresh j x hx
    omega
  · rw [hnone, hr]
    exact ReplayWindow.tracks_default
  · have := h.sealedFresh y hy
    omega

theorem finish (h : Inv ok L) {t : Transcript} (hp : (L.live i).Perm (s :: rest))
    (hstage : s.stage = .handshake t.first) (hrole : s.initiator) :
    Inv ok { L with live := Function.update L.live i ({ s with stage := .transport t 0 } :: rest) } := by
  have hs : s ∈ L.live i := hp.mem_iff.mpr mem_cons_self
  have huid : uid { s with stage := .transport t 0 } = s.uid := by
    simp [uid, hstage, hrole]
  refine { h with
    placed := h.placed.replace hp huid rfl (by simp [first, hstage])
    window := forall_update_cons (rest_subset hp) ?_ fun j x hx _ => h.window j x hx
    nonce := forall_update_cons (rest_subset hp) (fun y hy hyu => ?_) fun j x hx _ => h.nonce j x hx }
  · rw [huid]
    exact h.window i s hs
  · -- A session in its handshake has sealed nothing.
    obtain ⟨t', n, hst, -⟩ := h.nonce i s hs y hy (hyu.trans huid)
    rw [hstage] at hst
    cases hst

theorem sealed (h : Inv ok L) (hp : (L.live i).Perm (s :: rest))
    (hseal : s.sealPacket packet = some (s', ctr, c)) :
    Inv ok { L with
      live := Function.update L.live i (s' :: rest), sealed := (i, c) :: L.sealed } := by
  have hs : s ∈ L.live i := hp.mem_iff.mpr mem_cons_self
  obtain ⟨t, hstage, hstage', hrole, hreplay, rfl⟩ := sealPacket_eq_some hseal
  have huid : s'.uid = s.uid := by simp [uid, hstage, hstage', hrole]
  have hfirst : s'.first = s.first := by simp [first, hstage, hstage']
  have hsealer : sealerUid ⟨t, s.initiator, ctr, packet⟩ = s.uid := by
    simp [sealerUid, uid, hstage]
  -- What this session sealed before has a lower counter.
  have hlower (y : ι × SealedPacket) (hy : y ∈ L.sealed) (hyu : sealerUid y.2 = s.uid) :
      y.2.counter < ctr := by
    obtain ⟨t', n, hst, hlt⟩ := h.nonce i s hs y hy hyu
    rw [hstage] at hst
    cases hst
    exact hlt
  refine { h with
    placed := h.placed.replace hp huid hrole hfirst
    window := forall_update_cons (rest_subset hp) ?_ fun j x hx _ => h.window j x hx
    nonce := forall_update_cons (rest_subset hp) (fun y hy hyu => ⟨t, ctr + 1, hstage', ?_⟩)
      fun j x hx hother => forall_mem_cons.mpr ⟨fun hyu => ?_, h.nonce j x hx⟩
    sealedFresh := forall_mem_cons.mpr ⟨hsealer ▸ h.placed.fresh i s hs, h.sealedFresh⟩
    sealedBound := forall_mem_cons.mpr ⟨?_, h.sealedBound⟩
    sealedOnce := nodup_cons.mpr ⟨fun hmem => ?_, h.sealedOnce⟩ }
  · rw [huid, hreplay]
    exact h.window i s hs
  · rcases mem_cons.mp hy with rfl | hy
    · exact Nat.lt_succ_self ctr
    · exact (hlower y hy (hyu.trans huid)).trans (Nat.lt_succ_self ctr)
  · exact absurd (hsealer.symm.trans hyu).symm (h.placed.uid_ne hp hx hother)
  · have hbound := h.placed.bound i s hs
    simpa [first, hstage] using hbound
  · obtain ⟨y, hy, hyc⟩ := mem_map.mp hmem
    have hlt := hlower y hy (by rw [hyc]; exact hsealer)
    rw [hyc] at hlt
    exact absurd hlt (Nat.lt_irrefl ctr)

theorem opened (h : Inv ok L) (hp : (L.live i).Perm (s :: rest))
    (hopen : s.unsealFrame ctr (some (.sealed c)) = .ok (s', packet)) :
    Inv ok { L with
      live := Function.update L.live i (s' :: rest), opened := (i, c) :: L.opened } := by
  have hs : s ∈ L.live i := hp.mem_iff.mpr mem_cons_self
  obtain ⟨t, n, hstage, hcheck, hmsg, rfl⟩ := unsealFrame_eq_ok hopen
  cases hmsg
  have hopener : openerUid ⟨t, !s.initiator, ctr, packet⟩ = s.uid := by
    cases hrole : s.initiator <;> simp [openerUid, uid, hstage, hrole]
  have hset (u n : Nat) : (∃ y ∈ (i, (⟨t, !s.initiator, ctr, packet⟩ : SealedPacket)) :: L.opened,
      openerUid y.2 = u ∧ y.2.counter = n) ↔
      s.uid = u ∧ n = ctr ∨ ∃ y ∈ L.opened, openerUid y.2 = u ∧ y.2.counter = n := by
    rw [exists_mem_cons_iff, hopener, eq_comm (a := n)]
  have hnew := (h.window i s hs).not_mem_of_check hcheck
  refine { h with
    placed := h.placed.replace hp rfl rfl rfl
    window := forall_update_cons (rest_subset hp) ?_ fun j x hx hother => ?_
    nonce := forall_update_cons (rest_subset hp) (h.nonce i s hs) fun j x hx _ => h.nonce j x hx
    openedFresh := forall_mem_cons.mpr ⟨hopener ▸ h.placed.fresh i s hs, h.openedFresh⟩
    openedBound := forall_mem_cons.mpr ⟨?_, h.openedBound⟩
    openedOnce := nodup_cons.mpr ⟨fun hmem => ?_, h.openedOnce⟩ }
  · rw [show uid { s with replay := s.replay.commit ctr } = s.uid from rfl]
    simp only [hset, true_and]
    exact (h.window i s hs).commit (by decide) hcheck
  · simpa only [hset, (h.placed.uid_ne hp hx hother).symm, false_and, false_or] using h.window j x hx
  · have hbound := h.placed.bound i s hs
    simpa [first, hstage] using hbound
  · obtain ⟨y, hy, hyc⟩ := mem_map.mp hmem
    exact hnew ⟨y, hy, by rw [hyc]; exact hopener, by rw [hyc]⟩

theorem step (h : Inv ok L) (hstep : Step ok L L') : Inv ok L' := by
  cases hstep with
  | keep hsub => exact h.keep hsub
  | start i s hok hu hr => exact h.start hok hu hr
  | finish t hp hstage hrole => exact h.finish hp hstage hrole
  | sealed hp hseal => exact h.sealed hp hseal
  | opened hp hopen => exact h.opened hp hopen
  | drawn => exact h.drawn

end Inv

def Steps (ok : ι → Bool → Initiation → Prop) : Ledger ι → Ledger ι → Prop :=
  Relation.ReflTransGen (Step ok)

theorem Inv.steps (h : Inv ok L) (hsteps : Steps ok L L') : Inv ok L' := by
  induction hsteps with
  | refl => exact h
  | tail _ hstep ih => exact ih.step hstep

/-! ### Ledgers side by side -/

/-- The ledger of party `b` within that of all parties: `rest` are the sessions of the
others, `sealed` and `opened` what happened before. -/
def among (b : Nat) (rest : Nat × ι → List PairSession) (sealed opened : List ((Nat × ι) × SealedPacket))
    (L : Ledger ι) : Ledger (Nat × ι) where
  live i := if i.1 = b then L.live i.2 else rest i
  next := L.next
  sealed := L.sealed.map (fun x => ((b, x.1), x.2)) ++ sealed
  opened := L.opened.map (fun x => ((b, x.1), x.2)) ++ opened

variable {b : Nat} {rest : Nat × ι → List PairSession} {sealed opened : List ((Nat × ι) × SealedPacket)}

theorem among_update (L : Ledger ι) (i : ι) (l : List PairSession) :
    (fun j : Nat × ι => if j.1 = b then Function.update L.live i l j.2 else rest j) =
      Function.update (fun j => if j.1 = b then L.live j.2 else rest j) (b, i) l := by
  funext j
  obtain ⟨k, a⟩ := j
  by_cases hk : k = b
  · subst hk
    by_cases ha : a = i
    · subst ha
      simp
    · have hne : (k, a) ≠ (k, i) := fun he => ha (congrArg Prod.snd he)
      simp [Function.update_of_ne ha, Function.update_of_ne hne]
  · simp [hk]

variable {ok' : Nat × ι → Bool → Initiation → Prop}

theorem Step.among
    (hok : ∀ i role first, ok i role first → ok' (b, i) role first)
    (h : Step ok L L') : Step ok' (L.among b rest sealed opened) (L'.among b rest sealed opened) := by
  have hlive (i : ι) : (L.among b rest sealed opened).live (b, i) = L.live i := by
    simp [Ledger.among]
  cases h with
  | keep hsub =>
    refine .keep fun j => ?_
    simp only [Ledger.among]
    split_ifs
    · exact hsub j.2
    · exact Subperm.refl _
  | start i s hs hu hr =>
    simp only [Ledger.among, among_update]
    have hstep := Step.start (L := L.among b rest sealed opened) (b, i) s (hok _ _ _ hs) hu hr
    rw [hlive i] at hstep
    exact hstep
  | finish t hp hstage hrole =>
    simp only [Ledger.among, among_update]
    exact Step.finish (L := L.among b rest sealed opened) t ((hlive _).symm ▸ hp) hstage hrole
  | sealed hp hseal =>
    simp only [Ledger.among, among_update]
    exact Step.sealed (L := L.among b rest sealed opened) ((hlive _).symm ▸ hp) hseal
  | opened hp hopen =>
    simp only [Ledger.among, among_update]
    exact Step.opened (L := L.among b rest sealed opened) ((hlive _).symm ▸ hp) hopen
  | drawn => exact Step.drawn (L := L.among b rest sealed opened)

theorem Steps.among
    (hok : ∀ i role first, ok i role first → ok' (b, i) role first)
    (h : Steps ok L L') : Steps ok' (L.among b rest sealed opened) (L'.among b rest sealed opened) := by
  induction h with
  | refl => exact .refl
  | tail _ hstep ih => exact ih.tail (hstep.among hok)

end Ledger

end Nqvpn
