import Nqvpn.HandoverWords

/-!
# Two parties that replace their session

Each party has a session it sends on, perhaps a replacement being negotiated, and
the session before, on which it only receives. A handshake is one letter and its
answer; both parties may ask at once, and then exactly one of them yields. Packets
that come while a party has no session wait in its queue. The letters travel over a
FIFO channel in each direction.

`Linked` lists the phases two parties can be in, with the words that may be on the
channels. Every act of either party keeps it, every letter that arrives can be
taken, and packets are neither lost nor doubled nor reordered.
-/

namespace Handover

variable {F S P : Type}

inductive Slot (F S : Type)
  | asked (f : F)
  | ready (l : Line S)

/-- A party; `accepted` and `opened` are the packets it was given to send and those it
has taken from the other one. -/
structure Party (F S P : Type) where
  current : Option (Slot F S)
  next : Option (Slot F S)
  previous : Option (Line S)
  queue : List P
  accepted : List P
  opened : List P

namespace Party

def send (p : Party F S P) (x : Option P) : Option (Party F S P × Word F S P) :=
  match p.current with
  | some (.ready l) =>
    some ({ p with
      current := some (.ready { l with sent := l.sent + 1 })
      accepted := p.accepted ++ x.toList }, [.data l.session l.sent x])
  | _ => none

def ask (p : Party F S P) (f : F) : Option (Party F S P × Word F S P) :=
  match p.current, p.next with
  | none, none => some ({ p with current := some (.asked f) }, [.ask f])
  | some (.ready _), none => some ({ p with next := some (.asked f) }, [.ask f])
  | _, _ => none

def enqueue (p : Party F S P) (x : P) : Option (Party F S P × Word F S P) :=
  match p.current with
  | some (.asked _) =>
    some ({ p with queue := p.queue ++ [x], accepted := p.accepted ++ [x] }, [])
  | _ => none

def settle (p : Party F S P) (s : S) : Party F S P × Word F S P :=
  ({ p with
    current := some (.ready ⟨s, p.queue.length, 0⟩)
    previous := none
    queue := [] }, numbered s 0 p.queue)

section Taking

variable [DecidableEq F] [DecidableEq S] (first : S → F) (yields : Bool)

/-- Take a message: on the current session, or on the replacement, which it confirms,
or on the session before. -/
def takeData (p : Party F S P) (s : S) (n : Nat) (x : Option P) : Option (Party F S P) :=
  let opened := p.opened ++ x.toList
  match p.current with
  | some (.ready l) =>
    if s = l.session then
      if l.taken ≤ n then some { p with current := some (.ready { l with taken := n + 1 }), opened }
      else none
    else
      match p.next with
      | some (.ready m) =>
        if s = m.session ∧ m.taken ≤ n then
          some { p with
            current := some (.ready { m with taken := n + 1 })
            next := none
            previous := some l
            opened }
        else none
      | _ =>
        match p.previous with
        | some k =>
          if s = k.session ∧ k.taken ≤ n then
            some { p with previous := some { k with taken := n + 1 }, opened }
          else none
        | none => none
  | _ => none

/-- Take the answer to a handshake of ours. After a replacement the other side is told
at once that we hold the new session. -/
def takeAnswer (p : Party F S P) (s : S) : Option (Party F S P × Word F S P) :=
  match p.current, p.next with
  | some (.asked f), none => if first s = f then some (p.settle s) else none
  | some (.ready l), some (.asked f) =>
    if first s = f ∧ p.queue.isEmpty then
      some ({ p with current := some (.ready ⟨s, 1, 0⟩), next := none, previous := some l },
        [.data s 0 none])
    else none
  | _, _ => none

/-- Answer with session `s`. One that replaces a working session waits for the first
message on it. -/
def reply (p : Party F S P) (s : S) : Option (Party F S P × Word F S P) :=
  match p.current with
  | some (.ready l) =>
    if s ≠ l.session ∧ p.queue.isEmpty then
      some ({ p with next := some (.ready ⟨s, 0, 0⟩) }, [.answer s])
    else none
  | _ => some ((p.settle s).1, .answer s :: (p.settle s).2)

/-- Take the first message of a handshake; of two crossed ones, that of the party that
yields is given up. -/
def takeAsk (p : Party F S P) (f : F) (s : S) : Option (Party F S P × Word F S P) :=
  if first s = f then
    match p.current, p.next with
    | none, none | some (.ready _), none => p.reply s
    | some (.asked _), none | some (.ready _), some (.asked _) =>
      if yields then p.reply s else some (p, [])
    | _, _ => none
  else none

/-- Take a letter; `s` is the session to answer with. -/
def take (p : Party F S P) (s : S) : Letter F S P → Option (Party F S P × Word F S P)
  | .ask f => p.takeAsk first yields f s
  | .answer t => p.takeAnswer first t
  | .data t n x => (p.takeData t n x).map (·, [])

end Taking

variable {p : Party F S P}

theorem send_of_ready {l : Line S} (hl : p.current = some (.ready l)) (x : Option P) : p.send x = some ({ p with
      current := some (.ready { l with sent := l.sent + 1 })
      accepted := p.accepted ++ x.toList }, [.data l.session l.sent x]) := by
  simp [send, hl]

variable {r : Party F S P × Word F S P}

theorem send_eq_some {x : Option P} :
    p.send x = some r ↔ ∃ l, p.current = some (.ready l) ∧
      r = ({ p with
        current := some (.ready { l with sent := l.sent + 1 })
        accepted := p.accepted ++ x.toList }, [.data l.session l.sent x]) := by
  unfold send
  split
  · rename_i l hl
    simp [hl, eq_comm]
  · rename_i hne
    simp only [reduceCtorEq, false_iff, not_exists, not_and]
    exact fun l hl => absurd hl (hne l)

theorem ask_eq_some {f : F} :
    p.ask f = some r ↔ p.next = none ∧
      (p.current = none ∧ r = ({ p with current := some (.asked f) }, [.ask f]) ∨
        ∃ l, p.current = some (.ready l) ∧ r = ({ p with next := some (.asked f) }, [.ask f])) := by
  unfold ask
  split
  · rename_i hc hn
    simp [hc, hn, eq_comm]
  · rename_i l hc hn
    simp [hc, hn, eq_comm]
  · rename_i hnone hready
    simp only [reduceCtorEq, false_iff, not_and, not_or, not_exists]
    exact fun hn => ⟨fun hc => absurd hn (hnone hc), fun l hc => absurd hn (hready l hc)⟩

theorem enqueue_eq_some {x : P} :
    p.enqueue x = some r ↔ ∃ f, p.current = some (.asked f) ∧
      r = ({ p with queue := p.queue ++ [x], accepted := p.accepted ++ [x] }, []) := by
  unfold enqueue
  split
  · rename_i f hf
    simp [hf, eq_comm]
  · rename_i hne
    simp only [reduceCtorEq, false_iff, not_exists, not_and]
    exact fun f hf => absurd hf (hne f)

/-- What a party may do on its own, one thing after the other. -/
inductive Does (p : Party F S P) : Party F S P × Word F S P → Prop
  | idle : Does p (p, [])
  | send {r r' : Party F S P × Word F S P} {x : Option P} (h : Does p r) (hr : r.1.send x = some r') :
    Does p (r'.1, r.2 ++ r'.2)
  | ask {r r' : Party F S P × Word F S P} {f : F} (h : Does p r) (hr : r.1.ask f = some r') :
    Does p (r'.1, r.2 ++ r'.2)
  | enqueue {r r' : Party F S P × Word F S P} {x : P} (h : Does p r)
    (hr : r.1.enqueue x = some r') : Does p (r'.1, r.2 ++ r'.2)

theorem Does.trans {r' : Party F S P × Word F S P} (h : p.Does r) (h' : r.1.Does r') : p.Does (r'.1, r.2 ++ r'.2) := by
  induction h' with
  | idle => simpa using h
  | send _ hr ih => simpa using ih.send hr
  | ask _ hr ih => simpa using ih.ask hr
  | enqueue _ hr ih => simpa using ih.enqueue hr

end Party

/-- One party with what it has sent, and the other one with what it has sent back. -/
structure Pair (F S P : Type) where
  mine : Party F S P
  out : Word F S P
  theirs : Party F S P
  back : Word F S P

namespace Pair

def swap (st : Pair F S P) : Pair F S P := ⟨st.theirs, st.back, st.mine, st.out⟩

def emit (st : Pair F S P) (r : Party F S P × Word F S P) : Pair F S P :=
  { st with mine := r.1, out := st.out ++ r.2 }

def read (st : Pair F S P) (rest : Word F S P) (r : Party F S P × Word F S P) : Pair F S P :=
  { st with mine := r.1, out := st.out ++ r.2, back := rest }

/-- What we accepted has been opened by the other side, is on the channel, or waits. -/
def InOrder (st : Pair F S P) : Prop :=
  st.theirs.opened ++ (packets st.out ++ st.mine.queue) = st.mine.accepted

end Pair

/-! ### The phases -/

/-- Who has asked, and which of the letters are still on their way; the letter of the
party that yields may have been ignored already. -/
inductive Asking (yields : Bool) : Option F → Option F → Word F S P → Word F S P → Prop
  | idle : Asking yields none none [] []
  | mine (f : F) : Asking yields (some f) none [.ask f] []
  | theirs (g : F) : Asking yields none (some g) [] [.ask g]
  | crossed (f g : F) : Asking yields (some f) (some g) [.ask f] [.ask g]
  | unheard (hy : yields = true) (f g : F) : Asking yields (some f) (some g) [] [.ask g]
  | deaf (hy : yields = false) (f g : F) : Asking yields (some f) (some g) [.ask f] []

variable {a b : Option F} {h h' : Word F S P} {o : Option (Slot F S)} {l m : Line S}

theorem Asking.swap {yields : Bool} (ha : Asking yields a b h h') : Asking (!yields) b a h' h := by
  cases ha with
  | idle => exact .idle
  | mine f => exact .theirs f
  | theirs g => exact .mine g
  | crossed f g => exact .crossed g f
  | unheard hy f g => exact .deaf (by simp [hy]) g f
  | deaf hy f g => exact .unheard (by simp [hy]) g f

theorem Asking.ask {yields : Bool} (ha : Asking yields none b h h') (f : F) : Asking yields (some f) b (h ++ [.ask f]) h' := by
  cases ha with
  | idle => exact .mine f
  | theirs g => exact .crossed f g

def Renewing (o : Option (Slot F S)) (h : Word F S P) : Prop :=
  o = none ∧ h = [] ∨ ∃ g, o = some (.asked g) ∧ h = [.ask g]

theorem Renewing.asking (hr : Renewing o h) (yields : Bool) : ∃ a : Option F, o = a.map .asked ∧ Asking yields a none h [] := by
  rcases hr with ⟨rfl, rfl⟩ | ⟨g, rfl, rfl⟩
  · exact ⟨none, rfl, .idle⟩
  · exact ⟨some g, rfl, .mine g⟩

def Party.Silent (p : Party F S P) : Prop := p.queue = [] ∧ p.accepted = []

def Party.Holds (p : Party F S P) (s : S) : Prop :=
  ∃ l, (p.current = some (.ready l) ∨ p.next = some (.ready l)) ∧ l.session = s

/-- The session to answer with fits the question and is not the current one. -/
structure Party.Fits (first : S → F) (p : Party F S P) (s : S) (c : Letter F S P) : Prop where
  answers : ∀ f, c = .ask f → first s = f
  fresh : ∀ l, p.current = some (.ready l) → s ≠ l.session

section Phases

variable (first : S → F) (yields : Bool) (st : Pair F S P)

/-- No session yet. -/
structure Opening (a b : Option F) : Prop where
  mine : st.mine.current = a.map .asked
  theirs : st.theirs.current = b.map .asked
  mineNext : st.mine.next = none
  theirsNext : st.theirs.next = none
  asking : Asking yields a b st.out st.back
  silent : a = none → st.mine.Silent
  silent' : b = none → st.theirs.Silent

/-- Our first handshake has been answered. -/
structure Greeted (m : Line S) (h pre rest : Word F S P) : Prop where
  mine : st.mine.current = some (.asked (first m.session))
  mineNext : st.mine.next = none
  theirs : st.theirs.current = some (.ready m)
  untaken : m.taken = 0
  flushed : st.theirs.queue = []
  previous : st.theirs.previous = none
  renewing : Renewing st.theirs.next h
  out : st.out = []
  back : st.back = pre ++ .answer m.session :: rest
  -- What the party that yielded had asked.
  yielded : pre = [] ∨ yields = false ∧ ∃ g, pre = [.ask g]
  onNew : Mixed m.session m.sent 0 h rest

/-- Both send on the same session. -/
structure Level (a b : Option F) (l m : Line S) (h h' : Word F S P) : Prop where
  mine : st.mine.current = some (.ready l)
  theirs : st.theirs.current = some (.ready m)
  mineNext : st.mine.next = a.map .asked
  theirsNext : st.theirs.next = b.map .asked
  same : l.session = m.session
  flushed : st.mine.queue = []
  flushed' : st.theirs.queue = []
  previous : ∀ k, st.mine.previous = some k → k.session ≠ l.session
  previous' : ∀ k, st.theirs.previous = some k → k.session ≠ m.session
  asking : Asking yields a b h h'
  out : Carries st.theirs.previous l.session l.sent m.taken h st.out
  back : Carries st.mine.previous m.session m.sent l.taken h' st.back

/-- The replacement we asked for has been answered. -/
structure Answered (t : S) (l m : Line S) (h : Word F S P) : Prop where
  mine : st.mine.current = some (.ready l)
  theirs : st.theirs.current = some (.ready m)
  mineNext : st.mine.next = some (.asked (first t))
  theirsNext : st.theirs.next = some (.ready ⟨t, 0, 0⟩)
  same : l.session = m.session
  differs : t ≠ l.session
  flushed : st.mine.queue = []
  flushed' : st.theirs.queue = []
  previous : ∀ k, st.mine.previous = some k → k.session ≠ l.session
  reply : h = [.answer t] ∨ yields = false ∧ ∃ g, h = [.ask g, .answer t]
  -- They have read our question, so nothing of an older session is left.
  out : Mixed l.session l.sent m.taken [] st.out
  back : Carries st.mine.previous m.session m.sent l.taken h st.back

/-- We send on the replacement already, and they will once our first message on it
arrives. -/
structure Leading (k l m n : Line S) (h late rest : Word F S P) : Prop where
  mine : st.mine.current = some (.ready l)
  previous : st.mine.previous = some k
  theirs : st.theirs.current = some (.ready m)
  theirsNext : st.theirs.next = some (.ready n)
  old : k.session = m.session
  new : l.session = n.session
  differs : l.session ≠ m.session
  unused : l.taken ≤ n.sent
  flushed : st.mine.queue = []
  flushed' : st.theirs.queue = []
  renewing : Renewing st.mine.next h
  out : st.out = late ++ rest
  onOld : Late (some m) late
  onNew : Mixed l.session l.sent n.taken h rest
  confirms : ∃ j x rest', rest = .data l.session j x :: rest'
  back : Mixed m.session m.sent k.taken [] st.back

/-- The phases of two parties, of which exactly one yields. -/
inductive Linked : Prop
  | opening {a b : Option F} (hp : Opening yields st a b)
  | greeted {m : Line S} {h pre rest : Word F S P} (hp : Greeted first yields st m h pre rest)
  | greeting {m : Line S} {h pre rest : Word F S P}
    (hp : Greeted first (!yields) st.swap m h pre rest)
  | level {a b : Option F} {l m : Line S} {h h' : Word F S P} (hp : Level yields st a b l m h h')
  | answered {t : S} {l m : Line S} {h : Word F S P} (hp : Answered first yields st t l m h)
  | answering {t : S} {l m : Line S} {h : Word F S P} (hp : Answered first (!yields) st.swap t l m h)
  | leading {k l m n : Line S} {h late rest : Word F S P} (hp : Leading st k l m n h late rest)
  | following {k l m n : Line S} {h late rest : Word F S P}
    (hp : Leading st.swap k l m n h late rest)

/-- The parties are in a phase, and nothing is lost in either direction. -/
structure Sound : Prop where
  linked : Linked first yields st
  sent : st.InOrder
  received : st.swap.InOrder

end Phases

variable {first : S → F} {yields : Bool} {st : Pair F S P}

def Party.resting (line : Option (Line S)) : Party F S P where
  current := line.map .ready
  next := none
  previous := none
  queue := []
  accepted := []
  opened := []

/-- The ends of a session that no letter of is under way, or no session at all. -/
inductive Shared : Option (Line S) → Option (Line S) → Prop
  | fresh : Shared none none
  | line {l m : Line S} (same : l.session = m.session) (there : m.taken = l.sent)
    (back : l.taken = m.sent) : Shared (some l) (some m)

theorem Shared.sound {l m : Option (Line S)} (h : Shared l m) :
    Sound first yields (⟨.resting l, [], .resting m, []⟩ : Pair F S P) := by
  refine ⟨?_, rfl, rfl⟩
  cases h with
  | fresh =>
    exact .opening (a := none) (b := none) ⟨rfl, rfl, rfl, rfl, .idle, fun _ => ⟨rfl, rfl⟩,
      fun _ => ⟨rfl, rfl⟩⟩
  | line same there back =>
    exact .level (a := none) (b := none) ⟨rfl, rfl, rfl, rfl, same, rfl, rfl, by simp [Party.resting],
      by simp [Party.resting], .idle, .of_mixed ⟨rfl, there.le⟩, .of_mixed ⟨rfl, back.le⟩⟩

theorem Opening.swap (hp : Opening yields st a b) :
    Opening (!yields) st.swap b a where
  mine := hp.theirs
  theirs := hp.mine
  mineNext := hp.theirsNext
  theirsNext := hp.mineNext
  asking := hp.asking.swap
  silent := hp.silent'
  silent' := hp.silent

theorem Level.swap (hp : Level yields st a b l m h h') : Level (!yields) st.swap b a m l h' h where
  mine := hp.theirs
  theirs := hp.mine
  mineNext := hp.theirsNext
  theirsNext := hp.mineNext
  same := hp.same.symm
  flushed := hp.flushed'
  flushed' := hp.flushed
  previous := hp.previous'
  previous' := hp.previous
  asking := hp.asking.swap
  out := hp.back
  back := hp.out

theorem Linked.swap (hl : Linked first yields st) : Linked first (!yields) st.swap := by
  cases hl with
  | opening hp => exact .opening hp.swap
  | greeted hp => exact .greeting (by rwa [Bool.not_not])
  | greeting hp => exact .greeted hp
  | level hp => exact .level hp.swap
  | answered hp => exact .answering (by rwa [Bool.not_not])
  | answering hp => exact .answered hp
  | leading hp => exact .following hp
  | following hp => exact .leading hp

theorem ready_inj {l' : Line S} (h : o = some (.ready l)) (h' : o = some (.ready l')) : l = l' := by
  rw [h] at h'
  cases h'
  rfl

theorem Opening.not_ready (hp : Opening yields st a b) (l : Line S) :
    st.mine.current ≠ some (.ready l) := by
  rw [hp.mine]
  cases a <;> rintro ⟨⟩

theorem Greeted.not_ready {pre rest : Word F S P} (hp : Greeted first yields st m h pre rest) (l : Line S) :
    st.mine.current ≠ some (.ready l) := by
  rw [hp.mine]
  rintro ⟨⟩

theorem Linked.queue_of_ready (hl : Linked first yields st) (hready : st.mine.current = some (.ready l)) : st.mine.queue = [] := by
  cases hl with
  | opening hp | greeted hp => exact absurd hready (hp.not_ready l)
  | greeting hp | level hp | answered hp | leading hp => exact hp.flushed
  | answering hp | following hp => exact hp.flushed'

theorem Linked.next_of_none (hl : Linked first yields st) (hnone : st.mine.current = none) :
    st.mine.next = none := by
  have hready (l : Line S) : st.mine.current ≠ some (.ready l) := by
    rw [hnone]
    rintro ⟨⟩
  cases hl with
  | opening hp | greeted hp => exact hp.mineNext
  | greeting hp | answering hp | following hp => exact absurd hp.theirs (hready _)
  | level hp | answered hp | leading hp => exact absurd hp.mine (hready _)

/-! ### What a party does on its own -/

variable {r : Party F S P × Word F S P}

theorem Linked.send (hl : Linked first yields st) {x : Option P} (hs : st.mine.send x = some r) :
    Linked first yields (st.emit r) := by
  obtain ⟨l', hl', rfl⟩ := Party.send_eq_some.mp hs
  cases hl with
  | opening hp | greeted hp => exact absurd hl' (hp.not_ready l')
  | @greeting m h pre rest hp =>
    obtain rfl := ready_inj hp.theirs hl'
    refine .greeting (m := { m with sent := m.sent + 1 }) { hp with
      theirs := rfl
      back := (congrArg (· ++ _) hp.back).trans (List.append_assoc ..)
      onNew := hp.onNew.snoc_data x }
  | level hp =>
    obtain rfl := ready_inj hp.mine hl'
    exact .level { hp with mine := rfl, out := hp.out.snoc_data x }
  | answered hp =>
    obtain rfl := ready_inj hp.mine hl'
    exact .answered { hp with mine := rfl, out := hp.out.snoc_data x }
  | answering hp =>
    obtain rfl := ready_inj hp.theirs hl'
    exact .answering { hp with theirs := rfl, back := hp.back.snoc_data x }
  | leading hp =>
    obtain rfl := ready_inj hp.mine hl'
    obtain ⟨j, y, rest, rfl⟩ := hp.confirms
    refine .leading { hp with
      mine := rfl
      out := (congrArg (· ++ _) hp.out).trans (List.append_assoc ..)
      onNew := hp.onNew.snoc_data x
      confirms := ⟨j, y, _, rfl⟩ }
  | following hp =>
    obtain rfl := ready_inj hp.theirs hl'
    exact .following { hp with theirs := rfl, back := hp.back.snoc_data x }

theorem Renewing.ask {s : S} {hi lo : Nat} {w : Word F S P} (hr : Renewing o h) (ho : o = none)
    (hw : Mixed s hi lo h w) (f : F) :
    Mixed s hi lo [.ask f] (w ++ [.ask f]) := by
  rcases hr with ⟨-, rfl⟩ | ⟨g, hg, -⟩
  · exact hw.append (mixed_ask f)
  · rw [ho] at hg
    cases hg

theorem Linked.ask (hl : Linked first yields st) {f : F} (hs : st.mine.ask f = some r) :
    Linked first yields (st.emit r) := by
  obtain ⟨hnext, ⟨hcurrent, rfl⟩ | ⟨l', hl', rfl⟩⟩ := Party.ask_eq_some.mp hs
  · cases hl with
    | @opening a b hp =>
      have ha : a = none := by
        have h := hp.mine
        rw [hcurrent] at h
        cases a
        · rfl
        · cases h
      subst ha
      refine .opening { hp with mine := rfl, asking := hp.asking.ask f, silent := ?_ }
      rintro ⟨⟩
    | greeted hp | level hp | answered hp | leading hp => rw [hp.mine] at hcurrent; cases hcurrent
    | greeting hp | answering hp | following hp =>
      rw [show st.mine.current = _ from hp.theirs] at hcurrent; cases hcurrent
  · cases hl with
    | opening hp | greeted hp => exact absurd hl' (hp.not_ready l')
    | greeting hp =>
      refine .greeting { hp with
        renewing := .inr ⟨f, rfl, rfl⟩
        back := (congrArg (· ++ _) hp.back).trans (List.append_assoc ..)
        onNew := hp.renewing.ask hnext hp.onNew f }
    | @level a b l m h h' hp =>
      have ha : a = none := by
        have h := hp.mineNext
        rw [hnext] at h
        cases a
        · rfl
        · cases h
      subst ha
      exact .level { hp with
        mineNext := rfl
        asking := hp.asking.ask f
        out := hp.out.append (mixed_ask f) }
    | answered hp => rw [hp.mineNext] at hnext; cases hnext
    | answering hp | following hp => rw [show st.mine.next = _ from hp.theirsNext] at hnext; cases hnext
    | leading hp =>
      obtain ⟨j, y, rest, rfl⟩ := hp.confirms
      refine .leading { hp with
        renewing := .inr ⟨f, rfl, rfl⟩
        out := (congrArg (· ++ _) hp.out).trans (List.append_assoc ..)
        onNew := hp.renewing.ask hnext hp.onNew f
        confirms := ⟨j, y, _, rfl⟩ }

theorem Linked.enqueue (hl : Linked first yields st) {x : P} (hs : st.mine.enqueue x = some r) :
    Linked first yields (st.emit r) := by
  obtain ⟨f, hf, rfl⟩ := Party.enqueue_eq_some.mp hs
  have hready (l : Line S) : st.mine.current ≠ some (.ready l) := by
    rw [hf]
    rintro ⟨⟩
  cases hl with
  | @opening a b hp =>
    have hout : st.out ++ [] = st.out := List.append_nil st.out
    refine .opening { hp with asking := ?_, silent := ?_ }
    · simpa [Pair.emit, hout] using hp.asking
    · rintro rfl
      rw [hp.mine] at hf
      cases hf
  | greeted hp => exact .greeted { hp with out := (List.append_nil st.out).trans hp.out }
  | greeting hp | answering hp | following hp => exact absurd hp.theirs (hready _)
  | level hp | answered hp | leading hp => exact absurd hp.mine (hready _)

open Party

variable {p : Party F S P} {s t : S}

theorem Party.Does.opened (h : p.Does r) : r.1.opened = p.opened := by
  induction h with
  | idle => rfl
  | send _ hr ih =>
    obtain ⟨l, -, rfl⟩ := send_eq_some.mp hr
    exact ih
  | ask _ hr ih =>
    obtain ⟨-, ⟨-, rfl⟩ | ⟨l, -, rfl⟩⟩ := ask_eq_some.mp hr <;> exact ih
  | enqueue _ hr ih =>
    obtain ⟨f, -, rfl⟩ := enqueue_eq_some.mp hr
    exact ih

theorem Party.Does.holds (h : p.Does r) :
    (∀ s, r.1.Holds s → p.Holds s) ∧ ∀ s, .answer s ∉ r.2 := by
  induction h with
  | idle => exact ⟨fun _ hs => hs, by simp⟩
  | send _ hr ih =>
    obtain ⟨l, hl, rfl⟩ := send_eq_some.mp hr
    refine ⟨fun s => ?_, fun s => by simpa using ih.2 s⟩
    rintro ⟨l', h | h, rfl⟩
    · cases h
      exact ih.1 _ ⟨l, .inl hl, rfl⟩
    · exact ih.1 _ ⟨l', .inr h, rfl⟩
  | ask _ hr ih =>
    obtain ⟨hn, ⟨hc, rfl⟩ | ⟨l, hc, rfl⟩⟩ := ask_eq_some.mp hr
    · refine ⟨fun s => ?_, fun s => by simpa using ih.2 s⟩
      rintro ⟨l', h | h, rfl⟩
      · cases h
      · exact ih.1 _ ⟨l', .inr h, rfl⟩
    · refine ⟨fun s => ?_, fun s => by simpa using ih.2 s⟩
      rintro ⟨l', h | h, rfl⟩
      · exact ih.1 _ ⟨l', .inl h, rfl⟩
      · cases h
  | enqueue _ hr ih =>
    obtain ⟨f, hf, rfl⟩ := enqueue_eq_some.mp hr
    exact ⟨fun s hs => ih.1 s hs, fun s => by simpa using ih.2 s⟩

theorem Party.settle_holds (h : (p.settle s).1.Holds t) : p.Holds t ∨ t = s := by
  obtain ⟨l, h | h, rfl⟩ := h
  · cases h
    exact .inr rfl
  · exact .inl ⟨l, .inr h, rfl⟩

/-! ### Nothing is lost -/

theorem Sound.swap (hs : Sound first yields st) : Sound first (!yields) st.swap :=
  ⟨hs.linked.swap, hs.received, hs.sent⟩

theorem Sound.send (hs : Sound first yields st) {x : Option P} (h : st.mine.send x = some r) :
    Sound first yields (st.emit r) := by
  have hlinked := hs.linked.send h
  obtain ⟨l, hl, rfl⟩ := send_eq_some.mp h
  have hqueue := hs.linked.queue_of_ready hl
  have hsent := hs.sent
  simp only [Pair.InOrder, hqueue, List.append_nil] at hsent
  exact ⟨hlinked, by simp [Pair.InOrder, Pair.emit, hqueue, ← hsent], hs.received⟩

theorem Sound.ask (hs : Sound first yields st) {f : F} (h : st.mine.ask f = some r) :
    Sound first yields (st.emit r) := by
  have hlinked := hs.linked.ask h
  obtain ⟨-, ⟨-, rfl⟩ | ⟨l, -, rfl⟩⟩ := ask_eq_some.mp h <;>
    exact ⟨hlinked, by simpa [Pair.InOrder, Pair.emit] using hs.sent, hs.received⟩

theorem Sound.enqueue (hs : Sound first yields st) {x : P} (h : st.mine.enqueue x = some r) :
    Sound first yields (st.emit r) := by
  have hlinked := hs.linked.enqueue h
  obtain ⟨f, -, rfl⟩ := enqueue_eq_some.mp h
  have hsent := hs.sent
  simp only [Pair.InOrder] at hsent
  exact ⟨hlinked, by simp [Pair.InOrder, Pair.emit, ← hsent], hs.received⟩

theorem Sound.does (hs : Sound first yields st) (h : st.mine.Does r) :
    Sound first yields (st.emit r) := by
  have hassoc (r r' : Party F S P × Word F S P) :
      (st.emit r).emit r' = st.emit (r'.1, r.2 ++ r'.2) := by
    simp [Pair.emit]
  induction h with
  | idle => simpa [Pair.emit] using hs
  | send _ hr ih => exact hassoc _ _ ▸ ih.send hr
  | ask _ hr ih => exact hassoc _ _ ▸ ih.ask hr
  | enqueue _ hr ih => exact hassoc _ _ ▸ ih.enqueue hr

theorem Party.settle_packets (p : Party F S P) (s : S) :
    packets (p.settle s).2 ++ (p.settle s).1.queue = p.queue := by
  simp [settle]

theorem Linked.drained (hl : Linked first yields st) (hout : st.out = []) (hback : st.back = []) :
    st.mine.queue = [] ∧ st.theirs.queue = [] ∧
      (st.mine.current = none ∧ st.theirs.current = none ∧ st.mine.accepted = [] ∧
          st.theirs.accepted = [] ∨
        ∃ l m, st.mine.current = some (.ready l) ∧ st.theirs.current = some (.ready m) ∧
          l.session = m.session) := by
  cases hl with
  | opening hp =>
    have hasking := hp.asking
    rw [hout, hback] at hasking
    cases hasking with
    | idle =>
      obtain ⟨hq, ha⟩ := hp.silent rfl
      obtain ⟨hq', ha'⟩ := hp.silent' rfl
      exact ⟨hq, hq', .inl ⟨hp.mine, hp.theirs, ha, ha'⟩⟩
  | greeted hp => exact absurd (hback.symm.trans hp.back) (by simp)
  | greeting hp => exact absurd (hout.symm.trans hp.back) (by simp)
  | level hp | answered hp => exact ⟨hp.flushed, hp.flushed', .inr ⟨_, _, hp.mine, hp.theirs, hp.same⟩⟩
  | answering hp =>
    exact ⟨hp.flushed', hp.flushed, .inr ⟨_, _, hp.theirs, hp.mine, hp.same.symm⟩⟩
  | leading hp =>
    obtain ⟨j, x, new, rfl⟩ := hp.confirms
    exact absurd (hout.symm.trans hp.out) (by simp)
  | following hp =>
    obtain ⟨j, x, new, rfl⟩ := hp.confirms
    exact absurd (hback.symm.trans hp.out) (by simp)

theorem Sound.arrived (hs : Sound first yields st) (hout : st.out = []) (hback : st.back = []) :
    st.theirs.opened = st.mine.accepted ∧ st.mine.opened = st.theirs.accepted := by
  obtain ⟨hq, hq', -⟩ := hs.linked.drained hout hback
  have hsent := hs.sent
  have hreceived := hs.received
  simp only [Pair.InOrder, Pair.swap, hout, hback, hq, hq', packets_nil, List.append_nil]
    at hsent hreceived
  exact ⟨hsent, hreceived⟩

end Handover
