import Nqvpn.Handover

/-!
# Letters are taken and packets arrive

In every phase the first letter on a channel can be taken, and the parties are in a
phase again. With that every packet a party accepted is at any time opened by the
other one, on the channel, or in the queue, in the order it was accepted; once the
channels are empty both parties send on the same session and all packets have
arrived.
-/

namespace Handover

open Party

variable {F S P : Type} [DecidableEq F] [DecidableEq S] {first : S → F} {yields : Bool}

namespace Party

variable {p : Party F S P} {k l m : Line S} {n : Nat} {x : Option P} {s : S}
variable {t : S} {a : Option F} {f : F}

theorem take_current (hc : p.current = some (.ready l)) (ht : t = l.session) (hn : l.taken ≤ n) : p.take first yields s (.data t n x) = some ({ p with
      current := some (.ready { l with taken := n + 1 })
      opened := p.opened ++ x.toList }, []) := by
  simp [take, takeData, hc, ht, hn]

theorem take_next (hc : p.current = some (.ready l)) (hm : p.next = some (.ready m)) (ht : t = m.session)
    (hne : m.session ≠ l.session) (hn : m.taken ≤ n) :
    p.take first yields s (.data t n x) = some ({ p with
      current := some (.ready { m with taken := n + 1 })
      next := none
      previous := some l
      opened := p.opened ++ x.toList }, []) := by
  simp [take, takeData, hc, hm, ht, hne, hn]

theorem take_previous (hc : p.current = some (.ready l)) (ha : p.next = a.map .asked) (hk : p.previous = some k)
    (ht : t = k.session) (hne : k.session ≠ l.session) (hn : k.taken ≤ n) :
    p.take first yields s (.data t n x) = some ({ p with
      previous := some { k with taken := n + 1 }
      opened := p.opened ++ x.toList }, []) := by
  cases a with
  | none | some f => simp [take, takeData, hc, ha, hk, ht, hne, hn]

omit [DecidableEq F] in
theorem takeData_eq_some {p' : Party F S P} (h : p.takeData t n x = some p') :
    ∃ l, p.current = some (.ready l) ∧
      (t = l.session ∧ l.taken ≤ n ∧ p' = { p with
          current := some (.ready { l with taken := n + 1 })
          opened := p.opened ++ x.toList } ∨
        t ≠ l.session ∧ (∃ m, p.next = some (.ready m) ∧ t = m.session ∧ m.taken ≤ n ∧ p' = { p with
          current := some (.ready { m with taken := n + 1 })
          next := none
          previous := some l
          opened := p.opened ++ x.toList }) ∨
        t ≠ l.session ∧ (∀ m, p.next ≠ some (.ready m)) ∧
          ∃ k, p.previous = some k ∧ t = k.session ∧ k.taken ≤ n ∧ p' = { p with
            previous := some { k with taken := n + 1 }
            opened := p.opened ++ x.toList }) := by
  unfold takeData at h
  split at h
  · rename_i l hl
    refine ⟨l, hl, ?_⟩
    by_cases ht : t = l.session
    · split_ifs at h with hn
      exact .inl ⟨ht, hn, (Option.some.inj h).symm⟩
    · rw [if_neg ht] at h
      split at h
      · rename_i m hm
        split_ifs at h with hn
        exact .inr (.inl ⟨ht, m, hm, hn.1, hn.2, (Option.some.inj h).symm⟩)
      · rename_i hm
        split at h
        · rename_i k hk
          split_ifs at h with hn
          exact .inr (.inr ⟨ht, fun m => hm m, k, hk, hn.1, hn.2, (Option.some.inj h).symm⟩)
        · cases h
  · cases h

theorem first_of_takeAsk {r : Party F S P × Word F S P} (h : p.takeAsk first yields f s = some r) : first s = f := by
  by_contra hne
  rw [takeAsk, if_neg hne] at h
  cases h

theorem takeAsk_ignored (hs : first s = f)
    (hp : (∃ g, p.current = some (.asked g)) ∧ p.next = none ∨ (∃ l, p.current = some (.ready l)) ∧ ∃ g, p.next = some (.asked g)) :
    p.takeAsk first false f s = some (p, []) := by
  rcases hp with ⟨⟨g, hc⟩, hn⟩ | ⟨⟨l, hc⟩, g, hn⟩
  · simp [takeAsk, hs, hc, hn]
  · simp [takeAsk, hs, hc, hn]

theorem takeAsk_settled (hs : first s = f) (ha : p.current = a.map .asked) (hn : p.next = none)
    (hy : a.isSome → yields) :
    p.takeAsk first yields f s = some ((p.settle s).1, .answer s :: (p.settle s).2) := by
  cases a with
  | none => simp [takeAsk, reply, hs, ha, hn]
  | some g => simp [takeAsk, reply, hs, ha, hn, hy]

theorem takeAsk_replaced (hs : first s = f) (hc : p.current = some (.ready l)) (ha : p.next = a.map .asked)
    (hy : a.isSome → yields) (hne : s ≠ l.session) (hq : p.queue = []) :
    p.takeAsk first yields f s = some ({ p with next := some (.ready ⟨s, 0, 0⟩) }, [.answer s]) := by
  cases a with
  | none => simp [takeAsk, reply, hs, hc, ha, hne, hq]
  | some g => simp [takeAsk, reply, hs, hc, ha, hne, hq, hy]

end Party

variable {st : Pair F S P} {c : Letter F S P} {rest : Word F S P} {s : S}
variable {a b : Option F} {k l m n : Line S} {h h' late new : Word F S P} {t : S} {x : Option P}
  {p : Party F S P}

variable (st first yields c rest s) in
abbrev Pair.Reads : Prop :=
  ∃ r, st.mine.take first yields s c = some r ∧ Linked first yields (st.read rest r)

theorem Opening.take (hp : Opening yields st a b) (hback : st.back = c :: rest)
    (hs : st.mine.Fits first s c) : st.Reads first yields c rest s := by
  have ha := hp.asking
  rw [hback] at ha
  -- Where we answer, the first session is there at once, and all that waited follows the answer.
  have hanswer {g : F} {pre : Word F S P} (hg : c = .ask g) (hrest : rest = []) (hb : b = some g)
      (hy : a.isSome → yields) (hout : st.out = pre)
      (hpre : pre = [] ∨ yields ∧ ∃ f, pre = [.ask f]) : st.Reads first yields c rest s := by
    subst hg hrest hb hout
    have hfirst := hs.answers g rfl
    have hnew : Greeted first (!yields)
        (st.read [] ((st.mine.settle s).1, .answer s :: (st.mine.settle s).2)).swap
        ⟨s, st.mine.queue.length, 0⟩ [] st.out (st.mine.settle s).2 := {
      mine := hp.theirs.trans (by rw [hfirst]; rfl)
      mineNext := hp.theirsNext
      theirs := rfl
      untaken := rfl
      flushed := rfl
      previous := rfl
      renewing := .inl ⟨hp.mineNext, rfl⟩
      out := rfl
      back := rfl
      yielded := by simpa using hpre
      onNew := by simpa [settle] using mixed_numbered s 0 st.mine.queue }
    exact ⟨_, takeAsk_settled hfirst hp.mine hp.mineNext hy, .greeting hnew⟩
  generalize hout : st.out = out at ha
  cases ha with
  | theirs g => exact hanswer rfl rfl rfl (by simp) hout (.inl rfl)
  | unheard hy f g => exact hanswer rfl rfl rfl (fun _ => hy) hout (.inl rfl)
  | crossed f g =>
    cases hy : yields with
    | true => exact hy ▸ hanswer rfl rfl rfl (fun _ => hy) hout (.inr ⟨hy, f, rfl⟩)
    | false =>
      refine ⟨_, takeAsk_ignored (hs.answers g rfl) (.inl ⟨⟨f, hp.mine⟩, hp.mineNext⟩), ?_⟩
      refine .opening (a := some f) (b := some g) { hp with asking := ?_ }
      simpa [Pair.read, hout] using Asking.deaf rfl f g

theorem Greeted.take {pre : Word F S P} (hp : Greeted first yields st m h pre new) (hback : st.back = c :: rest)
    (hs : st.mine.Fits first s c) : st.Reads first yields c rest s := by
  have hword := hp.back
  rw [hback] at hword
  rcases hp.yielded with rfl | ⟨hy, g, rfl⟩
  · obtain ⟨rfl, rfl⟩ := List.cons.inj hword
    obtain ⟨b, hb, hasking⟩ := hp.renewing.asking (!yields)
    have hasking := hasking.swap
    rw [Bool.not_not] at hasking
    have hnew : Level yields (st.read rest (st.mine.settle m.session)) none b
        ⟨m.session, st.mine.queue.length, 0⟩ m [] h := {
      mine := rfl
      theirs := hp.theirs
      mineNext := hp.mineNext
      theirsNext := hb
      same := rfl
      flushed := rfl
      flushed' := hp.flushed
      previous := fun k hk => by cases hk
      previous' := fun k hk => by
        have hnone : st.theirs.previous = some k := hk
        rw [hp.previous] at hnone
        cases hnone
      asking := hasking
      out := .of_mixed (by
        simpa [Pair.read, settle, hp.out, hp.untaken] using
          mixed_numbered m.session 0 st.mine.queue)
      back := .of_mixed hp.onNew }
    exact ⟨_, by simp [take, takeAnswer, hp.mine, hp.mineNext], .level hnew⟩
  · obtain ⟨rfl, rfl⟩ := List.cons.inj hword
    subst hy
    refine ⟨_, takeAsk_ignored (hs.answers g rfl) (.inl ⟨⟨_, hp.mine⟩, hp.mineNext⟩), ?_⟩
    exact .greeted { hp with
      out := (List.append_nil st.out).trans hp.out
      back := rfl
      yielded := .inl rfl }

theorem Level.takeData {n : Nat} (hp : Level yields st a b l m h h') (hback : st.back = .data t n x :: rest) :
    st.Reads first yields (.data t n x) rest s := by
  have hword := hp.back
  rw [hback] at hword
  have hout : st.out ++ [] = st.out := List.append_nil st.out
  rcases hword.head with ⟨k, n', x', hk, hc, hle, hrest⟩ | ⟨rfl, hle, hrest⟩
  · cases hc
    refine ⟨_, take_previous hp.mine hp.mineNext hk rfl (hp.previous k hk) hle, ?_⟩
    refine .level { hp with previous := ?_, out := ?_, back := hrest }
    · rintro k' ⟨⟩
      exact hp.previous k hk
    · simpa [Pair.read, hout] using hp.out
  · refine ⟨_, take_current hp.mine hp.same.symm hle, ?_⟩
    refine .level (l := { l with taken := n + 1 }) { hp with mine := rfl, out := ?_, back := ?_ }
    · simpa [Pair.read, hout] using hp.out
    · exact .of_mixed hrest

theorem Level.takeAsk {g : F} (hp : Level yields st a b l m h h') (hback : st.back = .ask g :: rest)
    (hs : st.mine.Fits first s (.ask g)) : st.Reads first yields (.ask g) rest s := by
  have hword := hp.back
  rw [hback] at hword
  have hfirst := hs.answers g rfl
  have hfresh := hs.fresh l hp.mine
  obtain ⟨h'', rfl, hrest⟩ : Mixed m.session m.sent l.taken h' (.ask g :: rest) := by
    rcases hword.head with ⟨k, n, x, -, hc, -⟩ | hmixed
    · cases hc
    · exact hmixed
  -- Where we answer, the new session waits for their first message on it.
  have hanswer (hnil : h'' = []) (hb : b = some g) (hy : a.isSome → yields)
      (hh : h = [] ∨ yields ∧ ∃ f, h = [.ask f]) : st.Reads first yields (.ask g) rest s := by
    subst hnil hb
    have hnew : Answered first (!yields)
        (st.read rest ({ st.mine with next := some (.ready ⟨s, 0, 0⟩) }, [.answer s])).swap
        s m l (h ++ [.answer s]) := {
      mine := hp.theirs
      theirs := hp.mine
      mineNext := hp.theirsNext.trans (by rw [hfirst]; rfl)
      theirsNext := rfl
      same := hp.same.symm
      differs := hp.same ▸ hfresh
      flushed := hp.flushed'
      flushed' := hp.flushed
      previous := hp.previous'
      reply := by
        rcases hh with rfl | ⟨hy, f, rfl⟩
        · exact .inl rfl
        · exact .inr ⟨by rw [hy]; rfl, f, rfl⟩
      out := hrest
      back := hp.out.append (mixed_answer s) }
    exact ⟨_, takeAsk_replaced hfirst hp.mine hp.mineNext hy hfresh hp.flushed,
      .answering hnew⟩
  generalize hh' : Letter.ask g :: h'' = h' at hp
  have hasking := hp.asking
  cases hasking with
  | idle | mine f | deaf hy f g' => cases hh'
  | theirs g' =>
    cases hh'
    exact hanswer rfl rfl (by simp) (.inl rfl)
  | unheard hy f g' =>
    cases hh'
    exact hanswer rfl rfl (fun _ => hy) (.inl rfl)
  | crossed f g' =>
    cases hh'
    cases hy : yields with
    | true => exact hy ▸ hanswer rfl rfl (fun _ => hy) (.inr ⟨hy, f, rfl⟩)
    | false =>
      refine ⟨_, takeAsk_ignored hfirst (.inr ⟨⟨l, hp.mine⟩, f, hp.mineNext⟩), ?_⟩
      refine .level { hp with asking := .deaf rfl f g, out := ?_, back := .of_mixed hrest }
      simpa [Pair.read] using hp.out

theorem Level.take (hp : Level yields st a b l m h h') (hback : st.back = c :: rest)
    (hs : st.mine.Fits first s c) : st.Reads first yields c rest s := by
  cases c with
  | data t n x => exact hp.takeData hback
  | ask g => exact hp.takeAsk hback hs
  | answer t =>
    -- Nobody answers in this phase.
    have hword := hp.back
    rw [hback] at hword
    rcases hword.head with ⟨k, n, x, -, hc, -⟩ | ⟨h'', hh', -⟩
    · cases hc
    · have hasking := hp.asking
      rw [hh'] at hasking
      cases hasking

theorem Answered.takeAnswer (hp : Answered first yields st t l m [.answer t])
    (hrest : Mixed m.session m.sent l.taken [] rest) : st.Reads first yields (.answer t) rest s := by
  have hleading : Leading (st.read rest ({ st.mine with
      current := some (.ready ⟨t, 1, 0⟩)
      next := none
      previous := some l }, [.data t 0 none])) l ⟨t, 1, 0⟩ m ⟨t, 0, 0⟩ [] st.out
      [.data t 0 none] := {
    mine := rfl
    previous := rfl
    theirs := hp.theirs
    theirsNext := hp.theirsNext
    old := hp.same
    new := rfl
    differs := hp.same ▸ hp.differs
    unused := le_rfl
    flushed := hp.flushed
    flushed' := hp.flushed'
    renewing := .inl ⟨rfl, rfl⟩
    out := rfl
    onOld := ⟨l.sent, hp.same ▸ hp.out⟩
    onNew := ⟨rfl, le_rfl, rfl, le_rfl⟩
    confirms := ⟨0, none, [], rfl⟩
    back := hrest }
  exact ⟨_, by simp [Party.take, Party.takeAnswer, hp.mine, hp.mineNext, hp.flushed],
    .leading hleading⟩

theorem Answered.take (hp : Answered first yields st t l m h) (hback : st.back = c :: rest)
    (hs : st.mine.Fits first s c) : st.Reads first yields c rest s := by
  have hword := hp.back
  rw [hback] at hword
  have hout : st.out ++ [] = st.out := List.append_nil st.out
  rcases hword.head with ⟨k, n, x, hk, rfl, hle, hrest⟩ | hmixed
  · refine ⟨_, take_previous hp.mine (a := some (first t)) hp.mineNext hk rfl
      (hp.previous k hk) hle, ?_⟩
    refine .answered { hp with previous := ?_, out := ?_, back := hrest }
    · rintro k' ⟨⟩
      exact hp.previous k hk
    · simpa [Pair.read, hout] using hp.out
  cases c with
  | data t' n x =>
    obtain ⟨rfl, hle, hrest⟩ := hmixed
    refine ⟨_, take_current hp.mine hp.same.symm hle, ?_⟩
    refine .answered (l := { l with taken := n + 1 }) { hp with
      mine := rfl, out := ?_, back := .of_mixed hrest }
    simpa [Pair.read, hout] using hp.out
  | ask g =>
    obtain ⟨h', rfl, hrest⟩ := hmixed
    rcases hp.reply with hh | ⟨hy, g', hh⟩
    · cases hh
    · cases hh
      subst hy
      refine ⟨_, takeAsk_ignored (hs.answers g rfl)
        (.inr ⟨⟨l, hp.mine⟩, first t, hp.mineNext⟩), ?_⟩
      refine .answered { hp with reply := .inl rfl, out := ?_, back := .of_mixed hrest }
      simpa [Pair.read, hout] using hp.out
  | answer t' =>
    obtain ⟨h', rfl, hrest⟩ := hmixed
    rcases hp.reply with hh | ⟨hy, g, hh⟩
    · cases hh
      exact hp.takeAnswer hrest
    · cases hh

theorem Answered.take_theirs (hp : Answered first (!yields) st.swap t l m h) (hback : st.back = c :: rest) :
    st.Reads first yields c rest s := by
  have hword : Mixed l.session l.sent m.taken [] st.back := hp.out
  rw [hback] at hword
  cases c with
  | ask f | answer t =>
    obtain ⟨_, hnil, -⟩ := hword
    cases hnil
  | data t' n x =>
    obtain ⟨rfl, hle, hrest⟩ := hword
    refine ⟨_, take_current hp.theirs hp.same hle, ?_⟩
    refine .answering (m := { m with taken := n + 1 }) { hp with
      theirs := rfl, out := hrest, back := ?_ }
    simpa [Pair.read, Pair.swap] using hp.back

theorem Leading.take (hp : Leading st k l m n h late new) (hback : st.back = c :: rest) :
    st.Reads first yields c rest s := by
  have hword := hp.back
  rw [hback] at hword
  cases c with
  | ask f | answer t =>
    obtain ⟨_, hnil, -⟩ := hword
    cases hnil
  | data t j x =>
    obtain ⟨rfl, hle, hrest⟩ := hword
    obtain ⟨a, ha, -⟩ := hp.renewing.asking yields
    have hne : k.session ≠ l.session := hp.old ▸ hp.differs.symm
    refine ⟨_, take_previous hp.mine ha hp.previous hp.old.symm hne hle, ?_⟩
    refine .leading (k := { k with taken := j + 1 }) { hp with
      previous := rfl, out := ?_, back := hrest }
    exact (List.append_nil st.out).trans hp.out

theorem Leading.take_theirs (hp : Leading st.swap k l m n h late new) (hback : st.back = c :: rest) :
    st.Reads first yields c rest s := by
  have hword : st.back = late ++ new := hp.out
  rw [hback] at hword
  have hout : st.out ++ [] = st.out := List.append_nil st.out
  cases late with
  | cons c' late =>
    obtain ⟨rfl, rfl⟩ := List.cons.inj hword
    obtain ⟨top, hlate⟩ := hp.onOld
    cases c with
    | ask f | answer t =>
      obtain ⟨_, hnil, -⟩ := hlate
      cases hnil
    | data t j x =>
      obtain ⟨rfl, hle, hlate⟩ := hlate
      refine ⟨_, take_current hp.theirs rfl hle, ?_⟩
      refine .following (m := { m with taken := j + 1 }) { hp with
        theirs := rfl, out := rfl, onOld := ⟨top, hlate⟩, back := ?_ }
      simpa [Pair.read, Pair.swap, hout] using hp.back
  | nil =>
    obtain ⟨j, x, new', rfl⟩ := hp.confirms
    obtain ⟨rfl, rfl⟩ := List.cons.inj hword
    obtain ⟨-, hle, hnew⟩ := hp.onNew
    obtain ⟨b, hb, hasking⟩ := hp.renewing.asking (!yields)
    have hasking := hasking.swap
    rw [Bool.not_not] at hasking
    have hne : n.session ≠ m.session := hp.new ▸ hp.differs
    have hlevel : Level yields (st.read rest ({ st.mine with
        current := some (.ready { n with taken := j + 1 })
        next := none
        previous := some m
        opened := st.mine.opened ++ x.toList }, [])) none b { n with taken := j + 1 } l [] h := {
      mine := rfl
      theirs := hp.mine
      mineNext := rfl
      theirsNext := hb
      same := hp.new.symm
      flushed := hp.flushed'
      flushed' := hp.flushed
      previous := fun k' hk' => by
        cases hk'
        exact hne.symm
      previous' := fun k' hk' => by
        cases hp.previous.symm.trans hk'
        exact hp.old ▸ hp.differs.symm
      asking := hasking
      out := by
        have hlate : Late (some k) st.out := ⟨m.sent, hp.old ▸ hp.back⟩
        simpa only [Pair.read, hout, show st.theirs.previous = some k from hp.previous] using
          Carries.of_late hlate hp.unused
      back := .of_mixed hnew }
    exact ⟨_, take_next hp.theirs hp.theirsNext hp.new hne hle, .level hlevel⟩

theorem Linked.take (hl : Linked first yields st) (hback : st.back = c :: rest)
    (hs : st.mine.Fits first s c) : st.Reads first yields c rest s := by
  cases hl with
  | opening hp | greeted hp | level hp | answered hp => exact hp.take hback hs
  | greeting hp =>
    have hempty : st.back = [] := hp.out
    rw [hempty] at hback
    cases hback
  | answering hp | following hp => exact hp.take_theirs hback
  | leading hp => exact hp.take hback

/-! ### Which sessions there are -/

variable {r : Party F S P × Word F S P}

/-- What taking a letter comes to; `s` is the session to answer with. -/
inductive Party.Takes (p : Party F S P) (s : S) : Letter F S P → Party F S P × Word F S P → Prop
  | opened {t : S} {n : Nat} {x : Option P} {p' : Party F S P} (h : p.takeData t n x = some p') :
    Takes p s (.data t n x) (p', [])
  | ignored {f : F} : Takes p s (.ask f) (p, [])
  | answered {f : F} : Takes p s (.ask f) ((p.settle s).1, .answer s :: (p.settle s).2)
  | beside {f : F} {l : Line S} (h : p.current = some (.ready l)) :
    Takes p s (.ask f) ({ p with next := some (.ready ⟨s, 0, 0⟩) }, [.answer s])
  | settled {t : S} : Takes p s (.answer t) (p.settle t)
  | replaced {t : S} {l : Line S} : Takes p s (.answer t)
    ({ p with current := some (.ready ⟨t, 1, 0⟩), next := none, previous := some l }, [.data t 0 none])

theorem Party.takes (h : p.take first yields s c = some r) : p.Takes s c r := by
  have hreply {f : F} (hr : p.reply s = some r) : p.Takes s (.ask f) r := by
    unfold reply at hr
    split at hr
    · rename_i l hl
      split_ifs at hr
      cases hr
      exact .beside hl
    · cases hr
      exact .answered
  cases c with
  | data t n x =>
    obtain ⟨p', hp', rfl⟩ := Option.map_eq_some_iff.mp h
    exact .opened hp'
  | answer t =>
    simp only [take, takeAnswer] at h
    split at h
    · split_ifs at h
      cases h
      exact .settled
    · split_ifs at h
      cases h
      exact .replaced
    · cases h
  | ask f =>
    have hf := first_of_takeAsk h
    rw [take, takeAsk, if_pos hf] at h
    split at h
    · exact hreply h
    · exact hreply h
    · split_ifs at h
      · exact hreply h
      · cases h
        exact .ignored
    · split_ifs at h
      · exact hreply h
      · cases h
        exact .ignored
    · cases h

theorem Party.take_holds (h : p.take first yields s c = some r) :
    (∀ t, r.1.Holds t → p.Holds t ∨ t = s ∨ c = .answer t) ∧ ∀ t, .answer t ∈ r.2 → t = s := by
  cases takes h with
  | @opened t n x p' hp' =>
    refine ⟨fun t' ht' => .inl ?_, by simp⟩
    obtain ⟨l', hslot, rfl⟩ := ht'
    obtain ⟨l, hl, ⟨-, -, rfl⟩ | ⟨-, m, hm, -, -, rfl⟩ | ⟨-, -, k, -, -, -, rfl⟩⟩ :=
      takeData_eq_some hp'
    · rcases hslot with h | h
      · cases h
        exact ⟨l, .inl hl, rfl⟩
      · exact ⟨l', .inr h, rfl⟩
    · rcases hslot with h | h
      · cases h
        exact ⟨m, .inr hm, rfl⟩
      · cases h
    · exact ⟨l', hslot, rfl⟩
  | ignored => exact ⟨fun _ ht => .inl ht, by simp⟩
  | answered =>
    refine ⟨fun t ht => (settle_holds ht).imp_right .inl, fun t ht => ?_⟩
    rcases List.mem_cons.mp ht with ht | ht
    · cases ht
      rfl
    · obtain ⟨j, x, ht⟩ := mem_numbered ht
      cases ht
  | beside =>
    refine ⟨fun t => ?_, fun t ht => by simpa using ht⟩
    rintro ⟨l, h | h, rfl⟩
    · exact .inl ⟨l, .inl h, rfl⟩
    · cases h
      exact .inr (.inl rfl)
  | settled =>
    refine ⟨fun t ht => (settle_holds ht).imp_right ?_, fun t ht => ?_⟩
    · rintro rfl
      exact .inr rfl
    · obtain ⟨j, x, ht⟩ := mem_numbered ht
      cases ht
  | replaced =>
    refine ⟨fun t => ?_, by simp⟩
    rintro ⟨l, h | h, rfl⟩
    · cases h
      exact .inr (.inr rfl)
    · cases h

theorem Party.ask_notMem_of_take (h : p.take first yields s c = some r) (f : F) :
    .ask f ∉ r.2 := by
  have hnumbered (t : S) : (.ask f : Letter F S P) ∉ (p.settle t).2 := by
    intro hf
    obtain ⟨j, x, hf⟩ := mem_numbered hf
    cases hf
  cases takes h with
  | answered => simp [hnumbered]
  | settled => exact hnumbered _
  | _ => simp

/-! ### Nothing is lost -/

theorem Party.take_packets (h : p.take first yields s c = some r) :
    r.1.accepted = p.accepted ∧ r.1.opened = p.opened ++ packets [c] ∧
      packets r.2 ++ r.1.queue = p.queue := by
  cases takes h with
  | @opened t n x p' hp' =>
    obtain ⟨l, -, ⟨-, -, rfl⟩ | ⟨-, m, -, -, -, rfl⟩ | ⟨-, -, k, -, -, -, rfl⟩⟩ :=
      takeData_eq_some hp'
    · exact ⟨rfl, rfl, rfl⟩
    · exact ⟨rfl, rfl, rfl⟩
    · exact ⟨rfl, rfl, rfl⟩
  | answered | settled => exact ⟨rfl, by simp [settle], p.settle_packets _⟩
  | ignored | beside | replaced => exact ⟨rfl, by simp, rfl⟩

theorem Sound.take (hs : Sound first yields st) (hback : st.back = c :: rest)
    (hfits : st.mine.Fits first s c) : ∃ r, st.mine.take first yields s c = some r ∧
      Sound first yields (st.read rest r) := by
  obtain ⟨r, hr, hlinked⟩ := hs.linked.take hback hfits
  obtain ⟨haccepted, hopened, hqueue⟩ := take_packets hr
  have hsent := hs.sent
  have hreceived := hs.received
  simp only [Pair.InOrder, Pair.swap, hback] at hsent hreceived
  refine ⟨r, hr, hlinked, ?_, ?_⟩
  · simp only [Pair.InOrder, Pair.read, packets_append, haccepted, List.append_assoc, hqueue]
    exact hsent
  · have hsplit : packets (c :: rest) = packets [c] ++ packets rest := packets_append [c] rest
    simp only [Pair.InOrder, Pair.swap, Pair.read, hopened, List.append_assoc]
    rw [← hreceived, hsplit, List.append_assoc]

end Handover
