import Nqvpn.TransitionSystem
import Mathlib.Data.List.Sort
import Mathlib.Logic.Function.Basic

/-!
# Calls over the control stream

Both halves of a peer. A call puts the sender of a channel of its own in a table under its request id,
and waits; a response takes the sender out of the table, and whatever ends the call takes it out too. A
request is answered at once, if its answer can be encoded and the queue to the writer has room.
-/

namespace Nqvpn

structure Request where
  reqId : Nat
  verb : Nat
  version : Nat
  payload : List UInt8
deriving DecidableEq, Repr

structure Response where
  reqId : Nat
  code : Option String
  payload : List UInt8
deriving DecidableEq, Repr

structure VerbSupport where
  verb : Nat
  min : Nat
  max : Nat
deriving DecidableEq, Repr

def VerbSupport.accepts (v : VerbSupport) (version : Nat) : Bool := v.min ≤ version && version ≤ v.max

/-- How values are serialized, before the limit is applied. -/
structure RpcCodec where
  response : Response → List UInt8
  verbs : List VerbSupport → List UInt8
  support : VerbSupport → List UInt8

def maxPayload : Nat := 1024 * 1024

def encodePayload (bytes : List UInt8) : Option (List UInt8) :=
  if bytes.length ≤ maxPayload then some bytes else none

/-- A call. `slot` is what was sent to it, with the number of the response, and `ended` how it ended: with
a response, or without. `heard` are the responses with its id that came while it was pending. -/
structure RpcCall where
  reqId : Nat
  slot : Option (Nat × Response)
  heard : List (Nat × Response)
  ended : Option (Option (Nat × Response))

/-- Response `n` is `r`; `mine` says that the sender in the table is that of this call. -/
def RpcCall.hear (n : Nat) (r : Response) (mine : Bool) (k : RpcCall) : RpcCall :=
  if k.ended = none ∧ k.reqId = r.reqId then
    { k with slot := if mine then some (n, r) else k.slot, heard := k.heard ++ [(n, r)] }
  else k

structure RpcPeer where
  -- For each request id in the table, the call whose sender it is.
  pending : Nat → Option Nat
  calls : Nat → Option RpcCall
  -- The responses so far, and the call each was sent to.
  received : List (Response × Option Nat)
  stopped : Bool
  -- The writer is gone.
  hungUp : Bool
  -- How many envelopes are in the queue to the writer.
  waiting : Nat
  emitted : List Response

inductive RpcEvent
  /-- A new call registers. Ids come from a counter that wraps around, and calls may register in another
  order than they draw them, so nothing is asked of `id`. -/
  | register (c id : Nat)
  /-- A call ends: with what was sent to it, or closed, timed out or dropped. -/
  | finish (c : Nat) (take : Bool)
  | response (r : Response)
  /-- `result` is what the handler says, if it is asked. -/
  | request (req : Request) (result : Except String (List UInt8))
  /-- A request of ours goes into the queue. -/
  | queued
  | written
  | hangUp
  | close

namespace RpcPeer

def fresh : RpcPeer := ⟨fun _ => none, fun _ => none, [], false, false, 0, []⟩

def apiVersions : Nat := 1

section

variable (codec : RpcCodec) (supported : List VerbSupport) (room : Nat)

def dispatch (req : Request) (result : Except String (List UInt8)) : Response :=
  if req.verb = apiVersions then
    let verbs := (supported ++ [VerbSupport.mk apiVersions 1 1]).mergeSort fun v w => v.verb ≤ w.verb
    match encodePayload (codec.verbs verbs) with
    | some payload => ⟨req.reqId, none, payload⟩
    | none => ⟨req.reqId, some "internal", []⟩
  else
    match supported.find? (·.verb = req.verb) with
    | none => ⟨req.reqId, some "unsupported_verb", []⟩
    | some sup =>
      if sup.accepts req.version then
        match result with
        | .ok payload => ⟨req.reqId, none, payload⟩
        | .error code => ⟨req.reqId, some code, []⟩
      else ⟨req.reqId, some "unsupported_version", (encodePayload (codec.support sup)).getD []⟩

/-- What a request leads to, unless its answer cannot be encoded. -/
def answer : RpcEvent → Option Response
  | .request req result =>
    let resp := dispatch codec supported req result
    (encodePayload (codec.response resp)).map fun _ => resp
  | _ => none

def onRequest (st : RpcPeer) : Option Response → RpcPeer
  | none => st
  | some resp =>
    if st.stopped || st.hungUp then st
    else if st.waiting < room then
      { st with waiting := st.waiting + 1, emitted := st.emitted ++ [resp] }
    else { st with stopped := true, pending := fun _ => none }

def step (st : RpcPeer) : RpcEvent → Option RpcPeer
  | .register c id =>
    if (st.calls c).isNone then
      some { st with
        pending := Function.update st.pending id (some c)
        calls := Function.update st.calls c (some ⟨id, none, [], none⟩) }
    else none
  | .finish c take => (st.calls c).bind fun k =>
    if k.ended.isNone then
      some { st with
        pending := Function.update st.pending k.reqId none
        calls := Function.update st.calls c (some { k with ended := some (if take then k.slot else none) }) }
    else none
  | .response r => some { st with
      pending := Function.update st.pending r.reqId none
      calls := fun c => (st.calls c).map (·.hear st.received.length r (st.pending r.reqId = some c))
      received := st.received ++ [(r, st.pending r.reqId)] }
  | .request req result => some (st.onRequest room (answer codec supported (.request req result)))
  | .queued => if st.waiting < room then some { st with waiting := st.waiting + 1 } else none
  | .written => some { st with waiting := st.waiting - 1 }
  | .hangUp => some { st with hungUp := true }
  | .close => some { st with pending := fun _ => none }

def system : TransitionSystem RpcPeer RpcEvent where
  Initial st := st = fresh
  step := step codec supported room

end

/-! ### Calls -/

structure CallKept (received : List (Response × Option Nat)) (c : Nat) (k : RpcCall) : Prop where
  own : ∀ a, k.slot = some a →
    a.2.reqId = k.reqId ∧ k.heard.head? = some a ∧ received[a.1]? = some (a.2, some c)
  ended : ∀ a, k.ended = some (some a) → k.slot = some a

structure CallsKept (st : RpcPeer) : Prop where
  table : ∀ id c, st.pending id = some c → ∃ k, st.calls c = some k ∧ k.reqId = id ∧ k.ended = none ∧
    k.slot = none ∧ k.heard = []
  call : ∀ c k, st.calls c = some k → CallKept st.received c k

variable {codec : RpcCodec} {supported : List VerbSupport} {room : Nat} {st st' : RpcPeer}
  {pending : Nat → Option Nat} {c : Nat} {k : RpcCall} {received : List (Response × Option Nat)}

theorem CallsKept.put (h : CallsKept st) (hk : CallKept st.received c k)
    (htable : ∀ id c', pending id = some c' → c' ≠ c ∧ st.pending id = some c' ∨
      c' = c ∧ k.reqId = id ∧ k.ended = none ∧ k.slot = none ∧ k.heard = []) :
    CallsKept { st with pending, calls := Function.update st.calls c (some k) } := by
  refine ⟨fun id c' hc' => ?_, fun c' k' hk' => ?_⟩
  · rcases htable id c' hc' with ⟨hne, hid⟩ | ⟨rfl, hnew⟩
    · simpa [Function.update_of_ne hne] using h.table id c' hid
    · exact ⟨k, Function.update_self .., hnew⟩
  · by_cases hc : c' = c
    · subst hc
      cases (Function.update_self ..).symm.trans hk'
      exact hk
    · exact h.call c' k' ((Function.update_of_ne hc ..).symm.trans hk')

theorem CallKept.hear (h : CallKept received c k) (r : Response) {o : Option Nat}
    (hmine : o = some c → k.slot = none ∧ k.heard = []) :
    CallKept (received ++ [(r, o)]) c (k.hear received.length r (o = some c)) := by
  have hlog {a : Nat × Response} (ha : k.slot = some a) :
      (received ++ [(r, o)])[a.1]? = some (a.2, some c) := by
    have hget := (h.own a ha).2.2
    rwa [List.getElem?_append_left (List.getElem?_eq_some_iff.mp hget).1]
  unfold RpcCall.hear
  split_ifs with hears hm
  · obtain rfl := of_decide_eq_true hm
    obtain ⟨hslot, hheard⟩ := hmine rfl
    refine ⟨fun a ha => ?_, fun a ha => ?_⟩
    · cases ha
      exact ⟨hears.2.symm, by simp [hheard], by simp⟩
    · cases hears.1.symm.trans ha
  · refine ⟨fun a ha => ?_, h.ended⟩
    obtain ⟨hown, hfirst, -⟩ := h.own a ha
    exact ⟨hown, by simp [hfirst], hlog ha⟩
  · refine ⟨fun a ha => ?_, h.ended⟩
    obtain ⟨hown, hfirst, -⟩ := h.own a ha
    exact ⟨hown, hfirst, hlog ha⟩

theorem CallsKept.step {e : RpcEvent} (h : CallsKept st) (hstep : st.step codec supported room e = some st') :
    CallsKept st' := by
  cases e with
  | register c id =>
    simp only [RpcPeer.step, Option.isNone_iff_eq_none] at hstep
    split_ifs at hstep with hnone
    cases hstep
    refine h.put ⟨nofun, nofun⟩ fun id' c' hc' => ?_
    by_cases hid : id' = id
    · subst hid
      rw [Function.update_self] at hc'
      exact .inr ⟨(Option.some.inj hc').symm, rfl, rfl, rfl, rfl⟩
    · rw [Function.update_of_ne hid] at hc'
      refine .inl ⟨?_, hc'⟩
      rintro rfl
      obtain ⟨k, hk, -⟩ := h.table id' c' hc'
      cases hnone.symm.trans hk
  | finish c take =>
    obtain ⟨k, hk, hstep⟩ := Option.bind_eq_some_iff.mp hstep
    split at hstep
    · cases hstep
      refine h.put ⟨(h.call c k hk).own, fun a ha => ?_⟩ fun id c' hc' => ?_
      · cases take with
        | false => cases ha
        | true => exact Option.some.inj ha
      · have hid : id ≠ k.reqId := by
          rintro rfl
          simp at hc'
        rw [Function.update_of_ne hid] at hc'
        refine .inl ⟨?_, hc'⟩
        rintro rfl
        obtain ⟨k', hk', rfl, -⟩ := h.table id c' hc'
        cases hk.symm.trans hk'
        exact hid rfl
    · cases hstep
  | response r =>
    cases hstep
    refine ⟨fun id c hc => ?_, fun c k hk => ?_⟩
    · have hne : id ≠ r.reqId := by
        rintro rfl
        simp at hc
      simp only [Function.update_of_ne hne] at hc
      obtain ⟨k, hk, rfl, hrest⟩ := h.table id c hc
      have hskip : ¬ (k.ended = none ∧ k.reqId = r.reqId) := fun hears => hne hears.2
      exact ⟨k, by simp only [hk, Option.map_some, RpcCall.hear, if_neg hskip], rfl, hrest⟩
    · obtain ⟨k, hcall, rfl⟩ := Option.map_eq_some_iff.mp hk
      refine (h.call c k hcall).hear r fun hmine => ?_
      obtain ⟨k', hk', -, -, hblank⟩ := h.table _ c hmine
      cases hcall.symm.trans hk'
      exact hblank
  | request req result =>
    cases hstep
    unfold onRequest
    split
    · exact h
    · split_ifs
      · exact h
      · exact ⟨h.table, h.call⟩
      · exact ⟨nofun, h.call⟩
  | queued =>
    simp only [RpcPeer.step] at hstep
    split_ifs at hstep
    cases hstep
    exact ⟨h.table, h.call⟩
  | written | hangUp =>
    cases hstep
    exact ⟨h.table, h.call⟩
  | close =>
    cases hstep
    exact ⟨nofun, h.call⟩

/-- A call returns the first response with its id that came while it was pending, no response is returned by
two calls, and where all calls have ended the table is empty. -/
theorem rpc_calls_get_own_answers (h : (system codec supported room).Reachable st) :
    (∀ c k n r, st.calls c = some k → k.ended = some (some (n, r)) →
      r.reqId = k.reqId ∧ k.heard.head? = some (n, r)) ∧
    (∀ c c' k k' n r r', st.calls c = some k → st.calls c' = some k' → k.ended = some (some (n, r)) →
      k'.ended = some (some (n, r')) → c = c') ∧
    ((∀ c k, st.calls c = some k → k.ended ≠ none) → ∀ id, st.pending id = none) := by
  have hkept : CallsKept st := by
    refine h.invariant (fun s hs => ?_) fun s e s' hs hstep => hs.step hstep
    obtain rfl : s = fresh := hs
    exact ⟨nofun, nofun⟩
  have hown {c : Nat} {k : RpcCall} {a : Nat × Response} (hk : st.calls c = some k)
      (ha : k.ended = some (some a)) := (hkept.call c k hk).own a ((hkept.call c k hk).ended a ha)
  refine ⟨fun c k n r hk hr => ?_, fun c c' k k' n r r' hk hk' hr hr' => ?_, fun hended id => ?_⟩
  · exact ⟨(hown hk hr).1, (hown hk hr).2.1⟩
  · cases (hown hk hr).2.2.symm.trans (hown hk' hr').2.2
    rfl
  · cases hid : st.pending id with
    | none => rfl
    | some c =>
      obtain ⟨k, hk, -, hpending, -⟩ := hkept.table id c hid
      exact absurd hpending (hended c k hk)

namespace RpcExample

def plain : RpcCodec := ⟨Response.payload, fun _ => [], fun _ => []⟩

def verbs : List VerbSupport := [⟨2, 1, 1⟩]

end RpcExample

open RpcExample in
/-- The response to nobody passes by, and the next one reaches the call. -/
theorem rpc_calls_get_own_answers_second : ∃ st k, (system plain verbs 1).run fresh
      [.register 0 7, .response ⟨9, none, []⟩, .response ⟨7, none, [1]⟩, .finish 0 true] = some st ∧
    st.calls 0 = some k ∧ k.heard.head? = some (1, ⟨7, none, [1]⟩) := by
  have hreach {st : RpcPeer} (h : (system plain verbs 1).run fresh
      [.register 0 7, .response ⟨9, none, []⟩, .response ⟨7, none, [1]⟩, .finish 0 true] = some st) :
      (system plain verbs 1).Reachable st :=
    .of_run (.of_initial rfl) h
  refine ⟨_, _, rfl, rfl, ?_⟩
  exact ((rpc_calls_get_own_answers (hreach rfl)).1 0 _ 1 _ rfl rfl).2

/-! ### Requests -/

def Silent (st : RpcPeer) : Prop := st.stopped ∨ st.hungUp

end RpcPeer

end Nqvpn
