import Cortos.Time.Threads.Requests

/-!
# Cancelling by handle

`schedule_at` returns a handle with the id of its event. `cancel` knows nothing but the id: it
marks the first event in the vector that has it. That is the event of the handle as long as the
ids of the events that are still to come differ (`IdsDiffer`), which they do as long as
`fetch_add` returns no id of such an event (`FreshIds`). It can return one after a `reset` during
a `schedule_at` or an `on_timer_isr`, whose events `reset` does not clear, and when `next_id` has
come round.

- `invoked_as_requested`: a callback is called at most once, with what was asked for, not before
  the deadline, as its `on_timer_isr` has read the time, and not after a `cancel` of its handle
  has returned true.
-/

namespace Cortos.Time

open Lib

variable {s s' : SimThreads} {l : ThreadsLabel} {h : Handle} {hz : Nat}

/-! ## Ids in use -/

/-- The event is still to come: a `schedule_at` is about to push it, it is in the vector, or an
`on_timer_isr` has copied it. -/
def SimThreads.Pending (s : SimThreads) (e : SimEvent) : Prop :=
  ∃ p : Place, p.pending = true ∧ e ∈ s.eventsAt p

/-- An event that is still to come has this id. -/
def SimThreads.InUse (s : SimThreads) (id : Nat) : Prop :=
  ∃ e, s.Pending e ∧ e.id = id

/-- A `fetch_add` of `next_id` does not return an id in use. -/
def FreshIds (s : SimThreads) (l : ThreadsLabel) : Prop :=
  s.takesId l = true → s.clock.ds.nextId ≠ 0 → ¬ s.InUse s.clock.ds.nextId

/-- Events that are still to come have different ids. -/
def IdsDiffer (s : SimThreads) : Prop :=
  ∀ e e', s.Pending e → s.Pending e' → e.id = e'.id → e.id ≠ 0 → e.ticket = e'.ticket

/-- At most one event is new, and its id comes from `next_id`. -/
theorem TokenStep.pending (hstep : TokenStep s l s') : (∀ e, s'.Pending e → s.Pending e) ∨
    ∃ x : SimEvent, s.takesId l = true ∧ x.id = s.clock.ds.nextId ∧
      ∀ e, s'.Pending e → s.Pending e ∨ e = x := by
  cases hstep with
  | stay _ hsame =>
    refine .inl fun e ⟨p, hp, he⟩ => ⟨p, hp, ?_⟩
    rwa [← hsame]
  | create a x htakes _ _ hid hq hother =>
    refine .inr ⟨x, htakes, hid, fun e ⟨p, hp, he⟩ => ?_⟩
    by_cases hpa : p = .claimed a
    · subst hpa
      rw [hq] at he
      exact (List.mem_cons.mp he).symm.imp_left fun he => ⟨_, rfl, he⟩
    · rw [hother p hpa] at he
      exact .inl ⟨p, hp, he⟩
  | number a x htakes _ hp' hq hother =>
    refine .inr ⟨{ x with id := s.clock.ds.nextId }, htakes, rfl, fun e ⟨p, hp, he⟩ => ?_⟩
    by_cases hpa : p = .claimed a
    · subst hpa
      rw [hq] at he
      refine (List.mem_cons.mp he).symm.imp_left fun he => ⟨.claimed a, rfl, ?_⟩
      rw [hp']
      exact List.mem_cons_of_mem _ he
    · rw [hother p hpa] at he
      exact .inl ⟨p, hp, he⟩
  | move p q es _ hpending _ hp hq hother =>
    refine .inl fun e ⟨r, hr, he⟩ => ?_
    have hfrom : e ∈ es ++ s'.eventsAt p → s.Pending e := fun he => ⟨p, hpending, hp.mem_iff.mpr he⟩
    by_cases hrp : r = p
    · subst hrp
      exact hfrom (List.mem_append_right _ he)
    · by_cases hrq : r = q
      · subst hrq
        rcases List.mem_append.mp (hq.mem_iff.mp he) with he | he
        · exact hfrom (List.mem_append_left _ he)
        · exact ⟨r, hr, he⟩
      · exact ⟨r, hr, hother r hrp hrq ▸ he⟩

theorem IdsDiffer.step (hs : IdsDiffer s) (hstep : TokenStep s l s') (hfresh : FreshIds s l) :
    IdsDiffer s' := by
  intro e e' he he' hid hne
  rcases hstep.pending with hold | ⟨x, htakes, hx, hnew⟩
  · exact hs e e' (hold e he) (hold e' he') hid hne
  · rcases hnew e he with he | rfl <;> rcases hnew e' he' with he' | rfl
    · exact hs e e' he he' hid hne
    · exact absurd ⟨e, he, hid.trans hx⟩ (hfresh htakes (hx ▸ hid ▸ hne))
    · exact absurd ⟨e', he', hid.symm.trans hx⟩ (hfresh htakes (hx ▸ hne))
    · rfl

theorem IdsDiffer.reach (hreach : (simThreads hz).ReachVia FreshIds s) : IdsDiffer s := by
  refine Lts.ReachVia.invariant ?_ ?_ hreach
  · rintro _ rfl e e' ⟨p, hp, he⟩
    cases p <;> cases he
  · intro s l s' hreach hs hfresh hstep
    have hinv := RequestInv.reach (hreach.mono fun _ _ _ => trivial)
    exact hs.step ((SimThreads.step_move hstep).tokens hinv.asRequested hinv.fresh) hfresh

/-! ## The event of a handle -/

/-- `schedule_at` has given request `k` the id of handle `h`. -/
def SimThreads.Issued (s : SimThreads) (k : Nat) (h : Handle) : Prop :=
  ∃ p : Place, ∃ e ∈ s.eventsAt p, e.ticket = k ∧ e.id = h.id

theorem cancelFirst_find? {id : Nat} {es : List SimEvent}
    (htrue : (SimState.cancelFirst id es).1 = true) :
    ∃ e, (es.find? fun e => e.id = id ∧ e.cancelled = false) = some e := by
  induction es with
  | nil => cases htrue
  | cons x es ih =>
    rw [SimState.cancelFirst] at htrue
    split at htrue
    case isTrue hx => exact ⟨x, by simp [hx.1, hx.2]⟩
    case isFalse hx =>
      obtain ⟨e, he⟩ := ih htrue
      exact ⟨e, by rw [List.find?_cons_of_neg (by simpa using hx), he]⟩

/-- A `cancel` that returns true withdraws an event of the vector that has the id. -/
theorem SimThreads.cancel_withdraws (htrue : (s.clock.ds.cancel h).1 = true) :
    h.id ≠ 0 ∧ ∃ e, s.Pending e ∧ e.id = h.id ∧ e ∈ (s.cancel h).eventsAt .withdrawn := by
  rw [SimState.cancel] at htrue
  split at htrue
  case isTrue => cases htrue
  case isFalse hne =>
    obtain ⟨e, he⟩ := cancelFirst_find? htrue
    have hfound : e.id = h.id ∧ e.cancelled = false := by simpa using List.find?_some he
    refine ⟨hne, e, ⟨.vector, rfl, ?_⟩, hfound.1, ?_⟩
    · exact List.mem_filter.mpr ⟨List.mem_of_find?_eq_some he, by simp [hfound.2]⟩
    · rw [SimThreads.cancel, if_neg hne]
      exact List.mem_append_right _ (by rw [he]; exact List.mem_singleton_self e)

theorem ThreadsMove.cancel_eq {a : Agent} (hmove : ThreadsMove s (.call a (.cancel h)) s') :
    s' = s.cancel h := by
  cases hmove with
  | cancel => rfl
  | advance _ hc => rcases hc with hc | ⟨d, hc, -⟩ <;> cases hc

section Run

variable {N i j : Nat} (r : (simThreads hz).Run N)
include r

theorem RequestInv.run (hi : i ≤ N) : RequestInv (r.state i) :=
  .reach (r.reachVia (fun _ _ => trivial) i hi)

/-- What is done with stays done with. -/
theorem settled_run {p : Place} {e : SimEvent} (hp : p.pending = false)
    (he : e ∈ (r.state i).eventsAt p) (hij : i ≤ j) (hj : j ≤ N) :
    e ∈ (r.state j).eventsAt p := by
  refine r.stable (P := fun s => e ∈ s.eventsAt p) he (fun k _ hk he => ?_) j hij hj
  have hinv := RequestInv.run r (Nat.le_of_lt hk)
  exact ((SimThreads.step_move (r.next k hk)).tokens hinv.asRequested hinv.fresh).settled hp he

/-- After a `cancel` of its handle has returned true, a callback is not called any more. -/
theorem not_called_after_cancel {a : Agent} {k : Nat} (hij : i < j) (hj : j ≤ N)
    (hfresh : ∀ m < i, FreshIds (r.state m) (r.label m))
    (hlabel : r.label i = .call a (.cancel h)) (htrue : ((r.state i).clock.ds.cancel h).1 = true)
    (hissued : (r.state i).Issued k h) (hcalled : k ∈ (r.state j).content .called) :
    k ∈ (r.state i).content .called := by
  have hi : i < N := Nat.lt_of_lt_of_le hij hj
  have hplaced := (RequestInv.run r hj).placed
  obtain ⟨p, e, he, rfl, hid⟩ := hissued
  cases hp : p.pending with
  | false =>
    -- the request was done with before, so it had been called
    have hmem := SimThreads.mem_content.mpr ⟨e, settled_run r hp he (Nat.le_of_lt hij) hj, rfl⟩
    obtain rfl := hplaced.unique hmem hcalled
    exact SimThreads.mem_content.mpr ⟨e, he, rfl⟩
  | true =>
    -- its event is the one that is marked, since no other has the id
    obtain ⟨hne, x, hx, hxid, hmarked⟩ := SimThreads.cancel_withdraws htrue
    have hdiffer : IdsDiffer (r.state i) :=
      .reach ((r.take (Nat.le_of_lt hi)).reachVia hfresh i (Nat.le_refl i))
    have hsame : e.ticket = x.ticket :=
      hdiffer e x ⟨p, hp, he⟩ hx (hid.trans hxid.symm) (hid ▸ hne)
    have hafter : r.state (i + 1) = (r.state i).cancel h :=
      ThreadsMove.cancel_eq (hlabel ▸ SimThreads.step_move (r.next i hi))
    have hmem := SimThreads.mem_content.mpr
      ⟨x, settled_run r rfl (hafter ▸ hmarked) hij hj, hsame.symm⟩
    cases hplaced.unique hmem hcalled

end Run

/-! ## The result -/

/-- **A callback is called as it was requested**: at most once for each request, with its
argument, and by an `on_timer_isr` that has read a time not before the deadline; never if a
`cancel` has marked its event. Until `fetch_add` returns an id that is in use, the event that a
`cancel` marks is the one of the handle: after a `cancel` of its handle has returned true, the
callback of a request is not called any more. -/
theorem invoked_as_requested {N j : Nat} (r : (simThreads hz).Run N) (hj : j ≤ N) :
    ((r.state j).invoked.map fun i => i.event.ticket).Nodup ∧
      (∀ i ∈ (r.state j).invoked, (∃ cb, i.event.cb = some cb ∧
          (r.state j).requests[i.event.ticket]? = some ⟨i.event.when, cb, i.event.arg⟩) ∧
        i.event.when ≤ i.now ∧ ∀ e ∈ (r.state j).withdrawn, e.ticket ≠ i.event.ticket) ∧
      ∀ i < j, (∀ m < i, FreshIds (r.state m) (r.label m)) →
        ∀ a h, r.label i = .call a (.cancel h) → ((r.state i).clock.ds.cancel h).1 = true →
          ∀ k, (r.state i).Issued k h → k ∈ (r.state j).content .called →
            k ∈ (r.state i).content .called := by
  obtain ⟨-, hreq, hplaced⟩ := RequestInv.run r hj
  have hcalled : (r.state j).content .called =
      (r.state j).invoked.map fun i => i.event.ticket := by
    simp [SimThreads.content, SimThreads.eventsAt]
  refine ⟨hcalled ▸ hplaced.nodup .called, fun i hi => ⟨(hreq.invoked i hi).1,
    (hreq.invoked i hi).2, fun e he heq => ?_⟩, fun i hij hfresh a h hlabel htrue k hissued =>
      not_called_after_cancel r hij hj hfresh hlabel htrue hissued⟩
  have hmem : i.event.ticket ∈ (r.state j).content .called := by
    rw [hcalled]
    exact List.mem_map_of_mem hi
  have hmem' : i.event.ticket ∈ (r.state j).content .withdrawn :=
    SimThreads.mem_content.mpr ⟨e, he, heq⟩
  cases hplaced.unique hmem hmem'

/-- Two threads schedule; the first cancels its own request before the time comes. -/
def cancelFirstRequest : (simThreads 1000).Run 12 :=
  .ofLabels (SimThreads.initial 1000)
    [.call (.client 0) (.scheduleAt 5 (some 70) 0), .next (.client 0),
      .call (.client 1) (.scheduleAt 5 (some 80) 1), .next (.client 1),
      .call (.client 0) (.cancel ⟨1⟩), .call (.client 1) (.advanceTo 5), .next (.client 1),
      .next (.client 1), .next (.client 1), .next (.client 1), .next (.client 1),
      .next (.client 1)]
    (.elapse 0) (by exact simThreads_init_1000) (by decide +kernel)

theorem cancelFirstRequest_fresh :
    ∀ m < 4, FreshIds (cancelFirstRequest.state m) (cancelFirstRequest.label m) := by
  have hsecond : ∀ b, (cancelFirstRequest.state 2).stack b = [] := by
    intro b
    show Function.update (Function.update (fun _ => []) (Agent.client 0) _) (.client 0) [] b = []
    by_cases hb : b = .client 0
    · rw [hb, Function.update_self]
    · rw [Function.update_of_ne hb, Function.update_of_ne hb]
  have hvector : ∀ e ∈ (cancelFirstRequest.state 2).eventsAt .vector, e.id = 1 := by
    decide +kernel
  intro m hm
  obtain rfl | rfl | rfl | rfl : m = 0 ∨ m = 1 ∨ m = 2 ∨ m = 3 := by omega
  · rintro - - ⟨e, ⟨p, -, he⟩, -⟩
    cases p <;> cases he
  · intro htakes
    cases htakes
  · rintro - - ⟨e, ⟨p, -, he⟩, hid⟩
    have hnext : (cancelFirstRequest.state 2).clock.ds.nextId = 2 := by decide +kernel
    cases p with
    | claimed b | copied b => simp [SimThreads.eventsAt, hsecond] at he
    | vector => simp [hvector e he, hnext] at hid
    | called | withdrawn | cleared => cases he
  · intro htakes
    cases htakes

theorem invoked_as_requested_cancelled :
    ((cancelFirstRequest.state 4).clock.ds.cancel ⟨1⟩).1 = true ∧
      (cancelFirstRequest.state 12).content .called = [1] ∧
      (0 ∈ (cancelFirstRequest.state 12).content .called →
        0 ∈ (cancelFirstRequest.state 4).content .called) :=
  ⟨by decide +kernel, by decide +kernel,
    (invoked_as_requested cancelFirstRequest (Nat.le_refl 12)).2.2 4 (by decide)
      cancelFirstRequest_fresh (.client 0) ⟨1⟩ rfl (by decide +kernel) 0
      ⟨.vector, { id := 1, when := 5, cb := some 70, arg := 0, ticket := 0 }, by decide +kernel,
        rfl, rfl⟩⟩

-- `reset` starts the ids again while a `schedule_at` has its id and has not pushed its event:
-- the second request gets the same id, a `cancel` for the first one marks the second, and the
-- first one is called.
example : (simThreads 1000).runsTo (fun _ _ => True)
    (fun s => s.content .called = [0] ∧ s.content .withdrawn = [1]) (SimThreads.initial 1000)
    [.call (.client 0) (.scheduleAt 5 (some 70) 0), .call (.client 1) (.reset 0),
      .next (.client 1), .next (.client 1), .next (.client 1), .next (.client 1),
      .call (.client 1) (.scheduleAt 5 (some 80) 1), .next (.client 1), .next (.client 0),
      .call (.client 0) (.cancel ⟨1⟩), .call (.client 0) (.advanceTo 5), .next (.client 0),
      .next (.client 0), .next (.client 0), .next (.client 0), .next (.client 0)] = true := by
  decide +kernel

end Cortos.Time
