import Cortos.Lib.Resources
import Cortos.Time.Threads.Driver

/-!
# What becomes of a request

A call of `schedule_at` is at every moment in one place: claimed by its thread, which has not
pushed the event yet; in the vector; copied by an `on_timer_isr`; or done with, because its
callback has been called, a `cancel` has withdrawn it or `reset` has cleared it. Several threads
can be in `on_timer_isr` at once, and callbacks can call it again.

- `AsRequested`: the events are those that were asked for.
- `TokenStep`: a step makes a request, gives it its id, or takes requests from one place to
  another.
- `requests_placed`: in every interleaving each request is in exactly one place, once.
-/

namespace Cortos.Time

open Lib

variable {s s' : SimThreads} {l : ThreadsLabel} {a b : Agent} {f : Frame} {fs : List Frame}
  {rs rs' : List SimRequest} {es es' : List SimEvent} {stack : Agent → List Frame}
  {inv : List Invocation} {e : SimEvent}

/-! ## Events are as requested -/

/-- The event of a request. -/
def SimEvent.Requested (rs : List SimRequest) (e : SimEvent) : Prop :=
  ∃ cb, e.cb = some cb ∧ rs[e.ticket]? = some ⟨e.when, cb, e.arg⟩

theorem SimEvent.Requested.append (h : e.Requested rs) (r : SimRequest) :
    e.Requested (rs ++ [r]) := by
  obtain ⟨cb, hcb, hr⟩ := h
  refine ⟨cb, hcb, ?_⟩
  rw [List.getElem?_append_left (List.getElem?_eq_some_iff.mp hr).1, hr]

/-- The events of a call in progress are those of requests, and its copies are due. -/
def Frame.AsRequested (rs : List SimRequest) : Frame → Prop
  | .again e | .push e => e.Requested rs ∧ e.cancelled = false
  | .fire now due | .callback now due => ∀ e ∈ due, e.Requested rs ∧ e.when ≤ now
  | _ => True

theorem Frame.AsRequested.append (h : f.AsRequested rs) (r : SimRequest) :
    f.AsRequested (rs ++ [r]) := by
  cases f with
  | again e | push e => exact ⟨h.1.append r, h.2⟩
  | fire now due | callback now due => exact fun e he => ⟨(h e he).1.append r, (h e he).2⟩
  | _ => trivial

/-- All events are those of requests, and those that have been called were due. -/
structure AsRequested (rs : List SimRequest) (es : List SimEvent) (stack : Agent → List Frame)
    (inv : List Invocation) : Prop where
  events : ∀ e ∈ es, e.Requested rs
  frames : ∀ a, ∀ f ∈ stack a, f.AsRequested rs
  invoked : ∀ i ∈ inv, i.event.Requested rs ∧ i.event.when ≤ i.now

namespace AsRequested

theorem goto (h : AsRequested rs es stack inv) (hfs : ∀ f ∈ fs, f.AsRequested rs) :
    AsRequested rs es (Function.update stack a fs) inv where
  events := h.events
  frames b f hf := by
    by_cases hb : b = a
    · subst hb
      rw [Function.update_self] at hf
      exact hfs f hf
    · rw [Function.update_of_ne hb] at hf
      exact h.frames b f hf
  invoked := h.invoked

/-- The calls around the innermost one. -/
theorem rest (h : AsRequested rs es stack inv) (hstack : stack a = f :: fs) :
    ∀ g ∈ fs, g.AsRequested rs := fun g hg =>
  h.frames a g (by rw [hstack]; exact List.mem_cons_of_mem _ hg)

theorem top (h : AsRequested rs es stack inv) (hstack : stack a = f :: fs) : f.AsRequested rs :=
  h.frames a f (by rw [hstack]; exact List.mem_cons_self)

/-- The innermost call moves on to `g`. -/
theorem goOn (h : AsRequested rs es stack inv) (hstack : stack a = f :: fs) {g : Frame}
    (hg : g.AsRequested rs) : AsRequested rs es (Function.update stack a (g :: fs)) inv :=
  h.goto (List.forall_mem_cons.mpr ⟨hg, h.rest hstack⟩)

/-- A call inside the innermost one. -/
theorem enter (h : AsRequested rs es stack inv) {g : Frame} (hg : g.AsRequested rs) :
    AsRequested rs es (Function.update stack a (g :: stack a)) inv :=
  h.goto (List.forall_mem_cons.mpr ⟨hg, h.frames a⟩)

theorem setEvents (h : AsRequested rs es stack inv) (hes : ∀ e ∈ es', e.Requested rs) :
    AsRequested rs es' stack inv :=
  ⟨hes, h.frames, h.invoked⟩

theorem append (h : AsRequested rs es stack inv) (r : SimRequest) :
    AsRequested (rs ++ [r]) es stack inv where
  events e he := (h.events e he).append r
  frames a f hf := (h.frames a f hf).append r
  invoked i hi := ⟨(h.invoked i hi).1.append r, (h.invoked i hi).2⟩

end AsRequested

/-- Cancelling marks an event and changes nothing else about it. -/
theorem cancelFirst_requested {id : Nat} (h : ∀ e ∈ es, e.Requested rs) :
    ∀ e ∈ (SimState.cancelFirst id es).2, e.Requested rs := by
  induction es with
  | nil => exact h
  | cons x es ih =>
    obtain ⟨hx, hes⟩ := List.forall_mem_cons.mp h
    rw [SimState.cancelFirst]
    split
    · exact List.forall_mem_cons.mpr ⟨hx, hes⟩
    · exact List.forall_mem_cons.mpr ⟨hx, ih hes⟩

def SimThreads.AsRequested (s : SimThreads) : Prop :=
  Time.AsRequested s.requests s.clock.ds.events s.stack s.invoked

theorem SimThreads.newEvent_requested (s : SimThreads) (tp : Nat) (cb : Callback) (arg id : Nat) :
    SimEvent.Requested (s.requests ++ [⟨tp, cb, arg⟩]) { s.newEvent tp cb arg with id := id } :=
  ⟨cb, rfl, by simp [SimThreads.newEvent]⟩

theorem ThreadsMove.asRequested (hmove : ThreadsMove s l s') (h : s.AsRequested) :
    s'.AsRequested := by
  cases hmove with
  | refuse | stopNothing | setMode | elapse => exact h
  | @schedule a tp arg cb happ =>
    refine (AsRequested.append h ⟨tp, cb, arg⟩).enter ?_
    split
    · exact ⟨s.newEvent_requested tp cb arg 0, rfl⟩
    · exact ⟨s.newEvent_requested tp cb arg _, rfl⟩
  | cancel =>
    rw [SimThreads.cancel]
    split
    · exact h
    · exact AsRequested.setEvents h (cancelFirst_requested h.events)
  | enter | advance | start | stop | reset => exact AsRequested.enter h trivial
  | clear hstack =>
    exact AsRequested.goOn (AsRequested.setEvents h fun e he => absurd he List.not_mem_nil) hstack
      trivial
  | again hstack | callbackReturns hstack =>
    have htop := AsRequested.top h hstack
    exact AsRequested.goOn h hstack htop
  | @push a e fs hstack =>
    refine AsRequested.goto (AsRequested.setEvents h fun x hx => ?_) (AsRequested.rest h hstack)
    rcases List.mem_append.mp hx with hx | hx
    · exact h.events x hx
    · rw [List.mem_singleton.mp hx]
      exact (AsRequested.top h hstack).1
  | readTime hstack | load hstack | store hstack | startRun hstack | epoch hstack
  | resetId hstack | resetTime hstack =>
    exact AsRequested.goOn h hstack trivial
  | collect hstack =>
    refine AsRequested.goOn (AsRequested.setEvents h fun x hx => ?_) hstack fun x hx => ?_
    · exact h.events x (List.mem_filter.mp hx).1
    · obtain ⟨hmem, hdue⟩ := List.mem_filter.mp hx
      exact ⟨h.events x hmem, (of_decide_eq_true hdue).2.2⟩
  | leave hstack | startNothing hstack | joinNothing hstack | join hstack | resetStarted hstack
  | loopEnds hstack => exact AsRequested.goto h (AsRequested.rest h hstack)
  | skip hstack =>
    exact AsRequested.goOn h hstack
      (List.forall_mem_cons.mp (AsRequested.top h hstack)).2
  | @fire a now e due fs hstack =>
    obtain ⟨hfirst, hdue⟩ := List.forall_mem_cons.mp (AsRequested.top h hstack)
    have hgo := AsRequested.goOn h hstack (g := .callback now due) hdue
    refine ⟨hgo.events, hgo.frames, fun i hi => ?_⟩
    rcases List.mem_append.mp hi with hi | hi
    · exact h.invoked i hi
    · rw [List.mem_singleton.mp hi]
      exact hfirst
  | spawn hstack =>
    exact AsRequested.goto (AsRequested.goto h (AsRequested.rest h hstack))
      (List.forall_mem_singleton.mpr trivial)
  | loop hstack =>
    exact AsRequested.goto h (List.forall_mem_cons.mpr
      ⟨trivial, List.forall_mem_cons.mpr ⟨trivial, AsRequested.rest h hstack⟩⟩)

/-! ## Places -/

/-- The places in which a request can be. -/
inductive Place where
  | claimed (a : Agent)
  | vector
  | copied (a : Agent)
  | called
  | withdrawn
  | cleared
  deriving DecidableEq, Repr

/-- The request is still to be served. -/
def Place.pending : Place → Bool
  | .claimed _ | .vector | .copied _ => true
  | .called | .withdrawn | .cleared => false

namespace Frame

/-- The event that a `schedule_at` has still to push. -/
def claimed : Frame → List SimEvent
  | .again e | .push e => [e]
  | _ => []

/-- The copies that an `on_timer_isr` has still to call. -/
def copied : Frame → List SimEvent
  | .fire _ due | .callback _ due => due
  | _ => []

end Frame

/-- The events in each place. -/
def SimThreads.eventsAt (s : SimThreads) : Place → List SimEvent
  | .claimed a => (s.stack a).flatMap Frame.claimed
  | .vector => active s.clock.ds.events
  | .copied a => (s.stack a).flatMap Frame.copied
  | .called => s.invoked.map Invocation.event
  | .withdrawn => s.withdrawn
  | .cleared => s.cleared

/-- The numbers of the requests in each place. -/
def SimThreads.content (s : SimThreads) (p : Place) : List Nat :=
  (s.eventsAt p).map SimEvent.ticket

theorem SimThreads.mem_content {p : Place} {k : Nat} :
    k ∈ s.content p ↔ ∃ e ∈ s.eventsAt p, e.ticket = k :=
  List.mem_map

/-- The step takes an id from `next_id`. -/
def SimThreads.takesId (s : SimThreads) : ThreadsLabel → Bool
  | .call _ (.scheduleAt _ (some _) _) => true
  | .next a =>
    match s.stack a with
    | .again _ :: _ => true
    | _ => false
  | _ => false

/-- What says where the requests are, apart from the calls in progress. -/
def SimThreads.records (s : SimThreads) :
    List SimRequest × List SimEvent × List Invocation × List SimEvent × List SimEvent :=
  (s.requests, s.clock.ds.events, s.invoked, s.withdrawn, s.cleared)

/-- What a step does to the requests: it makes one, gives one its id, or takes some from one
place to another, or none of these. -/
inductive TokenStep (s : SimThreads) (l : ThreadsLabel) (s' : SimThreads) : Prop where
  | stay (hreq : s'.requests = s.requests) (hsame : ∀ p, s'.eventsAt p = s.eventsAt p)
  | create (a : Agent) (e : SimEvent) {r : SimRequest} (htakes : s.takesId l = true)
      (hreq : s'.requests = s.requests ++ [r]) (hticket : e.ticket = s.requests.length)
      (hid : e.id = s.clock.ds.nextId)
      (hq : s'.eventsAt (.claimed a) = e :: s.eventsAt (.claimed a))
      (hother : ∀ p, p ≠ .claimed a → s'.eventsAt p = s.eventsAt p)
  | number (a : Agent) (e : SimEvent) {es : List SimEvent} (htakes : s.takesId l = true)
      (hreq : s'.requests = s.requests) (hp : s.eventsAt (.claimed a) = e :: es)
      (hq : s'.eventsAt (.claimed a) = { e with id := s.clock.ds.nextId } :: es)
      (hother : ∀ p, p ≠ .claimed a → s'.eventsAt p = s.eventsAt p)
  | move (p q : Place) (es : List SimEvent) (hpq : p ≠ q) (hpending : p.pending = true)
      (hreq : s'.requests = s.requests)
      (hp : (s.eventsAt p).Perm (es ++ s'.eventsAt p))
      (hq : (s'.eventsAt q).Perm (es ++ s.eventsAt q))
      (hother : ∀ r, r ≠ p → r ≠ q → s'.eventsAt r = s.eventsAt r)

theorem SimThreads.content_of_eventsAt {p : Place} (h : s'.eventsAt p = s.eventsAt p) :
    s'.content p = s.content p :=
  congrArg (List.map SimEvent.ticket) h

theorem TokenStep.placed (h : TokenStep s l s') (hs : Places s.content (· < s.requests.length)) :
    Places s'.content (· < s'.requests.length) := by
  cases h with
  | stay hreq hsame =>
    have hcontent : s'.content = s.content :=
      funext fun p => SimThreads.content_of_eventsAt (hsame p)
    rw [hreq, hcontent]
    exact hs
  | create a e htakes hreq hticket hid hq hother =>
    have hq' : s'.content (.claimed a) = s.requests.length :: s.content (.claimed a) := by
      rw [SimThreads.content, hq, List.map_cons, hticket]
      rfl
    have hnew := hs.create (Nat.lt_irrefl _) (.of_eq hq') fun p hp =>
      SimThreads.content_of_eventsAt (hother p hp)
    refine ⟨hnew.nodup, hnew.unique, fun k => ?_⟩
    rw [← hnew.covers, hreq, List.length_append]
    exact Nat.lt_succ_iff_lt_or_eq
  | number a e htakes hreq hp hq hother =>
    have hsame : ∀ p, s'.content p = s.content p := by
      intro p
      by_cases hpa : p = .claimed a
      · subst hpa
        rw [SimThreads.content, SimThreads.content, hp, hq]
        rfl
      · exact SimThreads.content_of_eventsAt (hother p hpa)
    rw [hreq, funext hsame]
    exact hs
  | move p q es hpq hpending hreq hp hq hother =>
    have hp' := hp.map SimEvent.ticket
    have hq' := hq.map SimEvent.ticket
    rw [List.map_append] at hp' hq'
    rw [hreq]
    exact hs.move hpq hp' hq' fun r hrp hrq => SimThreads.content_of_eventsAt (hother r hrp hrq)

/-- What has been served, withdrawn or cleared stays so. -/
theorem TokenStep.settled (h : TokenStep s l s') {p : Place} (hp : p.pending = false)
    (he : e ∈ s.eventsAt p) : e ∈ s'.eventsAt p := by
  have hclaimed : ∀ a, p ≠ .claimed a := by
    rintro a rfl
    cases hp
  cases h with
  | stay _ hsame => rwa [hsame]
  | create a _ _ _ _ _ _ hother | number a _ _ _ _ _ hother => rwa [hother p (hclaimed a)]
  | move q r es _ hpending _ _ hr hother =>
    have hpq : p ≠ q := by
      rintro rfl
      rw [hp] at hpending
      cases hpending
    by_cases hpr : p = r
    · subst hpr
      exact hr.mem_iff.mpr (List.mem_append_right _ he)
    · rwa [hother p hpq hpr]

/-! ## The steps -/

namespace SimThreads

variable {r : Place}

/-- A thread moves on, and a place keeps its events. -/
theorem eventsAt_goto
    (hclaimed : r = .claimed a → fs.flatMap Frame.claimed = (s.stack a).flatMap Frame.claimed)
    (hcopied : r = .copied a → fs.flatMap Frame.copied = (s.stack a).flatMap Frame.copied) :
    (s.goto a fs).eventsAt r = s.eventsAt r := by
  cases r with
  | claimed b =>
    by_cases hb : b = a
    · subst hb
      simp [eventsAt, goto, hclaimed rfl]
    · simp [eventsAt, goto, hb]
  | copied b =>
    by_cases hb : b = a
    · subst hb
      simp [eventsAt, goto, hcopied rfl]
    · simp [eventsAt, goto, hb]
  | _ => rfl

theorem eventsAt_setEvents (hr : r ≠ .vector) : (s.setEvents es).eventsAt r = s.eventsAt r := by
  cases r with
  | vector => exact absurd rfl hr
  | _ => rfl

theorem eventsAt_invoked (hr : r ≠ .called) :
    { s with invoked := inv }.eventsAt r = s.eventsAt r := by
  cases r with
  | called => exact absurd rfl hr
  | _ => rfl

theorem eventsAt_withdrawn (hr : r ≠ .withdrawn) :
    { s with withdrawn := es }.eventsAt r = s.eventsAt r := by
  cases r with
  | withdrawn => exact absurd rfl hr
  | _ => rfl

theorem eventsAt_cleared (hr : r ≠ .cleared) :
    { s with cleared := es }.eventsAt r = s.eventsAt r := by
  cases r with
  | cleared => exact absurd rfl hr
  | _ => rfl

end SimThreads

theorem SimThreads.eventsAt_congr (hrec : s'.records = s.records) (hstack : s'.stack = s.stack)
    (r : Place) : s'.eventsAt r = s.eventsAt r := by
  simp only [SimThreads.records, Prod.mk.injEq] at hrec
  obtain ⟨-, hevents, hinv, hwithdrawn, hcleared⟩ := hrec
  cases r <;> simp [SimThreads.eventsAt, *]

/-- A thread moves on without touching a request. -/
theorem TokenStep.goto (hrec : s'.records = s.records)
    (hstack : s'.stack = Function.update s.stack a fs)
    (hclaimed : fs.flatMap Frame.claimed = (s.stack a).flatMap Frame.claimed)
    (hcopied : fs.flatMap Frame.copied = (s.stack a).flatMap Frame.copied) :
    TokenStep s l s' := by
  refine .stay (congrArg Prod.fst hrec) fun r => ?_
  have hs' := SimThreads.eventsAt_congr (s := s.goto a fs) hrec hstack r
  exact hs'.trans (SimThreads.eventsAt_goto (fun _ => hclaimed) fun _ => hcopied)

/-- The innermost call moves on. -/
theorem TokenStep.goOn {gs : List Frame} (hstack : s.stack a = f :: fs)
    (hrec : s'.records = s.records) (hstack' : s'.stack = Function.update s.stack a gs)
    (hclaimed : gs.flatMap Frame.claimed = (f :: fs).flatMap Frame.claimed)
    (hcopied : gs.flatMap Frame.copied = (f :: fs).flatMap Frame.copied) : TokenStep s l s' :=
  .goto hrec hstack' (hstack ▸ hclaimed) (hstack ▸ hcopied)

/-- What `cancel` marks is what it records. -/
theorem active_cancelFirst (id : Nat) (es : List SimEvent) :
    (active es).Perm ((es.find? fun e => e.id = id ∧ e.cancelled = false).toList ++
      active (SimState.cancelFirst id es).2) := by
  induction es with
  | nil => exact .refl _
  | cons e es ih =>
    rw [SimState.cancelFirst]
    split
    case isTrue he => simp [active, he.1, he.2]
    case isFalse he =>
      rw [List.find?_cons_of_neg (by simpa using he)]
      cases hc : e.cancelled with
      | true => simpa [active, hc] using ih
      | false =>
        have hmid := (ih.cons e).trans List.perm_middle.symm
        simpa [active, hc] using hmid

/-- No worker is there before it is created. -/
def SimThreads.Fresh (s : SimThreads) : Prop :=
  ∀ n, s.workers ≤ n → s.stack (.worker n) = []

theorem TokenStep.schedule {tp arg : Nat} {cb : Callback} :
    TokenStep s (.call a (.scheduleAt tp (some cb) arg)) (s.scheduleAt a tp cb arg) := by
  have hframe : ∀ id, (if id = 0 then Frame.again (s.newEvent tp cb arg)
        else .push { s.newEvent tp cb arg with id := id }).copied = [] ∧
      (if id = 0 then Frame.again (s.newEvent tp cb arg)
        else .push { s.newEvent tp cb arg with id := id }).claimed =
          [{ s.newEvent tp cb arg with id := id }] := by
    intro id
    by_cases hid : id = 0
    · subst hid
      exact ⟨rfl, rfl⟩
    · simp [hid, Frame.copied, Frame.claimed]
  refine .create a { s.newEvent tp cb arg with id := s.clock.ds.nextId } rfl rfl rfl rfl ?_
    fun r hr => ?_
  · simp only [SimThreads.eventsAt, SimThreads.scheduleAt, SimThreads.goto, Function.update_self,
      List.flatMap_cons, (hframe _).2]
    rfl
  · refine SimThreads.eventsAt_goto (fun he => absurd he hr) fun _ => ?_
    rw [List.flatMap_cons, (hframe _).1]
    rfl

theorem TokenStep.again (hstack : s.stack a = .again e :: fs) : TokenStep s (.next a)
    (s.fetchAdd.goto a (.push { e with id := s.clock.ds.nextId } :: fs)) := by
  have hclaimed : s.eventsAt (.claimed a) = e :: fs.flatMap Frame.claimed := by
    simp [SimThreads.eventsAt, hstack, Frame.claimed]
  refine .number a e ?_ rfl hclaimed ?_ fun r hr => ?_
  · simp [SimThreads.takesId, hstack]
  · simp [SimThreads.eventsAt, SimThreads.goto, Frame.claimed]
  · refine SimThreads.eventsAt_goto (s := s.fetchAdd) (fun he => absurd he hr) fun _ => ?_
    exact (congrArg (List.flatMap Frame.copied) hstack).symm

theorem TokenStep.cancel {h : Handle} : TokenStep s l (s.cancel h) := by
  rw [SimThreads.cancel]
  split
  · exact .stay rfl fun _ => rfl
  · exact .move .vector .withdrawn
      (s.clock.ds.events.find? fun e : SimEvent => e.id = h.id ∧ e.cancelled = false).toList
      (by simp) rfl rfl (active_cancelFirst h.id s.clock.ds.events) List.perm_append_comm
      fun r hp hq => (SimThreads.eventsAt_withdrawn hq).trans (SimThreads.eventsAt_setEvents hp)

theorem TokenStep.clear {tp : Nat} (hstack : s.stack a = .clear tp :: fs) :
    TokenStep s l (s.clear.goto a (.resetId tp :: fs)) := by
  refine .move .vector .cleared (active s.clock.ds.events) (by simp) rfl rfl ?_
    List.perm_append_comm fun r hp hq => ?_
  · show (active s.clock.ds.events).Perm (active s.clock.ds.events ++ [])
    rw [List.append_nil]
  · have hgoto : (s.clear.goto a (.resetId tp :: fs)).eventsAt r = s.clear.eventsAt r :=
      SimThreads.eventsAt_goto (fun _ => (congrArg (List.flatMap Frame.claimed) hstack).symm)
        fun _ => (congrArg (List.flatMap Frame.copied) hstack).symm
    exact hgoto.trans ((SimThreads.eventsAt_cleared hq).trans (SimThreads.eventsAt_setEvents hp))

theorem TokenStep.push (hstack : s.stack a = .push e :: fs) (hactive : e.cancelled = false) :
    TokenStep s l ((s.setEvents (s.clock.ds.events ++ [e])).goto a fs) := by
  refine .move (.claimed a) .vector [e] (by simp) rfl rfl ?_ ?_ fun r hp hq => ?_
  · simp [SimThreads.eventsAt, SimThreads.goto, hstack, Frame.claimed]
  · show (active (s.clock.ds.events ++ [e])).Perm ([e] ++ active s.clock.ds.events)
    have hlast : active (s.clock.ds.events ++ [e]) = active s.clock.ds.events ++ [e] := by
      simp [active, hactive]
    rw [hlast]
    exact List.perm_append_comm
  · refine (SimThreads.eventsAt_goto (fun he => absurd he hp) fun _ => ?_).trans
      (SimThreads.eventsAt_setEvents hq)
    exact (congrArg (List.flatMap Frame.copied) hstack).symm

theorem TokenStep.collect {now : Nat} (hstack : s.stack a = .collect now :: fs) :
    TokenStep s l (s.collect a now fs) := by
  refine .move .vector (.copied a) (s.clock.ds.events.filter fun e => e.due now) (by simp) rfl rfl
    ((active_enter s.clock.ds.events now).trans List.perm_append_comm) ?_ fun r hp hq => ?_
  · simp [SimThreads.eventsAt, SimThreads.collect, SimThreads.goto, hstack, Frame.copied]
  · refine (SimThreads.eventsAt_goto (fun _ => ?_) fun he => absurd he hq).trans
      (SimThreads.eventsAt_setEvents hp)
    simp [SimThreads.setEvents, hstack, Frame.claimed]

theorem TokenStep.fire {now : Nat} {due : List SimEvent}
    (hstack : s.stack a = .fire now (e :: due) :: fs) : TokenStep s l
      { s.goto a (.callback now due :: fs) with invoked := s.invoked ++ [⟨e, now⟩] } := by
  refine .move (.copied a) .called [e] (by simp) rfl rfl ?_ ?_ fun r hp hq => ?_
  · simp [SimThreads.eventsAt, SimThreads.goto, hstack, Frame.copied]
  · show ((s.invoked ++ [Invocation.mk e now]).map Invocation.event).Perm
      ([e] ++ s.invoked.map Invocation.event)
    rw [List.map_append]
    exact List.perm_append_comm
  · refine (SimThreads.eventsAt_invoked hq).trans
      (SimThreads.eventsAt_goto (fun _ => ?_) fun he => absurd he hp)
    simp [hstack, Frame.claimed]

/-- A new worker holds no request. -/
theorem TokenStep.spawn (hstack : s.stack a = .spawn :: fs) (hfresh : s.Fresh)
    (hrec : s'.records = s.records)
    (hstack' : s'.stack = Function.update (Function.update s.stack a fs) (.worker s.workers) [.loop]) :
    TokenStep s l s' := by
  have hempty := hfresh s.workers (Nat.le_refl _)
  have hne : Agent.worker s.workers ≠ a := by
    rintro rfl
    rw [hempty] at hstack
    cases hstack
  refine .stay (congrArg Prod.fst hrec) fun r => ?_
  calc s'.eventsAt r
      = ((s.goto a fs).goto (.worker s.workers) [.loop]).eventsAt r :=
        SimThreads.eventsAt_congr (s := (s.goto a fs).goto _ _) hrec hstack' r
    _ = (s.goto a fs).eventsAt r :=
        SimThreads.eventsAt_goto (fun _ => by simp [SimThreads.goto, hne, hempty, Frame.claimed])
          fun _ => by simp [SimThreads.goto, hne, hempty, Frame.copied]
    _ = s.eventsAt r :=
        SimThreads.eventsAt_goto (fun _ => by rw [hstack]; rfl) fun _ => by rw [hstack]; rfl

theorem ThreadsMove.tokens (hmove : ThreadsMove s l s') (h : s.AsRequested) (hfresh : s.Fresh) :
    TokenStep s l s' := by
  cases hmove with
  | refuse | stopNothing | setMode | elapse => exact .stay rfl fun _ => rfl
  | schedule => exact .schedule
  | cancel => exact .cancel
  | enter | advance | start | stop | reset => exact .goto rfl rfl rfl rfl
  | again hstack => exact .again hstack
  | clear hstack => exact .clear hstack
  | push hstack => exact .push hstack (AsRequested.top h hstack).2
  | collect hstack => exact .collect hstack
  | skip hstack hcb =>
    obtain ⟨cb, he, -⟩ := ((AsRequested.top h hstack) _ List.mem_cons_self).1
    rw [hcb] at he
    cases he
  | fire hstack => exact .fire hstack
  | spawn hstack => exact .spawn hstack hfresh rfl rfl
  | readTime hstack | load hstack | store hstack | startRun hstack | epoch hstack
  | callbackReturns hstack | loop hstack | leave hstack | startNothing hstack
  | joinNothing hstack | join hstack | resetId hstack | resetTime hstack | resetStarted hstack
  | loopEnds hstack =>
    exact .goOn hstack rfl rfl rfl rfl

theorem ThreadsMove.fresh (hmove : ThreadsMove s l s') (hfresh : s.Fresh) : s'.Fresh := by
  -- a worker that is not there takes no step
  have hmoves : ∀ {a fs t}, s.stack a ≠ [] ∨ a.inApplication (s.stack a) = true →
      t.stack = Function.update s.stack a fs → t.workers = s.workers → SimThreads.Fresh t := by
    intro a fs t hthere hstack hworkers n hn
    have hempty := hfresh n (hworkers ▸ hn)
    have hne : Agent.worker n ≠ a := by
      rintro rfl
      rw [hempty] at hthere
      rcases hthere with h | h
      · exact h rfl
      · cases h
    rw [hstack, Function.update_of_ne hne, hempty]
  cases hmove with
  | refuse | stopNothing | setMode | elapse => exact hfresh
  | cancel =>
    rw [SimThreads.cancel]
    split <;> exact hfresh
  | schedule happ | enter happ | advance happ | start happ | stop happ | reset happ =>
    exact hmoves (.inr happ) rfl rfl
  | @spawn a fs hstack hnone =>
    intro n hn
    have hne : Agent.worker n ≠ .worker s.workers := by
      intro he
      cases he
      exact Nat.not_succ_le_self _ hn
    show Function.update (Function.update s.stack a fs) _ _ (Agent.worker n) = []
    rw [Function.update_of_ne hne]
    exact hmoves (t := s.goto a fs) (.inl (by simp [hstack])) rfl rfl n (Nat.le_of_succ_le hn)
  | again hstack | push hstack | readTime hstack | collect hstack | leave hstack | skip hstack
  | fire hstack | callbackReturns hstack | load hstack | store hstack | startRun hstack
  | startNothing hstack | epoch hstack | joinNothing hstack | join hstack | clear hstack
  | resetId hstack | resetTime hstack | resetStarted hstack | loop hstack | loopEnds hstack =>
    exact hmoves (.inl (by simp [hstack])) rfl rfl

/-! ## The results -/

variable {hz : Nat}

/-- What holds in every state that is reached. -/
structure RequestInv (s : SimThreads) : Prop where
  fresh : s.Fresh
  asRequested : s.AsRequested
  placed : Places s.content (· < s.requests.length)

theorem RequestInv.initial (hz : Nat) : RequestInv (SimThreads.initial hz) where
  fresh n _ := rfl
  asRequested := ⟨fun e he => absurd he List.not_mem_nil, fun a f hf => absurd hf List.not_mem_nil,
    fun i hi => absurd hi List.not_mem_nil⟩
  placed := by
    have hnone : ∀ r, (SimThreads.initial hz).content r = [] := fun r => by cases r <;> rfl
    rw [funext hnone]
    exact ⟨fun _ => List.nodup_nil, fun h => absurd h List.not_mem_nil, fun k => by
      simp [SimThreads.initial]⟩

theorem RequestInv.reach (h : (simThreads hz).ReachVia (fun _ _ => True) s) : RequestInv s := by
  refine Lts.ReachVia.invariant ?_ ?_ h
  · rintro _ rfl
    exact .initial hz
  · intro s l s' _ hinv _ hstep
    have hmove : ThreadsMove s l s' := SimThreads.step_move hstep
    exact ⟨hmove.fresh hinv.fresh, hmove.asRequested hinv.asRequested,
      (hmove.tokens hinv.asRequested hinv.fresh).placed hinv.placed⟩

/-- **No request is lost and none is served twice**, whichever threads call the driver and
however their steps interleave, with callbacks that call it again: every call of `schedule_at`
with a callback is in exactly one place, once. -/
theorem requests_placed (h : (simThreads hz).ReachVia (fun _ _ => True) s) :
    Places s.content (· < s.requests.length) :=
  (RequestInv.reach h).placed

/-- Two threads are in `on_timer_isr`: both have read the time, and the second one is the first
to take the mutex. In the first of its two callbacks it asks for the second one to be cancelled,
which comes too late. -/
def twoInterrupts : (simThreads 1000).Run 14 :=
  .ofLabels (SimThreads.initial 1000)
    [.call (.client 0) (.scheduleAt 5 (some 70) 0), .next (.client 0),
      .call (.client 0) (.scheduleAt 5 (some 80) 1), .next (.client 0),
      .call (.client 0) (.advanceTo 5), .next (.client 0), .next (.client 0), .next (.client 0),
      .call (.client 1) .onTimerIsr, .next (.client 1), .next (.client 1), .next (.client 0),
      .next (.client 1), .call (.client 1) (.cancel ⟨2⟩)]
    (.elapse 0) (by exact simThreads_init_1000) (by decide +kernel)

theorem requests_placed_twoInterrupts :
    (twoInterrupts.state 14).content (.copied (.client 1)) = [1] ∧
      (twoInterrupts.state 14).content .called = [0] ∧
      (twoInterrupts.state 14).stack (.client 0) = [.fire 5 []] ∧
      Places (twoInterrupts.state 14).content (· < (twoInterrupts.state 14).requests.length) :=
  ⟨by decide +kernel, by decide +kernel, by decide +kernel,
    requests_placed (twoInterrupts.reachVia (fun _ _ => trivial) 14 (Nat.le_refl 14))⟩

end Cortos.Time
