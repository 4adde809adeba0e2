import Cortos.Machine.WaitCycle
import Cortos.Properties.SignalOrder

/-!
# `wait_for_any` is completed by one signal

On a single core a signal runs from its call to its return without another thread
running, so a run is a sequence of steps outside signals and of whole signals, whose
effect is that of `Signalled`.

- A thread that has blocked stays so as long as the signals that are called do not
  select it (`Blocked.step`, `Blocked.signal`).
- The first that does select it makes it Ready with its own result, and no step before
  the thread runs again touches that (`Woken.step`).

`wait_for_any_completed_once` puts this together, by induction over the run.
-/

namespace Cortos

open Lib

variable {cfg : Config} {m m' : Machine} {a a' : Life} {c : Nat} {t x u : ThreadRef}
  {s : SignalCall} {ws : List WaitableRef}

/-! ## Outside signals -/

/-- No thread is in a signal. -/
def Machine.Quiet (m : Machine) : Prop := ∀ u, (m.fiber u).signal = none

theorem ThreadPc.signal_of_suspended {pc : ThreadPc} (h : pc.suspended = true) :
    pc.signal = none := by
  cases pc <;> first | rfl | cases h

/-- On a single core, only the thread that executes can be in a signal. -/
theorem Signals.quiet (h : Signals cfg m a t) (ht : (m.fiber t).signal = none) : m.Quiet := by
  intro u
  by_cases hu : u = t
  · rw [hu, ht]
  · exact ThreadPc.signal_of_suspended (h.suspended hu)

/-- A signal is entered at its `pick_best`, with no reschedule asked for yet. -/
theorem Trans.calls {l : Label} (ht : Trans cfg m a l m' a') (hold : (m.fiber u).signal = none)
    (hnew : (m'.fiber u).signal = some s) : m'.fiber u = .pick s ∧ s.reschedule = false := by
  -- a thread that does not move was in the signal before
  have hmove : ∀ {t pc}, m'.fiber = Function.update m.fiber t pc →
      (u = t → pc.signal = some s → pc = .pick s ∧ s.reschedule = false) →
      m'.fiber u = .pick s ∧ s.reschedule = false := by
    intro t pc hf hpc
    rw [hf] at hnew ⊢
    by_cases hu : u = t
    · subst hu
      rw [Function.update_self] at hnew ⊢
      exact hpc rfl hnew
    · rw [Function.update_of_ne hu, hold] at hnew
      cases hnew
  have hstay : m'.fiber = m.fiber → m'.fiber u = .pick s ∧ s.reschedule = false := by
    intro hf
    rw [hf, hold] at hnew
    cases hnew
  cases ht with
  | thread hcore hcur hs =>
    refine hmove hs.frame.fiber fun hu hpc => ?_
    subst hu
    cases hs with
    | signal hpc' hact =>
      cases hpc
      exact ⟨rfl, rfl⟩
    | pickNone hpc' | pickSome hpc' | wake hpc' | lost hpc' => simp [hpc', ThreadPc.signal] at hold
    | @waitReturn b ws p hpc' => cases p <;> cases hpc
    | spin hpc' =>
      split at hpc <;> cases hpc
    | _ => cases hpc
  | ready hcore hcur hafter | post hcore hcur hafter =>
    have hf : ReadyFrame cfg _ _ _ _ _ _ _ _ := hafter.frame
    refine hmove hf.fiber fun hu hpc => ?_
    subst hu
    cases hafter with
    | register hpc' => cases hpc
    | setReady hpc' hs => simp [hpc', ThreadPc.signal] at hold
  | terminate hcore hcur hpc =>
    refine hmove rfl fun hu hpc => ?_
    cases hpc
    exact ⟨rfl, rfl⟩
  | win hcore hcur hpc | tearDown hcore hcur hpc =>
    refine hmove rfl fun hu _ => ?_
    subst hu
    simp [hpc, ThreadPc.signal] at hold
  | construct | block | ret => exact hmove rfl fun _ hpc => by cases hpc
  | constructBoot | start | boot | coreMove | drainOne | switch => exact hstay rfl

/-- On a single core, a blocked thread is linked on its waitables outside signals. -/
theorem Sim.waiting_of_quiet (h : Sim cfg m a) (hcores : cfg.cores = 1) (hq : m.Quiet)
    (hb : m.kernel.state t = .blocked) : ∃ ws, a.phase t = .waiting ws := by
  rw [(h.thread t).state] at hb
  have hclaim : ∀ {u κ}, (a.phase t).claim = some (u, κ) → κ ≠ .makeReady → False := by
    intro u κ hp hκ
    have hc := (h.claims t u κ).mpr hp
    have hs := hq u
    cases hpc : m.fiber u <;> simp_all [ThreadPc.claim, ThreadPc.signal]
  have hinbox := (h.thread t).inbox_cores
  cases hp : a.phase t with
  | waiting ws => exact ⟨ws, rfl⟩
  | won u ws => exact (hclaim (by rw [hp]; rfl) (by simp)).elim
  | torn u => exact (hclaim (by rw [hp]; rfl) (by simp)).elim
  | posted =>
    rw [hp, hcores] at hinbox
    exact absurd (hinbox rfl) (Nat.lt_irrefl 1)
  | _ =>
    rw [hp] at hb
    cases hb

/-- A step outside signals leaves a blocked thread blocked. -/
theorem Trans.blocked {l : Label} (ht : Trans cfg m a l m' a') (h : Sim cfg m a)
    (hcores : cfg.cores = 1) (hq : m.Quiet) (hb : m.kernel.state t = .blocked) :
    m'.kernel.state t = .blocked := by
  obtain ⟨ws, hp⟩ := h.waiting_of_quiet hcores hq hb
  have hp' : a'.phase t = .waiting ws := by
    cases ht.waitMove h t with
    | keep hwake hwaits hphase =>
      rcases hphase with he | ⟨hawake, -⟩
      · rw [he, hp]
      · rw [hp] at hawake
        cases hawake
    | @win u s n wait i vs hwake hwaits hpc howner hphase hphase' =>
      have := hq u
      rw [hpc] at this
      cases this
    | block hwake hwaits hl hcore hcur hpc hphase => rw [hp] at hphase; cases hphase
    | tearDown hwake hwaits hphase | wake hwake hwaits hphase => rw [hp] at hphase; cases hphase
  rw [((ht.sim h).thread t).state, hp']
  rfl

theorem Machine.core_of_step {act : Act} (hcores : cfg.cores = 1)
    (h : m.step cfg (.core c act) = .ok m') : c = 0 := by
  rw [step] at h
  split at h
  next hc =>
    rw [hcores, Nat.lt_one_iff] at hc
    exact hc.2
  next => cases h

/-- Once a single core runs, all steps are its own. -/
theorem Machine.label_of_running {l : Label} (hcores : cfg.cores = 1)
    (hrun : m.kernel.isRunning = true) (h : m.step cfg l = .ok m') : ∃ act, l = .core 0 act := by
  cases l with
  | construct priority affinity => simp [step, hrun] at h
  | start => simp [step, hrun] at h
  | core c act => exact ⟨act, by rw [m.core_of_step hcores h]⟩

/-! ## Ready threads -/

/-- A ready thread that is current nowhere stays ready until a core selects a thread. -/
theorem Trans.ready_phase {l : Label} (ht : Trans cfg m a l m' a') (h : Sim cfg m a)
    (hp : a.phase t = .ready) (hcur : ∀ c, m.kernel.current c ≠ some t) :
    a'.phase t = .ready ∨
      ∃ c b, l = .core c (.next b) ∧ (m.core c = .boot ∨ m.core c = .switch) := by
  have hne : ∀ {y φ}, a.phase y = φ → φ ≠ .ready → t ≠ y := by
    rintro y φ hy hφ rfl
    exact hφ (hy.symm.trans hp)
  have hother : ∀ {y φ}, t ≠ y → Function.update a.phase y φ t = .ready := fun hy => by
    rw [Function.update_of_ne hy, hp]
  have hunborn := (h.born m.kernel.threads).mpr (Nat.le_refl _)
  have hacting : ∀ {c y}, m.kernel.current c = some y → t ≠ y := by
    rintro c y hy rfl
    exact hcur c hy
  cases ht with
  | constructBoot | construct => exact .inl (hother (hne hunborn (by nofun)))
  | start | thread | terminate | coreMove => exact .inl hp
  | block hcore hcur | ret hcore hcur => exact .inl (hother (hacting hcur))
  | win hcore hcur hpc hx => exact .inl (hother (hne hx (by nofun)))
  | tearDown hcore hcur hpc hx hsim => exact .inl (hother (hne hx (by nofun)))
  | ready hcore hcur hafter | post hcore hcur hafter =>
    have hf : ReadyFrame cfg _ _ _ _ _ _ _ _ := hafter.frame
    have hclaim := (h.claims _ _ _).mp hf.claim
    refine .inl (hother ?_)
    rintro rfl
    rw [hp] at hclaim
    cases hclaim
  | boot hrun hc hcore => exact .inr ⟨_, _, rfl, .inl hcore⟩
  | switch hc hcore => exact .inr ⟨_, _, rfl, .inr hcore⟩
  | @drainOne c x rest hcore hin =>
    have hinbox := (((h.inbox c).2 x).mp (by rw [hin]; exact List.mem_cons_self)).1
    refine .inl (hother ?_)
    rintro rfl
    rw [hp] at hinbox
    cases hinbox

/-- Thread `t` has been woken from its wait on `ws` and has not returned from it: it is
Ready, or has just been selected. Its group holds result `R`. -/
structure Woken (m : Machine) (t : ThreadRef) (ws : List WaitableRef) (R : Result) : Prop where
  fiber : m.fiber t = .waitReturn ws none
  result : (m.waitReturn t ws none).result t = R
  ready : m.kernel.state t = .ready ∧ m.kernel.current 0 ≠ some t ∨
    m.kernel.state t = .running ∧ m.core 0 = .thread ∧ m.kernel.current 0 = some t

/-- A woken thread that is Ready is in the ready matrix. -/
theorem Sim.ready_of_waitReturn (h : Sim cfg m a) {p : Option Predicate}
    (hpc : m.fiber t = .waitReturn ws p) (hready : m.kernel.state t = .ready) :
    a.phase t = .ready := by
  have hadm := (h.thread t).admits
  rw [(h.thread t).state] at hready
  rw [hpc] at hadm
  cases hp : a.phase t <;> simp_all [Phase.state, Phase.admits]

/-- On a single core, a ready thread that is not current there is current nowhere. -/
theorem Sim.not_current (h : Sim cfg m a) (hcores : cfg.cores = 1) (hp : a.phase t = .ready)
    (hcur : m.kernel.current 0 ≠ some t) (c : Nat) : m.kernel.current c ≠ some t := by
  intro hc
  have hlt := (h.thread t).core_lt (by simp [hp])
  rw [(h.current c t hc).1, hcores, Nat.lt_one_iff] at hlt
  exact hcur (hlt ▸ hc)

/-- A step keeps the wait group of a ready thread. -/
theorem Trans.waitGroup_of_ready {l : Label} (ht : Trans cfg m a l m' a') (h : Sim cfg m a)
    (hp : a.phase t = .ready) (hcur : ∀ c, m.kernel.current c ≠ some t) :
    (m'.kernel.tcbs t).waitGroup = (m.kernel.tcbs t).waitGroup := by
  rcases ht.waitGroup t with hsame | ⟨hnew | ⟨c, -, -, -, hc⟩, -⟩ |
    ⟨-, -, -, -, -, -, -, ws, -, -, -, -, -, -, hwait, -⟩
  · exact hsame
  · have hunborn := (h.born m.kernel.threads).mpr (Nat.le_refl _)
    rw [← hnew, hp] at hunborn
    cases hunborn
  · exact absurd hc (hcur c)
  · rw [hp] at hwait
    cases hwait

/-- Until the thread returns from its wait it keeps its result and is made Ready no more. -/
theorem Woken.step {R : Result} {l : Label} (hw : Woken m t ws R) (h : Sim cfg m a)
    (hcores : cfg.cores = 1) (hwait : CoresWait m) (hvalid : l.Valid cfg)
    (hs : m.step cfg l = .ok m') (hin : m'.fiber t ≠ .user) :
    Woken m' t ws R ∧ m.kernel.state t = .ready := by
  obtain ⟨a', ht⟩ := h.trans hvalid hs
  rcases hw.ready with ⟨hready, hcur⟩ | ⟨hrunning, hcore, hcur⟩
  · have hphase := h.ready_of_waitReturn hw.fiber hready
    have hoff := h.not_current hcores hphase hcur
    have hfiber : m'.fiber t = .waitReturn ws none := by
      rcases ht.fiber t with hf | ⟨c, -, -, -, hc⟩
      · rw [hf, hw.fiber]
      · exact absurd hc (hoff c)
    refine ⟨⟨hfiber, ?_, ?_⟩, hready⟩
    · rw [← hw.result, Machine.waitReturn_result, Machine.waitReturn_result,
        ht.waitGroup_of_ready h hphase hoff]
    · by_cases hsel : ∃ c b, l = .core c (.next b) ∧ (m.core c = .boot ∨ m.core c = .switch)
      · obtain ⟨c, b, rfl, hcore⟩ := hsel
        obtain rfl := m.core_of_step hcores hs
        obtain ⟨next, hsel⟩ := ht.selected hcore
        rw [((ht.sim h).thread t).state, hsel.core, hsel.current, Function.update_self]
        by_cases hnext : t = next
        · rw [hnext, hsel.running]
          exact .inr ⟨rfl, rfl, rfl⟩
        · rw [hsel.phase t hnext hcur, hphase]
          exact .inl ⟨rfl, fun he => hnext (Option.some.inj he).symm⟩
      · have hphase' := (ht.ready_phase h hphase hoff).resolve_right hsel
        have hcur' := (ht.current 0).resolve_right fun ⟨b, hl, hcore⟩ => hsel ⟨0, b, hl, hcore⟩
        rw [((ht.sim h).thread t).state, hphase', hcur']
        exact .inl ⟨rfl, hcur⟩
  · -- the thread is on the core, so it returns
    obtain ⟨hrun, -⟩ := h.isRunning_of_thread hwait hcore hcur
    obtain ⟨act, rfl⟩ := m.label_of_running hcores hrun hs
    rw [m.step_waitReturn hcore hcur hw.fiber hs] at hin
    exact absurd (Function.update_self ..) hin

/-! ## Along a run -/

section Runs

variable {N : Nat} {r : (system cfg).Run N}

/-- Step `q` of the run calls signal `s`, and thread `t` is one of those that the signal is
to wake. -/
def SelectingCall (r : (system cfg).Run N) (t : ThreadRef) (q : Nat) (s : SignalCall) : Prop :=
  ∃ u, ((r.state q).fiber u).signal = none ∧ (r.state (q + 1)).fiber u = .pick s ∧
    ∃ n ∈ s.selection cfg (r.state (q + 1)).kernel, n.owner = t

/-- The threads that become Ready from state `i` to state `k`. -/
def readyEvents (r : (system cfg).Run N) (i k : Nat) : List ThreadRef :=
  (List.range' i (k - i)).flatMap fun q =>
    (r.state q).kernel.madeReady (r.state (q + 1)).kernel

theorem readyEvents_self (i : Nat) : readyEvents r i i = [] := by
  rw [readyEvents, Nat.sub_self]
  rfl

theorem readyEvents_append {i j k : Nat} (hij : i ≤ j) (hjk : j ≤ k) :
    readyEvents r i k = readyEvents r i j ++ readyEvents r j k := by
  have hsplit : List.range' i (k - i) = List.range' i (j - i) ++ List.range' j (k - j) := by
    have := List.range'_append_1 (s := i) (m := j - i) (n := k - j)
    rw [show i + (j - i) = j by omega, show j - i + (k - j) = k - i by omega] at this
    exact this.symm
  rw [readyEvents, hsplit, List.flatMap_append]
  rfl

theorem readyEvents_succ (k : Nat) :
    readyEvents r k (k + 1) = (r.state k).kernel.madeReady (r.state (k + 1)).kernel := by
  rw [readyEvents, Nat.add_sub_cancel_left]
  simp [List.range']

theorem Kernel.mem_madeReady {k k' : Kernel} (h : t ∈ k.madeReady k') :
    k.state t ≠ .ready ∧ k'.state t = .ready :=
  of_decide_eq_true (List.mem_filter.mp h).2

theorem run_sim (hr : ∀ i < N, (r.label i).Valid cfg) {k : Nat} (hk : k ≤ N) :
    ∃ a, Sim cfg (r.state k) a ∧ CoresWait (r.state k) :=
  reach_invariant (I := fun m _ => CoresWait m) (fun _ _ hv => hv) (fun _ _ => rfl)
    (fun _ hI _ ht => ht.coresWait hI) (r.reachVia hr k hk)

/-- A run that is in a signal goes through its steps. -/
theorem Proceeds.along (hcores : cfg.cores = 1) (hr : ∀ i < N, (r.label i).Valid cfg)
    {xs : List ThreadRef} (h : Proceeds cfg 0 u m xs m') {p k : Nat} (hm : r.state p = m)
    (hp : p ≤ k) (hk : k ≤ N) :
    ((r.state k).fiber u).signal.isSome ∨ ∃ e, p ≤ e ∧ e ≤ k ∧ r.state e = m' ∧
      readyEvents r p e = xs ∧ ∀ q, p ≤ q → q < e → ((r.state q).fiber u).signal.isSome := by
  induction h generalizing p with
  | refl m =>
    refine .inr ⟨p, Nat.le_refl p, hp, hm, readyEvents_self p, fun q hle hlt => ?_⟩
    omega
  | @step m m₁ m' xs hin hstep h ih =>
    subst hm
    rcases Nat.lt_or_eq_of_le hp with hlt | rfl
    · -- the only step that the core can take
      obtain ⟨a, hs⟩ := Signals.of_reachable hcores (r.reachVia hr p (by omega))
        (ThreadPc.suspended_of_signal hin)
      have hnext := r.next p (by omega)
      obtain ⟨act, hl⟩ := Machine.label_of_running hcores hs.running hnext
      rw [hl] at hnext
      obtain ⟨b, rfl, -⟩ := Machine.step_executing hs.core hs.current
        (by rintro he; rw [he] at hin; cases hin) hnext
      have hm₁ : r.state (p + 1) = m₁ := Except.ok.inj (hnext.symm.trans (hstep b))
      rcases ih hm₁ hlt with hin' | ⟨e, hpe, hek, he, hxs, hins⟩
      · exact .inl hin'
      · refine .inr ⟨e, by omega, hek, he, ?_, fun q hpq hqe => ?_⟩
        · rw [readyEvents_append (Nat.le_succ p) hpe, readyEvents_succ, hxs, hm₁]
        · rcases Nat.lt_or_eq_of_le hpq with hlt' | rfl
          · exact hins q hlt' hqe
          · exact hin
    · exact .inl hin

/-- Only a blocked thread is selected. -/
theorem SelectingCall.blocked (hr : ∀ i < N, (r.label i).Valid cfg) {q : Nat}
    (h : SelectingCall r t q s) (hq : q < N) : (r.state (q + 1)).kernel.state t = .blocked := by
  obtain ⟨u, -, -, n, hn, rfl⟩ := h
  obtain ⟨a, hsim, -⟩ := run_sim hr (Nat.succ_le_of_lt hq)
  have hmem := SignalCall.mem_waitQueue_of_selection hn
  rw [hsim.waitQueue_eq, hsim.waiting.mem] at hmem
  rw [(hsim.thread n.owner).state]
  cases hp : a.phase n.owner <;> simp_all [Phase.held, Phase.state]

/-- No signal is called while another thread is in one. -/
theorem SelectingCall.not_within (hcores : cfg.cores = 1) (hr : ∀ i < N, (r.label i).Valid cfg)
    {q : Nat} (hq : q < N) (hin : ((r.state q).fiber u).signal.isSome) :
    ¬ SelectingCall r t q s := by
  rintro ⟨v, hbefore, hafter, -⟩
  obtain ⟨a, hs⟩ := Signals.of_reachable hcores (r.reachVia hr q hq.le)
    (ThreadPc.suspended_of_signal hin)
  obtain ⟨a', ht⟩ := hs.sim.trans (hr q hq) (r.next q hq)
  rcases ht.fiber v with hf | ⟨c, act, hl, -, hcur⟩
  · rw [← hf, hafter] at hbefore
    cases hbefore
  · have hnext := r.next q hq
    rw [hl] at hnext
    obtain rfl := Machine.core_of_step hcores hnext
    rw [hs.current] at hcur
    cases hcur
    rw [hbefore] at hin
    cases hin

/-- The call of a signal selects what that signal selects. -/
theorem SelectingCall.of_call (hcores : cfg.cores = 1) (hr : ∀ i < N, (r.label i).Valid cfg)
    {q : Nat} {s' : SignalCall} (hq : q < N) (hpc : (r.state (q + 1)).fiber u = .pick s)
    (h : SelectingCall r t q s') :
    s' = s ∧ ∃ n ∈ s.selection cfg (r.state (q + 1)).kernel, n.owner = t := by
  obtain ⟨v, -, hafter, hsel⟩ := h
  obtain ⟨a, hs⟩ := Signals.of_reachable hcores (r.reachVia hr (q + 1) hq)
    (by rw [hpc]; rfl : ((r.state (q + 1)).fiber u).suspended = false)
  have hv : v = u := by
    by_contra hne
    have hsusp := hs.suspended hne
    rw [hafter] at hsusp
    cases hsusp
  subst hv
  rw [hpc] at hafter
  cases hafter
  exact ⟨rfl, hsel⟩

/-- Where a thread that waits on `ws` can be in its code. -/
def ThreadPc.InWait (ws : List WaitableRef) (pc : ThreadPc) : Prop :=
  pc = .commence ws none ∨ pc = .waitReturn ws none

theorem ThreadPc.InWait.ne_user {pc : ThreadPc} (h : pc.InWait ws) : pc ≠ .user := by
  rcases h with rfl | rfl <;> nofun

/-- At state `k`, thread `t` still waits since step `i`. -/
structure StillWaits (r : (system cfg).Run N) (t : ThreadRef) (i k : Nat) : Prop where
  state : (r.state k).kernel.state t = .blocked
  /-- No signal that has been called selects it, -/
  unselected : ∀ q s, i < q → q < k → ¬ SelectingCall r t q s
  /-- and it has not been made Ready. -/
  readied : t ∉ readyEvents r (i + 1) k

/-- At state `k`, the wait of thread `t` on `ws`, which began in step `i`, has been
completed by the signal `s` called in step `q`. -/
structure CompletedBy (r : (system cfg).Run N) (t : ThreadRef) (ws : List WaitableRef)
    (i k q : Nat) (s : SignalCall) : Prop where
  after : i < q
  before : q < k
  selects : SelectingCall r t q s
  /-- No other signal that has been called selects it. -/
  only : ∀ q' s', i < q' → q' < k → SelectingCall r t q' s' → q' = q
  /-- It has been made Ready once. -/
  readied : (readyEvents r (i + 1) k).count t = 1
  mem : s.waitable ∈ ws
  /-- What its wait returns. -/
  result : ((r.state k).waitReturn t ws none).result t =
    { index := ws.idxOf s.waitable, acquired := s.acquired }

/-- The part of the run from the call of a signal in step `p` to its return at state `e`. -/
structure SignalPart (r : (system cfg).Run N) (p e : Nat) (u : ThreadRef) (s : SignalCall) :
    Prop where
  le : p + 1 ≤ e
  pick : (r.state (p + 1)).fiber u = .pick s
  signalled : Signalled cfg (r.state (p + 1)) u s (r.state e)
  readied : readyEvents r (p + 1) e = (s.selection cfg (r.state (p + 1)).kernel).map (·.owner)
  within : ∀ q, p + 1 ≤ q → q < e → ((r.state q).fiber u).signal.isSome
  quiet : (r.state e).Quiet

section Wait

variable (hcores : cfg.cores = 1) (hr : ∀ i < N, (r.label i).Valid cfg)
include hcores hr

/-- A woken thread, as long as it has not returned from its wait. -/
theorem Woken.until {R : Result} {e k : Nat} (hw : Woken (r.state e) t ws R) (hek : e ≤ k)
    (hk : k ≤ N) (hin : ∀ j, e ≤ j → j ≤ k → (r.state j).fiber t ≠ .user) :
    Woken (r.state k) t ws R ∧ t ∉ readyEvents r e k ∧
      ∀ q s, e ≤ q → q < k → ¬ SelectingCall r t q s := by
  induction k, hek using Nat.le_induction with
  | base =>
    refine ⟨hw, ?_, fun q s hle hlt => by omega⟩
    rw [readyEvents_self]
    exact List.not_mem_nil
  | succ k hek ih =>
    obtain ⟨hwk, hnot, hno⟩ := ih (by omega) fun j hj hjk => hin j hj (by omega)
    obtain ⟨a, hsim, hwait⟩ := run_sim hr (k := k) (by omega)
    obtain ⟨hw', hready⟩ := hwk.step hsim hcores hwait (hr k hk) (r.next k hk)
      (hin (k + 1) (by omega) (Nat.le_refl _))
    refine ⟨hw', fun hmem => ?_, fun q s hle hlt hsel => ?_⟩
    · rw [readyEvents_append hek (Nat.le_succ k), List.mem_append, readyEvents_succ] at hmem
      exact hmem.elim hnot fun hmade => (Kernel.mem_madeReady hmade).1 hready
    · rcases Nat.lt_or_eq_of_le (Nat.le_of_lt_succ hlt) with hqk | rfl
      · exact hno q s hle hqk hsel
      · -- it is not blocked, so no signal selects it
        have hblocked := hsel.blocked hr hk
        rcases hw'.ready with ⟨hst, -⟩ | ⟨hst, -⟩ <;> rw [hst] at hblocked <;> cases hblocked

/-- One step from a state outside signals. -/
theorem StillWaits.next {i p : Nat} (hw : StillWaits r t i p) (hip : i < p) (hp : p < N)
    (hq : (r.state p).Quiet) :
    (r.state (p + 1)).kernel.state t = .blocked ∧ t ∉ readyEvents r (i + 1) (p + 1) := by
  obtain ⟨a, hsim, -⟩ := run_sim hr hp.le
  obtain ⟨a', ht⟩ := hsim.trans (hr p hp) (r.next p hp)
  have hb := ht.blocked hsim hcores hq hw.state
  refine ⟨hb, fun hmem => ?_⟩
  rw [readyEvents_append hip (Nat.le_succ p), List.mem_append, readyEvents_succ] at hmem
  refine hmem.elim hw.readied fun hmade => ?_
  rw [(Kernel.mem_madeReady hmade).2] at hb
  cases hb

/-- A step that calls no signal. -/
theorem StillWaits.step {i p : Nat} (hw : StillWaits r t i p) (hip : i < p) (hp : p < N)
    (hq : (r.state p).Quiet) (hq' : (r.state (p + 1)).Quiet) : StillWaits r t i (p + 1) := by
  obtain ⟨hb, hread⟩ := hw.next hcores hr hip hp hq
  refine ⟨hb, fun q s hiq hqp hsel => ?_, hread⟩
  rcases Nat.lt_or_eq_of_le (Nat.le_of_lt_succ hqp) with hlt | rfl
  · exact hw.unselected q s hiq hlt hsel
  · obtain ⟨u, -, hpc, -⟩ := hsel
    have := hq' u
    rw [hpc] at this
    cases this

/-- A step outside signals after which a thread is in one is its call, and the run then
goes through the signal. -/
theorem exists_signalPart {p k : Nat} (hpk : p < k) (hk : k ≤ N) (hq : (r.state p).Quiet)
    (hq' : ¬ (r.state (p + 1)).Quiet) (hqk : (r.state k).Quiet) :
    ∃ e u s, e ≤ k ∧ SignalPart r p e u s := by
  obtain ⟨u, hu⟩ := not_forall.mp hq'
  obtain ⟨s, hs⟩ := Option.ne_none_iff_exists'.mp hu
  obtain ⟨a, hsim, -⟩ := run_sim hr (k := p) (by omega)
  obtain ⟨a', ht⟩ := hsim.trans (hr p (by omega)) (r.next p (by omega))
  obtain ⟨hpick, hfresh⟩ := ht.calls (hq u) hs
  obtain ⟨b, hsig⟩ := Signals.of_reachable hcores (r.reachVia hr (p + 1) (by omega)) (t := u)
    (by rw [hpick]; rfl)
  obtain ⟨m', hproceeds, hsignalled⟩ := hsig.signalled hpick hfresh
  rcases hproceeds.along hcores hr rfl hpk hk with hin | ⟨e, hpe, hek, he, hread, hwithin⟩
  · rw [hqk u] at hin
    cases hin
  · subst he
    refine ⟨e, u, s, hek, hpe, hpick, hsignalled, hread, hwithin, fun v => ?_⟩
    rw [hsignalled.fiber]
    by_cases hv : v = u
    · rw [hv, Function.update_self]
      exact ThreadPc.signal_of_suspended s.ret_suspended
    · rw [Function.update_of_ne hv]
      exact ThreadPc.signal_of_suspended (hsig.suspended hv)

/-- In the part of a signal, no other signal is called. -/
theorem SignalPart.selectingCall {p e q : Nat} {s' : SignalCall} (hpart : SignalPart r p e u s)
    (he : e ≤ N) (hpq : p ≤ q) (hqe : q < e) (h : SelectingCall r t q s') :
    q = p ∧ ∃ n ∈ s.selection cfg (r.state (p + 1)).kernel, n.owner = t := by
  rcases Nat.lt_or_eq_of_le hpq with hlt | rfl
  · exact absurd h (SelectingCall.not_within hcores hr (by omega) (hpart.within q hlt hqe))
  · exact ⟨rfl, (h.of_call hcores hr (by omega) hpart.pick).2⟩

/-- A signal that does not select the thread. -/
theorem StillWaits.pass {i p e : Nat} (hw : StillWaits r t i p) (hip : i < p) (he : e ≤ N)
    (hq : (r.state p).Quiet) (hpart : SignalPart r p e u s)
    (hnot : ∀ n ∈ s.selection cfg (r.state (p + 1)).kernel, n.owner ≠ t) : StillWaits r t i e := by
  have hle := hpart.le
  obtain ⟨hb, hread⟩ := hw.next hcores hr hip (by omega) hq
  refine ⟨?_, fun q s' hiq hqe hsel => ?_, fun hmem => ?_⟩
  · rw [Kernel.state, hpart.signalled.kept t hnot]
    exact hb
  · rcases Nat.lt_or_ge q p with hlt | hge
    · exact hw.unselected q s' hiq hlt hsel
    · obtain ⟨-, n, hn, ho⟩ := hpart.selectingCall hcores hr he hge hqe hsel
      exact hnot n hn ho
  · rw [readyEvents_append (j := p + 1) (by omega) hle, List.mem_append, hpart.readied] at hmem
    refine hmem.elim hread fun hmap => ?_
    obtain ⟨n, hn, ho⟩ := List.mem_map.mp hmap
    exact hnot n hn ho

omit hcores in
/-- A signal that selects the thread wakes it. -/
theorem SignalPart.woken {p e : Nat} (hpart : SignalPart r p e u s) (he : e ≤ N) {n : NodeRef}
    (hn : n ∈ s.selection cfg (r.state (p + 1)).kernel)
    (hin : ((r.state e).fiber n.owner).InWait ws) : s.waitable ∈ ws ∧
      Woken (r.state e) n.owner ws { index := ws.idxOf s.waitable, acquired := s.acquired } := by
  obtain ⟨vs, p', hfiber, hmem, hresult⟩ := hpart.signalled.result n hn
  have hready := hpart.signalled.ready n hn
  rcases hin with hpc | hpc
  · rw [hpc] at hfiber
    cases hfiber
  · rw [hpc] at hfiber
    cases hfiber
    refine ⟨hmem, hpc, hresult, .inl ⟨hready, fun hcur => ?_⟩⟩
    -- a ready thread is current only on its way off the core
    obtain ⟨a, hsim, -⟩ := run_sim hr he
    have hon := (hsim.current 0 n.owner hcur).2
    rw [hsim.ready_of_waitReturn hpc hready, hpart.signalled.core] at hon
    split at hon <;> cases hon

/-- The first signal that selects the thread completes its wait. -/
theorem StillWaits.complete {i p e k : Nat} {n : NodeRef} (hw : StillWaits r n.owner i p)
    (hip : i < p) (hek : e ≤ k) (hk : k ≤ N) (hq : (r.state p).Quiet)
    (hpart : SignalPart r p e u s) (hn : n ∈ s.selection cfg (r.state (p + 1)).kernel)
    (hin : ∀ j, i < j → j ≤ k → ((r.state j).fiber n.owner).InWait ws) :
    CompletedBy r n.owner ws i k p s := by
  have hle := hpart.le
  obtain ⟨hmem, hwoken⟩ := hpart.woken hr (by omega) hn (hin e (by omega) hek)
  obtain ⟨hk', hnot, hno⟩ := hwoken.until hcores hr hek hk fun j hej hjk =>
    (hin j (by omega) hjk).ne_user
  refine ⟨hip, by omega, ⟨u, hq u, hpart.pick, n, hn, rfl⟩, fun q s' hiq hqk hsel => ?_, ?_, hmem,
    hk'.result⟩
  · rcases Nat.lt_or_ge q p with hqp | hpq
    · exact absurd hsel (hw.unselected q s' hiq hqp)
    · rcases Nat.lt_or_ge q e with hqe | heq
      · exact (hpart.selectingCall hcores hr (by omega) hpq hqe hsel).1
      · exact absurd hsel (hno q s' heq hqk)
  · -- the steps before the call, those of the signal, and those after its return
    obtain ⟨-, hbefore⟩ := hw.next hcores hr hip (by omega) hq
    obtain ⟨a, hsig⟩ := Signals.of_reachable hcores (r.reachVia hr (p + 1) (by omega)) (t := u)
      (by rw [hpart.pick]; rfl)
    have honce := List.count_eq_one_of_mem (hsig.selection_nodup hpart.pick)
      (List.mem_map_of_mem hn)
    rw [readyEvents_append (j := p + 1) (by omega) (by omega), readyEvents_append hle hek,
      List.count_append, List.count_append, hpart.readied, honce, List.count_eq_zero_of_not_mem hbefore,
      List.count_eq_zero_of_not_mem hnot]

/-- **From one state outside signals to another.** -/
theorem StillWaits.until {i p k : Nat} (hw : StillWaits r t i p) (hip : i < p) (hpk : p ≤ k)
    (hk : k ≤ N) (hq : (r.state p).Quiet) (hqk : (r.state k).Quiet)
    (hin : ∀ j, i < j → j ≤ k → ((r.state j).fiber t).InWait ws) :
    StillWaits r t i k ∨ ∃ q s, CompletedBy r t ws i k q s := by
  -- the run goes on by one step, or by a whole signal
  induction hd : k - p using Nat.strongRecOn generalizing p with
  | ind d ih =>
  rcases Nat.lt_or_eq_of_le hpk with hlt | rfl
  · by_cases hq' : (r.state (p + 1)).Quiet
    · exact ih (k - (p + 1)) (by omega) (hw.step hcores hr hip (by omega) hq hq') (by omega) hlt
        hq' rfl
    · obtain ⟨e, u, s, hek, hpart⟩ := exists_signalPart hcores hr hlt hk hq hq' hqk
      have hle := hpart.le
      by_cases hsel : ∃ n ∈ s.selection cfg (r.state (p + 1)).kernel, n.owner = t
      · obtain ⟨n, hn, rfl⟩ := hsel
        exact .inr ⟨p, s, hw.complete hcores hr hip hek hk hq hpart hn hin⟩
      · have hpass := hw.pass hcores hr hip (by omega) hq hpart fun n hn ho => hsel ⟨n, hn, ho⟩
        exact ih (k - e) (by omega) hpass (by omega) hek hpart.quiet rfl
  · exact .inl hw

omit hcores in
/-- A thread that has not returned from its wait is in it. -/
theorem inWait_step {p : Nat} (hp : p < N) (hin : ((r.state p).fiber t).InWait ws)
    (hnot : (r.state (p + 1)).fiber t ≠ .user) : ((r.state (p + 1)).fiber t).InWait ws := by
  obtain ⟨a, hsim, -⟩ := run_sim hr hp.le
  obtain ⟨a', ht⟩ := hsim.trans (hr p hp) (r.next p hp)
  rcases ht.fiber t with hf | ⟨c, act, hl, hcore, hcur⟩
  · rwa [hf]
  · have hnext := r.next p hp
    rw [hl] at hnext
    rcases hin with hpc | hpc
    · rw [Machine.step_commence hcore hcur hpc hnext]
      exact .inr (Function.update_self ..)
    · rw [Machine.step_waitReturn hcore hcur hpc hnext] at hnot
      exact absurd (Function.update_self ..) hnot

/-- The state right after the call of `wait_for_any`. -/
theorem wait_begins {i : Nat} {os : List Nat} (hi : i < N)
    (hcall : r.label i = .core 0 (.waitForAny os))
    (hcur : (r.state i).kernel.current 0 = some t) :
    ((r.state (i + 1)).fiber t).InWait (os.map .object) ∧ (r.state (i + 1)).Quiet ∧
      StillWaits r t i (i + 1) := by
  have hnext := r.next i hi
  rw [hcall] at hnext
  obtain ⟨hcore, huser⟩ := Machine.step_caller (by nofun) hcur hnext
  have hpc : (r.state (i + 1)).fiber t = .commence (os.map .object) none := by
    have h := Machine.step_call hcore hcur huser hnext
    simp only [Machine.call, check_ok, Machine.waitForAny, bind_ok, cortosAssert_ok,
      exists_const] at h
    obtain ⟨-, -, g, -, h⟩ := h
    exact Machine.block_fiber h
  obtain ⟨a, hs⟩ := Signals.of_reachable hcores (r.reachVia hr (i + 1) hi) (t := t)
    (by rw [hpc]; rfl)
  refine ⟨.inl hpc, hs.quiet (by rw [hpc]; rfl), ?_, fun q s hiq hqi => by omega, ?_⟩
  · -- only a blocked thread is at this point
    have hadm := (hs.sim.thread t).admits
    rw [(hs.sim.thread t).state]
    rw [hpc] at hadm
    cases hp : a.phase t <;> simp_all [Phase.admits, Phase.state, ThreadPc.suspended,
      ThreadPc.exiting]
  · rw [readyEvents_self]
    exact List.not_mem_nil

end Wait

/-- **`wait_for_any` completes with its first selecting signal.** On a single core, let
thread `t` call `wait_for_any` in step `i`, and let it not have returned at state `k`.
Outside signals, no signal that was called has selected `t`, and it is still blocked; or
exactly one has, `t` has been made Ready once, and its wait will return the position of
that signal's waitable and its flag. When `t` returns, the second is the case. -/
theorem wait_for_any_completed_once (hcores : cfg.cores = 1)
    (hr : ∀ i < N, (r.label i).Valid cfg) {i : Nat} {os : List Nat} (hi : i < N)
    (hcall : r.label i = .core 0 (.waitForAny os))
    (hcur : (r.state i).kernel.current 0 = some t) {k : Nat} (hik : i < k) (hk : k ≤ N)
    (hin : ∀ j, i < j → j ≤ k → (r.state j).fiber t ≠ .user) :
    ((r.state k).Quiet →
      StillWaits r t i k ∨ ∃ q s, CompletedBy r t (os.map .object) i k q s) ∧
    (k < N → (r.state (k + 1)).fiber t = .user →
      ∃ q s, CompletedBy r t (os.map .object) i k q s ∧ (r.state (k + 1)).result t =
        { index := (os.map .object).idxOf s.waitable, acquired := s.acquired }) := by
  obtain ⟨hstart, hquiet, hwaits⟩ := wait_begins hcores hr hi hcall hcur
  have hinWait : ∀ j, i < j → j ≤ k → ((r.state j).fiber t).InWait (os.map .object) := by
    intro j hij
    induction j, hij using Nat.le_induction with
    | base => exact fun _ => hstart
    | succ j hij ih =>
      exact fun hjk => inWait_step hr (by omega) (ih (by omega)) (hin (j + 1) (by omega) hjk)
  have hall : (r.state k).Quiet →
      StillWaits r t i k ∨ ∃ q s, CompletedBy r t (os.map .object) i k q s := fun hqk =>
    hwaits.until hcores hr (Nat.lt_succ_self i) hik hk hquiet hqk hinWait
  refine ⟨hall, fun hkN hret => ?_⟩
  obtain ⟨a, hsim, hwait⟩ := run_sim hr hk
  obtain ⟨a', ht⟩ := hsim.trans (hr k hkN) (r.next k hkN)
  rcases ht.fiber t with hf | ⟨c, act, hl, hcore, hcur'⟩
  · exact absurd (hf ▸ hret) (hin k hik (Nat.le_refl k))
  · -- the thread executes, so no other one does
    have hnext := r.next k hkN
    rw [hl] at hnext
    obtain rfl := Machine.core_of_step hcores hnext
    have hs : Signals cfg (r.state k) a t :=
      ⟨hsim, hcores, (hsim.isRunning_of_thread hwait hcore hcur').1, hcore, hcur'⟩
    rcases hinWait k hik (Nat.le_refl k) with hpc | hpc
    · rw [Machine.step_commence hcore hcur' hpc hnext] at hret
      exact absurd ((Function.update_self ..).symm.trans hret) (by nofun)
    · rcases hall (hs.quiet (by rw [hpc]; rfl)) with hstill | ⟨q, s, hdone⟩
      · have hoff := (hsim.thread t).blocked (hsim.executing hcore hcur')
          ((hsim.thread t).state.symm.trans hstill.state)
        rw [hpc] at hoff
        cases hoff
      · refine ⟨q, s, hdone, ?_⟩
        rw [Machine.step_waitReturn hcore hcur' hpc hnext]
        exact hdone.result

end Runs

/-- Thread 0 waits on objects 0 and 1. Thread 1 signals object 1 and then object 0 before
thread 0 runs again. -/
def twoSignals : (system oneCore).Run 24 :=
  .ofLabels (Machine.initial oneCore)
    ([.construct 5 1#32, .construct 5 1#32, .start] ++ steps 0 1 ++
      [.core 0 (.waitForAny [0, 1])] ++ steps 0 5 ++ [.core 0 (.signalOne 1 true)] ++ steps 0 5 ++
      [.core 0 (.signalOne 0 false)] ++ steps 0 1 ++ [.core 0 .yield] ++ steps 0 5)
    .start (by exact system_init oneCore) (by decide +kernel)

/-- The wait of thread 0 is completed by the first of the two signals. -/
theorem first_of_two_signals :
    ∃ q s, CompletedBy twoSignals (.user 0) ([0, 1].map .object) 4 23 q s ∧
      (twoSignals.state (23 + 1)).result (.user 0) =
        { index := ([0, 1].map WaitableRef.object).idxOf s.waitable, acquired := s.acquired } := by
  have hr : ∀ i < 24, (twoSignals.label i).Valid oneCore := by decide +kernel
  have hcall : twoSignals.label 4 = .core 0 (.waitForAny [0, 1]) := by decide +kernel
  have hcur : (twoSignals.state 4).kernel.current 0 = some (.user 0) := by decide +kernel
  have hin : ∀ j < 24, 4 < j → (twoSignals.state j).fiber (.user 0) ≠ .user := by decide +kernel
  have hret : (twoSignals.state (23 + 1)).fiber (.user 0) = .user := by decide +kernel
  have hall := wait_for_any_completed_once (r := twoSignals) (t := .user 0) (i := 4) (k := 23)
    rfl hr (by decide) hcall hcur (by decide) (by decide) fun j hj hjk => hin j (by omega) hj
  exact hall.2 (by decide) hret

end Cortos
