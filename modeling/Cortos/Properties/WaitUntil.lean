import Cortos.Machine.WaitCycle
import Cortos.Properties.StaleWake

/-!
# What `wait_until` returns

`wait_until` (`kernel.cpp:376–403`) tests its predicate once without locks and then, in a
loop, under the group lock; each time it is false there it blocks, and it takes the index and
the flag of the wake as its result so far.

- `watch cfg t`: the system with an observer of the calls of thread `t`. For the call in
  progress it notes the values of the predicate, the blocks and the wakes, and when the call
  returns it notes the result. It reads the machine and changes nothing in it.
- `InCall`: what it has noted, at each point of the call.
- `wait_until_result`: what it has noted of every call that has returned.

The predicate can turn true between the unlocked test and the first test under the lock, so
the initial result (-1, false) is also returned when it was false on entry. The index of a
wake is an index into the waitables of the call, except for a wake that was meant for an
earlier wait (see `Cortos.Properties.StaleWake`).
-/

namespace Cortos

open Lib

variable {cfg : Config} {m m' : Machine} {a a' : Life} {c : Nat} {t x u : ThreadRef}

/-! ## The observer -/

/-- The value of the predicate of a `wait_until` or a `join` that thread `t` tests in this
step. -/
def Machine.evaluation (m : Machine) (t : ThreadRef) (l : Label) : Option Bool :=
  if m.acting l = some t then
    match m.fiber t, l with
    | .user, .core _ (.waitUntil _ b) => some b
    | .user, .core _ (.join n) => some (m.holds false (.hasTerminated (.user n)))
    | .evaluate _ p, .core _ (.next b) => some (m.holds b p)
    | _, _ => none
  else none

/-- The waitables of the `wait_until` or `join` that thread `t` calls in this step. -/
def Machine.entersWait (m : Machine) (t : ThreadRef) (l : Label) : Option (List WaitableRef) :=
  if m.acting l = some t then
    match m.fiber t, l with
    | .user, .core _ (.waitUntil os _) => some (os.map .object)
    | .user, .core _ (.join n) => some [.termination (.user n)]
    | _, _ => none
  else none

/-- The group that a thread is about to win, and what it reports to it. -/
def ThreadPc.reports : ThreadPc → Option (ThreadRef × Result)
  | tryWin s _ _ _ g i => some (g, { index := i, acquired := s.acquired })
  | _ => none

/-- The wake that thread `t` receives in this step: a `try_win` on its group succeeds. -/
def Machine.receives (m : Machine) (t : ThreadRef) (l : Label) : Option Result :=
  match (m.acting l).bind fun u => (m.fiber u).reports with
  | some (g, R) => if g = t ∧ m.kernel.done t = false then some R else none
  | none => none

/-- What is noted of a call. -/
structure WaitCall where
  waitables : List WaitableRef
  /-- The values of the predicate. -/
  evaluations : List Bool := []
  blocks : Nat := 0
  wakes : List Result := []
  deriving DecidableEq, Repr

/-- Note what the step labelled `l` from `m` to `m'` does. -/
def WaitCall.observe (t : ThreadRef) (m : Machine) (l : Label) (m' : Machine) (call : WaitCall) :
    WaitCall :=
  { call with
    evaluations := call.evaluations ++ (m.evaluation t l).toList
    blocks := call.blocks + (m'.waits t - m.waits t)
    wakes := call.wakes ++ (m.receives t l).toList }

/-- What a call returns that has noted this. -/
def WaitCall.result (call : WaitCall) : Result := call.wakes.getLast?.getD {}

/-- The machine, the call in progress and the calls that have returned. -/
structure Watched where
  machine : Machine
  current : Option WaitCall := none
  returned : List (WaitCall × Result) := []

/-- The call that thread `t` is in or enters, with what is noted of this step. -/
def Watched.call (t : ThreadRef) (o : Watched) (l : Label) (m' : Machine) : Option WaitCall :=
  match o.machine.entersWait t l with
  | some ws => some (WaitCall.observe t o.machine l m' { waitables := ws })
  | none => o.current.map (WaitCall.observe t o.machine l m')

/-- The observer after a step. A call has returned when the thread is in its own code
again. -/
def Watched.next (t : ThreadRef) (o : Watched) (l : Label) (m' : Machine) : Watched :=
  if m'.fiber t = .user then
    { machine := m'
      returned := o.returned ++ ((o.call t l m').map fun call => (call, m'.result t)).toList }
  else { machine := m', current := o.call t l m', returned := o.returned }

/-- The system with the observer of thread `t`. -/
def watch (cfg : Config) (t : ThreadRef) : Lts Watched Label Fault where
  init o := o = { machine := Machine.initial cfg }
  step o l := (o.machine.step cfg l).map (o.next t l)

/-! ## What a step of another thread does -/

theorem Machine.evaluation_of_ne {l : Label} (h : m.acting l ≠ some t) :
    m.evaluation t l = none := if_neg h

theorem LocalStep.result {act : Act} {pc : ThreadPc} (hs : LocalStep cfg m a c t act pc m')
    (hx : x ≠ t) : m'.result x = m.result x := by
  cases hs with
  | waitUntil hpc | waitSkip hpc => exact Function.update_of_ne hx _ _
  | @waitReturn b ws p hpc => cases p <;> exact Function.update_of_ne hx _ _
  | pickNone hpc hnone =>
    rw [Machine.signalReturn]
    split <;> rfl
  | lost hpc hdone =>
    rw [Machine.signalNext, Machine.signalReturn]
    split_ifs <;> rfl
  | spin hpc =>
    rw [Machine.spin]
    split <;> rfl
  | _ => rfl

theorem AfterReady.result {k : Kernel} {resched : Bool} {κ : Claim} {pc : ThreadPc}
    (h : AfterReady m c t k resched x κ pc m') : m'.result = m.result := by
  cases h with
  | register hpc => split <;> rfl
  | setReady hpc hs =>
    rw [Machine.signalNext, Machine.signalReturn]
    split_ifs <;> rfl

/-- Only a thread itself changes the result of its wait. -/
theorem Trans.result {l : Label} (ht : Trans cfg m a l m' a') (hx : m.acting l ≠ some x) :
    m'.result x = m.result x := by
  cases ht with
  | thread hcore hcur hs =>
    refine hs.result ?_
    rintro rfl
    exact hx (Machine.acting_core hcore hcur)
  | ready hcore hcur hafter | post hcore hcur hafter => rw [hafter.result]
  | _ => rfl

/-- What the wait group of a thread holds. -/
def Machine.groupResult (m : Machine) (t : ThreadRef) : Result where
  index := (m.kernel.tcbs t).waitGroup.winnerIndex
  acquired := (m.kernel.tcbs t).waitGroup.acquired

/-- A wake is received from a thread that is at `try_win`. -/
theorem Machine.receives_some {l : Label} {R : Result} (hR : m.receives t l = some R) :
    m.kernel.done t = false ∧ ∃ u s n w tcb i, m.acting l = some u ∧
      m.fiber u = .tryWin s n w tcb t i ∧ R = { index := i, acquired := s.acquired } := by
  rw [receives] at hR
  split at hR
  case h_2 => cases hR
  case h_1 g R' hreport =>
    obtain ⟨u, hact, hpc⟩ := Option.bind_eq_some_iff.mp hreport
    split at hR
    case isFalse => cases hR
    case isTrue hcond =>
      obtain ⟨rfl, hdone⟩ := hcond
      cases hR
      cases hf : m.fiber u <;> rw [hf] at hpc <;> cases hpc
      exact ⟨hdone, u, _, _, _, _, _, hact, hf, rfl⟩

/-- A thread that is not at `try_win` wakes nobody. -/
theorem Machine.receives_none {l : Label} (hact : m.acting l = some u)
    (hpc : (m.fiber u).reports = none) : m.receives t l = none := by
  rw [receives, hact, Option.bind_some, hpc]

/-- A wake is what the group then holds. -/
theorem Machine.groupResult_of_receives {l : Label} {R : Result} (hR : m.receives t l = some R)
    (hs : m.step cfg l = .ok m') : m'.kernel.done t = true ∧ m'.groupResult t = R := by
  obtain ⟨hdone, u, s, n, w, tcb, i, hact, hpc, rfl⟩ := m.receives_some hR
  obtain ⟨c, act, rfl, hcore, hcur⟩ := m.acting_some hact
  obtain ⟨b, -, hs⟩ := m.step_executing hcore hcur (by rw [hpc]; nofun) hs
  simp only [threadNext, hpc, tryWin, hdone, Bool.false_eq_true, if_false,
    Except.ok.injEq] at hs
  subst hs
  simp [goto, Kernel.win, Kernel.modifyTcb, Kernel.done, groupResult]

/-- Only a thread that waits is woken. -/
theorem Sim.waiting_of_receives (h : Sim cfg m a) {l : Label} {R : Result}
    (hR : m.receives t l = some R) : (a.phase t).isWaiting = true := by
  obtain ⟨hdone, u, s, n, w, tcb, i, -, hpc, -⟩ := m.receives_some hR
  refine ((h.thread t).done_waiting hdone).resolve_right fun hzero => ?_
  have hcons := (h.thread u).consistent
  rw [hpc] at hcons
  obtain ⟨hpos, hle, -, hg⟩ := hcons
  rw [← hg, hzero] at hle
  exact absurd hpos (Nat.not_lt.mpr hle)

/-- A step of another thread leaves a thread where it is, with the result it has; the wait
group changes only by a wake that is received. -/
theorem Trans.others {l : Label} (ht : Trans cfg m a l m' a') (h : Sim cfg m a)
    (hborn : a.phase t ≠ .unborn) (hother : m.acting l ≠ some t) :
    m'.fiber t = m.fiber t ∧ m'.result t = m.result t ∧ m'.waits t = m.waits t ∧
      (m.receives t l = none →
        (m'.kernel.tcbs t).waitGroup = (m.kernel.tcbs t).waitGroup) := by
  have hnot : ∀ {c act}, l = .core c act → m.core c = .thread →
      m.kernel.current c = some t → False := by
    rintro c act rfl hcore hcur
    exact hother (Machine.acting_core hcore hcur)
  refine ⟨?_, ht.result hother, ?_, fun hnone => ?_⟩
  · rcases ht.fiber t with hsame | ⟨c, act, hl, hcore, hcur⟩
    · exact hsame
    · exact (hnot hl hcore hcur).elim
  · cases ht.waitMove h t with
    | keep _ hwaits | win _ hwaits | tearDown _ hwaits | wake _ hwaits => exact hwaits
    | block hwake hwaits hl hcore hcur => exact (hnot hl hcore hcur).elim
  · rcases ht.waitGroup t with hsame | ⟨hnew | ⟨c, act, hl, hcore, hcur⟩, -⟩ |
      ⟨c, b, u, s, n, w, i, ws, rfl, hcore, hcur, hpc, hn, -, hphase, -⟩
    · exact hsame
    · refine absurd ?_ hborn
      rw [hnew]
      exact (h.born _).mpr (Nat.le_refl _)
    · exact (hnot hl hcore hcur).elim
    · -- the step is a wake, which would have been received
      have hdone := (h.thread t).waiting_done (by rw [hphase]; rfl)
      rw [Machine.receives, Machine.acting_core hcore hcur] at hnone
      simp [hpc, ThreadPc.reports, hn, hdone] at hnone

/-! ## During the call -/

/-- Where thread `t` is in a call of which this is noted. -/
inductive CallPoint (t : ThreadRef) (m : Machine) (call : WaitCall) (p : Predicate) : Prop
  /-- Before the predicate is tested under the lock. -/
  | testing (hpc : m.fiber t = .evaluate call.waitables p)
    (hwakes : call.wakes.length = call.blocks) (hresult : m.result t = call.result)
  | asleep (hpc : m.fiber t = .commence call.waitables (some p) ∨
      m.fiber t = .waitReturn call.waitables (some p))
    (hdone : m.kernel.done t = false) (hpos : 0 < m.waits t)
    (hwakes : call.wakes.length + 1 = call.blocks)
  | woken (hpc : m.fiber t = .commence call.waitables (some p) ∨
      m.fiber t = .waitReturn call.waitables (some p))
    (hdone : m.kernel.done t = true) (hwakes : call.wakes.length = call.blocks)
    (hresult : m.groupResult t = call.result)

/-- What is noted of a call that thread `t` is in: every evaluation has been false, and each
but the first has been followed by a block. -/
structure InCall (t : ThreadRef) (m : Machine) (call : WaitCall) : Prop where
  evaluations : call.evaluations = List.replicate (call.blocks + 1) false
  nonneg : ∀ R ∈ call.wakes, 0 ≤ R.index
  point : ∃ p, CallPoint t m call p

/-- What is noted of a call that has returned `R`. -/
structure Returned (call : WaitCall) (R : Result) : Prop where
  evaluations : call.evaluations = [true] ∧ call.blocks = 0 ∨
    call.evaluations = List.replicate (call.blocks + 1) false ++ [true]
  nonneg : ∀ R ∈ call.wakes, 0 ≤ R.index
  wakes : call.wakes.length = call.blocks
  result : R = call.result

/-- After a step, the call has returned or goes on. -/
def Goes (t : ThreadRef) (m' : Machine) (call : WaitCall) : Prop :=
  m'.fiber t = .user ∧ Returned call (m'.result t) ∨ InCall t m' call

/-- A thread in a call is in the kernel. -/
theorem CallPoint.fiber {call : WaitCall} {p : Predicate} (h : CallPoint t m call p) :
    m.fiber t = .evaluate call.waitables p ∨
      m.fiber t = .commence call.waitables (some p) ∨
      m.fiber t = .waitReturn call.waitables (some p) := by
  cases h with
  | testing hpc => exact .inl hpc
  | asleep hpc | woken hpc => exact .inr hpc

theorem InCall.not_user {call : WaitCall} (h : InCall t m call) : m.fiber t ≠ .user := by
  obtain ⟨p, hp⟩ := h.point
  rcases hp.fiber with hf | hf | hf <;> rw [hf] <;> nofun

theorem InCall.reports {call : WaitCall} (h : InCall t m call) :
    (m.fiber t).reports = none := by
  obtain ⟨p, hp⟩ := h.point
  rcases hp.fiber with hf | hf | hf <;> rw [hf] <;> rfl

/-- A thread in a call has been constructed. -/
theorem InCall.born {call : WaitCall} (h : InCall t m call) (hsim : Sim cfg m a) :
    a.phase t ≠ .unborn := by
  intro hp
  obtain ⟨p, hpoint⟩ := h.point
  have hadm := (hsim.thread t).admits
  rcases hpoint.fiber with hf | hf | hf <;> rw [hp, hf] at hadm <;> cases hadm

theorem WaitCall.observe_blocks (call : WaitCall) {l : Label} (hwaits : m'.waits t = m.waits t) :
    (call.observe t m l m').blocks = call.blocks := by
  show call.blocks + (m'.waits t - m.waits t) = call.blocks
  rw [hwaits, Nat.sub_self, Nat.add_zero]

/-- A step of another thread. -/
theorem InCall.others {call : WaitCall} {l : Label} (hin : InCall t m call) (h : Sim cfg m a)
    (ht : Trans cfg m a l m' a') (hs : m.step cfg l = .ok m') (hother : m.acting l ≠ some t) :
    InCall t m' (call.observe t m l m') := by
  obtain ⟨hfiber, hresult, hwaits, hgroup⟩ := ht.others h (hin.born h) hother
  have hev : (call.observe t m l m').evaluations = call.evaluations := by
    rw [WaitCall.observe, Machine.evaluation_of_ne hother]
    exact List.append_nil _
  have hblocks : (call.observe t m l m').blocks = call.blocks := call.observe_blocks hwaits
  have hwakes : (call.observe t m l m').wakes = call.wakes ++ (m.receives t l).toList := rfl
  obtain ⟨p, hpoint⟩ := hin.point
  cases hR : m.receives t l with
  | none =>
    rw [hR, Option.toList_none, List.append_nil] at hwakes
    have hsame := hgroup hR
    have hdone : m'.kernel.done t = m.kernel.done t := by rw [Kernel.done, hsame, ← Kernel.done]
    have hres : m'.groupResult t = m.groupResult t := by
      rw [Machine.groupResult, hsame, ← Machine.groupResult]
    refine ⟨by rw [hev, hblocks, hin.evaluations], by rw [hwakes]; exact hin.nonneg, p, ?_⟩
    have hcall : (call.observe t m l m').result = call.result := by
      rw [WaitCall.result, hwakes, ← WaitCall.result]
    cases hpoint with
    | testing hpc hlen hr =>
      refine .testing (hfiber.trans hpc) (by rw [hwakes, hblocks, hlen]) ?_
      rw [hresult, hr, hcall]
    | asleep hpc hd hpos hlen =>
      refine .asleep (by rwa [hfiber]) (hdone.trans hd) (hwaits ▸ hpos) ?_
      rw [hwakes, hblocks, hlen]
    | woken hpc hd hlen hr =>
      refine .woken (by rwa [hfiber]) (hdone.trans hd) (by rw [hwakes, hblocks, hlen]) ?_
      rw [hres, hr, hcall]
  | some R =>
    rw [hR] at hwakes
    obtain ⟨hd', hres⟩ := m.groupResult_of_receives hR hs
    obtain ⟨hd, u, s, n, w, tcb, i, -, -, hRi⟩ := m.receives_some hR
    have hwaiting := h.waiting_of_receives hR
    refine ⟨by rw [hev, hblocks, hin.evaluations], ?_, p, ?_⟩
    · intro R' hR'
      rw [hwakes] at hR'
      rcases List.mem_append.mp hR' with hold | hnew
      · exact hin.nonneg R' hold
      · obtain rfl : R' = R := by simpa using hnew
        rw [hRi]
        exact Int.natCast_nonneg i
    · cases hpoint with
      | testing hpc =>
        have hadm := (h.thread t).admits
        rw [hpc] at hadm
        cases hp : a.phase t <;> rw [hp] at hwaiting hadm <;> cases hwaiting
        cases hadm
      | woken hpc hd'' =>
        rw [hd''] at hd
        cases hd
      | asleep hpc _ hpos hlen =>
        refine .woken (by rwa [hfiber]) hd' ?_ ?_
        · rw [hwakes, hblocks, ← hlen]
          simp
        · rw [hres, WaitCall.result, hwakes]
          simp

/-- A thread in a call wakes nobody, so its own steps note no wake. -/
theorem InCall.observe_wakes {call : WaitCall} {l : Label} (hin : InCall t m call)
    (hact : m.acting l = some t) : (call.observe t m l m').wakes = call.wakes := by
  rw [WaitCall.observe, m.receives_none hact hin.reports]
  exact List.append_nil _

/-- The thread tests the predicate under the lock. -/
theorem InCall.tests {call : WaitCall} {act : Act} {p : Predicate} (hin : InCall t m call)
    (h : Sim cfg m a) (ht : Trans cfg m a (.core c act) m' a')
    (hs : m.step cfg (.core c act) = .ok m') (hcore : m.core c = .thread)
    (hcur : m.kernel.current c = some t) (hpc : m.fiber t = .evaluate call.waitables p)
    (hlen : call.wakes.length = call.blocks) (hres : m.result t = call.result) :
    Goes t m' (call.observe t m (.core c act) m') := by
  have hact : m.acting (.core c act) = some t := Machine.acting_core hcore hcur
  have hwakes : (call.observe t m (.core c act) m').wakes = call.wakes := hin.observe_wakes hact
  have hnonneg : ∀ R ∈ (call.observe t m (.core c act) m').wakes, 0 ≤ R.index := by
    rw [hwakes]
    exact hin.nonneg
  obtain ⟨b, rfl, hcases⟩ := m.step_evaluate hcore hcur hpc hs
  have hev : (call.observe t m (.core c (.next b)) m').evaluations =
      List.replicate (call.blocks + 1) false ++ [m.holds b p] := by
    have hval : m.evaluation t (.core c (.next b)) = some (m.holds b p) := by
      unfold Machine.evaluation
      rw [if_pos hact, hpc]
    rw [← hin.evaluations, WaitCall.observe, hval]
    rfl
  rcases hcases with ⟨hholds, rfl⟩ | ⟨hholds, hblock⟩
  · have hblocks : (call.observe t m (.core c (.next b)) (m.goto m.kernel t .user)).blocks =
        call.blocks := call.observe_blocks rfl
    refine .inl ⟨Function.update_self .., ?_, hnonneg, ?_, ?_⟩
    · rw [hev, hholds, hblocks]
      exact .inr rfl
    · rw [hwakes, hblocks, hlen]
    · rw [WaitCall.result, hwakes, ← WaitCall.result, ← hres]
      rfl
  · have hwaits := m.block_waits hblock
    have hblocks : (call.observe t m (.core c (.next b)) m').blocks = call.blocks + 1 := by
      show call.blocks + (m'.waits t - m.waits t) = call.blocks + 1
      rw [hwaits, Nat.add_sub_cancel_left]
    have hdone : m'.kernel.done t = false := by
      refine ((ht.sim h).thread t).waiting_done ?_
      cases ht.waitMove h t with
      | block hwake _ hl hco hcu hpc hphase hphase' =>
        rw [hphase']
        rfl
      | keep _ hw | win _ hw | tearDown _ hw | wake _ hw => omega
    refine .inr ⟨?_, hnonneg, p, .asleep (.inl (m.block_fiber hblock)) hdone ?_ ?_⟩
    · rw [hev, hholds, hblocks]
      exact (List.replicate_succ' ..).symm
    · rw [hwaits]
      exact Nat.succ_pos _
    · rw [hwakes, hblocks, hlen]

/-- A thread that runs again has been woken. -/
theorem Sim.done_of_waitReturn (h : Sim cfg m a) (hcore : m.core c = .thread)
    (hcur : m.kernel.current c = some t) {ws : List WaitableRef} {p : Option Predicate}
    (hpc : m.fiber t = .waitReturn ws p) (hpos : 0 < m.waits t) : m.kernel.done t = true := by
  have hphase : a.phase t = .running := by
    rcases h.acting_phase hcore hcur with ⟨hr, -⟩ | ⟨-, ws, q, he⟩ | ⟨-, he⟩
    · exact hr
    · rw [hpc] at he
      cases he
    · rw [hpc] at he
      cases he
  cases hd : m.kernel.done t with
  | true => rfl
  | false =>
    rcases (h.thread t).done_waiting hd with hw | hzero
    · rw [hphase] at hw
      cases hw
    · omega

/-- A step of the thread itself: it tests the predicate, leaves its core or returns from a
wake. -/
theorem InCall.acting {call : WaitCall} {act : Act} (hin : InCall t m call) (h : Sim cfg m a)
    (ht : Trans cfg m a (.core c act) m' a') (hs : m.step cfg (.core c act) = .ok m')
    (hcore : m.core c = .thread) (hcur : m.kernel.current c = some t) :
    Goes t m' (call.observe t m (.core c act) m') := by
  have hact : m.acting (.core c act) = some t := Machine.acting_core hcore hcur
  have hwakes : (call.observe t m (.core c act) m').wakes = call.wakes := hin.observe_wakes hact
  have hcall : (call.observe t m (.core c act) m').result = call.result := by
    rw [WaitCall.result, hwakes, ← WaitCall.result]
  have hblocks : m'.waits t = m.waits t →
      (call.observe t m (.core c act) m').blocks = call.blocks := call.observe_blocks
  obtain ⟨p, hpoint⟩ := hin.point
  -- off its core and back on it, the thread tests nothing
  have hgoes : m.fiber t ≠ .evaluate call.waitables p → m'.waits t = m.waits t →
      CallPoint t m' (call.observe t m (.core c act) m') p →
      Goes t m' (call.observe t m (.core c act) m') := by
    intro hpc hwaits hpoint'
    have hnone : m.evaluation t (.core c act) = none := by
      unfold Machine.evaluation
      rw [if_pos hact]
      rcases hpoint.fiber.resolve_left hpc with hf | hf <;> rw [hf]
    have hev : (call.observe t m (.core c act) m').evaluations = call.evaluations := by
      rw [WaitCall.observe, hnone]
      exact List.append_nil _
    refine .inr ⟨?_, ?_, p, hpoint'⟩
    · rw [hev, hblocks hwaits, hin.evaluations]
    · rw [hwakes]
      exact hin.nonneg
  cases hpoint with
  | testing hpc hlen hres => exact hin.tests h ht hs hcore hcur hpc hlen hres
  | asleep hpc hd hpos hlen =>
    rcases hpc with hpc | hpc
    · obtain rfl := m.step_commence hcore hcur hpc hs
      refine hgoes (by rw [hpc]; nofun) rfl
        (.asleep (.inr (Function.update_self ..)) hd hpos ?_)
      rw [hwakes, hblocks rfl, hlen]
    · rw [h.done_of_waitReturn hcore hcur hpc hpos] at hd
      cases hd
  | woken hpc hd hlen hres =>
    rcases hpc with hpc | hpc
    · obtain rfl := m.step_commence hcore hcur hpc hs
      refine hgoes (by rw [hpc]; nofun) rfl
        (.woken (.inr (Function.update_self ..)) hd ?_ ?_)
      · rw [hwakes, hblocks rfl, hlen]
      · rw [hcall, ← hres]
        rfl
    · obtain rfl := m.step_waitReturn hcore hcur hpc hs
      refine hgoes (by rw [hpc]; nofun) rfl (.testing (Function.update_self ..) ?_ ?_)
      · rw [hwakes, hblocks rfl, hlen]
      · rw [hcall, ← hres]
        exact m.waitReturn_result ..

/-- **Step lemma**: a call that a thread is in goes on or returns. -/
theorem InCall.step {call : WaitCall} {l : Label} (hin : InCall t m call) (h : Sim cfg m a)
    (ht : Trans cfg m a l m' a') (hs : m.step cfg l = .ok m') :
    Goes t m' (call.observe t m l m') := by
  by_cases hact : m.acting l = some t
  · obtain ⟨c, act, rfl, hcore, hcur⟩ := Machine.acting_some hact
    exact hin.acting h ht hs hcore hcur
  · exact .inr (hin.others h ht hs hact)

/-! ## Entry -/

/-- The first test is made without locks. -/
theorem Machine.waitUntil_ok {ws : List WaitableRef} {p : Predicate} {b : Bool}
    (h : m.waitUntil cfg t ws p b = .ok m') :
    m'.waits = m.waits ∧ m'.result t = {} ∧
      (m.holds b p = true ∧ m'.fiber = m.fiber ∨
        m.holds b p = false ∧ m'.fiber t = .evaluate ws p) := by
  simp only [waitUntil, bind_ok, cortosAssert_ok, exists_const, pure, Except.pure] at h
  obtain ⟨-, -, h⟩ := h
  split at h
  · next hholds =>
    cases h
    exact ⟨rfl, Function.update_self .., .inl ⟨hholds, rfl⟩⟩
  · next hholds =>
    cases h
    exact ⟨rfl, Function.update_self .., .inr ⟨by simpa using hholds, Function.update_self ..⟩⟩

/-- A call of `wait_until` is entered from the application, with the first value of its
predicate. -/
theorem Machine.entersWait_some {l : Label} {ws : List WaitableRef}
    (henter : m.entersWait t l = some ws) (hs : m.step cfg l = .ok m') :
    m.fiber t = .user ∧ m.acting l = some t ∧
      ∃ p b, m.waitUntil cfg t ws p b = .ok m' ∧ m.evaluation t l = some (m.holds b p) := by
  unfold entersWait at henter
  split at henter
  case isFalse => cases henter
  case isTrue hact =>
    obtain ⟨c, act, rfl, hcore, hcur⟩ := m.acting_some hact
    split at henter
    case h_1 c' os b hpc hl =>
      cases henter
      cases hl
      have hcall := m.step_call hcore hcur hpc hs
      refine ⟨hpc, hact, .application, b, check_ok.mp hcall, ?_⟩
      unfold evaluation
      rw [if_pos hact, hpc]
      rfl
    case h_2 c' n hpc hl =>
      cases henter
      cases hl
      have hcall := m.step_call hcore hcur hpc hs
      rw [call] at hcall
      split at hcall
      case isFalse => cases hcall
      case isTrue =>
        refine ⟨hpc, hact, .hasTerminated (.user n), false, check_ok.mp hcall, ?_⟩
        unfold evaluation
        rw [if_pos hact, hpc]
    case h_3 => cases henter

/-- **Step lemma**: a call that is entered goes on or returns. -/
theorem Machine.enters {l : Label} {ws : List WaitableRef} (henter : m.entersWait t l = some ws)
    (hs : m.step cfg l = .ok m') :
    Goes t m' (WaitCall.observe t m l m' { waitables := ws }) := by
  obtain ⟨hpc, hact, p, b, hcall, hev⟩ := m.entersWait_some henter hs
  obtain ⟨hwaits, hresult, hcases⟩ := m.waitUntil_ok hcall
  have hnone : m.receives t l = none := m.receives_none hact (by rw [hpc]; rfl)
  have hobserve : WaitCall.observe t m l m' { waitables := ws } =
      { waitables := ws, evaluations := [m.holds b p] } := by
    rw [WaitCall.observe, hev, hnone, hwaits, Nat.sub_self]
    rfl
  rw [hobserve]
  rcases hcases with ⟨hholds, hfiber⟩ | ⟨hholds, hfiber⟩
  · rw [hholds]
    exact .inl ⟨by rw [hfiber, hpc], .inl ⟨rfl, rfl⟩, nofun, rfl, hresult⟩
  · rw [hholds]
    exact .inr ⟨rfl, nofun, p, .testing hfiber rfl hresult⟩

/-! ## The run -/

/-- What has been noted at all. -/
structure Noted (t : ThreadRef) (o : Watched) : Prop where
  current : ∀ call ∈ o.current, InCall t o.machine call
  returned : ∀ e ∈ o.returned, Returned e.1 e.2

theorem Noted.call {o : Watched} {l : Label} (hn : Noted t o) (h : Sim cfg o.machine a)
    (ht : Trans cfg o.machine a l m' a') (hs : o.machine.step cfg l = .ok m') :
    ∀ call ∈ o.call t l m', Goes t m' call := by
  intro call hcall
  unfold Watched.call at hcall
  split at hcall
  case h_1 ws henter =>
    cases hcall
    exact Machine.enters henter hs
  case h_2 =>
    obtain ⟨call₀, hcur, rfl⟩ := Option.map_eq_some_iff.mp hcall
    exact (hn.current call₀ hcur).step h ht hs

theorem Noted.next {o : Watched} {l : Label} (hn : Noted t o) (h : Sim cfg o.machine a)
    (ht : Trans cfg o.machine a l m' a') (hs : o.machine.step cfg l = .ok m') :
    Noted t (o.next t l m') := by
  have hgoes := hn.call h ht hs
  unfold Watched.next
  split
  case isTrue huser =>
    refine ⟨nofun, fun e he => ?_⟩
    rcases List.mem_append.mp he with hold | hnew
    · exact hn.returned e hold
    · obtain ⟨call, hcall, rfl⟩ := Option.map_eq_some_iff.mp (Option.mem_toList.mp hnew)
      rcases hgoes call hcall with ⟨-, hret⟩ | hin
      · exact hret
      · exact absurd huser hin.not_user
  case isFalse huser =>
    refine ⟨fun call hcall => ?_, hn.returned⟩
    rcases hgoes call hcall with ⟨hret, -⟩ | hin
    · exact absurd hret huser
    · exact hin

/-- In a run, an invariant of the observer and the abstract state that every step keeps holds
throughout. -/
theorem watch_invariant {C : Watched → Label → Prop} (hC : ∀ o l, C o l → l.Valid cfg)
    {I : Watched → Life → Prop}
    (hinit : I { machine := Machine.initial cfg } (Life.initial cfg))
    (hstep : ∀ {o a l m' a'}, Sim cfg o.machine a → I o a → C o l →
      o.machine.step cfg l = .ok m' → Trans cfg o.machine a l m' a' → I (o.next t l m') a')
    {o : Watched} (h : (watch cfg t).ReachVia C o) : ∃ a, Sim cfg o.machine a ∧ I o a := by
  refine Lts.ReachVia.invariant (I := fun o => ∃ a, Sim cfg o.machine a ∧ I o a) ?_ ?_ h
  · rintro _ rfl
    exact ⟨_, Sim.initial cfg, hinit⟩
  · rintro o l o' - ⟨a, ha, hI⟩ hc hs
    obtain ⟨m', hm', rfl⟩ : ∃ m', o.machine.step cfg l = .ok m' ∧ o.next t l m' = o' := by
      have hmap : (o.machine.step cfg l).map (o.next t l) = .ok o' := hs
      cases hm : o.machine.step cfg l with
      | error e =>
        rw [hm] at hmap
        cases hmap
      | ok m' =>
        rw [hm] at hmap
        exact ⟨m', rfl, Except.ok.inj hmap⟩
    obtain ⟨a', ht⟩ := ha.trans (hC o l hc) hm'
    have hmachine : (o.next t l m').machine = m' := by
      unfold Watched.next
      split <;> rfl
    refine ⟨a', ?_, hstep ha hI hc hm' ht⟩
    rw [hmachine]
    exact ht.sim ha

theorem Noted.reach {o : Watched} (h : (watch cfg t).ReachVia (fun _ l => l.Valid cfg) o) :
    Noted t o := by
  obtain ⟨a, -, hn⟩ := watch_invariant (I := fun o _ => Noted t o) (fun _ _ hv => hv)
    ⟨nofun, nofun⟩ (fun ha hn _ hs ht => hn.next ha ht hs) h
  exact hn

/-! ## The index of a wake -/

/-- The wakes of a call name waitables of the call. -/
def WaitCall.InRange (call : WaitCall) : Prop :=
  ∀ R ∈ call.wakes, R.index < call.waitables.length

/-- A wake through a node that is still queued names a waitable of the wait. -/
theorem PickedFresh.receives {l : Label} {R : Result} (hI : PickedFresh m a) (h : Sim cfg m a)
    (hR : m.receives t l = some R) :
    ∃ ws p, (m.fiber t = .commence ws p ∨ m.fiber t = .waitReturn ws p) ∧
      R.index < ws.length := by
  obtain ⟨-, u, s, n, w, tcb, i, -, hpc, rfl⟩ := m.receives_some hR
  have hfresh := hI u
  have hcons := (h.thread u).consistent
  rw [hpc] at hfresh hcons
  obtain ⟨hn, -, rfl⟩ := hfresh
  obtain ⟨-, -, -, rfl⟩ := hcons
  obtain ⟨ws, p, hf, hws⟩ := h.waiting_fiber hn
  exact ⟨ws, p, hf, Int.ofNat_lt.mpr (List.getElem?_eq_some_iff.mp hws).1⟩

theorem WaitCall.InRange.observe {call : WaitCall} {l : Label} (hr : call.InRange)
    (hin : InCall t m call) (hI : PickedFresh m a) (h : Sim cfg m a) :
    (call.observe t m l m').InRange := by
  intro R hR
  rcases List.mem_append.mp hR with hold | hnew
  · exact hr R hold
  · obtain ⟨ws, p, hf, hlt⟩ := hI.receives h (Option.mem_toList.mp hnew)
    obtain ⟨q, hpoint⟩ := hin.point
    obtain rfl : ws = call.waitables := by
      rcases hpoint.fiber with hf' | hf' | hf' <;> rw [hf'] at hf <;> simp_all
    exact hlt

/-- All wakes noted so far are in range. -/
structure AllInRange (o : Watched) : Prop where
  current : ∀ call ∈ o.current, call.InRange
  returned : ∀ e ∈ o.returned, e.1.InRange

theorem AllInRange.next {o : Watched} {l : Label} (hr : AllInRange o) (hn : Noted t o)
    (hI : PickedFresh o.machine a) (h : Sim cfg o.machine a)
    (hs : o.machine.step cfg l = .ok m') : AllInRange (o.next t l m') := by
  have hcall : ∀ call ∈ o.call t l m', call.InRange := by
    intro call hcall
    unfold Watched.call at hcall
    split at hcall
    case h_1 ws henter =>
      obtain ⟨hpc, hact, -⟩ := Machine.entersWait_some henter hs
      cases hcall
      intro R hR
      have hnone : o.machine.receives t l = none :=
        Machine.receives_none hact (by rw [hpc]; rfl)
      rw [WaitCall.observe, hnone] at hR
      cases hR
    case h_2 =>
      obtain ⟨call₀, hcur, rfl⟩ := Option.map_eq_some_iff.mp hcall
      exact (hr.current call₀ hcur).observe (hn.current call₀ hcur) hI h
  unfold Watched.next
  split
  case isTrue =>
    refine ⟨nofun, fun e he => ?_⟩
    rcases List.mem_append.mp he with hold | hnew
    · exact hr.returned e hold
    · obtain ⟨call, hmem, rfl⟩ := Option.map_eq_some_iff.mp (Option.mem_toList.mp hnew)
      exact hcall call hmem
  case isFalse => exact ⟨hcall, hr.returned⟩

/-- If no group is torn down while a thread holds a picked node of it, all wakes are in
range. -/
theorem AllInRange.reach {o : Watched} (h : (watch cfg t).ReachVia
    (fun o l => l.Valid cfg ∧ TearsDownUnpicked o.machine l) o) : AllInRange o := by
  obtain ⟨a, -, -, -, hr⟩ := watch_invariant (t := t)
    (I := fun o a => PickedFresh o.machine a ∧ Noted t o ∧ AllInRange o)
    (fun _ _ hc => hc.1) ⟨fun u => by cases u <;> trivial, ⟨nofun, nofun⟩, ⟨nofun, nofun⟩⟩
    (fun {o a l m' a'} ha hI hc hs ht => by
      have hfresh := ht.pickedFresh ha hI.1 hc.2
      refine ⟨?_, hI.2.1.next ha ht hs, hI.2.2.next hI.2.1 hI.1 ha hs⟩
      unfold Watched.next
      split <;> exact hfresh) h
  exact hr

/-! ## The result -/

/-- The initial result is returned exactly when no wake has been received. -/
theorem Returned.initial_iff {call : WaitCall} {R : Result} (h : Returned call R) :
    R = {} ↔ call.blocks = 0 := by
  rw [h.result, ← h.wakes, WaitCall.result, List.length_eq_zero_iff]
  constructor
  · intro he
    cases hlast : call.wakes.getLast? with
    | none => exact List.getLast?_eq_none_iff.mp hlast
    | some S =>
      have hpos := h.nonneg S (List.mem_of_getLast? hlast)
      rw [hlast, Option.getD_some] at he
      subst he
      exact absurd hpos (by decide)
  · intro hnil
    rw [hnil]
    rfl

/-- **The result of `wait_until`.** A call in progress has only met false values, and has
blocked after each one under the lock. A call that has returned met false values and then one
that was true, blocked once for each false value under the lock and was woken from each block.
It returns (-1, false) if the value on entry was true, and also if that was false and the first
value under the lock was true; otherwise it returns the last wake. The index of that wake is
one of the waitables of the call if no wait group was torn down while a signaller still held a
node of it. -/
theorem wait_until_result {o : Watched}
    (hreach : (watch cfg t).ReachVia (fun _ l => l.Valid cfg) o) :
    (∀ call ∈ o.current, call.evaluations = List.replicate (call.blocks + 1) false) ∧
    ∀ call R, (call, R) ∈ o.returned →
      (∃ n, call.evaluations = List.replicate n false ++ [true]) ∧
      call.blocks = call.evaluations.tail.count false ∧ call.wakes.length = call.blocks ∧
      (R = {} ↔ call.evaluations = [true] ∨ call.evaluations = [false, true]) ∧
      (R ≠ {} → call.wakes.getLast? = some R ∧ 0 ≤ R.index ∧
        ((watch cfg t).ReachVia (fun o l => l.Valid cfg ∧ TearsDownUnpicked o.machine l) o →
          R.index < call.waitables.length)) := by
  have hnoted := Noted.reach hreach
  refine ⟨fun call hcall => (hnoted.current call hcall).evaluations, fun call R hmem => ?_⟩
  have hret : Returned call R := hnoted.returned (call, R) hmem
  refine ⟨?_, ?_, hret.wakes, ?_, fun hne => ?_⟩
  · rcases hret.evaluations with ⟨he, -⟩ | he
    · exact ⟨0, he⟩
    · exact ⟨call.blocks + 1, he⟩
  · rcases hret.evaluations with ⟨he, hb⟩ | he
    · rw [he, hb]
      rfl
    · rw [he, List.replicate_succ, List.cons_append, List.tail_cons, List.count_append,
        List.count_replicate_self]
      rfl
  · rw [hret.initial_iff]
    rcases hret.evaluations with ⟨he, hb⟩ | he
    · simp [he, hb]
    · rw [he]
      constructor
      · intro hb
        rw [hb]
        exact .inr rfl
      · rintro (hev | hev)
        · have := congrArg List.length hev
          simp at this
        · have := congrArg List.length hev
          simpa using this
  · have hblocks : call.wakes ≠ [] := by
      intro hnil
      refine hne (hret.initial_iff.mpr ?_)
      rw [← hret.wakes, hnil]
      rfl
    have hlast : call.wakes.getLast? = some R := by
      rw [hret.result, WaitCall.result, List.getLast?_eq_some_getLast hblocks]
      rfl
    have hwake := List.mem_of_getLast? hlast
    refine ⟨hlast, hret.nonneg R hwake, fun hfresh => ?_⟩
    exact (AllInRange.reach hfresh).returned (call, R) hmem R hwake

/-- Two threads of one core; the first is about to run. -/
def twoThreadLabels : List Label := [.construct 5 1#32, .construct 5 1#32, .start] ++ steps 0 1

/-- Thread 0 blocks in `wait_until`, thread 1 signals and yields, and the predicate is true
when thread 0 tests it again. -/
theorem signalled_wait_result : ∃ (o : Watched) (call : WaitCall) (R : Result),
    (call, R) ∈ o.returned ∧ call.evaluations = [false, false, true] ∧
    R = { index := 0, acquired := true } ∧ call.wakes.getLast? = some R ∧ 0 ≤ R.index ∧
    R.index < call.waitables.length := by
  have hrun : (watch oneCore (.user 0)).runsTo
      (fun o l => l.Valid oneCore ∧ TearsDownUnpicked o.machine l)
      (fun o => o.returned = [(⟨[.object 0], [false, false, true], 1, [⟨0, true⟩]⟩, ⟨0, true⟩)])
      { machine := Machine.initial oneCore }
      (twoThreadLabels ++ [.core 0 (.waitUntil [0] false)] ++ steps 0 6 ++
        [.core 0 (.signalOne 0 true)] ++ steps 0 5 ++ [.core 0 .yield] ++ steps 0 5 ++
        [.core 0 (.next true)]) = true := by
    decide +kernel
  obtain ⟨o, hreach, hreturned⟩ := Lts.ReachVia.runsTo (.init rfl) hrun
  have hmem : (⟨[.object 0], [false, false, true], 1, [⟨0, true⟩]⟩, ⟨0, true⟩) ∈ o.returned := by
    rw [hreturned]
    exact List.mem_singleton_self _
  obtain ⟨-, hret⟩ := wait_until_result (hreach.mono fun _ _ hc => hc.1)
  obtain ⟨hlast, hnonneg, hlt⟩ := (hret _ _ hmem).2.2.2.2 (by decide)
  exact ⟨o, _, _, hmem, rfl, rfl, hlast, hnonneg, hlt hreach⟩

/-- Thread 0 waits on objects 0 and 1. Thread 2, on the other core, signals object 1 and is
about to win the group of thread 0 with index 1 when thread 1 signals object 0 and wakes thread
0. It then calls `wait_until` on object 0 alone and blocks. -/
def staleIndexLabels : List Label :=
  [.construct 5 1#32, .construct 5 1#32, .construct 5 2#32, .start] ++ steps 0 1 ++ steps 1 1 ++
    [.core 0 (.waitForAny [0, 1])] ++ steps 0 5 ++ [.core 1 (.signalOne 1 true)] ++ steps 1 2 ++
    [.core 0 (.signalOne 0 false)] ++ steps 0 5 ++ [.core 0 .yield] ++ steps 0 5 ++
    [.core 0 (.waitUntil [0] false)] ++ steps 0 6

/-- `wait_until` returns (-1, false) although the predicate was false on entry: it was true at
the first test under the lock. And it returns index 1 although it waits on one waitable: thread
2 goes on, thread 1 yields, and thread 0 finds the predicate true. -/
theorem initial_result_and_index_out_of_range :
    (∃ o, (watch oneCore (.user 0)).ReachVia (fun _ l => l.Valid oneCore) o ∧
      o.returned = [(⟨[.object 0], [false, true], 0, []⟩, ⟨-1, false⟩)]) ∧
    ∃ o, (watch twoCores (.user 0)).ReachVia (fun _ l => l.Valid twoCores) o ∧
      o.returned = [(⟨[.object 0], [false, false, true], 1, [⟨1, true⟩]⟩, ⟨1, true⟩)] := by
  constructor
  · refine Lts.ReachVia.runsTo (.init rfl) (?_ : (watch oneCore (.user 0)).runsTo _ _
      { machine := Machine.initial oneCore }
      (twoThreadLabels ++ [.core 0 (.waitUntil [0] false), .core 0 (.next true)]) = true)
    decide +kernel
  · refine Lts.ReachVia.runsTo (.init rfl) (?_ : (watch twoCores (.user 0)).runsTo _ _
      { machine := Machine.initial twoCores }
      (staleIndexLabels ++ steps 1 3 ++ [.core 0 .yield] ++ steps 0 6 ++
        [.core 0 (.next true)]) = true)
    decide +kernel

end Cortos
