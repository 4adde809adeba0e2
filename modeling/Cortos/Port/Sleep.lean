import Cortos.Port.Shutdown

/-!
# A core sleeps only when it has nothing to run

A core whose ready matrix is empty runs its idle thread, and the idle thread sleeps in
`cortos_port_idle` until its pending bit is set. Other cores make threads of this core
ready while it does so. They post to its inbox, raise `inbox_poke_pending` if they are the
first to do so since the last drain, and then set the pending bit and signal.

- `IdleEmpty`: while a core is in its idle thread its ready matrix is empty, because only
  the core itself enqueues there.
- `Announced s c`: a request in the inbox of core `c` has raised the flag or is about to; a
  raised flag has set the pending bit or is about to, unless the core has taken the bit and
  will lower the flag before it drains; and a core that goes to sleep on a bit that is set
  is about to be signalled.

So a core that is asleep is about to be woken, or its inbox and its ready matrix are empty
(`sleeps_without_work`). When all cores are asleep, all threads that have not terminated
wait for a signal (`all_asleep_all_wait`).
-/

namespace Cortos

open Lib Port

variable {cfg : Config} {s s' : PortState} {m m' : Machine} {a a' : Life} {c d : Nat}

/-! ## The ready matrix of a core in its idle thread -/

/-- A core runs its idle thread only while its ready matrix is empty. -/
def IdleEmpty (m : Machine) (a : Life) : Prop :=
  ∀ c, m.core c = .thread → m.kernel.current c = some (.idle c) → ∀ p, a.queue (c, p) = []

/-- The idle thread is never taken from a ready queue. -/
theorem Sim.idle_not_queued (h : Sim cfg m a) (d p q : Nat) (t : ThreadRef) :
    .idle c ∉ (a.rotated d q t).queue (d, p) := by
  have hnot : .idle c ∉ a.queue (d, p) := fun hmem => by
    have hidle := ((h.queued d p _).mp hmem).2.1
    cases hidle
  intro hmem
  rw [Life.rotated] at hmem
  split at hmem
  · split at hmem
    · exact hnot hmem
    · next ht =>
      by_cases hp : p = q
      · subst hp
        have hmem' : .idle c ∈ a.queue (d, p) ++ [t] := by
          simpa [Life.enqueue] using hmem
        rcases List.mem_append.mp hmem' with hin | hlast
        · exact hnot hin
        · rw [← List.mem_singleton.mp hlast] at ht
          exact ht rfl
      · have hother : (a.enqueue d q t).queue (d, p) = a.queue (d, p) :=
          Function.update_of_ne (fun heq => hp (Prod.ext_iff.mp heq).2) _ _
        rw [hother] at hmem
        exact hnot hmem
  · exact hnot hmem

/-- A core that selects its idle thread has an empty ready matrix. -/
theorem Life.Selects.idle_empty {b : Life} (hsel : b.Selects c (.idle c) a')
    (hnot : ∀ p, .idle c ∉ b.queue (c, p)) (p : Nat) : a'.queue (c, p) = [] := by
  generalize hnext : ThreadRef.idle c = next at hsel
  cases hsel with
  | idle hempty => exact hempty p
  | @head p' t rest hq hfirst =>
    have hmem : .idle c ∈ b.queue (c, p') := by simp [hq, hnext]
    exact absurd hmem (hnot p')

theorem Trans.idleEmpty {l : Label} (ht : Trans cfg m a l m' a') (h : Sim cfg m a)
    (hwait : CoresWait m) (hI : IdleEmpty m a) : IdleEmpty m' a' := by
  intro c hcore' hcur' p
  rcases l.core_cases c with ⟨act, rfl⟩ | hl
  · -- the current thread stays current unless the core selects one
    have hold : m.core c = .thread → m.kernel.current c = some (.idle c) := fun hcore => by
      rcases ht.current c with hsame | ⟨b, -, hb | hb⟩
      · rwa [hsame] at hcur'
      · rw [hcore] at hb
        cases hb
      · rw [hcore] at hb
        cases hb
    cases ht with
    | thread hcore hcur hs => exact hI c hcore (hold hcore) p
    | construct hcore | block hcore | ret hcore | terminate hcore | win hcore | tearDown hcore
    | post hcore => exact hI c hcore (hold hcore) p
    | @ready _ t x b κ pc m' hcore hcur hafter hpin =>
      -- the idle thread readies nobody
      have hf : ReadyFrame cfg _ _ _ _ _ _ _ _ := hafter.frame
      have ht : t = .idle c := Option.some.inj (hcur.symm.trans (hold hcore))
      have hclaim := hf.claim
      rw [(h.thread t).idle_fiber.mpr (by rw [ht]; rfl)] at hclaim
      cases hclaim
    | @boot _ b next k _ hrun hc hcore hpop hsel hsim =>
      have hnext : next = .idle c := by
        have hdisp := (Kernel.current_dispatch k c c next).trans (if_pos rfl)
        exact Option.some.inj (hdisp.symm.trans hcur')
      rw [hnext] at hsel
      refine hsel.idle_empty (fun p hmem => ?_) p
      have hidle := ((h.queued c p _).mp hmem).2.1
      cases hidle
    | coreMove hmove => exact absurd hcore' (by
        cases hmove <;> simp [Machine.coreGoto])
    | drainOne hcore hin =>
      rw [show m.core c = .thread from hcore'] at hcore
      cases hcore
    | @switch _ t next b k _ hc hcore hcur hnr hpop hsel hsim =>
      have hnext : next = .idle c := by
        have hdisp := (Kernel.current_dispatch k c c next).trans (if_pos rfl)
        exact Option.some.inj (hdisp.symm.trans hcur')
      rw [hnext] at hsel
      exact hsel.idle_empty (fun p => h.idle_not_queued c p _ t) p
  · have hcore : m.core c = .thread := (ht.core_of_ne hl).symm.trans hcore'
    have hcur : m.kernel.current c = some (.idle c) := by
      rcases ht.current c with hsame | ⟨b, rfl, -⟩
      · rwa [hsame] at hcur'
      · exact absurd rfl (hl (.next b))
    cases l with
    | core e act =>
      have he : c ≠ e := fun heq => hl act (heq ▸ rfl)
      rw [(ht.other_core he).2 p]
      exact hI c hcore hcur p
    | construct priority affinity =>
      cases ht with
      | constructBoot hrun hd hprio =>
        rw [hwait hrun c] at hcore
        cases hcore
    | start =>
      cases ht
      exact hI c hcore hcur p

/-! ## The scheduler fiber -/

/-- Where the scheduler fiber of a core goes from a point of the pump loop. -/
theorem Trans.scheduler {act : Act} (ht : Trans cfg m a (.core c act) m' a') :
    (m.core c = .pump → m'.core c = .reschedule ∨ m'.core c = .halted) ∧
      (m.core c = .reschedule → m'.core c = .drain) ∧ m.core c ≠ .halted := by
  have hself : ∀ pc, Function.update m.core c pc c = pc := fun pc => Function.update_self ..
  cases ht with
  | thread hcore | construct hcore | block hcore | ret hcore | terminate hcore | win hcore
  | tearDown hcore | ready hcore | post hcore | boot _ _ hcore | drainOne hcore
  | switch _ hcore => simp [hcore]
  | coreMove hmove =>
    cases hmove with
    | pump hpc hlive => simp [hpc, Machine.coreGoto]
    | halt hpc hdone => simp [hpc, Machine.coreGoto]
    | reschedule hpc => simp [hpc, Machine.coreGoto]
    | drained hpc => simp [hpc]

/-- `drain_inbox` finds no request only in an empty inbox. -/
theorem Scheduler.drainOne_none {k : Kernel} (h : Scheduler.drainOne cfg k c = .ok none) :
    k.inbox c = [] := by
  rw [drainOne] at h
  split at h
  · next hempty => exact hempty
  · obtain ⟨k', -, hsome⟩ := bind_ok.mp h
    cases hsome

/-- A core drains its inbox until `pop` fails. -/
theorem Machine.step_drain {act : Act} (hcore : m.core c = .drain)
    (hs : m.step cfg (.core c act) = .ok m') : m'.core c = .drain ∨
      m'.kernel.inbox c = m.kernel.inbox c ∧ (act = .next true ∨ m.kernel.inbox c = []) := by
  rw [Machine.step] at hs
  split at hs
  · cases act with
    | next b =>
      cases b with
      | true =>
        simp only [Machine.coreStep, hcore, Machine.drain, if_true] at hs
        cases hs
        exact .inr ⟨rfl, .inl rfl⟩
      | false =>
        simp only [Machine.coreStep, hcore, Machine.drain, Bool.false_eq_true, if_false] at hs
        obtain ⟨request, hdrain, hgo⟩ := bind_ok.mp (check_ok.mp hs)
        cases request with
        | none =>
          cases hgo
          exact .inr ⟨rfl, .inr (Scheduler.drainOne_none hdrain)⟩
        | some k =>
          cases hgo
          exact .inl hcore
    | _ => simp [Machine.coreStep, hcore] at hs
  · cases hs

/-! ## Announcing a request -/

/-- Core `c` is going to lower `inbox_poke_pending` and drain its inbox, or has left its pump
loop. -/
def Attends (s : PortState) (c : Nat) : Prop :=
  s.port c = .unlock ∨ s.port c = .pend ∨ s.machine.core c = .pump ∨
    s.machine.core c = .reschedule ∨ s.machine.core c = .halted

/-- The way of a request from the inbox of core `c` to the wake-up of the core. -/
structure Announced (s : PortState) (c : Nat) : Prop where
  /-- Whoever has posted a request raises the flag, unless the core is draining. -/
  posted : s.machine.kernel.inbox c ≠ [] →
    s.machine.core c = .drain ∨ s.poke c = true ∨ ∃ d, s.port d = .casPoke c
  /-- Whoever has raised the flag sets the pending bit. -/
  raised : s.poke c = true →
    s.pending c = true ∨ (∃ d, s.port d = .poke c .store .post) ∨ Attends s c
  /-- Whoever has set the pending bit of a core that goes to sleep signals the core. -/
  stored : s.pending c = true → s.port c = .wait ∨ s.port c = .asleep →
    ∃ d sender, s.port d = .poke c .lock sender ∨ s.port d = .poke c .signal sender

/-- A core that waits for a signal in `cortos_port_idle` does not attend to its inbox. -/
theorem IdleOk.not_attends (hI : IdleOk s) (hidle : (s.port c).inIdle = true)
    (hunlock : s.port c ≠ .unlock) (hpend : s.port c ≠ .pend) : ¬ Attends s c := by
  have hcore := (Machine.idling_iff.mp (hI c hidle)).1
  rintro (h | h | h | h | h)
  · exact hunlock h
  · exact hpend h
  all_goals
    rw [hcore] at h
    cases h

section Step

variable {l : Label}

/-- A step of a core in the port. -/
theorem PortState.step_port {act : Act} (hs : s.step cfg (.core c act) = .ok s')
    (hpc : s.port c ≠ .kernel) : ∃ b, act = .next b ∧ s.portStep cfg c b (s.port c) = .ok s' := by
  unfold PortState.step at hs
  dsimp only at hs
  split at hs
  · rw [if_neg fun hkernel => hpc hkernel.1] at hs
    cases act with
    | next b => exact ⟨b, rfl, hs⟩
    | _ => cases hs
  · cases hs

/-- A core stays where it is in the port while the others move, unless it is asleep. -/
theorem PortTrans.port_stays (ht : PortTrans cfg s l s') (hl : ∀ act, l ≠ .core d act)
    {pc : PortPc} (hpc : s.port d = pc) (hawake : pc ≠ .asleep) : s'.port d = pc := by
  rcases ht.port_of_ne hl with hsame | ⟨hasleep, -⟩
  · exact hsame.trans hpc
  · exact absurd (hpc.symm.trans hasleep) hawake

/-- A core that has posted to `c` raises the flag or finds it raised. -/
theorem PortState.step_casPoke (hs : s.step cfg l = .ok s') (h : s.port d = .casPoke c) :
    s'.port d = .casPoke c ∨ s'.poke c = true := by
  rcases l.core_cases d with ⟨act, rfl⟩ | hl
  · obtain ⟨b, rfl, hstep⟩ := PortState.step_port hs (by simp [h])
    rw [h] at hstep
    cases hstep
    refine .inr ?_
    split
    · next hset => exact hset
    · exact Function.update_self ..
  · exact .inl ((PortTrans.of_step hs).port_stays hl h (by simp))

/-- A core that is about to set the pending bit of `c` does so. -/
theorem PortState.step_store {sender : Sender} (hs : s.step cfg l = .ok s')
    (h : s.port d = .poke c .store sender) :
    s'.port d = .poke c .store sender ∨ s'.pending c = true := by
  rcases l.core_cases d with ⟨act, rfl⟩ | hl
  · obtain ⟨b, rfl, hstep⟩ := PortState.step_port hs (by simp [h])
    rw [h] at hstep
    cases hstep
    exact .inr (Function.update_self ..)
  · exact .inl ((PortTrans.of_step hs).port_stays hl h (by simp))

theorem PortState.step_lock {sender : Sender} (hs : s.step cfg l = .ok s')
    (h : s.port d = .poke c .lock sender) :
    s'.port d = .poke c .lock sender ∨ s'.port d = .poke c .signal sender := by
  rcases l.core_cases d with ⟨act, rfl⟩ | hl
  · obtain ⟨b, rfl, hstep⟩ := PortState.step_port hs (by simp [h])
    rw [h] at hstep
    simp only [PortState.portStep, PortState.pokeStep] at hstep
    split at hstep
    · cases hstep
    · cases hstep
      exact .inr (Function.update_self ..)
  · exact .inl ((PortTrans.of_step hs).port_stays hl h (by simp))

/-- The signal to core `c` wakes it, and is not sent while the core goes to sleep. -/
theorem PortState.step_signal {sender : Sender} (hs : s.step cfg l = .ok s')
    (hM : MutexOk s.port s.mutex) (h : s.port d = .poke c .signal sender) :
    s'.port d = .poke c .signal sender ∨ s'.port c ≠ .wait ∧ s'.port c ≠ .asleep := by
  rcases l.core_cases d with ⟨act, rfl⟩ | hl
  · refine .inr ?_
    obtain ⟨b, rfl, hstep⟩ := PortState.step_port hs (by simp [h])
    rw [h] at hstep
    cases hstep
    by_cases hd : c = d
    · subst hd
      simp [PortState.goto]
    · have hport : ((s.wake c).goto d (.poke c .unlock sender)).port c = (s.wake c).port c :=
        Function.update_of_ne hd ..
      rw [hport]
      by_cases hasleep : s.port c = .asleep
      · simp [PortState.wake, hasleep, PortState.goto]
      · rw [PortState.wake, if_neg hasleep]
        -- a core that goes to sleep holds its mutex, which the signalling core holds
        refine ⟨fun hwait => hd ?_, hasleep⟩
        have hheld : (s.port d).holds d c = true := by
          rw [h]
          exact decide_eq_true rfl
        exact (hM d c hheld).2 c (by rw [hwait]; exact decide_eq_true rfl)
  · exact .inl ((PortTrans.of_step hs).port_stays hl h (by simp))

/-- The flag of core `c` after a step. -/
theorem PortTrans.poke (ht : PortTrans cfg s l s') (hset : s'.poke c = true) :
    s.poke c = true ∨ ∃ d, s'.port d = .poke c .store .post := by
  cases ht with
  | @kernel e act m' hpc hstep =>
    refine .inl ?_
    dsimp only at hset
    split at hset
    · by_cases he : c = e
      · rw [he, Function.update_self] at hset
        cases hset
      · rwa [Function.update_of_ne he] at hset
    · exact hset
  | @raise e d b hpc =>
    by_cases hd : c = d
    · exact .inr ⟨e, by simp [PortState.goto, hd]⟩
    · have hsame : Function.update s.poke d true c = s.poke c := Function.update_of_ne hd ..
      exact .inl (hsame.symm.trans hset)
  | @signal e d b sender hpc => exact .inl ((s.wake_frame d).2.1 ▸ hset)
  | _ => exact .inl hset

/-- The flag of core `c` stays up until the core goes on to drain its inbox. -/
theorem PortTrans.poke_stays (ht : PortTrans cfg s l s') (hset : s.poke c = true) :
    s'.poke c = true ∨ s.machine.core c = .reschedule ∧ s.machine.step cfg l = .ok s'.machine ∧
      ∃ act, l = .core c act := by
  cases ht with
  | @kernel e act m' hpc hstep =>
    by_cases hcore : s.machine.core e = .reschedule
    · by_cases he : c = e
      · subst he
        exact .inr ⟨hcore, hstep, act, rfl⟩
      · refine .inl ?_
        rw [if_pos hcore]
        exact (Function.update_of_ne he ..).trans hset
    · rw [if_neg hcore]
      exact .inl hset
  | @raise e d b hpc =>
    refine .inl ?_
    by_cases hd : c = d
    · rw [hd]
      exact Function.update_self ..
    · exact (Function.update_of_ne hd ..).trans hset
  | @signal e d b sender hpc => exact .inl ((s.wake_frame d).2.1 ▸ hset)
  | _ => exact .inl hset

/-- The pending bit of core `c` stays set until the core takes it. -/
theorem PortTrans.pending_stays (ht : PortTrans cfg s l s') (hset : s.pending c = true) :
    s'.pending c = true ∨ s'.port c = .unlock ∨ s'.port c = .pend := by
  cases ht with
  | @consume e b pc hpc hpending =>
    by_cases he : c = e
    · refine .inr ?_
      rcases hpc with ⟨-, -, rfl⟩ | ⟨-, rfl⟩ <;> simp [PortState.goto, he]
    · exact .inl ((Function.update_of_ne he ..).trans hset)
  | @store e d b sender hpc =>
    refine .inl ?_
    by_cases hd : c = d
    · rw [hd]
      exact Function.update_self ..
    · exact (Function.update_of_ne hd ..).trans hset
  | @signal e d b sender hpc => exact .inl ((s.wake_frame d).2.2.1 ▸ hset)
  | _ => exact .inl hset

/-- The pending bit of core `c` after a step. -/
theorem PortTrans.pending (ht : PortTrans cfg s l s') (hset : s'.pending c = true) :
    s.pending c = true ∨ ∃ d sender, s'.port d = .poke c .lock sender := by
  cases ht with
  | @consume e b pc hpc hpending =>
    by_cases he : c = e
    · have hclear : Function.update s.pending e false c = false := by
        rw [he, Function.update_self]
      cases hclear.symm.trans hset
    · have hsame : Function.update s.pending e false c = s.pending c := Function.update_of_ne he ..
      exact .inl (hsame.symm.trans hset)
  | @store e d b sender hpc =>
    by_cases hd : c = d
    · exact .inr ⟨e, sender, by simp [PortState.goto, hd]⟩
    · have hsame : Function.update s.pending d true c = s.pending c := Function.update_of_ne hd ..
      exact .inl (hsame.symm.trans hset)
  | @signal e d b sender hpc => exact .inl ((s.wake_frame d).2.2.1 ▸ hset)
  | _ => exact .inl hset

/-- `pop` fails on an inbox that is not empty only while whoever has claimed the oldest slot
has not published it. -/
def PortState.PopsPublished (cfg : Config) (s : PortState) (l : Label) : Prop :=
  ∀ c < cfg.cores, l = .core c (.next true) → s.machine.core c = .drain →
    s.machine.kernel.inbox c ≠ [] → ∃ d < cfg.cores, s.port d = .casPoke c

instance : Decidable (s.PopsPublished cfg l) :=
  inferInstanceAs (Decidable (∀ c < cfg.cores, _))

theorem PortState.core_lt {act : Act} (hs : s.step cfg (.core c act) = .ok s') : c < cfg.cores := by
  unfold PortState.step at hs
  dsimp only at hs
  split at hs
  · next hrun => exact hrun.2
  · cases hs

/-- What a step of the machine does to the port. -/
theorem PortTrans.machine_step (ht : PortTrans cfg s l s') : s'.machine = s.machine ∨
    s.machine.step cfg l = .ok s'.machine ∧ ∀ c act, l = .core c act →
      s'.port c = PortState.afterKernel s.machine s'.machine c ∧
        (s.machine.core c = .reschedule → s'.poke c = false) := by
  cases ht with
  | main hl hstep => exact .inr ⟨hstep, fun c act heq => absurd heq (hl c act)⟩
  | @kernel c act m' hpc hstep =>
    refine .inr ⟨hstep, fun e act' heq => ?_⟩
    cases heq
    exact ⟨Function.update_self .., fun hcore => by simp [hcore]⟩
  | @signal c d b sender hpc => exact .inl (s.wake_frame d).1
  | _ => exact .inl rfl

/-- A core whose pending bit is set does not go to sleep. -/
theorem PortTrans.awake (ht : PortTrans cfg s l s') (hset : s.pending c = true)
    (hsleep : s'.port c = .wait ∨ s'.port c = .asleep) : s.port c = .wait ∨ s.port c = .asleep := by
  rcases l.core_cases c with ⟨act, rfl⟩ | hl
  · by_contra hawake
    rw [not_or] at hawake
    rcases ht.own_pending hset with hpast | ⟨-, hstays⟩
    · rcases hpast with hpc | hpc | hpc | ⟨hpc, -⟩ <;> rcases hsleep with hpc' | hpc' <;>
        · rw [hpc'] at hpc
          cases hpc
    · obtain ⟨hnasleep, hnwait⟩ := hstays hawake.symm
      exact hsleep.elim hnwait hnasleep
  · rcases ht.port_of_ne hl with hsame | ⟨-, hwoken⟩
    · rwa [hsame] at hsleep
    · rw [hwoken] at hsleep
      rcases hsleep with hsleep | hsleep <;> cases hsleep

variable (hinv : PortInv cfg s) (hs : s.step cfg l = .ok s') (hvalid : l.Valid cfg)
include hinv hs hvalid

/-- A core that is going to drain its inbox does so. -/
theorem Attends.step (h : Attends s c) : Attends s' c ∨ s'.poke c = false := by
  have ht := PortTrans.of_step hs
  rcases l.core_cases c with ⟨act, rfl⟩ | hl
  · rcases h with hunlock | hpend | hcore
    · obtain ⟨b, rfl, hstep⟩ := PortState.step_port hs (by simp [hunlock])
      rw [hunlock] at hstep
      cases hstep
      exact .inl (.inr (.inl (Function.update_self ..)))
    · obtain ⟨b, rfl, hstep⟩ := PortState.step_port hs (by simp [hpend])
      rw [hpend] at hstep
      obtain ⟨m', hm, rfl⟩ := PortState.kernelStep_ok hstep
      have hidle := hinv.idle c (by rw [hpend]; rfl)
      exact .inl (.inr (.inr (.inl (Machine.step_idling hidle hm).1)))
    · rcases ht.machine_step with hsame | ⟨hstep, hkernel⟩
      · rw [Attends, hsame]
        exact .inl (.inr (.inr hcore))
      · obtain ⟨⟨a, hsim⟩, -⟩ := hinv.machine
        obtain ⟨a', ht'⟩ := hsim.trans hvalid hstep
        obtain ⟨hpump, -, hhalted⟩ := ht'.scheduler
        rcases hcore with hcore | hcore | hcore
        · exact .inl (.inr (.inr (.inr (hpump hcore))))
        · exact .inr ((hkernel c act rfl).2 hcore)
        · exact absurd hcore hhalted
  · have hseen := ht.seen hinv.machine hvalid hl
    refine .inl ?_
    rcases h with hunlock | hpend | hcore
    · exact .inl (ht.port_stays hl hunlock (by simp))
    · exact .inr (.inl (ht.port_stays hl hpend (by simp)))
    · rw [← hseen.core] at hcore
      exact .inr (.inr hcore)

/-- A core that drains its inbox leaves no request behind that nobody announces. -/
theorem PortState.PopsPublished.drains (hpub : s.PopsPublished cfg l)
    (hcore : s.machine.core c = .drain) (hin : s'.machine.kernel.inbox c ≠ []) :
    s'.machine.core c = .drain ∨ s'.poke c = true ∨ ∃ d, s'.port d = .casPoke c := by
  have ht := PortTrans.of_step hs
  rcases l.core_cases c with ⟨act, rfl⟩ | hl
  · rcases ht.machine_step with hsame | ⟨hstep, -⟩
    · rw [hsame]
      exact .inl hcore
    · rcases Machine.step_drain hcore hstep with hdrain | ⟨hsame, rfl | hempty⟩
      · exact .inl hdrain
      · rw [hsame] at hin
        obtain ⟨d, -, hcas⟩ := hpub c (PortState.core_lt hs) rfl hcore hin
        exact .inr ((PortState.step_casPoke hs hcas).symm.imp id fun hcas' => ⟨d, hcas'⟩)
      · exact absurd (hsame.trans hempty) hin
  · have hseen := ht.seen hinv.machine hvalid hl
    exact .inl (hseen.core.trans hcore)

/-- A request in an inbox was there before the step, or has just been posted. -/
theorem PortInv.inbox (hcore : s.machine.core c ≠ .drain) (hin : s'.machine.kernel.inbox c ≠ []) :
    s.machine.kernel.inbox c ≠ [] ∨ ∃ d, s'.port d = .casPoke c := by
  rcases (PortTrans.of_step hs).machine_step with hsame | ⟨hstep, hkernel⟩
  · rw [hsame] at hin
    exact .inl hin
  · obtain ⟨⟨a, hsim⟩, -⟩ := hinv.machine
    obtain ⟨a', ht'⟩ := hsim.trans hvalid hstep
    cases ht'.inbox c with
    | keep hsame =>
      rw [hsame] at hin
      exact .inl hin
    | @post d b x hl hpost =>
      have hport := (hkernel d (.next b) hl).1
      rw [PortState.afterKernel, hpost] at hport
      exact .inr ⟨d, hport⟩
    | drain hdrain => exact absurd hdrain hcore

/-- **Step lemma.** -/
theorem Announced.step (h : Announced s c) (hpub : s.PopsPublished cfg l) : Announced s' c := by
  have ht := PortTrans.of_step hs
  refine ⟨fun hin => ?_, fun hset => ?_, fun hset hsleep => ?_⟩
  · by_cases hcore : s.machine.core c = .drain
    · exact hpub.drains hinv hs hvalid hcore hin
    · rcases hinv.inbox hs hvalid hcore hin with hin | hcas
      · rcases h.posted hin with hdrain | hset | ⟨d, hcas⟩
        · exact absurd hdrain hcore
        · rcases ht.poke_stays hset with hset' | ⟨hresched, hstep, act, rfl⟩
          · exact .inr (.inl hset')
          · obtain ⟨⟨a, hsim⟩, -⟩ := hinv.machine
            obtain ⟨a', ht'⟩ := hsim.trans hvalid hstep
            exact .inl (ht'.scheduler.2.1 hresched)
        · exact .inr ((PortState.step_casPoke hs hcas).symm.imp id fun hcas' => ⟨d, hcas'⟩)
      · exact .inr (.inr hcas)
  · rcases ht.poke hset with hset₀ | hstore
    · rcases h.raised hset₀ with hpending | ⟨d, hstore⟩ | hattends
      · rcases ht.pending_stays hpending with hpending' | hpc | hpc
        · exact .inl hpending'
        · exact .inr (.inr (.inl hpc))
        · exact .inr (.inr (.inr (.inl hpc)))
      · rcases PortState.step_store hs hstore with hstore' | hpending'
        · exact .inr (.inl ⟨d, hstore'⟩)
        · exact .inl hpending'
      · rcases hattends.step hinv hs hvalid with hattends' | hclear
        · exact .inr (.inr hattends')
        · cases hclear.symm.trans hset
    · exact .inr (.inl hstore)
  · rcases ht.pending hset with hset₀ | ⟨d, sender, hlock⟩
    · obtain ⟨d, sender, hlock | hsignal⟩ := h.stored hset₀ (ht.awake hset₀ hsleep)
      · exact ⟨d, sender, PortState.step_lock hs hlock⟩
      · rcases PortState.step_signal hs hinv.mutex hsignal with hsignal' | ⟨hnwait, hnasleep⟩
        · exact ⟨d, sender, .inr hsignal'⟩
        · exact absurd hsleep (not_or.mpr ⟨hnwait, hnasleep⟩)
    · exact ⟨d, sender, .inl hlock⟩

end Step

/-! ## Whole runs -/

/-- What a run respects: threads are constructed with priorities the ready matrix has, the
counter of contexts does not wrap, and `pop` finds what has been published. -/
def PortState.Admits (cfg : Config) (s : PortState) (l : Label) : Prop :=
  l.Valid cfg ∧ ContextsFit s.machine l ∧ s.PopsPublished cfg l

instance {l : Label} : Decidable (s.Admits cfg l) := inferInstanceAs (Decidable (_ ∧ _))

/-- What holds in every state of such a run. -/
structure SleepInv (cfg : Config) (s : PortState) : Prop where
  port : PortInv cfg s
  idle : ∃ a, Sim cfg s.machine a ∧ IdleEmpty s.machine a
  waits : CoresWait s.machine
  /-- Only the cores that there are move. -/
  cores : ∀ d, cfg.cores ≤ d → s.port d = .kernel
  announced : ∀ c, Announced s c

theorem SleepInv.initial (cfg : Config) : SleepInv cfg (PortState.initial cfg) where
  port := PortInv.initial cfg
  idle := ⟨_, Sim.initial cfg, fun c hcore => by cases hcore⟩
  waits := fun _ _ => rfl
  cores := fun _ _ => rfl
  announced := fun c => ⟨fun hin => absurd rfl hin, by simp [PortState.initial],
    by simp [PortState.initial]⟩

/-- **Step lemma.** -/
theorem SleepInv.step {l : Label} (h : SleepInv cfg s) (hadm : s.Admits cfg l)
    (hs : s.step cfg l = .ok s') : SleepInv cfg s' := by
  obtain ⟨hvalid, hfit, hpub⟩ := hadm
  have ht := PortTrans.of_step hs
  have hmachine : (∃ a, Sim cfg s'.machine a ∧ IdleEmpty s'.machine a) ∧ CoresWait s'.machine := by
    rcases ht.machine with hsame | hstep
    · rw [hsame]
      exact ⟨h.idle, h.waits⟩
    · obtain ⟨a, hsim, hidle⟩ := h.idle
      obtain ⟨a', ht'⟩ := hsim.trans hvalid hstep
      exact ⟨⟨a', ht'.sim hsim, ht'.idleEmpty hsim h.waits hidle⟩, ht'.coresWait h.waits⟩
  refine ⟨h.port.step ht hvalid hfit, hmachine.1, hmachine.2, fun d hd => ?_,
    fun c => (h.announced c).step h.port hs hvalid hpub⟩
  rcases l.core_cases d with ⟨act, rfl⟩ | hl
  · exact absurd (PortState.core_lt hs) (Nat.not_lt.mpr hd)
  · exact ht.port_stays hl (h.cores d hd) (by simp)

/-- **Run lemma.** -/
theorem SleepInv.reach (h : (portSystem cfg).ReachVia (PortState.Admits cfg) s) :
    SleepInv cfg s := by
  refine h.invariant (fun s hs => ?_) fun s l s' _ hinv hadm hstep => hinv.step hadm hstep
  cases hs
  exact SleepInv.initial cfg

/-- Core `d` is about to wake core `c`. -/
def PortState.Rouses (s : PortState) (d c : Nat) : Prop :=
  s.port d = .casPoke c ∧ s.poke c = false ∨ ∃ pc sender, s.port d = .poke c pc sender ∧ pc ≠ .unlock

/-- Core `c` has nothing to run. -/
structure PortState.Workless (s : PortState) (c : Nat) : Prop where
  /-- The idle thread is its current thread. -/
  current : s.machine.kernel.current c = some (.idle c)
  inbox : s.machine.kernel.inbox c = []
  ready : ∀ p, s.machine.kernel.readyQueue c p = []
  poke : s.poke c = false
  pending : s.pending c = false

/-- The current thread of a core in `cortos_port_idle`. -/
theorem PortInv.current_idle (h : PortInv cfg s) (hidle : (s.port c).inIdle = true) :
    s.machine.core c = .thread ∧ s.machine.kernel.current c = some (.idle c) := by
  obtain ⟨hcore, t, hcur, hpc⟩ := Machine.idling_iff.mp (h.idle c hidle)
  obtain ⟨⟨a, hsim⟩, -⟩ := h.machine
  refine ⟨hcore, hcur.trans (congrArg some ?_)⟩
  cases t with
  | idle d =>
    have hd := (hsim.current c _ hcur).1
    rw [(hsim.idle d).2.1] at hd
    rw [hd]
  | user n =>
    have huser := (hsim.thread (.user n)).idle_fiber.mp hpc
    cases huser

theorem SleepInv.rouses_or_workless (h : SleepInv cfg s) (hasleep : s.port c = .asleep) :
    (∃ d < cfg.cores, s.Rouses d c) ∨ s.Workless c := by
  have hidle : (s.port c).inIdle = true := by rw [hasleep]; rfl
  have hlt : ∀ {d}, s.port d ≠ .kernel → d < cfg.cores := fun {d} hd =>
    Nat.lt_of_not_le fun hge => hd (h.cores d hge)
  obtain ⟨hcore, hcur⟩ := h.port.current_idle hidle
  have hann := h.announced c
  by_cases hrouse : ∃ d < cfg.cores, s.Rouses d c
  · exact .inl hrouse
  have hnone : ∀ d, ¬ s.Rouses d c := fun d hd => hrouse ⟨d, hlt (by
    rcases hd with ⟨hd, -⟩ | ⟨pc, sender, hd, -⟩ <;> simp [hd]), hd⟩
  have hpending : s.pending c = false := by
    rw [Bool.eq_false_iff]
    intro hset
    obtain ⟨d, sender, hd | hd⟩ := hann.stored hset (.inr hasleep)
    · exact hnone d (.inr ⟨_, _, hd, by simp⟩)
    · exact hnone d (.inr ⟨_, _, hd, by simp⟩)
  have hpoke : s.poke c = false := by
    rw [Bool.eq_false_iff]
    intro hset
    rcases hann.raised hset with hset' | ⟨d, hd⟩ | hattends
    · rw [hpending] at hset'
      cases hset'
    · exact hnone d (.inr ⟨_, _, hd, by simp⟩)
    · exact h.port.idle.not_attends hidle (by simp [hasleep]) (by simp [hasleep]) hattends
  refine .inr ⟨hcur, ?_, fun p => ?_, hpoke, hpending⟩
  · by_contra hin
    rcases hann.posted hin with hdrain | hset | ⟨d, hd⟩
    · rw [hcore] at hdrain
      cases hdrain
    · rw [hpoke] at hset
      cases hset
    · exact hnone d (.inl ⟨hd, hpoke⟩)
  · obtain ⟨a, hsim, hempty⟩ := h.idle
    exact (hsim.readyQueue_eq c p).trans (hempty c hcore hcur p)

theorem portSystem_init_twoCores : (portSystem twoCores).init (PortState.initial twoCores) := rfl

/-- Thread `t` has terminated, or it is blocked in a wait that no signal has won. -/
def Kernel.Rests (k : Kernel) (t : ThreadRef) : Prop :=
  k.state t = .terminated ∨ k.state t = .blocked ∧ k.done t = false

theorem ThreadPc.claim_suspended {pc : ThreadPc} (h : pc.suspended = true) : pc.claim = none := by
  cases pc <;> first | rfl | cases h

/-- No thread is about to act on another one while all cores are in their idle threads. -/
theorem Sim.no_claim (h : Sim cfg m a)
    (hall : ∀ c < cfg.cores, m.core c = .thread ∧ m.kernel.current c = some (.idle c))
    (t u : ThreadRef) (κ : Claim) : (a.phase t).claim ≠ some (u, κ) := by
  intro hclaim
  have hpc := (h.claims t u κ).mpr hclaim
  have hborn : a.phase u ≠ .unborn := fun hu => by
    have hadm := (h.thread u).admits
    rw [hu] at hadm
    have hstart : m.fiber u = .user ∨ m.fiber u = .idle := by simpa [Phase.admits] using hadm
    rcases hstart with hu | hu <;> rw [hu] at hpc <;> cases hpc
  have hexec : m.Executing u := (h.thread u).executing.resolve_right fun hsusp => by
    rw [ThreadPc.claim_suspended hsusp] at hpc
    cases hpc
  have hidle : .idle (m.kernel.pinnedCore u) = u := by
    have hcur := (hall _ ((h.thread u).core_lt hborn)).2
    exact Option.some.inj (hcur.symm.trans hexec.2)
  rw [(h.thread u).idle_fiber.mpr (by rw [← hidle]; rfl)] at hpc
  cases hpc

/-- **When all cores are asleep, all threads wait.** -/
theorem all_asleep_all_wait (h : (portSystem cfg).ReachVia (PortState.Admits cfg) s)
    (hall : ∀ c < cfg.cores, s.port c = .asleep) (n : Nat)
    (hn : n < s.machine.kernel.threads) : s.machine.kernel.Rests (.user n) := by
  have hinv := SleepInv.reach h
  have hwork : ∀ c < cfg.cores, s.Workless c := fun c hc =>
    (hinv.rouses_or_workless (hall c hc)).resolve_left <| by
      rintro ⟨d, hd, ⟨hpc, -⟩ | ⟨pc, sender, hpc, -⟩⟩ <;>
        · rw [hall d hd] at hpc
          cases hpc
  obtain ⟨a, hsim, -⟩ := hinv.idle
  have hidle := fun c hc => hinv.port.current_idle (c := c) (by rw [hall c hc]; rfl)
  have hborn : a.phase (.user n) ≠ .unborn := fun hu => Nat.not_le.mpr hn ((hsim.born n).mp hu)
  have hthread := hsim.thread (.user n)
  have hpin := hwork _ (hthread.core_lt hborn)
  have hclaim := hsim.no_claim hidle (.user n)
  have hposted : (a.phase (.user n)).inInbox = true → s.machine.kernel.Rests (.user n) :=
    fun hbox => by
      have hmem := ((hsim.inbox _).2 (.user n)).mpr ⟨hbox, rfl⟩
      rw [show (s.machine.kernel.schedulers _).inbox = [] from hpin.inbox] at hmem
      cases hmem
  cases hphase : a.phase (.user n) with
  | unborn => exact absurd hphase hborn
  | pinned u => exact absurd (by rw [hphase]; rfl) (hclaim u .makeReady)
  | won u ws => exact absurd (by rw [hphase]; rfl) (hclaim u .tearDown)
  | torn u => exact absurd (by rw [hphase]; rfl) (hclaim u .wakeUp)
  | postedNew | posted => exact hposted (by rw [hphase]; rfl)
  | ready =>
    have hmem := (hsim.queued _ _ (.user n)).mpr ⟨hphase, rfl, rfl, rfl⟩
    rw [← hsim.readyQueue_eq, hpin.ready] at hmem
    cases hmem
  | running =>
    have hcur := (hthread.running hphase).symm.trans hpin.current
    cases hcur
  | waiting ws =>
    rw [hphase] at hthread
    exact .inr ⟨hthread.state, hthread.waiting_done rfl⟩
  | dead =>
    rw [hphase] at hthread
    exact .inl hthread.state

/-- The only thread blocks, and both cores fall asleep. -/
def bothAsleep : (portSystem twoCores).Run 18 :=
  .ofLabels (PortState.initial twoCores)
    ([.construct 5 1#32, .start] ++ steps 0 1 ++ [.core 0 (.waitForAny [0])] ++ steps 0 9 ++
      steps 1 5)
    .start (by exact portSystem_init_twoCores) (by decide +kernel)

theorem both_cores_asleep : (∀ c < 2, (bothAsleep.state 18).port c = .asleep) ∧
    (bothAsleep.state 18).machine.kernel.Rests (.user 0) :=
  ⟨by decide +kernel, all_asleep_all_wait
    (bothAsleep.reachVia (C := PortState.Admits twoCores) (by decide +kernel) 18 (by decide))
    (by decide +kernel) 0 (by decide +kernel)⟩

end Cortos
