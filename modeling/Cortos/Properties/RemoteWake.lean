import Cortos.Machine.Observation

/-!
# Blocking against a wake from another core

A thread that blocks stays current on its core until `reschedule` has switched
away from it. A signal from another core can win its group, tear its nodes down
and post it to the inbox of its core in that window. `reschedule` asserts at its
head that the outgoing thread is not Ready, but drains the inbox after that: if
the request of the outgoing thread is among those drained, the thread is Ready
and linked in the ready matrix when the switch over its state is reached, and
the switch has no branch for that.

- `drained_while_current_run`: a run of two cores that gets there;
- `outgoing_not_ready`: if no drain takes a request for the thread that is
  current on the core, the outgoing thread is Running, Blocked or Terminated.
-/

namespace Cortos

open Lib

variable {cfg : Config} {m m' : Machine} {a a' : Life} {c : Nat} {t x : ThreadRef}

/-- A step of `drain_inbox` does not take a request for the thread that is
current on its core. -/
def DrainsOthers (m : Machine) : Label → Prop :=
  Label.OnNext fun c stop => m.core c = .drain → stop = false →
    (m.kernel.schedulers c).inbox.head? ≠ m.kernel.current c

instance (m : Machine) : DecidablePred (DrainsOthers m) :=
  inferInstanceAs (DecidablePred (Label.OnNext _))

/-- Current threads are not ready. -/
def CurrentNotReady (m : Machine) (a : Life) : Prop :=
  ∀ c t, m.kernel.current c = some t → a.phase t ≠ .ready

/-- A step that readies only `x`, which is current on no core, keeps it. -/
theorem CurrentNotReady.ready (h : CurrentNotReady m a)
    (hcur : ∀ d, m'.kernel.current d = m.kernel.current d)
    (hx : ∀ d, m.kernel.current d ≠ some x)
    (hphase : ∀ u, u ≠ x → a'.phase u = a.phase u) : CurrentNotReady m' a' := by
  intro d u hu
  rw [hcur] at hu
  rw [hphase u fun he => hx d (he ▸ hu)]
  exact h d u hu

/-- A step after which `x` is in another phase than `ready` keeps it. -/
theorem CurrentNotReady.setPhase (h : CurrentNotReady m a)
    (hcur : ∀ d, m'.kernel.current d = m.kernel.current d) {φ : Phase} (hφ : φ ≠ .ready)
    (hphase : a'.phase = Function.update a.phase x φ) : CurrentNotReady m' a' := by
  intro d u hu
  rw [hcur] at hu
  rw [hphase]
  by_cases hux : u = x
  · rw [hux, Function.update_self]
    exact hφ
  · rw [Function.update_of_ne hux]
    exact h d u hu

/-- A core that selects a thread keeps it: the thread that may become ready is
the outgoing one, which is no longer current. -/
theorem CurrentNotReady.select (h : CurrentNotReady m a) (hsim : Sim cfg m a)
    {next : ThreadRef} (hsel : Selected m a c m' a' next)
    (hcur : ∀ d, d ≠ c → m'.kernel.current d = m.kernel.current d) : CurrentNotReady m' a' := by
  intro d u hu
  by_cases hnext : u = next
  · rw [hnext, hsel.running]
    exact nofun
  · by_cases hd : d = c
    · rw [hd, hsel.current] at hu
      exact absurd (Option.some.inj hu).symm hnext
    · rw [hcur d hd] at hu
      rw [hsel.phase u hnext fun hcu => hd ?_]
      · exact h d u hu
      · rw [← (hsim.current d u hu).1, (hsim.current c u hcu).1]

theorem Trans.currentNotReady {l : Label} (hsim : Sim cfg m a) (h : CurrentNotReady m a)
    (hl : DrainsOthers m l) (ht : Trans cfg m a l m' a') : CurrentNotReady m' a' := by
  have hcur := ht.current
  have hselect : ∀ c b, l = .core c (.next b) → (m.core c = .boot ∨ m.core c = .switch) →
      CurrentNotReady m' a' := by
    rintro c b rfl hcore
    obtain ⟨next, hsel⟩ := ht.selected hcore
    refine h.select hsim hsel fun d hd => (hcur d).resolve_right ?_
    rintro ⟨b, hb, -⟩
    cases hb
    exact hd rfl
  cases ht with
  | constructBoot hrun hd hprio =>
    refine h.ready (fun d => (hcur d).resolve_right nofun)
      (hsim.not_current_of_unborn ((hsim.born _).mpr (Nat.le_refl _))) fun u hu => ?_
    exact Function.update_of_ne hu _ _
  | start hrun hpos => exact h
  | thread hcore hct hs =>
    exact fun d u hu => h d u ((hs.frame.kernel.currentThread d).symm.trans hu)
  | construct hcore hct hpc hd hprio =>
    exact h.setPhase (fun d => (hcur d).resolve_right nofun) (by simp) rfl
  | block hcore hct hpc hpos hlen hnd hs => exact h.setPhase (fun d => rfl) (by simp) rfl
  | ret hcore hct hpc => exact h.setPhase (fun d => rfl) (by simp) rfl
  | terminate hcore hct hpc => exact h
  | win hcore hct hpc hx => exact h.setPhase (fun d => rfl) (by simp) rfl
  | tearDown hcore hct hpc hx hs => exact h.setPhase (fun d => rfl) (by simp) rfl
  | @ready c t x b κ pc m' hcore hct hafter hpin =>
    have hf : ReadyFrame cfg _ _ _ _ _ _ _ _ := hafter.frame
    obtain ⟨hxt, -, -⟩ := hsim.claimed hcore hct hf.claim hf.claim_ne
    refine h.ready (fun d => ?_) (hsim.not_current_of_pinned hct hxt hpin) fun u hu => ?_
    · rw [hf.kernel, Kernel.current_makeReady]
    · exact Function.update_of_ne hu _ _
  | @post c t x b κ pc m' hcore hct hafter hpin hroom =>
    have hf : ReadyFrame cfg _ _ _ _ _ _ _ _ := hafter.frame
    refine h.setPhase (fun d => ?_) ?_ rfl
    · rw [hf.kernel, Kernel.current_post]
    · cases a.phase x <;> simp [Phase.afterPost]
  | boot hrun hc hcore hpop hsel hs => exact hselect _ _ rfl (.inl hcore)
  | coreMove hmove => exact h
  | @drainOne c x rest hcore hin =>
    obtain ⟨-, hpin, -⟩ := hsim.inbox_head hin
    refine h.ready (x := x) (fun d => Kernel.current_drained _ _ _ _ _) (fun d hd => ?_)
      fun u hu => ?_
    · have hdc := (hsim.current d x hd).1
      rw [hpin] at hdc
      rw [← hdc] at hd
      exact hl hcore rfl (by rw [hin, hd]; rfl)
    · exact Function.update_of_ne hu _ _
  | switch hc hcore hct hnr hpop hsel hs => exact hselect _ _ rfl (.inr hcore)

/-- **The outgoing thread**: when no drain takes a request for the thread that
is current on its core, `reschedule` reaches its switch with a thread that is
Running, Blocked or Terminated and in no ready queue, and does not reach the
branch that must not be taken. -/
theorem outgoing_not_ready
    (hreach : (system cfg).ReachVia (fun m l => l.Valid cfg ∧ DrainsOthers m l) m)
    (hcore : m.core c = .switch) (hcur : m.kernel.current c = some t) :
    (m.kernel.state t = .running ∨ m.kernel.state t = .blocked ∨
      m.kernel.state t = .terminated) ∧ (∀ d p, t ∉ m.kernel.readyQueue d p) ∧
      ∀ b, m.step cfg (.core c (.next b)) ≠ .error (.panic .reschedUnreachable) := by
  obtain ⟨a, h, hI⟩ := reach_invariant (I := CurrentNotReady) (fun _ _ hc => hc.1)
    (fun _ _ hu => nomatch hu) (fun hs hI hc ht => ht.currentNotReady hs hI hc.2) hreach
  have hnr := hI c t hcur
  have hon := (h.current c t hcur).2
  have hstate : m.kernel.state t = .running ∨ m.kernel.state t = .blocked ∨
      m.kernel.state t = .terminated := by
    rw [(h.thread t).state]
    cases hp : a.phase t <;> simp_all [Phase.state, Phase.onCore]
  refine ⟨hstate, fun d p ht => ?_, fun b hstep => ?_⟩
  · rw [h.readyQueue_eq] at ht
    exact hnr ((h.queued d p t).mp ht).1
  · rw [Machine.step] at hstep
    split at hstep
    · next hcond =>
      obtain ⟨next, k, a', hsw, -⟩ := h.switchThread hcond.2 hcore hcur hnr
      simp only [Machine.coreStep, hcore, hsw] at hstep
      cases hstep
    · cases hstep

/-- Two threads on two cores. The first blocks on an object and is switched out;
the second signals it, and the first core, now idle, reschedules. -/
theorem outgoing_not_ready_idle :
    ∃ m : Machine, m.core 0 = .switch ∧ m.kernel.current 0 = some (.idle 0) ∧
      (m.kernel.state (.idle 0) = .running ∨ m.kernel.state (.idle 0) = .blocked ∨
        m.kernel.state (.idle 0) = .terminated) := by
  have hrun : RunsTo twoCores (fun m l => l.Valid twoCores ∧ DrainsOthers m l)
      (fun m => m.core 0 = .switch ∧ m.kernel.current 0 = some (.idle 0))
      ([.construct 5 1#32, .construct 5 2#32, .start] ++ steps 0 1 ++ steps 1 1 ++
        [.core 0 (.waitForAny [0])] ++ steps 0 5 ++ [.core 1 (.signalOne 0 false)] ++ steps 1 5 ++
        steps 0 5) := by decide +kernel
  obtain ⟨m, hreach, hcore, hcur⟩ := hrun.reach
  exact ⟨m, hcore, hcur, (outgoing_not_ready hreach hcore hcur).1⟩

/-- Two threads on two cores. The first blocks on an object; before its core has
switched it out, the second signals the object and posts the first to its inbox.
The drain makes the outgoing thread Ready and links it, and the next step of
`reschedule` is the unreachable branch. -/
theorem drained_while_current_run :
    RunsTo twoCores (fun _ l => l.Valid twoCores)
      (fun m => m.core 0 = .switch ∧ m.kernel.current 0 = some (.user 0) ∧
        m.kernel.state (.user 0) = .ready ∧ .user 0 ∈ m.kernel.readyQueue 0 5 ∧
        m.panics twoCores (.core 0 (.next false)) = some .reschedUnreachable)
      ([.construct 5 1#32, .construct 5 2#32, .start] ++ steps 0 1 ++ steps 1 1 ++
        [.core 0 (.waitForAny [0]), .core 1 (.signalOne 0 false)] ++ steps 1 5 ++
        steps 0 5) := by decide +kernel

end Cortos
