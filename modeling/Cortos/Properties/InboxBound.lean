import Mathlib.Algebra.BigOperators.Group.Finset.Piecewise
import Mathlib.Data.Nat.Count
import Cortos.Machine.Observation

/-!
# Room in the inbox

A core that makes a thread of another core ready posts a request to that core's inbox
and asserts that the request was accepted. The inbox holds 64 requests, and nothing
bounds how many threads of one core a run makes ready before that core reschedules:
one thread that constructs 65 others for another core is enough.

- `inbox_overflow_run`: that run;
- `inbox_bound`: the assertion fails in exactly those steps that find the inbox full;
  and a thread that has been made ready for another core is once in the inbox or the
  ready matrix of that core until the core switches;
- `inbox_room`: since its inbox was last empty, up to 64 threads of a core can be made ready
  by other cores without failing the assertion.
-/

namespace Cortos

open Lib

variable {cfg : Config} {m m' : Machine} {a a' : Life} {c d : Nat} {t x y : ThreadRef}

/-- The thread that a thread at this point is about to make ready. -/
def ThreadPc.readies : ThreadPc → Option ThreadRef
  | register x | setReady _ x => some x
  | _ => none

/-- The step makes thread `x` ready on behalf of core `c`. -/
def Readies (m : Machine) (l : Label) (c : Nat) (x : ThreadRef) : Prop :=
  (∃ b, l = .core c (.next b)) ∧ m.core c = .thread ∧
    ∃ t, m.kernel.current c = some t ∧ (m.fiber t).readies = some x

/-- A step that makes a thread of another core ready finds room in the inbox of that
core. -/
def PostsWithRoom (m : Machine) : Label → Prop :=
  Label.OnNext fun c _ => m.core c = .thread → ∀ t ∈ m.kernel.current c,
    ∀ x ∈ (m.fiber t).readies, m.kernel.pinnedCore x ≠ c →
      (m.kernel.schedulers (m.kernel.pinnedCore x)).inbox.length < inboxCap

instance (m : Machine) : DecidablePred (PostsWithRoom m) :=
  inferInstanceAs (DecidablePred (Label.OnNext _))

/-- Core `d` replaces its current thread in this step. -/
def Switches (d : Nat) (m : Machine) (l : Label) : Prop :=
  m.core d = .switch ∧ ∃ b, l = .core d (.next b)

/-- How often `x` is in the inbox and the ready matrix of its core. -/
def Kernel.presence (cfg : Config) (k : Kernel) (x : ThreadRef) : Nat :=
  (k.schedulers (k.pinnedCore x)).inbox.count x +
    ∑ p ∈ Finset.range cfg.maxPriorities, (k.readyQueue (k.pinnedCore x) p).count x

/-! ## When the assertion fails -/

theorem ThreadPc.claim_of_readies {pc : ThreadPc} (h : pc.readies = some x) :
    ∃ κ, pc.claim = some (x, κ) ∧ κ ≠ .tearDown := by
  cases pc with
  | register y =>
    cases h
    exact ⟨.makeReady, rfl, nofun⟩
  | setReady s y =>
    cases h
    exact ⟨.wakeUp, rfl, nofun⟩
  | _ => cases h

/-- A post to a full inbox fails the assertion. -/
theorem Sim.post_fails (h : Sim cfg m a) (hwait : CoresWait m) {b : Bool}
    (hcore : m.core c = .thread) (hcur : m.kernel.current c = some t)
    (hx : (m.fiber t).readies = some x) (hpin : m.kernel.pinnedCore x ≠ c)
    (hfull : inboxCap ≤ (m.kernel.schedulers (m.kernel.pinnedCore x)).inbox.length) :
    m.step cfg (.core c (.next b)) = .error (.panic .setReadyNotPosted) := by
  obtain ⟨hrun, hc⟩ := h.isRunning_of_thread hwait hcore hcur
  obtain ⟨κ, hclaim, hκ⟩ := ThreadPc.claim_of_readies hx
  have hstate : m.kernel.state x ≠ .terminated := by
    obtain ⟨-, -, hphase⟩ := h.claimed hcore hcur hclaim hκ
    rw [(h.thread x).state]
    rcases hphase with ⟨hp, -⟩ | ⟨hp, -⟩ <;> rw [hp] <;> exact nofun
  have hready : m.kernel.setThreadReady cfg c x = .error .setReadyNotPosted := by
    rw [Kernel.setThreadReady_remote hrun hstate hpin]
    exact if_neg (Nat.not_lt.mpr hfull)
  rw [Machine.step, if_pos ⟨hrun, hc⟩]
  cases hpc : m.fiber t with
  | register y =>
    obtain rfl : y = x := by simpa [hpc, ThreadPc.readies] using hx
    simp only [Machine.coreStep, hcore, hcur, hpc, Machine.threadNext, Machine.register, hready]
    rfl
  | setReady s y =>
    obtain rfl : y = x := by simpa [hpc, ThreadPc.readies] using hx
    simp only [Machine.coreStep, hcore, hcur, hpc, Machine.threadNext, Machine.setReady, hready]
    rfl
  | _ =>
    rw [hpc] at hx
    cases hx

/-! ## Where the assertion is made

`set_thread_ready` of the kernel is the only function that makes it, and only in a
running kernel. -/

/-- The function does not fail the assertion that a request was posted. -/
def Posts {α : Type} (f : Except Panic α) : Prop := f ≠ .error .setReadyNotPosted

namespace Posts

variable {α β : Type}

theorem ok (b : α) : Posts (.ok b) := nofun

theorem error {p : Panic} (hp : decide (p = .setReadyNotPosted) = false) :
    Posts (.error p : Except Panic α) :=
  fun h => of_decide_eq_false hp (Except.error.inj h)

theorem assert (b : Bool) {p : Panic} (hp : decide (p = .setReadyNotPosted) = false) :
    Posts (cortosAssert b p) := by
  cases b
  · exact error hp
  · exact ok ()

theorem bind {f : Except Panic α} {g : α → Except Panic β} (hf : Posts f)
    (hg : ∀ b, Posts (g b)) : Posts (f >>= g) := by
  cases f with
  | error p => exact fun h => hf (congrArg Except.error (Except.error.inj h))
  | ok b => exact hg b

theorem ite {q : Prop} [Decidable q] {f g : Except Panic α} (hf : Posts f) (hg : Posts g) :
    Posts (if q then f else g) := by
  split
  · exact hf
  · exact hg

theorem foldlM {g : β → α → Except Panic β} (hg : ∀ b x, Posts (g b x)) (xs : List α) :
    ∀ b, Posts (xs.foldlM g b) := by
  induction xs with
  | nil => exact fun b => ok b
  | cons x xs ih =>
    intro b
    rw [List.foldlM_cons]
    exact (hg b x).bind ih

theorem check {f : Except Panic α} (hf : Posts f) :
    Cortos.check f ≠ .error (.panic .setReadyNotPosted) :=
  fun h => hf (check_panic.mp h)

end Posts

namespace Kernel

variable (k : Kernel)

theorem posts_groupLock (ws : List WaitableRef) : Posts (groupLock cfg ws) :=
  .bind (.assert _ rfl) fun _ => .bind (.assert _ rfl) fun _ => .ok _

theorem posts_enqueueNodes (t : ThreadRef) (ws : List WaitableRef) :
    ∀ (k : Kernel) (i : Nat), Posts (enqueueNodes t k i ws) := by
  induction ws with
  | nil => exact fun k i => .ok k
  | cons w ws ih =>
    intro k i
    have halloc : Posts (k.allocNode t w i) := by
      refine .bind (.bind (.assert _ rfl) fun _ => .ite (.ok _) ?_) fun node => ?_
      · exact .bind (.assert _ rfl) fun _ => .ok _
      · cases node <;> exact .ok _
    refine .bind halloc fun node => ?_
    cases node with
    | none => exact .error rfl
    | some node =>
      refine .bind (.bind (.assert _ rfl) fun _ => .bind (.assert _ rfl) fun _ => .ok _) ?_
      exact fun k' => ih k' (i + 1)

theorem posts_prepareBlock (t : ThreadRef) (ws : List WaitableRef) :
    Posts (k.prepareBlock cfg t ws) :=
  .bind (.assert _ rfl) fun _ => .bind (.assert _ rfl) fun _ => .bind (.assert _ rfl)
    fun _ => .bind (posts_enqueueNodes _ _ _ _) fun _ => .ok _

theorem posts_pickBestFrom (w : WaitableRef) (n : Nat) : ∀ (iter best : Option NodeRef) (p : Nat),
    Posts (k.pickBestFrom w n iter best p) := by
  induction n with
  | zero =>
    intro iter best p
    cases iter
    · exact .ok best
    · exact .error rfl
  | succ n ih =>
    intro iter best p
    cases iter with
    | none => exact .ok best
    | some iter =>
      rw [pickBestFrom]
      refine .bind (.assert _ rfl) fun _ => ?_
      cases (k.node iter).tcb with
      | none => exact .error rfl
      | some tcb =>
        exact .bind (.assert _ rfl) fun _ => .ite (ih _ _ _) (.ite (ih _ _ _) (ih _ _ _))

theorem posts_teardownWaitGroup (t g : ThreadRef) : Posts (k.teardownWaitGroup cfg t g) := by
  refine .bind (.foldlM (fun ws i => ?_) _ _) fun ws => .bind (posts_groupLock ws) fun _ =>
    .foldlM (fun k' i => ?_) _ _
  · rw [collectWaitable]
    refine .ite ?_ (.ok ws)
    split
    · exact .bind (.assert _ rfl) fun _ => .ok _
    · exact .ok ws
  · refine .ite (.bind ?_ fun _ => .ok _) (.ok k')
    exact .bind (.assert _ rfl) fun _ => .bind (.assert _ rfl) fun _ =>
      .bind (.assert _ rfl) fun _ => .ok _

theorem posts_construct (priority : UInt8) (affinity : BitVec 32) :
    Posts (k.construct cfg priority affinity) := by
  rw [construct, pinThreadToCore]
  split
  · exact .error rfl
  · exact .ok _

theorem posts_scheduler_setThreadReady (c : Nat) (t : ThreadRef) :
    Posts (Scheduler.setThreadReady cfg k c t) :=
  .bind (.assert _ rfl) fun _ => .ite (.ok _) <|
    .bind (.assert _ rfl) fun _ => .bind (.assert _ rfl) fun _ =>
      .bind (.bind (.assert _ rfl) fun _ => .bind (.assert _ rfl) fun _ => .ok _)
        fun _ => .ok _

theorem posts_popNext (c : Nat) : Posts (Scheduler.popNext k c) := by
  rw [Scheduler.popNext]
  split
  · exact .ok _
  · exact .ok _
  · exact .error rfl

/-- Before the cores run, threads are linked directly. -/
theorem posts_setThreadReady_boot (hrun : k.isRunning = false) (c : Nat) (t : ThreadRef) :
    Posts (k.setThreadReady cfg c t) := by
  rw [setThreadReady]
  refine .bind (.assert _ rfl) fun _ => ?_
  simp only [hrun, Bool.not_false, if_true]
  exact .bind (posts_scheduler_setThreadReady k _ t) fun _ => .ok _

end Kernel

namespace Machine

theorem posts_block (m : Machine) (t : ThreadRef) (ws : List WaitableRef)
    (p : Option Predicate) : Posts (m.block cfg t ws p) :=
  .bind (Kernel.posts_prepareBlock _ t ws) fun _ => .ok _

theorem posts_waitUntil (m : Machine) (t : ThreadRef) (ws : List WaitableRef) (p : Predicate)
    (b : Bool) : Posts (m.waitUntil cfg t ws p b) :=
  .bind (.assert _ rfl) fun _ => .bind (.assert _ rfl) fun _ => .ite (.ok _) (.ok _)

theorem posts_call (m : Machine) (c : Nat) (t : ThreadRef) (act : Act) :
    m.call cfg c t act ≠ .error (.panic .setReadyNotPosted) := by
  cases act with
  | construct priority affinity =>
    exact Posts.check (.bind (Kernel.posts_construct _ priority affinity) fun _ => .ok _)
  | waitForAny os =>
    exact Posts.check <| .bind (.assert _ rfl) fun _ => .bind (.assert _ rfl) fun _ =>
      .bind (Kernel.posts_groupLock _) fun _ => posts_block m t _ none
  | waitUntil os b => exact Posts.check (posts_waitUntil m t _ _ b)
  | join n =>
    rw [call]
    split
    · exact Posts.check (posts_waitUntil m t _ _ false)
    · intro h
      cases h
  | unlock l =>
    exact Posts.check (.bind (.bind (.assert _ rfl) fun _ => .ok _) fun _ => .ok _)
  | _ =>
    intro h
    cases h

/-- A thread fails the assertion only when it makes a thread ready. -/
theorem posts_threadNext (m : Machine) (c : Nat) (t : ThreadRef) (b : Bool)
    (hpc : (m.fiber t).readies = none) :
    m.threadNext cfg c t b ≠ .error (.panic .setReadyNotPosted) := by
  rw [threadNext]
  cases hf : m.fiber t with
  | register | setReady =>
    rw [hf] at hpc
    cases hpc
  | pick s =>
    refine Posts.check (.bind (Kernel.posts_pickBestFrom _ _ _ _ _ _) fun n => ?_)
    cases n <;> exact .ok _
  | wake s n wait =>
    refine Posts.check ?_
    rw [wake]
    split
    · exact .error rfl
    · exact .error rfl
    · exact .bind (.assert _ rfl) fun _ => .bind (.assert _ rfl) fun _ =>
        .bind (.assert _ rfl) fun _ => .ok _
  | teardown s tcb g =>
    exact Posts.check (.bind (Kernel.posts_teardownWaitGroup _ tcb g) fun _ => .ok _)
  | evaluate ws p =>
    exact Posts.check (.bind (Kernel.posts_groupLock ws) fun _ =>
      .ite (.ok _) (posts_block m t ws _))
  | terminate => exact Posts.check (.bind (.assert _ rfl) fun _ => .ok _)
  | unregister =>
    refine Posts.check (.ite (.ok _) ?_)
    exact .bind (.bind (.assert _ rfl) fun _ => .ok _) fun _ => .ok _
  | threadExit =>
    exact Posts.check (.bind (.bind (.assert _ rfl) fun _ => .ok _) fun _ => .ok _)
  | _ =>
    intro h
    cases h

/-- The steps of a scheduler fiber post nothing. -/
theorem posts_coreStep (m : Machine) (c : Nat) (act : Act) (hcore : m.core c ≠ .thread) :
    m.coreStep cfg c act ≠ .error (.panic .setReadyNotPosted) := by
  cases act with
  | next b =>
    cases hpc : m.core c with
    | thread => exact absurd hpc hcore
    | boot =>
      simp only [coreStep, hpc]
      exact Posts.check (.bind (.bind (.assert _ rfl) fun _ =>
        .bind (Kernel.posts_popNext _ c) fun _ => .bind (.assert _ rfl) fun _ => .ok _)
          fun _ => .ok _)
    | reschedule =>
      simp only [coreStep, hpc]
      refine Posts.check (.bind ?_ fun _ => .ok _)
      rw [Scheduler.rescheduleEntry]
      split
      · exact .error rfl
      · exact .bind (.assert _ rfl) fun _ => .assert _ rfl
    | drain =>
      simp only [coreStep, hpc]
      refine Posts.check (.ite (.ok _) (.bind ?_ fun k => ?_))
      · rw [Scheduler.drainOne]
        split
        · exact .ok _
        · exact .bind (Kernel.posts_scheduler_setThreadReady _ c _) fun _ => .ok _
      · cases k <;> exact .ok _
    | switch =>
      simp only [coreStep, hpc]
      refine Posts.check (.bind ?_ fun _ => .ok _)
      rw [Scheduler.switchThread]
      split
      · exact .error rfl
      · refine .bind ?_ fun _ => .bind (Kernel.posts_popNext _ c) fun _ => .ok _
        rw [Scheduler.rotate]
        split
        · exact Kernel.posts_scheduler_setThreadReady _ c _
        · exact .ok _
        · exact .ok _
        · exact .error rfl
    | pump | halted =>
      simp only [coreStep, hpc]
      intro h
      cases h
  | _ => cases hpc : m.core c <;> simp_all [coreStep]

end Machine

/-- Making a thread ready fails no assertion if there is room in its inbox. -/
theorem Sim.posts_readies (h : Sim cfg m a) (hwait : CoresWait m) (b : Bool)
    (hcore : m.core c = .thread) (hcur : m.kernel.current c = some t)
    (hx : (m.fiber t).readies = some x)
    (hroom : m.kernel.pinnedCore x ≠ c →
      (m.kernel.schedulers (m.kernel.pinnedCore x)).inbox.length < inboxCap) :
    m.threadNext cfg c t b ≠ .error (.panic .setReadyNotPosted) := by
  obtain ⟨hrun, -⟩ := h.isRunning_of_thread hwait hcore hcur
  obtain ⟨κ, hclaim, hκ⟩ := ThreadPc.claim_of_readies hx
  have hready : Posts (m.kernel.setThreadReady cfg c x) := by
    rcases h.setThreadReady hrun hcore hcur hclaim hκ with ⟨-, hset⟩ | ⟨hpin, hset⟩
    · rw [hset]
      exact .ok _
    · rw [hset, if_pos (hroom hpin)]
      exact .ok _
  rw [Machine.threadNext]
  cases hpc : m.fiber t with
  | register y | setReady s y =>
    obtain rfl : y = x := by simpa [hpc, ThreadPc.readies] using hx
    refine Posts.check (.bind hready fun r => ?_)
    obtain ⟨action, k⟩ := r
    cases action <;> exact .ok _
  | _ =>
    rw [hpc] at hx
    cases hx

/-- The assertion fails in exactly those steps that post to a full inbox. -/
theorem Sim.posts_iff (h : Sim cfg m a) (hwait : CoresWait m) (l : Label) :
    m.step cfg l ≠ .error (.panic .setReadyNotPosted) ↔ PostsWithRoom m l := by
  constructor
  · intro hstep
    cases l with
    | core c act =>
      cases act with
      | next b =>
        intro hcore t hcur x hx hpin
        by_contra hfull
        exact hstep (h.post_fails hwait hcore hcur hx hpin (Nat.not_lt.mp hfull))
      | _ => trivial
    | _ => trivial
  · intro hroom
    rw [Machine.step.eq_def]
    cases l with
    | construct priority affinity =>
      dsimp only
      split
      · intro hfault
        cases hfault
      · next hrun =>
        refine Posts.check ?_
        rw [Machine.constructBeforeStart]
        rcases m.kernel.construct_cases cfg priority affinity with hk | ⟨e, -, hk⟩
        · rw [hk]
          exact .error rfl
        · rw [hk, ok_bind]
          refine .bind (Kernel.posts_setThreadReady_boot _ ?_ 0 _) fun _ => .ok _
          show m.kernel.isRunning = false
          simpa using hrun
    | start =>
      dsimp only
      split
      · intro hfault
        cases hfault
      · exact Posts.check (.bind (.bind (.assert _ rfl) fun _ => .ok _) fun _ => .ok _)
    | core c act =>
      dsimp only
      split
      · by_cases hcore : m.core c = .thread
        · cases hcur : m.kernel.current c with
          | none =>
            rw [(h.boot c).mpr hcur] at hcore
            cases hcore
          | some t =>
            simp only [Machine.coreStep, hcore, hcur]
            split
            · exact m.posts_call c t _
            · next b hne =>
              cases hx : (m.fiber t).readies with
              | none => exact m.posts_threadNext c t b hx
              | some x =>
                exact h.posts_readies hwait b hcore hcur hx fun hpin =>
                  hroom hcore t hcur x hx hpin
            · intro hfault
              cases hfault
        · exact m.posts_coreStep c act hcore
      · intro hfault
        cases hfault

/-! ## Threads that have been made ready -/

/-- In the inbox of its core, or in its ready matrix. The matrix of a core that has
not started holds only threads that were there from the beginning. -/
def Parked (m : Machine) (a : Life) (x : ThreadRef) : Prop :=
  (a.phase x).inInbox = true ∨ a.phase x = .ready ∧ m.core (m.kernel.pinnedCore x) ≠ .boot

/-- A parked thread is once in the inbox or the ready matrix of its core. -/
theorem Sim.presence_eq_one (h : Sim cfg m a) (hidle : x.isIdle = false) (hp : Parked m a x) :
    m.kernel.presence cfg x = 1 := by
  obtain ⟨hnodup, hmem⟩ := h.inbox (m.kernel.pinnedCore x)
  have hqueue : ∀ p, (m.kernel.readyQueue (m.kernel.pinnedCore x) p).count x =
      if m.kernel.priority x = p ∧ a.phase x = .ready then 1 else 0 := by
    intro p
    rw [h.readyQueue_eq]
    have hiff := h.queued (m.kernel.pinnedCore x) p x
    split
    · next hand =>
      exact List.count_eq_one_of_mem (h.ready.links.nodup _)
        (hiff.mpr ⟨hand.2, hidle, rfl, hand.1⟩)
    · next hand =>
      refine List.count_eq_zero.mpr fun hin => hand ?_
      exact ⟨(hiff.mp hin).2.2.2, (hiff.mp hin).1⟩
  rw [Kernel.presence, Finset.sum_congr rfl fun p _ => hqueue p]
  rcases hp with hin | ⟨hready, -⟩
  · have hnot : a.phase x ≠ .ready := by
      intro hr
      rw [hr] at hin
      cases hin
    rw [List.count_eq_one_of_mem hnodup ((hmem x).mpr ⟨hin, rfl⟩)]
    simp [hnot]
  · have hout : x ∉ (m.kernel.schedulers (m.kernel.pinnedCore x)).inbox := by
      rw [hmem, hready]
      exact fun hin => nomatch hin.1
    rw [List.count_eq_zero.mpr hout]
    simp [hready, (h.thread x).priority_lt]

/-- A core that has started does not go back. -/
theorem Trans.not_boot {l : Label} (ht : Trans cfg m a l m' a') (h : Sim cfg m a)
    (hd : m.core d ≠ .boot) : m'.core d ≠ .boot := by
  rw [Ne, h.boot] at hd
  rw [Ne, (ht.sim h).boot]
  rcases ht.current d with hsame | ⟨b, rfl, hcore⟩
  · rwa [hsame]
  · obtain ⟨next, hsel⟩ := ht.selected hcore
    rw [hsel.current]
    exact nofun

/-- **Step lemma**: a parked thread stays parked until its core switches. -/
theorem Trans.parked {l : Label} (ht : Trans cfg m a l m' a') (h : Sim cfg m a)
    (hp : Parked m a x) (hl : ¬ Switches (m.kernel.pinnedCore x) m l) : Parked m' a' x := by
  have hborn : a.phase x ≠ .unborn := by
    intro hu
    rcases hp with hp | ⟨hp, -⟩
    · rw [hu] at hp
      cases hp
    · rw [hu] at hp
      cases hp
  have hpin : m'.kernel.pinnedCore x = m.kernel.pinnedCore x := by
    refine congrArg (fun f => f.2.2) (ht.fixed (u := x) ?_)
    rintro rfl
    exact hborn ((h.born _).mpr (Nat.le_refl _))
  have hboot := fun hd => ht.not_boot h (d := m.kernel.pinnedCore x) hd
  -- the phase of another thread changes
  have hkeep : a'.phase x = a.phase x → Parked m' a' x := by
    intro hφ
    rw [Parked, hφ, hpin]
    exact hp.imp_right fun ⟨hr, hb⟩ => ⟨hr, hboot hb⟩
  have hother : ∀ {y φ}, a'.phase = Function.update a.phase y φ →
      (a.phase y).inInbox = false → a.phase y ≠ .ready → Parked m' a' x := by
    intro y φ hφ hin hr
    refine hkeep ?_
    rw [hφ]
    refine Function.update_of_ne ?_ _ _
    rintro rfl
    rcases hp with hp | ⟨hp, -⟩
    · rw [hin] at hp
      cases hp
    · exact hr hp
  have hunborn : a.phase (.user m.kernel.threads) = .unborn := (h.born _).mpr (Nat.le_refl _)
  -- a thread that blocks or returns is running, and one that is readied is claimed
  have hrunning : ∀ {c t}, m.core c = .thread → m.kernel.current c = some t →
      (m.fiber t).exiting = false → (∀ ws p, m.fiber t ≠ .commence ws p) →
      a.phase t = .running := by
    intro c t hcore hcur hex hnc
    rcases h.acting_phase hcore hcur with ⟨hr, -⟩ | ⟨-, ws, p, hc⟩ | ⟨-, hx⟩
    · exact hr
    · exact absurd hc (hnc ws p)
    · rw [hex] at hx
      cases hx
  have hclaimed : ∀ {c t y κ φ}, m.core c = .thread → m.kernel.current c = some t →
      (m.fiber t).claim = some (y, κ) → κ ≠ .tearDown →
      a'.phase = Function.update a.phase y φ → Parked m' a' x := by
    intro c t y κ φ hcore hcur hclaim hκ hφ
    obtain ⟨-, -, hy⟩ := h.claimed hcore hcur hclaim hκ
    rcases hy with ⟨hy, -⟩ | ⟨hy, -⟩ <;>
      exact hother hφ (by rw [hy]; rfl) (by rw [hy]; exact nofun)
  cases ht with
  | constructBoot hrun hd hprio =>
    exact hother rfl (by rw [hunborn]; rfl) (by rw [hunborn]; exact nofun)
  | start hrun hpos => exact hkeep rfl
  | thread hcore hcur hs => exact hkeep rfl
  | construct hcore hcur hpc hd hprio =>
    exact hother rfl (by rw [hunborn]; rfl) (by rw [hunborn]; exact nofun)
  | block hcore hcur hpc hpos hlen hnd hsim =>
    have hr := hrunning hcore hcur (by rcases hpc with ⟨hpc, -⟩ | ⟨q, hpc, -⟩ <;> rw [hpc] <;> rfl)
      (by rcases hpc with ⟨hpc, -⟩ | ⟨q, hpc, -⟩ <;> rw [hpc] <;> exact nofun)
    exact hother rfl (by rw [hr]; rfl) (by rw [hr]; exact nofun)
  | ret hcore hcur hpc =>
    have hr := hrunning hcore hcur (by rw [hpc]; rfl) (by rw [hpc]; exact nofun)
    exact hother rfl (by rw [hr]; rfl) (by rw [hr]; exact nofun)
  | terminate hcore hcur hpc => exact hkeep rfl
  | win hcore hcur hpc hx => exact hother rfl (by rw [hx]; rfl) (by rw [hx]; exact nofun)
  | tearDown hcore hcur hpc hx hsim =>
    exact hother rfl (by rw [hx]; rfl) (by rw [hx]; exact nofun)
  | ready hcore hcur hafter | post hcore hcur hafter =>
    have hf : ReadyFrame cfg _ _ _ _ _ _ _ _ := hafter.frame
    exact hclaimed hcore hcur hf.claim hf.claim_ne rfl
  | @boot c b next k _ hrun hc hcore hpop hsel hsim =>
    -- the core that starts is not the core of a parked thread in a matrix
    refine hkeep ?_
    rw [hsel.phase]
    refine Function.update_of_ne ?_ _ _
    rintro rfl
    have hcur' := (Kernel.current_dispatch k c c x).trans (if_pos rfl)
    have hxc : m.kernel.pinnedCore x = c := hpin.symm.trans (hsim.current c x hcur').1
    rcases hp with hp | ⟨-, hb⟩
    · rcases h.selects_phase hsel with hφ | hφ | hφ <;> rw [hφ] at hp <;> cases hp
    · rw [hxc] at hb
      exact hb hcore
  | coreMove hmove => exact hkeep rfl
  | @drainOne c y rest hcore hin =>
    by_cases hy : x = y
    · subst hy
      have hxc := (((h.inbox c).2 x).mp (by rw [hin]; exact List.mem_cons_self)).2
      refine .inr ⟨Function.update_self .., ?_⟩
      rw [hpin, hxc]
      show m.core c ≠ .boot
      rw [hcore]
      exact nofun
    · exact hkeep (Function.update_of_ne hy _ _)
  | @switch c t next b k _ hc hcore hcur hnr hpop hsel hsim =>
    -- the switching core is not the core of `x`, so neither thread involved is `x`
    have hxc : m.kernel.pinnedCore x ≠ c := by
      rintro rfl
      exact hl ⟨hcore, b, rfl⟩
    refine hkeep ?_
    rw [hsel.phase, Function.update_of_ne, Life.rotated_phase]
    · rintro rfl
      exact hxc (h.current c x hcur).1
    · rintro rfl
      have hcur' := (Kernel.current_dispatch k c c x).trans (if_pos rfl)
      exact hxc (hpin.symm.trans (hsim.current c x hcur').1)

/-- The step that makes a thread of another core ready parks it. -/
theorem Trans.parks {l : Label} (ht : Trans cfg m a l m' a') (h : Sim cfg m a)
    (hx : Readies m l c x) (hpin : m.kernel.pinnedCore x ≠ c) :
    x.isIdle = false ∧ Parked m' a' x := by
  obtain ⟨⟨b, rfl⟩, hcore, t, hcur, hreadies⟩ := hx
  obtain ⟨κ, hclaim, hκ⟩ := ThreadPc.claim_of_readies hreadies
  obtain ⟨-, hidle, hphase⟩ := h.claimed hcore hcur hclaim hκ
  refine ⟨hidle, ?_⟩
  have hsame : ∀ {u}, m.kernel.current c = some u → u = t := fun hu =>
    Option.some.inj (hu.symm.trans hcur)
  -- the only step of a thread that claims a thread of another core is the post
  have hfiber : ∀ {u pc}, m.kernel.current c = some u → m.fiber u = pc → pc.claim = none →
      Parked m' a' x := by
    intro u pc hu hpc hnone
    rw [hsame hu] at hpc
    rw [hpc, hnone] at hclaim
    cases hclaim
  cases ht with
  | thread _ hcur' hs =>
    have hnone := hs.points.claim
    rw [hsame hcur', hclaim] at hnone
    cases hnone
  | block _ hcur' hpc hpos hlen hnd hsim =>
    rcases hpc with ⟨hpc, -⟩ | ⟨q, hpc, -⟩ <;> exact hfiber hcur' hpc rfl
  | terminate _ hcur' hpc => exact hfiber hcur' hpc rfl
  | win _ hcur' hpc hx => exact hfiber hcur' hpc rfl
  | tearDown _ hcur' hpc hx hsim =>
    rw [hsame hcur'] at hpc
    rw [hpc] at hclaim
    cases hclaim
    exact absurd rfl hκ
  | @ready _ u y _ _ _ _ _ hcur' hafter hpin' =>
    have hf : ReadyFrame cfg _ _ _ _ _ _ _ _ := hafter.frame
    have hy := hf.claim
    rw [hsame hcur', hclaim] at hy
    cases hy
    exact absurd hpin' hpin
  | @post _ u y _ _ _ _ _ hcur' hafter hpin' hroom =>
    have hf : ReadyFrame cfg _ _ _ _ _ _ _ _ := hafter.frame
    have hy := hf.claim
    rw [hsame hcur', hclaim] at hy
    cases hy
    refine .inl ?_
    rw [show (a.setPhase x (a.phase x).afterPost).phase x = (a.phase x).afterPost from
      Function.update_self ..]
    cases a.phase x <;> rfl
  | boot hrun hc hcore' hpop hsel hsim =>
    rw [hcore] at hcore'
    cases hcore'
  | coreMove hmove => exact absurd hcore hmove.core.2
  | drainOne hcore' | switch hc hcore' =>
    rw [hcore] at hcore'
    cases hcore'

/-! ## The theorem -/

/-- **Room in the inbox**: in every state of every run a step fails the assertion that
its request was posted if and only if it makes a thread of another core ready whose
inbox is full; and from the step that has made a thread of another core ready until
that core switches, the thread is exactly once in the inbox or the ready matrix of its
core. -/
theorem inbox_bound {N : Nat} (r : (system cfg).Run N) (hr : ∀ i < N, (r.label i).Valid cfg) :
    (∀ i ≤ N, ∀ l, (r.state i).step cfg l ≠ .error (.panic .setReadyNotPosted) ↔
      PostsWithRoom (r.state i) l) ∧
    ∀ k i c x, k < i → i ≤ N → Readies (r.state k) (r.label k) c x →
      (r.state k).kernel.pinnedCore x ≠ c →
      (∀ j, k < j → j < i →
        ¬ Switches ((r.state j).kernel.pinnedCore x) (r.state j) (r.label j)) →
      (r.state i).kernel.presence cfg x = 1 := by
  have hinv := run_invariant (C := fun _ l => l.Valid cfg) (fun _ _ hv => hv) r hr
    (I := fun _ m _ => CoresWait m) (fun _ _ => rfl) fun hi ha hI ht => ht.coresWait hI
  refine ⟨fun i hi l => ?_, fun k i c x hki => ?_⟩
  · obtain ⟨a, h, hwait⟩ := hinv i hi
    exact h.posts_iff hwait l
  · intro hi hx hpin hswitch
    have hparked : ∀ i, k + 1 ≤ i → i ≤ N →
        (∀ j, k < j → j < i →
          ¬ Switches ((r.state j).kernel.pinnedCore x) (r.state j) (r.label j)) →
        ∃ a, Sim cfg (r.state i) a ∧ x.isIdle = false ∧ Parked (r.state i) a x := by
      intro i hki
      induction i, hki using Nat.le_induction with
      | base =>
        intro hi _
        obtain ⟨a, h, -⟩ := hinv k (by omega)
        obtain ⟨a', ht⟩ := h.trans (hr k (by omega)) (r.next k (by omega))
        exact ⟨a', ht.sim h, ht.parks h hx hpin⟩
      | succ i hki ih =>
        intro hi hsw
        obtain ⟨a, h, hidle, hp⟩ := ih (by omega) fun j hj hji => hsw j hj (by omega)
        obtain ⟨a', ht⟩ := h.trans (hr i (by omega)) (r.next i (by omega))
        exact ⟨a', ht.sim h, hidle, ht.parked h hp (hsw i (by omega) (by omega))⟩
    obtain ⟨a, h, hidle, hp⟩ := hparked i hki hi hswitch
    exact h.presence_eq_one hidle hp

/-! ## Counting the posts

The condition in terms of what the other cores do: a core that has found its inbox empty
can be sent 64 requests before it drains the inbox again. -/

/-- The step makes a thread of core `d` ready on behalf of another core. -/
def Machine.postsTo (m : Machine) (d : Nat) : Label → Bool
  | .core c (.next _) => m.posting c = some d
  | _ => false

theorem Machine.posting_of_readies (hcore : m.core c = .thread) (hcur : m.kernel.current c = some t)
    (hx : (m.fiber t).readies = some x) (hpin : m.kernel.pinnedCore x ≠ c) :
    m.posting c = some (m.kernel.pinnedCore x) := by
  cases hpc : m.fiber t with
  | register y | setReady s y =>
    obtain rfl : y = x := by simpa [hpc, ThreadPc.readies] using hx
    simp only [Machine.posting, hcore, hcur, hpc, if_neg hpin]
  | _ =>
    rw [hpc] at hx
    cases hx

/-- **Step lemma**: an inbox grows by at most one request, and only in a step that posts
to it. -/
theorem Trans.inbox_length {l : Label} (ht : Trans cfg m a l m' a') (d : Nat) :
    (m'.kernel.inbox d).length ≤
      (m.kernel.inbox d).length + if m.postsTo d l = true then 1 else 0 := by
  cases ht.inbox d with
  | keep hsame =>
    rw [hsame]
    exact Nat.le_add_right _ _
  | post hl hpost hin =>
    have hto : m.postsTo d l = true := by
      rw [hl]
      exact decide_eq_true hpost
    rw [hin, List.length_append, if_pos hto]
    exact Nat.le_refl _
  | drain hcore hin =>
    rw [hin, List.length_cons]
    omega

/-- How many of the `n` steps from state `k` make a thread of core `d` ready on behalf of
another core. -/
def postCount {N : Nat} (r : (system cfg).Run N) (d k n : Nat) : Nat :=
  Nat.count (fun j => (r.state (k + j)).postsTo d (r.label (k + j)) = true) n

/-- **Run lemma**: an inbox that was empty holds at most what has been posted since. -/
theorem inbox_length_le {N : Nat} (r : (system cfg).Run N) (hr : ∀ i < N, (r.label i).Valid cfg)
    {k : Nat} (hempty : (r.state k).kernel.inbox d = []) {n : Nat} (hn : k + n ≤ N) :
    ((r.state (k + n)).kernel.inbox d).length ≤ postCount r d k n := by
  induction n with
  | zero =>
    rw [Nat.add_zero, hempty]
    exact Nat.zero_le _
  | succ n ih =>
    have hreach : Reachable cfg (r.state (k + n)) := r.reachVia hr (k + n) (by omega)
    obtain ⟨a, h⟩ := hreach.sim
    obtain ⟨a', ht⟩ := h.trans (hr (k + n) (by omega)) (r.next (k + n) (by omega))
    rw [postCount, Nat.count_succ]
    exact (ht.inbox_length d).trans (Nat.add_le_add_right (ih (by omega)) _)

/-- A core that has found its inbox empty can be sent 64 requests: the next one fails no
assertion as long as fewer have been posted since. -/
theorem inbox_room {N : Nat} (r : (system cfg).Run N) (hr : ∀ i < N, (r.label i).Valid cfg)
    {k n : Nat} (hn : k + n ≤ N) (hempty : (r.state k).kernel.inbox d = [])
    (hposts : postCount r d k n < inboxCap) {l : Label}
    (hl : (r.state (k + n)).postsTo d l = true) :
    (r.state (k + n)).step cfg l ≠ .error (.panic .setReadyNotPosted) := by
  have hinv := run_invariant (C := fun _ l => l.Valid cfg) (fun _ _ hv => hv) r hr
    (I := fun _ m _ => CoresWait m) (fun _ _ => rfl) fun hi ha hI ht => ht.coresWait hI
  obtain ⟨a, h, hwait⟩ := hinv (k + n) hn
  refine (h.posts_iff hwait l).mpr ?_
  cases l with
  | core c act =>
    cases act with
    | next b =>
      intro hcore t hcur x hx hpin
      have hd := (Machine.posting_of_readies hcore hcur hx hpin).symm.trans (of_decide_eq_true hl)
      rw [Option.some.inj hd]
      exact (inbox_length_le r hr hempty hn).trans_lt hposts
    | _ => trivial
  | _ => trivial

/-- Thread 0 of core 0 constructs a thread for core 1. -/
def remoteConstruct : (system twoCores).Run 6 :=
  .ofLabels (Machine.initial twoCores)
    ([.construct 5 1#32, .start] ++ steps 0 1 ++ steps 1 1 ++ [.core 0 (.construct 5 2#32)] ++
      steps 0 1)
    .start (by exact system_init twoCores) (by decide +kernel)

theorem inbox_bound_construct :
    Readies (remoteConstruct.state 5) (remoteConstruct.label 5) 0 (.user 1) ∧
      (remoteConstruct.state 5).step twoCores (.core 0 (.next false)) ≠
        .error (.panic .setReadyNotPosted) ∧
      (remoteConstruct.state 6).kernel.presence twoCores (.user 1) = 1 := by
  have hr : ∀ i < 6, (remoteConstruct.label i).Valid twoCores := by decide +kernel
  have hready : Readies (remoteConstruct.state 5) (remoteConstruct.label 5) 0 (.user 1) :=
    ⟨⟨false, rfl⟩, by decide +kernel, .user 0, by decide +kernel⟩
  have hroom : PostsWithRoom (remoteConstruct.state 5) (.core 0 (.next false)) := by
    decide +kernel
  obtain ⟨hposts, hpresent⟩ := inbox_bound remoteConstruct hr
  exact ⟨hready, (hposts 5 (by decide) _).mpr hroom,
    hpresent 5 6 0 (.user 1) (by decide) (by decide) hready (by decide +kernel)
      fun j hj hj' => False.elim (by omega)⟩

/-- Thread 0 of core 0 constructs 65 threads for core 1, which does not reschedule
meanwhile. -/
theorem inbox_overflow_run :
    RunsTo twoCores (fun _ l => l.Valid twoCores)
      (fun m => m.kernel.threads = 66 ∧ (m.kernel.schedulers 1).inbox.length = 64 ∧
        m.panics twoCores (.core 0 (.next false)) = some .setReadyNotPosted)
      ([.construct 5 1#32, .start] ++ steps 0 1 ++ steps 1 1 ++
        (List.replicate 64 [.core 0 (.construct 5 2#32), .core 0 (.next false)]).flatten ++
        [.core 0 (.construct 5 2#32)]) := by decide +kernel

end Cortos
