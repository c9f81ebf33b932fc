import JsWaku.Lib.Trace

/-!
# JsWaku.Relay.HeartbeatTimer

The timers of `RelayHeartbeat` (`waku_relay/relay_heartbeat.ts`): a first heartbeat after a timeout,
which then installs the interval for the others.

* `RelayHeartbeat.step` — `start` and `stop`, from outside or from a listener of the heartbeat, and
  timers that fire in any order.
* `Phase` — where a timer record stands between `start` and `stop`.
* `heartbeat_single_iff` — at most one timer is live, and none after `stop`, as long as a timeout
  whose callback ends finds the record it was set for, or none.
-/

namespace JsWaku
namespace Relay

open Trace

inductive TimerKind where
  | timeout
  | interval
  deriving DecidableEq, Repr

/-- What `setTimeout` and `setInterval` return. -/
structure TimerHandle where
  id : Nat
  kind : TimerKind
  deriving DecidableEq, Repr

/-- `_heartbeatTimer`; its `cancel` holds on to the timeout it was made with. -/
structure HeartbeatTimer where
  timeout : TimerHandle
  intervalId : Option TimerHandle
  deriving DecidableEq, Repr

/-- `live` are the timers that are still to fire, `running` is the timer whose callback runs. -/
structure RelayHeartbeat where
  heartbeatTimer : Option HeartbeatTimer
  live : List TimerHandle
  nextId : Nat
  running : Option TimerHandle
  deriving DecidableEq, Repr

namespace RelayHeartbeat

def new : RelayHeartbeat := ⟨none, [], 0, none⟩

/-- `clearTimeout` and `clearInterval`, which clear a timer of either kind and take `undefined`. -/
def clear (w : RelayHeartbeat) (handle : Option TimerHandle) : RelayHeartbeat :=
  { w with live := w.live.filter fun h => handle ≠ some h }

def start (w : RelayHeartbeat) : RelayHeartbeat :=
  match w.heartbeatTimer with
  | some _ => w
  | none =>
    let timeout := ⟨w.nextId, .timeout⟩
    { w with
      live := timeout :: w.live
      nextId := w.nextId + 1
      heartbeatTimer := some ⟨timeout, none⟩ }

def stop (w : RelayHeartbeat) : RelayHeartbeat :=
  match w.heartbeatTimer with
  | none => w
  | some timer =>
    { (w.clear (some timer.timeout)).clear timer.intervalId with heartbeatTimer := none }

/-- `this._heartbeatTimer?.runPeriodically(..)`: the interval goes to the record there is now. -/
def runPeriodically (w : RelayHeartbeat) : RelayHeartbeat :=
  match w.heartbeatTimer with
  | none => w
  | some timer =>
    let intervalId := ⟨w.nextId, .interval⟩
    { w with
      live := intervalId :: w.live
      nextId := w.nextId + 1
      heartbeatTimer := some { timer with intervalId := some intervalId } }

/-- A timeout is over when it fires, an interval stays. -/
def fire (w : RelayHeartbeat) (handle : TimerHandle) : RelayHeartbeat :=
  match handle.kind with
  | .timeout => { w.clear (some handle) with running := some handle }
  | .interval => { w with running := some handle }

/-- `_heartbeat` has returned; the timeout's callback goes on after it. -/
def finish (w : RelayHeartbeat) : RelayHeartbeat :=
  match w.running with
  | some ⟨_, .timeout⟩ => { w.runPeriodically with running := none }
  | _ => { w with running := none }

/-- `.start` and `.stop` while a callback runs are calls of a listener. -/
inductive Event where
  | start
  | stop
  | fire (handle : TimerHandle)
  | finish
  /-- `_heartbeat` throws. -/
  | throw
  deriving DecidableEq, Repr

/-- Nothing fires while a callback runs, or once it is cleared. -/
def step (w : RelayHeartbeat) : Event → RelayHeartbeat
  | .start => w.start
  | .stop => w.stop
  | .fire handle => if w.running = none ∧ handle ∈ w.live then w.fire handle else w
  | .finish => w.finish
  | .throw => { w with running := none }

end RelayHeartbeat

open RelayHeartbeat

/-- A `stop` that no `start` follows. -/
def Stopped (events : List Event) : Prop :=
  ∃ before since, events = before ++ .stop :: since ∧ Event.start ∉ since

structure SingleTimer (events : List Event) (w : RelayHeartbeat) : Prop where
  atMostOne : w.live.length ≤ 1
  stopped : Stopped events → w.live = []

/-- A timeout's callback that ends finds the record of that timeout, or no record. -/
def FindsOwnTimer (w : RelayHeartbeat) (e : Event) : Prop :=
  e = .finish → ∀ t, w.running = some t → t.kind = .timeout →
    ∀ timer, w.heartbeatTimer = some timer → timer.timeout = t

/-! ## The life of a timer record -/

inductive Phase (w : RelayHeartbeat) : Prop where
  | off : w.heartbeatTimer = none → w.live = [] → Phase w
  /-- The timeout is set; if a callback runs, it is of an earlier record. -/
  | waiting (t : TimerHandle) : w.heartbeatTimer = some ⟨t, none⟩ → w.live = [t] →
      t.kind = .timeout → w.running ≠ some t → Phase w
  /-- The first heartbeat runs, or has thrown. -/
  | first (t : TimerHandle) : w.heartbeatTimer = some ⟨t, none⟩ → w.live = [] →
      w.running = some t ∨ w.running = none → Phase w
  | periodic (t i : TimerHandle) : w.heartbeatTimer = some ⟨t, some i⟩ → w.live = [i] →
      i.kind = .interval → w.running = some i ∨ w.running = none → Phase w

/-- Handles given out so far are below `nextId`, so the next one is new. -/
structure Invariant (w : RelayHeartbeat) : Prop where
  phase : Phase w
  running : ∀ t, w.running = some t → t.id < w.nextId
  live : ∀ t ∈ w.live, t.id < w.nextId

section

variable {w : RelayHeartbeat}

theorem Phase.length_le_one (h : Phase w) : w.live.length ≤ 1 := by
  cases h with
  | off _ hlive | first _ _ hlive _ => rw [hlive]; exact Nat.zero_le 1
  | waiting _ _ hlive _ _ | periodic _ _ _ hlive _ _ => rw [hlive]; exact Nat.le_refl 1

theorem Phase.live_of_none (h : Phase w) (hnone : w.heartbeatTimer = none) : w.live = [] := by
  cases h with
  | off _ hlive | first _ _ hlive _ => exact hlive
  | waiting _ htimer _ _ _ | periodic _ _ htimer _ _ _ => rw [hnone] at htimer; cases htimer

theorem invariant_new : Invariant new where
  phase := .off rfl rfl
  running t h := by cases h
  live t h := by cases h

theorem start_invariant (h : Invariant w) : Invariant w.start := by
  unfold start
  split
  · exact h
  · rename_i hnone
    have hlive := h.phase.live_of_none hnone
    refine ⟨.waiting ⟨w.nextId, .timeout⟩ rfl (by rw [hlive]) rfl fun hrunning => ?_, ?_, ?_⟩
    · exact absurd (h.running _ hrunning) (Nat.lt_irrefl _)
    · intro t ht
      exact Nat.lt_succ_of_lt (h.running t ht)
    · intro t ht
      rw [hlive, List.mem_singleton] at ht
      rw [ht]
      exact Nat.lt_succ_self _

theorem stop_live (h : Phase w) : w.stop.live = [] := by
  unfold stop
  split
  · rename_i hnone
    exact h.live_of_none hnone
  · rename_i timer htimer
    cases h with
    | off hnone _ => rw [hnone] at htimer; cases htimer
    | first _ _ hlive _ => simp [clear, hlive]
    | waiting t ht hlive _ _ =>
      rw [ht] at htimer
      cases htimer
      simp [clear, hlive]
    | periodic t i ht hlive _ _ =>
      rw [ht] at htimer
      cases htimer
      simp [clear, hlive]

theorem stop_timer : w.stop.heartbeatTimer = none := by
  unfold stop
  split
  · assumption
  · rfl

theorem stop_running : w.stop.running = w.running ∧ w.stop.nextId = w.nextId := by
  unfold stop
  split
  · exact ⟨rfl, rfl⟩
  · exact ⟨rfl, rfl⟩

theorem stop_invariant (h : Invariant w) : Invariant w.stop where
  phase := .off stop_timer (stop_live h.phase)
  running t ht := by
    rw [stop_running.1] at ht
    rw [stop_running.2]
    exact h.running t ht
  live t ht := by
    rw [stop_live h.phase] at ht
    cases ht

theorem fire_invariant {handle : TimerHandle} (h : Invariant w) (hmem : handle ∈ w.live) :
    Invariant (w.fire handle) := by
  have hid := h.live handle hmem
  cases h.phase with
  | off _ hlive | first _ _ hlive _ => rw [hlive] at hmem; cases hmem
  | waiting t htimer hlive hkind _ =>
    rw [hlive, List.mem_singleton] at hmem
    subst hmem
    have hclear : (w.clear (some handle)).live = [] := by simp [clear, hlive]
    rw [fire, hkind]
    refine ⟨.first handle htimer hclear (.inl rfl), fun t ht => ?_, fun t ht => ?_⟩
    · cases ht
      exact hid
    · rw [hclear] at ht
      cases ht
  | periodic t i htimer hlive hkind _ =>
    rw [hlive, List.mem_singleton] at hmem
    subst hmem
    rw [fire, hkind]
    refine ⟨.periodic t handle htimer hlive hkind (.inl rfl), fun t ht => ?_, h.live⟩
    cases ht
    exact hid

/-- Whatever ran, nothing does now. -/
theorem idle_invariant (h : Invariant w) : Invariant { w with running := none } := by
  refine ⟨?_, fun t ht => (by cases ht), h.live⟩
  cases h.phase with
  | off htimer hlive => exact .off htimer hlive
  | waiting t htimer hlive hkind _ => exact .waiting t htimer hlive hkind fun ht => by cases ht
  | first t htimer hlive _ => exact .first t htimer hlive (.inr rfl)
  | periodic t i htimer hlive hkind _ => exact .periodic t i htimer hlive hkind (.inr rfl)

theorem finish_timeout {t : TimerHandle} (ht : w.running = some t) (hkind : t.kind = .timeout) :
    w.finish = { w.runPeriodically with running := none } := by
  obtain ⟨id, kind⟩ := t
  cases hkind
  rw [finish, ht]

theorem finish_other (h : ∀ t, w.running = some t → t.kind = .interval) :
    w.finish = { w with running := none } := by
  unfold finish
  split
  · rename_i id ht
    cases h _ ht
  · rfl

theorem runPeriodically_none (h : w.heartbeatTimer = none) : w.runPeriodically = w := by
  rw [runPeriodically, h]

theorem finish_invariant (h : Invariant w) (hown : FindsOwnTimer w .finish) :
    Invariant w.finish := by
  by_cases hinterval : ∀ t, w.running = some t → t.kind = .interval
  · rw [finish_other hinterval]
    exact idle_invariant h
  · push Not at hinterval
    obtain ⟨t, ht, hnot⟩ := hinterval
    have hkind : t.kind = .timeout := by
      cases hk : t.kind with
      | timeout => rfl
      | interval => exact absurd hk hnot
    rw [finish_timeout ht hkind]
    cases h.phase with
    | off htimer hlive =>
      rw [runPeriodically_none htimer]
      exact idle_invariant h
    | waiting t' htimer _ _ hrunning =>
      have heq : t' = t := hown rfl t ht hkind _ htimer
      rw [heq] at hrunning
      exact absurd ht hrunning
    | first t' htimer hlive _ =>
      -- the interval goes to the record whose timeout has just fired
      rw [runPeriodically, htimer, hlive]
      refine ⟨.periodic t' ⟨w.nextId, .interval⟩ rfl rfl rfl (.inr rfl), fun t ht => ?_, ?_⟩
      · cases ht
      · intro t ht
        rw [List.mem_singleton.mp ht]
        exact Nat.lt_succ_self _
    | periodic t' i _ _ hi hrunning =>
      rw [ht] at hrunning
      rcases hrunning with hrunning | hrunning
      · cases hrunning
        exact absurd hi hnot
      · cases hrunning

theorem step_invariant (e : Event) (h : Invariant w) (hown : FindsOwnTimer w e) :
    Invariant (w.step e) := by
  cases e with
  | start => exact start_invariant h
  | stop => exact stop_invariant h
  | fire handle =>
    rw [step]
    split
    · rename_i henabled
      exact fire_invariant h henabled.2
    · exact h
  | finish => exact finish_invariant h hown
  | throw => exact idle_invariant h

/-- An interval for another record comes on top of that record's timeout. -/
theorem step_not_single (e : Event) (h : Invariant w) (hother : ¬ FindsOwnTimer w e) :
    ¬ (w.step e).live.length ≤ 1 := by
  unfold FindsOwnTimer at hother
  push Not at hother
  obtain ⟨rfl, t, ht, hkind, timer, htimer, hne⟩ := hother
  have hlive : w.live = [timer.timeout] := by
    cases h.phase with
    | off hnone _ => rw [hnone] at htimer; cases htimer
    | waiting t' ht' hlive _ _ => rw [ht'] at htimer; cases htimer; exact hlive
    | first t' ht' _ hrunning =>
      rw [ht'] at htimer
      cases htimer
      rcases hrunning with hrunning | hrunning
      · rw [ht] at hrunning
        cases hrunning
        exact absurd rfl hne
      · rw [ht] at hrunning
        cases hrunning
    | periodic t' i _ _ hi hrunning =>
      rcases hrunning with hrunning | hrunning
      · rw [ht] at hrunning
        cases hrunning
        rw [hkind] at hi
        cases hi
      · rw [ht] at hrunning
        cases hrunning
  rw [step, finish_timeout ht hkind, runPeriodically, htimer]
  simp [hlive]

end

theorem step_timer_none {w : RelayHeartbeat} {e : Event} (hnone : w.heartbeatTimer = none)
    (he : e ≠ .start) : (w.step e).heartbeatTimer = none := by
  cases e with
  | start => exact absurd rfl he
  | stop => exact stop_timer
  | fire handle =>
    rw [step]
    split
    · unfold fire
      split <;> exact hnone
    · exact hnone
  | finish =>
    rw [step]
    unfold finish
    split
    · rw [runPeriodically_none hnone]
      exact hnone
    · exact hnone
  | throw => exact hnone

/-- Only `start` makes a record, so there is none since the `stop`. -/
theorem stopped_timer_none {events : List Event} (w : RelayHeartbeat) (h : Stopped events) :
    (after step w events).heartbeatTimer = none := by
  obtain ⟨before, since, rfl, hsince⟩ := h
  rw [after, List.foldl_append, List.foldl_cons]
  have hnone : ((before.foldl step w).step .stop).heartbeatTimer = none := stop_timer
  revert hnone
  generalize (before.foldl step w).step .stop = w'
  induction since generalizing w' with
  | nil => exact id
  | cons e since ih =>
    intro hnone
    have he : e ≠ .start := fun he => hsince (he ▸ List.mem_cons_self)
    exact ih (fun hmem => hsince (List.mem_cons_of_mem _ hmem)) _ (step_timer_none hnone he)

theorem heartbeat_single_iff (events : List Event) :
    (∀ front, front <+: events → SingleTimer front (after step new front)) ↔
      Throughout step FindsOwnTimer new events := by
  constructor
  · intro h
    have hone : Always step (fun w => w.live.length ≤ 1) new events :=
      always_iff_front.mpr fun front hfront => (h front hfront).atMostOne
    exact (always_iff_throughout_of_invariant (fun _ hw => hw.phase.length_le_one)
      (fun _ e => step_invariant e) (fun _ e => step_not_single e) invariant_new).mp hone
  · intro h front hfront
    have hinv : Invariant (after step new front) :=
      always_iff_front.mp (always_of_throughout (fun _ e => step_invariant e) invariant_new h)
        front hfront
    refine ⟨hinv.phase.length_le_one, fun hstopped => ?_⟩
    exact hinv.phase.live_of_none (stopped_timer_none new hstopped)

namespace FirstHeartbeat

/-- A listener of the first heartbeat stops and starts again. -/
def events : List Event := [.start, .fire ⟨0, .timeout⟩, .stop, .start, .finish]

end FirstHeartbeat

/-- The interval of the first record stays live, and the second `stop` does not reach it. -/
theorem heartbeat_two_timers :
    (after step new FirstHeartbeat.events).live = [⟨2, .interval⟩, ⟨1, .timeout⟩] ∧
      (after step new (FirstHeartbeat.events ++ [.fire ⟨1, .timeout⟩, .finish, .stop])).live =
        [⟨2, .interval⟩] ∧
      ¬ ∀ front, front <+: FirstHeartbeat.events → SingleTimer front (after step new front) := by
  have htwo : (after step new FirstHeartbeat.events).live = [⟨2, .interval⟩, ⟨1, .timeout⟩] := by
    decide
  refine ⟨htwo, by decide, fun h => ?_⟩
  have hone := (h FirstHeartbeat.events List.prefix_rfl).atMostOne
  rw [htwo] at hone
  exact absurd hone (by decide)

end Relay
end JsWaku
