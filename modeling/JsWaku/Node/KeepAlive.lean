import JsWaku.Js.OrdMap
import JsWaku.Js.Value
import JsWaku.Lib.Trace
import Mathlib.Logic.Function.Basic

/-!
# JsWaku.Node.KeepAlive

The keep-alive timers of a node (`lib/waku.ts`): the constructor, `startKeepAlive` and
`stopKeepAlive`.

* `KeepAlive` — the two tables of timers, and the intervals that are live.
* `Booked`    — the tables name the live intervals, each under its peer.
* `KeepsAlive` — the live intervals of a kind are one for each connected peer, or none at all.
* `keepAlive_iff` — both kinds do as the options say unless an explicit zero is overlooked.
-/

namespace JsWaku
namespace Node

open Js Trace

abbrev PeerId := String
abbrev Handle := Nat

def defaultPingKeepAliveValueSecs : Number := .zero
def defaultRelayKeepAliveValueSecs : Number := .finite (5 * 60 : Nat)

/-- An option that is `undefined` is the same as none. -/
structure KeepAliveOptions where
  pingKeepAlive : Option Number
  relayKeepAlive : Option Number

/-- A ping of the peer, or a message over relay. -/
inductive Kind where
  | ping
  | relay
  deriving DecidableEq

/-- What `setInterval` was called for; the relay message goes to everyone, whatever the peer. -/
structure Interval where
  kind : Kind
  peer : PeerId
  seconds : Number

/-- `timers` are `pingKeepAliveTimers` and `relayKeepAliveTimers`. A handle is truthy. -/
structure KeepAlive where
  intervals : OrdMap Handle Interval
  nextHandle : Handle
  timers : Kind → OrdMap PeerId Handle

namespace KeepAlive

def new : KeepAlive := ⟨.empty, 1, fun _ => .empty⟩

/-- `timers[peer] = setInterval(.., period * 1000)` -/
def startTimer (w : KeepAlive) (kind : Kind) (peer : PeerId) (seconds : Number) : KeepAlive :=
  if seconds ≠ .zero then
    { intervals := w.intervals.set w.nextHandle ⟨kind, peer, seconds⟩
      nextHandle := w.nextHandle + 1
      timers := Function.update w.timers kind ((w.timers kind).set peer w.nextHandle) }
  else w

/-- `clearInterval(timers[peer]); delete timers[peer]` -/
def stopTimer (w : KeepAlive) (kind : Kind) (peer : PeerId) : KeepAlive :=
  match (w.timers kind).get peer with
  | some handle =>
    { w with
      intervals := w.intervals.delete handle
      timers := Function.update w.timers kind ((w.timers kind).delete peer) }
  | none => w

def stopKeepAlive (w : KeepAlive) (peer : PeerId) : KeepAlive :=
  (w.stopTimer .ping peer).stopTimer .relay peer

def startKeepAlive (w : KeepAlive) (peer : PeerId) (pingPeriodSecs relayPeriodSecs : Number) :
    KeepAlive :=
  ((w.stopKeepAlive peer).startTimer .ping peer pingPeriodSecs).startTimer .relay peer
    relayPeriodSecs

end KeepAlive

inductive Event where
  | connect (peer : PeerId)
  | disconnect (peer : PeerId)
  deriving DecidableEq

def Event.peer : Event → PeerId
  | .connect peer => peer
  | .disconnect peer => peer

/-- The periods as the constructor takes them from the options. -/
def KeepAliveOptions.period (options : KeepAliveOptions) : Kind → Number
  | .ping => .orElse options.pingKeepAlive defaultPingKeepAliveValueSecs
  | .relay => .orElse options.relayKeepAlive defaultRelayKeepAliveValueSecs

/-- The listeners on `peer:connect` and `peer:disconnect`. -/
def on (options : KeepAliveOptions) (w : KeepAlive) : Event → KeepAlive
  | .connect peer => w.startKeepAlive peer (options.period .ping) (options.period .relay)
  | .disconnect peer => w.stopKeepAlive peer

def afterEvents (options : KeepAliveOptions) (events : List Event) : KeepAlive :=
  after (on options) .new events

/-- The tables name the live intervals, each under its kind and peer. -/
structure Booked (w : KeepAlive) : Prop where
  fresh : ∀ handle interval, w.intervals.get handle = some interval → handle < w.nextHandle
  stored : ∀ handle interval, w.intervals.get handle = some interval →
    (w.timers interval.kind).get interval.peer = some handle
  live : ∀ kind peer handle, (w.timers kind).get peer = some handle →
    ∃ interval, w.intervals.get handle = some interval ∧ interval.kind = kind ∧ interval.peer = peer

variable {w : KeepAlive} {kind kind' : Kind} {peer peer' : PeerId} {seconds : Number}

theorem timers_stopTimer : ((w.stopTimer kind peer).timers kind').get peer' =
    if kind = kind' ∧ peer = peer' then none else (w.timers kind').get peer' := by
  unfold KeepAlive.stopTimer
  cases h : (w.timers kind).get peer with
  | some handle =>
    by_cases hkind : kind = kind'
    · subst hkind
      by_cases hpeer : peer = peer'
      · subst hpeer
        simp
      · simp [hpeer, OrdMap.get_delete_of_ne hpeer]
    · simp [hkind, Function.update_of_ne (Ne.symm hkind)]
  | none =>
    by_cases hsame : kind = kind' ∧ peer = peer'
    · rw [if_pos hsame, ← hsame.1, ← hsame.2]
      exact h
    · rw [if_neg hsame]

theorem intervals_stopTimer {handle : Handle} (h : (w.timers kind).get peer = some handle) :
    (w.stopTimer kind peer).intervals = w.intervals.delete handle := by
  simp only [KeepAlive.stopTimer, h]

theorem nextHandle_stopTimer : (w.stopTimer kind peer).nextHandle = w.nextHandle := by
  unfold KeepAlive.stopTimer
  split <;> rfl

theorem timers_startTimer : ((w.startTimer kind peer seconds).timers kind').get peer' =
    if seconds ≠ .zero ∧ kind = kind' ∧ peer = peer' then some w.nextHandle
    else (w.timers kind').get peer' := by
  unfold KeepAlive.startTimer
  by_cases hsecs : seconds ≠ .zero
  · by_cases hkind : kind = kind'
    · subst hkind
      simp [hsecs, OrdMap.get_set]
    · simp [hsecs, hkind, Function.update_of_ne (Ne.symm hkind)]
  · simp [hsecs]

theorem intervals_startTimer (hsecs : seconds ≠ .zero) :
    (w.startTimer kind peer seconds).intervals =
      w.intervals.set w.nextHandle ⟨kind, peer, seconds⟩ := by
  simp [KeepAlive.startTimer, hsecs]

theorem nextHandle_startTimer (hsecs : seconds ≠ .zero) :
    (w.startTimer kind peer seconds).nextHandle = w.nextHandle + 1 := by
  simp [KeepAlive.startTimer, hsecs]

theorem booked_new : Booked .new where
  fresh _ _ h := by cases h
  stored _ _ h := by cases h
  live _ _ _ h := by cases h

theorem Booked.stopTimer (h : Booked w) : Booked (w.stopTimer kind peer) := by
  cases hget : (w.timers kind).get peer with
  | none =>
    have heq : w.stopTimer kind peer = w := by simp only [KeepAlive.stopTimer, hget]
    rwa [heq]
  | some handle =>
    refine ⟨?_, ?_, ?_⟩
    · intro handle' interval hlive
      rw [intervals_stopTimer hget] at hlive
      rw [nextHandle_stopTimer]
      exact h.fresh handle' interval (OrdMap.get_delete_some hlive).2
    · intro handle' interval hlive
      rw [intervals_stopTimer hget] at hlive
      obtain ⟨hne, hlive⟩ := OrdMap.get_delete_some hlive
      have hstored := h.stored handle' interval hlive
      rw [timers_stopTimer, if_neg, hstored]
      rintro ⟨rfl, rfl⟩
      rw [hget] at hstored
      cases hstored
      exact hne rfl
    · intro kind' peer' handle' htimer
      rw [timers_stopTimer] at htimer
      split at htimer
      · cases htimer
      · rename_i hother
        obtain ⟨interval, hlive, hkind, hpeer⟩ := h.live kind' peer' handle' htimer
        refine ⟨interval, ?_, hkind, hpeer⟩
        rw [intervals_stopTimer hget, OrdMap.get_delete_of_ne, hlive]
        rintro rfl
        -- Two entries cannot name one interval.
        obtain ⟨interval', hlive', hkind', hpeer'⟩ := h.live kind peer handle hget
        rw [hlive] at hlive'
        cases hlive'
        exact hother ⟨hkind'.symm.trans hkind, hpeer'.symm.trans hpeer⟩

theorem Booked.startTimer (h : Booked w) (hfree : (w.timers kind).get peer = none) :
    Booked (w.startTimer kind peer seconds) := by
  by_cases hsecs : seconds = .zero
  · have heq : w.startTimer kind peer seconds = w := by simp [KeepAlive.startTimer, hsecs]
    rwa [heq]
  · refine ⟨?_, ?_, ?_⟩
    · intro handle interval hlive
      rw [intervals_startTimer hsecs, OrdMap.get_set] at hlive
      rw [nextHandle_startTimer hsecs]
      split at hlive
      · rename_i heq
        rw [← heq]
        exact Nat.lt_succ_self _
      · exact Nat.lt_succ_of_lt (h.fresh handle interval hlive)
    · intro handle interval hlive
      rw [intervals_startTimer hsecs, OrdMap.get_set] at hlive
      rw [timers_startTimer]
      split at hlive
      · rename_i heq
        cases hlive
        rw [if_pos ⟨hsecs, rfl, rfl⟩, heq]
      · have hstored := h.stored handle interval hlive
        rw [if_neg, hstored]
        rintro ⟨_, rfl, rfl⟩
        rw [hfree] at hstored
        cases hstored
    · intro kind' peer' handle htimer
      rw [timers_startTimer] at htimer
      rw [intervals_startTimer hsecs, OrdMap.get_set]
      split at htimer
      · rename_i heq
        cases htimer
        rw [if_pos rfl]
        exact ⟨_, rfl, heq.2.1, heq.2.2⟩
      · obtain ⟨interval, hlive, hkind, hpeer⟩ := h.live kind' peer' handle htimer
        have hold := h.fresh handle interval hlive
        rw [if_neg (Nat.ne_of_gt hold)]
        exact ⟨interval, hlive, hkind, hpeer⟩

theorem booked_on {options : KeepAliveOptions} {e : Event} (h : Booked w) :
    Booked (on options w e) := by
  cases e with
  | connect peer =>
    refine (h.stopTimer.stopTimer.startTimer ?_).startTimer ?_
    · simp [timers_stopTimer]
    · simp [timers_stopTimer, timers_startTimer]
  | disconnect peer => exact h.stopTimer.stopTimer

/-- The latest event of the peer is a connect. -/
def Connected (events : List Event) (peer : PeerId) : Prop :=
  (events.filter fun e => e.peer = peer).getLast? = some (.connect peer)

instance (events : List Event) (peer : PeerId) : Decidable (Connected events peer) :=
  inferInstanceAs (Decidable (_ = _))

theorem connected_append {events : List Event} {e : Event} : Connected (events ++ [e]) peer ↔
    if e.peer = peer then e = .connect peer else Connected events peer := by
  unfold Connected
  rw [List.filter_append]
  by_cases h : e.peer = peer <;> simp [h]

theorem timer_on_isSome {options : KeepAliveOptions} {e : Event} :
    (((on options w e).timers kind).get peer).isSome ↔
      if e.peer = peer then e = .connect peer ∧ options.period kind ≠ .zero
      else ((w.timers kind).get peer).isSome := by
  cases e with
  | connect peer' =>
    by_cases hpeer : peer' = peer <;> cases kind <;>
      by_cases hping : options.period .ping = .zero <;>
      by_cases hrelay : options.period .relay = .zero <;>
      simp [on, KeepAlive.startKeepAlive, KeepAlive.stopKeepAlive, timers_startTimer, timers_stopTimer,
        Event.peer, hpeer, hping, hrelay]
  | disconnect peer' =>
    by_cases hpeer : peer' = peer <;> cases kind <;>
      simp [on, KeepAlive.stopKeepAlive, timers_stopTimer, Event.peer, hpeer]

/-- A peer has a timer exactly while it is connected, if the period in use is not zero. -/
theorem booked_afterEvents (options : KeepAliveOptions) (events : List Event) :
    Booked (afterEvents options events) ∧ ∀ kind peer,
      (((afterEvents options events).timers kind).get peer).isSome ↔
        Connected events peer ∧ options.period kind ≠ .zero := by
  refine after_invariant (I := fun events w => Booked w ∧ ∀ kind peer,
    ((w.timers kind).get peer).isSome ↔ Connected events peer ∧ options.period kind ≠ .zero)
    ⟨booked_new, ?_⟩ ?_ events
  · intro kind peer
    refine iff_of_false ?_ fun h => ?_
    · exact Bool.false_ne_true
    · cases h.1
  · rintro events w e ⟨hbooked, htimers⟩
    refine ⟨booked_on hbooked, fun kind peer => ?_⟩
    rw [timer_on_isSome, connected_append, htimers]
    split <;> rfl

/-! ## What is live -/

/-- The handle is of a live interval of this kind for this peer. -/
def Live (w : KeepAlive) (kind : Kind) (peer : PeerId) (handle : Handle) : Prop :=
  ∃ interval, w.intervals.get handle = some interval ∧ interval.kind = kind ∧ interval.peer = peer

/-- While `enabled`, one live interval for each connected peer; otherwise none. Each is the one
stored for its peer. -/
structure KeepsAlive (events : List Event) (w : KeepAlive) (kind : Kind) (enabled : Prop) : Prop where
  one : enabled → ∀ peer, Connected events peer → ∃! handle, Live w kind peer handle
  none : ∀ peer handle, Live w kind peer handle → enabled ∧ Connected events peer
  stored : ∀ peer handle, Live w kind peer handle → (w.timers kind).get peer = some handle

theorem Booked.live_iff (h : Booked w) {handle : Handle} :
    Live w kind peer handle ↔ (w.timers kind).get peer = some handle := by
  constructor
  · rintro ⟨interval, hlive, rfl, rfl⟩
    exact h.stored handle interval hlive
  · intro htimer
    exact h.live kind peer handle htimer

/-- The period in use decides. -/
theorem keepsAlive_afterEvents (options : KeepAliveOptions) (events : List Event) (kind : Kind) :
    KeepsAlive events (afterEvents options events) kind (options.period kind ≠ .zero) := by
  obtain ⟨hbooked, htimers⟩ := booked_afterEvents options events
  refine ⟨?_, ?_, ?_⟩
  · intro henabled peer hconnected
    have hsome := (htimers kind peer).mpr ⟨hconnected, henabled⟩
    obtain ⟨handle, hhandle⟩ := Option.isSome_iff_exists.mp hsome
    refine ⟨handle, hbooked.live_iff.mpr hhandle, fun handle' hlive => ?_⟩
    have hsame := hbooked.live_iff.mp hlive
    rw [hhandle] at hsame
    cases hsame
    rfl
  · intro peer handle hlive
    rw [hbooked.live_iff] at hlive
    exact ((htimers kind peer).mp (by rw [hlive]; rfl)).symm
  · intro peer handle hlive
    exact hbooked.live_iff.mp hlive

/-- Another condition than the one in use makes no difference while nobody is connected. -/
theorem keepsAlive_iff {options : KeepAliveOptions} {events : List Event} {enabled : Prop} :
    KeepsAlive events (afterEvents options events) kind enabled ↔
      ∀ peer, Connected events peer → (enabled ↔ options.period kind ≠ .zero) := by
  have h := keepsAlive_afterEvents options events kind
  constructor
  · intro h' peer hconnected
    constructor
    · intro henabled
      obtain ⟨handle, hlive, _⟩ := h'.one henabled peer hconnected
      exact (h.none peer handle hlive).1
    · intro hperiod
      obtain ⟨handle, hlive, _⟩ := h.one hperiod peer hconnected
      exact (h'.none peer handle hlive).1
  · intro hsame
    refine ⟨?_, ?_, h.stored⟩
    · intro henabled peer hconnected
      exact h.one ((hsame peer hconnected).mp henabled) peer hconnected
    · intro peer handle hlive
      obtain ⟨hperiod, hconnected⟩ := h.none peer handle hlive
      exact ⟨(hsame peer hconnected).mpr hperiod, hconnected⟩

/-- The period the options ask for: their own or, where they have none, the default. -/
def KeepAliveOptions.configured (options : KeepAliveOptions) : Kind → Number
  | .ping => options.pingKeepAlive.getD defaultPingKeepAliveValueSecs
  | .relay => options.relayKeepAlive.getD defaultRelayKeepAliveValueSecs

/-- Zero is the default, so only a NaN is overlooked. -/
theorem ping_overlooks_iff {options : KeepAliveOptions} :
    (options.configured .ping ≠ .zero ↔ options.period .ping ≠ .zero) ↔
      options.pingKeepAlive ≠ some .nan := by
  unfold KeepAliveOptions.configured KeepAliveOptions.period Number.orElse
    defaultPingKeepAliveValueSecs
  cases options.pingKeepAlive with
  | none => simp
  | some n =>
    by_cases hnan : n = .nan
    · simp [hnan, Number.zero]
    · by_cases hzero : n = .zero <;> simp [hnan, hzero, Number.zero]

/-- The default is not zero, so a zero is overlooked. -/
theorem relay_overlooks_iff {options : KeepAliveOptions} :
    (options.configured .relay ≠ .zero ↔ options.period .relay ≠ .zero) ↔
      options.relayKeepAlive ≠ some .zero := by
  have hdefault : defaultRelayKeepAliveValueSecs ≠ .zero := by decide
  unfold KeepAliveOptions.configured KeepAliveOptions.period Number.orElse
  cases options.relayKeepAlive with
  | none => simp
  | some n =>
    by_cases hzero : n = .zero
    · simp [hzero, hdefault]
    · by_cases hnan : n = .nan
      · simpa [hnan, Number.zero] using hdefault
      · simp [hnan, hzero]

theorem keepAlive_iff (options : KeepAliveOptions) (events : List Event) :
    (∀ kind, KeepsAlive events (afterEvents options events) kind (options.configured kind ≠ .zero)) ↔
      (∀ peer, ¬ Connected events peer) ∨
        options.relayKeepAlive ≠ some .zero ∧ options.pingKeepAlive ≠ some .nan := by
  simp only [keepsAlive_iff]
  constructor
  · intro h
    by_cases hall : ∀ peer, ¬ Connected events peer
    · exact .inl hall
    · rw [not_forall] at hall
      obtain ⟨peer, hpeer⟩ := hall
      exact .inr ⟨relay_overlooks_iff.mp (h .relay peer (not_not.mp hpeer)),
        ping_overlooks_iff.mp (h .ping peer (not_not.mp hpeer))⟩
  · rintro (hnone | ⟨hrelay, hping⟩) kind peer hpeer
    · exact absurd hpeer (hnone peer)
    · cases kind with
      | ping => exact ping_overlooks_iff.mpr hping
      | relay => exact relay_overlooks_iff.mpr hrelay

/-- A relay ping that is turned off is sent all the same. -/
theorem zero_relay_period_overlooked :
    KeepAliveOptions.configured ⟨none, some .zero⟩ .relay = .zero ∧
      ((afterEvents ⟨none, some .zero⟩ [.connect "a"]).timers .relay).get "a" = some 1 ∧
      ¬ ∀ kind, KeepsAlive [.connect "a"] (afterEvents ⟨none, some .zero⟩ [.connect "a"]) kind
        (KeepAliveOptions.configured ⟨none, some .zero⟩ kind ≠ .zero) := by
  refine ⟨rfl, by decide, fun h => ?_⟩
  have hlive : Live (afterEvents ⟨none, some .zero⟩ [.connect "a"]) .relay "a" 1 :=
    ⟨⟨.relay, "a", defaultRelayKeepAliveValueSecs⟩, rfl, rfl, rfl⟩
  exact ((h .relay).none "a" 1 hlive).1 rfl

end Node
end JsWaku
