import JsWaku.Lib.Trace
import JsWaku.Relay.Publish
import JsWaku.Relay.Runs

/-!
# JsWaku.Relay.Fanout

The fanout over runs: what each event makes of the maps `fanout` and `lastpub`.

* `heartbeat_fanout`, `heartbeat_lastpub` — sets that were not published to for a while go, the
  others are maintained.
* `mem_fanoutRound`, `size_fanoutRound` — the members of a maintained set, and how many.
* `Tidy` — every set has a time of publishing and at most `D` members, in every run.
* `Tidied` — how a heartbeat leaves the sets.
* `run_fanout_tidy` — both hold in every run, as far as the clock does not go back.
-/

namespace JsWaku
namespace Relay

open Js Trace

section

variable {S : Type} {env : Surroundings S} {r : Router S} {topic : Topic}

/-- Nothing joined and nothing published yet. -/
structure Router.Fresh (r : Router S) : Prop where
  mesh : r.mesh = .empty
  fanout : r.fanout = .empty
  lastpub : r.lastpub = .empty

def Event.time : Event S → Option Time
  | .heartbeat env => some env.now
  | .join env _ => some env.now
  | .publish env _ => some env.now
  | .change _ _ _ => none

/-- The clock does not go back. -/
def Ordered (events : List (Event S)) : Prop := (events.filterMap Event.time).Pairwise (· ≤ ·)

/-- A message with this topic was published at this time. -/
def PublishedAt (events : List (Event S)) (topic : Topic) (now : Time) : Prop :=
  ∃ env msg, .publish env msg ∈ events ∧ topic ∈ msg.topicIDs ∧ env.now = now

structure Tidy (r : Router S) : Prop where
  stamped : ∀ topic f, r.fanout.get topic = some f → ∃ now, r.lastpub.get topic = some now
  small : ∀ topic f, r.fanout.get topic = some f → f.size ≤ r.options.D

/-- Every time in `lastpub` is that of a publish. -/
def Dated (events : List (Event S)) (r : Router S) : Prop :=
  ∀ topic now, r.lastpub.get topic = some now → PublishedAt events topic now

theorem PublishedAt.append {events events' : List (Event S)} {now : Time}
    (h : PublishedAt events topic now) : PublishedAt (events ++ events') topic now := by
  obtain ⟨env, msg, hmem, htopic, hnow⟩ := h
  exact ⟨env, msg, List.mem_append_left _ hmem, htopic, hnow⟩

theorem Ordered.le {events : List (Event S)} {now : Time} (h : Ordered (events ++ [.heartbeat env]))
    (hp : PublishedAt events topic now) : now ≤ env.now := by
  obtain ⟨env', msg, hmem, _, rfl⟩ := hp
  rw [Ordered, List.filterMap_append, List.pairwise_append] at h
  exact h.2.2 env'.now (List.mem_filterMap.mpr ⟨_, hmem, rfl⟩) env.now (by simp [Event.time])

theorem Router.Fresh.tidy (h : r.Fresh) : Tidy r := by
  constructor <;>
  · intro topic f hf
    rw [h.fanout] at hf
    cases hf

theorem tidy_change (h : Tidy r) (peers : PeerId → Option String)
    (topics : Topic → Option (OrdSet PeerId)) (outbound : PeerId → Bool) :
    Tidy (r.change peers topics outbound) := by
  constructor
  · intro topic f hf
    obtain ⟨f', hf', _⟩ := change_fanout hf
    exact h.stamped topic f' hf'
  · intro topic f hf
    obtain ⟨f', hf', rfl⟩ := change_fanout hf
    exact (OrdSet.size_filter_le _ _).trans (h.small topic f' hf')

theorem Router.Fresh.dated (h : r.Fresh) : Dated [] r := by
  intro topic now hnow
  rw [h.lastpub] at hnow
  cases hnow

end

section

variable {S : Type} [LinearOrder S] {gossipsub : Gossipsub} {env : Surroundings S}
  {r : Router S} {topic : Topic} {id : PeerId} {f : OrdSet PeerId}

/-- A member that a heartbeat keeps. -/
def Keeps (env : Surroundings S) (r : Router S) (topic : Topic) (id : PeerId) : Prop :=
  r.subscribed topic id = true ∧ r.options.scoreThresholds.publishThreshold ≤ env.score (some id)

/-- A peer that a heartbeat may add. -/
def Adds (env : Surroundings S) (r : Router S) (topic : Topic) (id : PeerId) : Prop :=
  RelayPeer r topic id ∧ ¬ id ∈ r.direct ∧
    r.options.scoreThresholds.publishThreshold ≤ env.score (some id)

/-- The members that stay. -/
def kept (t : Tick S) (topic : Topic) (f : OrdSet PeerId) : OrdSet PeerId :=
  f.filter fun id => t.router.subscribed topic id &&
    !decide (t.score (some id) < t.opts.scoreThresholds.publishThreshold)

def added (t : Tick S) (topic : Topic) (f : OrdSet PeerId) : OrdSet PeerId :=
  relayPeers t topic .fanout (t.opts.D - (kept t topic f).size) fun id =>
    !(kept t topic f).has id && !t.router.direct.has id &&
      decide (t.opts.scoreThresholds.publishThreshold ≤ t.score (some id))

theorem fanoutRound_eq (gossipsub : Gossipsub) (env : Surroundings S) (r : Router S) (topic : Topic)
    (f : OrdSet PeerId) : fanoutRound (tickOf gossipsub env r) topic f =
      if (kept (tickOf gossipsub env r) topic f).size < r.options.D then
        (added (tickOf gossipsub env r) topic f).toList.foldl OrdSet.add
          (kept (tickOf gossipsub env r) topic f)
      else kept (tickOf gossipsub env r) topic f := rfl

theorem mem_kept : id ∈ kept (tickOf gossipsub env r) topic f ↔ id ∈ f ∧ Keeps env r topic id := by
  simp only [kept, OrdSet.mem_filter, Bool.and_eq_true, Bool.not_eq_true', decide_eq_false_iff_not,
    not_lt]
  rfl

theorem of_mem_added (h : id ∈ added (tickOf gossipsub env r) topic f) :
    ¬ id ∈ kept (tickOf gossipsub env r) topic f ∧ Adds env r topic id := by
  obtain ⟨hrelay, hfilter⟩ := of_mem_getRelayPeers (env.shuffles.perm .fanout topic) h
  simp only [Bool.and_eq_true, Bool.not_eq_true', OrdSet.has, decide_eq_false_iff_not,
    decide_eq_true_eq] at hfilter
  exact ⟨hfilter.1.1, hrelay, hfilter.1.2, hfilter.2⟩

theorem Adds.keeps (h : Adds env r topic id) : Keeps env r topic id := ⟨h.1.1, h.2.2⟩

theorem mem_fanoutRound (h : id ∈ fanoutRound (tickOf gossipsub env r) topic f) :
    id ∈ f ∧ Keeps env r topic id ∨ Adds env r topic id := by
  rw [fanoutRound_eq] at h
  split at h
  · rcases OrdSet.mem_foldl_add.mp h with h | h
    · exact .inr (of_mem_added h).2
    · exact .inl (mem_kept.mp h)
  · exact .inl (mem_kept.mp h)

theorem mem_fanoutRound_of_kept (h : id ∈ kept (tickOf gossipsub env r) topic f) :
    id ∈ fanoutRound (tickOf gossipsub env r) topic f := by
  rw [fanoutRound_eq]
  split
  · exact OrdSet.mem_foldl_add.mpr (.inr h)
  · exact h

/-- Nobody is kept, so everybody is looked at. -/
theorem added_pos_iff (hkept : (kept (tickOf gossipsub env r) topic f).size = 0) :
    0 < (added (tickOf gossipsub env r) topic f).size ↔ ∃ id, Adds env r topic id := by
  have hnone : ∀ id, ¬ id ∈ kept (tickOf gossipsub env r) topic f := by
    intro id hid
    exact absurd (OrdSet.size_pos_of_mem hid) (by omega)
  refine (getRelayPeers_pos_iff (env.shuffles.perm .fanout topic)).trans (exists_congr fun id => ?_)
  simp only [OrdSet.has, hnone, decide_false, Bool.not_false, Bool.true_and, Bool.and_eq_true,
    Bool.not_eq_true', decide_eq_false_iff_not, decide_eq_true_eq]
  rfl

theorem fanoutRound_nonempty_iff : (fanoutRound (tickOf gossipsub env r) topic f).size ≠ 0 ↔
    (∃ id, id ∈ f ∧ Keeps env r topic id) ∨ 0 < r.options.D ∧ ∃ id, Adds env r topic id := by
  by_cases hkept : (kept (tickOf gossipsub env r) topic f).size = 0
  · have hnone : ¬ ∃ id, id ∈ f ∧ Keeps env r topic id := by
      rintro ⟨id, hid⟩
      have hin : id ∈ kept (tickOf gossipsub env r) topic f := mem_kept.mpr hid
      have hpos := OrdSet.size_pos_of_mem hin
      omega
    rw [or_iff_right hnone, ← added_pos_iff hkept, fanoutRound_eq, hkept]
    by_cases hD : 0 < r.options.D
    · rw [if_pos hD, and_iff_right hD, Nat.pos_iff_ne_zero, ← OrdSet.exists_mem_iff,
        ← OrdSet.exists_mem_iff]
      refine exists_congr fun id => OrdSet.mem_foldl_add.trans (or_iff_left ?_)
      intro hid
      exact absurd (OrdSet.size_pos_of_mem hid) (by omega)
    · rw [if_neg hD]
      exact iff_of_false (not_not.mpr hkept) fun h => hD h.1
  · obtain ⟨id, hid⟩ := OrdSet.exists_mem_iff.mpr hkept
    refine iff_of_true ?_ (.inl ⟨id, mem_kept.mp hid⟩)
    exact Nat.ne_of_gt (OrdSet.size_pos_of_mem (mem_fanoutRound_of_kept hid))

theorem size_fanoutRound (h : f.size ≤ r.options.D) :
    (fanoutRound (tickOf gossipsub env r) topic f).size ≤ r.options.D := by
  have hkept : (kept (tickOf gossipsub env r) topic f).size ≤ f.size := List.length_filter_le _ _
  rw [fanoutRound_eq]
  split
  · rename_i hfew
    have hopts : (tickOf gossipsub env r).opts.D = r.options.D := rfl
    have hneed : (0 : Int) < (tickOf gossipsub env r).opts.D -
        (kept (tickOf gossipsub env r) topic f).size := by omega
    have hadded : ((added (tickOf gossipsub env r) topic f).size : Int) ≤
        (tickOf gossipsub env r).opts.D - (kept (tickOf gossipsub env r) topic f).size :=
      size_relayPeers_le _ _ _ hneed _
    have hsize := OrdSet.size_foldl_add_le (kept (tickOf gossipsub env r) topic f)
      (added (tickOf gossipsub env r) topic f).toList
    change _ ≤ _ + (added (tickOf gossipsub env r) topic f).size at hsize
    omega
  · omega

variable [Zero S]

theorem heartbeat_lastpub (gossipsub : Gossipsub) (env : Surroundings S) (r : Router S)
    (topic : Topic) : (heartbeat gossipsub env r).router.lastpub.get topic =
      (r.lastpub.get topic).filter fun lastpub => !expired (tickOf gossipsub env r) lastpub :=
  OrdMap.get_filter _ _ _

/-- The set's topic was last published to too long ago. -/
def Stale (gossipsub : Gossipsub) (env : Surroundings S) (r : Router S) (topic : Topic) : Bool :=
  (r.lastpub.get topic).any (expired (tickOf gossipsub env r))

theorem heartbeat_fanout (gossipsub : Gossipsub) (env : Surroundings S) (r : Router S)
    (topic : Topic) : (heartbeat gossipsub env r).router.fanout.get topic =
      ((r.fanout.get topic).filter fun _ => !Stale gossipsub env r topic).map
        (fanoutRound (tickOf gossipsub env r) topic) := by
  rw [← OrdMap.get_filter r.fanout (fun e => !Stale gossipsub env r e.1)]
  exact OrdMap.mapAccum_get_unit _ _ topic

theorem heartbeat_fanout_some (h : (heartbeat gossipsub env r).router.fanout.get topic = some f) :
    ∃ f', r.fanout.get topic = some f' ∧ Stale gossipsub env r topic = false ∧
      f = fanoutRound (tickOf gossipsub env r) topic f' := by
  rw [heartbeat_fanout, Option.map_eq_some_iff] at h
  obtain ⟨f', h, rfl⟩ := h
  rw [Option.filter_eq_some_iff] at h
  exact ⟨f', h.1, by simpa using h.2, rfl⟩

/-- The router after an event. -/
def next (gossipsub : Gossipsub) (r : Router S) (e : Event S) : Router S := (step gossipsub r e).1

theorem run_fst (gossipsub : Gossipsub) (r : Router S) (events : List (Event S)) :
    (run gossipsub r events).1 = after (next gossipsub) r events := by
  induction events generalizing r with
  | nil => rfl
  | cons e es ih => exact ih (next gossipsub r e)

/-- A join that throws changes nothing, one that finds a fanout set makes it the mesh. -/
theorem next_join_cases (gossipsub : Gossipsub) (env : Surroundings S) (topic : Topic) (r : Router S) :
    (r.started = false ∧ next gossipsub r (.join env topic) = r) ∨
    (r.started = true ∧ (∃ f, r.fanout.get topic = some f) ∧
      next gossipsub r (.join env topic) = { r with
        mesh := r.mesh.set topic (joinPeers env topic r)
        fanout := r.fanout.delete topic
        lastpub := r.lastpub.delete topic }) ∨
    (r.started = true ∧ r.fanout.get topic = none ∧
      next gossipsub r (.join env topic) =
        { r with mesh := r.mesh.set topic (joinPeers env topic r) }) := by
  cases hstarted : r.started with
  | false => exact .inl ⟨rfl, by simp [next, step, join, hstarted]⟩
  | true =>
    cases hf : r.fanout.get topic with
    | some f => exact .inr (.inl ⟨rfl, ⟨f, rfl⟩, by simp [next, step, join, hstarted, hf]⟩)
    | none => exact .inr (.inr ⟨rfl, rfl, by simp [next, step, join, hstarted, hf]⟩)

theorem next_options (gossipsub : Gossipsub) (r : Router S) (e : Event S) :
    (next gossipsub r e).options = r.options := by
  cases e with
  | heartbeat env => rfl
  | join env topic =>
    rcases next_join_cases gossipsub env topic r with ⟨_, h⟩ | ⟨_, _, h⟩ | ⟨_, _, h⟩ <;> rw [h]
  | publish env msg =>
    change (publish env msg r).1.options = r.options
    rw [(published_publish env msg r).rest]
  | change peers topics outbound => rfl

/-! ## The invariant -/

/-- What a heartbeat leaves, where `events` came before it. -/
structure Tidied (events : List (Event S)) (env : Surroundings S) (r : Router S) : Prop where
  recent : ∀ topic f, r.fanout.get topic = some f → ∃ now, r.lastpub.get topic = some now ∧
    PublishedAt events topic now ∧ now ≤ env.now ∧ env.now - now ≤ relayFanoutTTL
  fit : ∀ topic f, r.fanout.get topic = some f → ∀ id, id ∈ f → Keeps env r topic id

theorem tidy_heartbeat (h : Tidy r) : Tidy (next gossipsub r (.heartbeat env)) := by
  constructor
  · intro topic f hf
    obtain ⟨f', hf', hstale, rfl⟩ := heartbeat_fanout_some hf
    obtain ⟨now, hnow⟩ := h.stamped topic f' hf'
    refine ⟨now, ?_⟩
    have hlast := heartbeat_lastpub gossipsub env r topic
    rw [Stale, hnow] at hstale
    rw [hnow] at hlast
    refine hlast.trans ?_
    simpa [Option.filter] using hstale
  · intro topic f hf
    obtain ⟨f', hf', _, rfl⟩ := heartbeat_fanout_some hf
    exact size_fanoutRound (h.small topic f' hf')

theorem tidy_join (h : Tidy r) : Tidy (next gossipsub r (.join env topic)) := by
  rcases next_join_cases gossipsub env topic r with ⟨_, heq⟩ | ⟨_, _, heq⟩ | ⟨_, _, heq⟩
  · rwa [heq]
  · rw [heq]
    constructor
    · intro topic' f hf
      obtain ⟨hne, hf⟩ := OrdMap.get_delete_some hf
      obtain ⟨now, hnow⟩ := h.stamped topic' f hf
      exact ⟨now, (OrdMap.get_delete_of_ne hne _).trans hnow⟩
    · intro topic' f hf
      exact h.small topic' f (OrdMap.get_delete_some hf).2
  · rw [heq]
    exact ⟨h.stamped, h.small⟩

theorem tidy_publish {msg : InMessage} (hD : 1 ≤ r.options.D) (h : Tidy r) :
    Tidy (next gossipsub r (.publish env msg)) := by
  have hpublished := published_publish env msg r
  constructor
  · intro topic f hf
    change ∃ now, (publish env msg r).1.lastpub.get topic = some now
    change (publish env msg r).1.fanout.get topic = some f at hf
    rw [hpublished.lastpub]
    rw [hpublished.fanout] at hf
    split at hf
    · rename_i hfans
      exact ⟨env.now, if_pos hfans⟩
    · rename_i hfans
      rw [if_neg hfans]
      exact h.stamped topic f hf
  · intro topic f hf
    change f.size ≤ (publish env msg r).1.options.D
    change (publish env msg r).1.fanout.get topic = some f at hf
    rw [hpublished.rest]
    rw [hpublished.fanout] at hf
    split at hf
    · rcases fanoutFor_cases hf with hf | ⟨_, rfl, _⟩
      · exact h.small topic f hf
      · exact size_publishPeers_le hD env topic
    · exact h.small topic f hf

theorem tidy_next {e : Event S} (hD : 1 ≤ r.options.D) (h : Tidy r) :
    Tidy (next gossipsub r e) := by
  cases e with
  | heartbeat env => exact tidy_heartbeat h
  | join env topic => exact tidy_join h
  | publish env msg => exact tidy_publish hD h
  | change peers topics outbound => exact tidy_change h peers topics outbound

theorem dated_next {events : List (Event S)} {e : Event S} (h : Dated events r) :
    Dated (events ++ [e]) (next gossipsub r e) := by
  intro topic now hnow
  cases e with
  | heartbeat env =>
    change (heartbeat gossipsub env r).router.lastpub.get topic = some now at hnow
    rw [heartbeat_lastpub, Option.filter_eq_some_iff] at hnow
    exact (h topic now hnow.1).append
  | join env topic' =>
    rcases next_join_cases gossipsub env topic' r with ⟨_, heq⟩ | ⟨_, _, heq⟩ | ⟨_, _, heq⟩
    · rw [heq] at hnow
      exact (h topic now hnow).append
    · rw [heq] at hnow
      exact (h topic now (OrdMap.get_delete_some hnow).2).append
    · rw [heq] at hnow
      exact (h topic now hnow).append
  | publish env msg =>
    change (publish env msg r).1.lastpub.get topic = some now at hnow
    rw [(published_publish env msg r).lastpub] at hnow
    split at hnow
    · rename_i hfans
      exact ⟨env, msg, by simp, hfans.1, by simpa using hnow⟩
    · exact (h topic now hnow).append
  | change peers topics outbound => exact (h topic now hnow).append

/-- After any history. -/
theorem tidy_dated (hD : 1 ≤ r.options.D) (h : r.Fresh) (events : List (Event S)) :
    Tidy (after (next gossipsub) r events) ∧ Dated events (after (next gossipsub) r events) := by
  have hall : (after (next gossipsub) r events).options = r.options ∧
      Tidy (after (next gossipsub) r events) ∧ Dated events (after (next gossipsub) r events) := by
    refine after_invariant (I := fun events r' => r'.options = r.options ∧ Tidy r' ∧ Dated events r')
      ⟨rfl, h.tidy, h.dated⟩ ?_ events
    rintro es r' e ⟨hoptions, htidy, hdated⟩
    refine ⟨(next_options gossipsub r' e).trans hoptions, tidy_next ?_ htidy, dated_next hdated⟩
    rwa [hoptions]
  exact hall.2

theorem tidied_heartbeat {events : List (Event S)} (htidy : Tidy r) (hdated : Dated events r)
    (hclock : Ordered (events ++ [.heartbeat env])) :
    Tidied events env (next gossipsub r (.heartbeat env)) := by
  constructor
  · intro topic f hf
    obtain ⟨now, hnow⟩ := (tidy_heartbeat htidy).stamped topic f hf
    have hlast := hnow
    change (heartbeat gossipsub env r).router.lastpub.get topic = some now at hlast
    rw [heartbeat_lastpub, Option.filter_eq_some_iff, Bool.not_eq_true'] at hlast
    have hpublished := hdated topic now hlast.1
    have hrecent : env.now ≤ now + relayFanoutTTL := not_lt.mp (of_decide_eq_false hlast.2)
    exact ⟨now, hnow, hpublished, hclock.le hpublished, Int.sub_left_le_of_le_add hrecent⟩
  · intro topic f hf id hid
    obtain ⟨f', _, _, rfl⟩ := heartbeat_fanout_some hf
    rcases mem_fanoutRound hid with ⟨_, hkeeps⟩ | hadds
    · exact hkeeps
    · exact hadds.keeps

theorem run_fanout_tidy (gossipsub : Gossipsub) (hD : 1 ≤ r.options.D) (hr : r.Fresh)
    (events : List (Event S)) (hclock : Ordered events) :
    Tidy (run gossipsub r events).1 ∧
      ∀ history env, events = history ++ [.heartbeat env] →
        Tidied history env (run gossipsub r events).1 := by
  rw [run_fst]
  refine ⟨(tidy_dated hD hr events).1, ?_⟩
  rintro history env rfl
  have hbefore : Tidy (after (next gossipsub) r history) ∧
      Dated history (after (next gossipsub) r history) := tidy_dated hD hr history
  rw [after, List.foldl_append]
  exact tidied_heartbeat hbefore.1 hbefore.2 hclock

end

namespace Lingering

def events : List (Event Int) :=
  [.publish (Rejoin.clock 0 1) ⟨none, "b", ["news"]⟩, .heartbeat (Rejoin.clock 60000 1)]

theorem ordered : Ordered events := by
  simp [Ordered, events, Event.time, Rejoin.clock]

end Lingering

theorem run_fanout_tidy_lingering :
    (run .standard Rejoin.router Lingering.events).1.fanout.get "news" ≠ none ∧
      Tidy (run .standard Rejoin.router Lingering.events).1 := by
  refine ⟨by decide, ?_⟩
  exact (run_fanout_tidy .standard (by decide) ⟨rfl, rfl, rfl⟩ Lingering.events
    Lingering.ordered).1

end Relay
end JsWaku
