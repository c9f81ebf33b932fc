import JsWaku.Node.KeepAlive
import JsWaku.Relay.Delivery

/-!
# JsWaku.Node.Pings

What the keep-alive timers do when they go off (`lib/waku.ts`), and what other nodes make of it.

* `Running`  — a node with its timers, the pings it has made and the messages it has sent.
* `GoneOff`  — the timers of connected peers that have gone off, in order.
* `keepAlive_traffic` — these account for each ping and each message; a message reaches the callbacks
  for all content topics, and those for its own.
-/

namespace JsWaku
namespace Node

open Js Trace Relay Relay.WakuRelay SymmetricCrypto

def relayPingContentTopic : String := "/relay-ping/1/ping/null"

/-- `promised` are messages whose `then` has not run, the oldest first. -/
structure Running where
  keepAlive : KeepAlive
  pinged : List PeerId
  promised : List WakuMessage
  sent : List (Topic × Bytes)

inductive Happening where
  | connection (e : Event)
  | fires (handle : Handle) (draws : Draws)
  | resolves

def Happening.event : Happening → Option Event
  | .connection e => some e
  | _ => none

/-- The part of a node that its timers use. -/
structure Sending (β κ ρ : Type) where
  options : KeepAliveOptions
  libs : Libs
  rt : Runtime
  codec : Proto.Codec
  relay : WakuRelay β κ ρ

namespace Running

variable {β κ ρ : Type} (node : Sending β κ ρ)

def new : Running := ⟨.new, [], [], []⟩

/-- The callback of `setInterval`: `Ping(..)`, or `WakuMessage.fromBytes(..).then(..)`. A promise that
is rejected is not handled. -/
def fire (w : Running) (interval : Interval) (draws : Draws) : Running :=
  match interval.kind with
  | .ping => { w with pinged := w.pinged ++ [interval.peer] }
  | .relay =>
    match fromBytes node.libs node.rt draws [] relayPingContentTopic none with
    | .ok message => { w with promised := w.promised ++ [message] }
    | .error _ => w

def step (w : Running) : Happening → Running
  | .connection e => { w with keepAlive := on node.options w.keepAlive e }
  | .fires handle draws =>
    match w.keepAlive.intervals.get handle with
    | some interval => w.fire node interval draws
    | none => w
  | .resolves =>
    match w.promised with
    | message :: promised =>
      { w with promised := promised, sent := w.sent ++ [node.relay.send node.codec message] }
    | [] => w

end Running

structure Beat where
  kind : Kind
  peer : PeerId
  draws : Draws

def connections (happenings : List Happening) : List Event := happenings.filterMap Happening.event

/-- The timer that is stored for a connected peer. -/
def Ticking (options : KeepAliveOptions) (happenings : List Happening) (kind : Kind) (peer : PeerId)
    (handle : Handle) : Prop :=
  Connected (connections happenings) peer ∧
    ((afterEvents options (connections happenings)).timers kind).get peer = some handle

inductive GoneOff (options : KeepAliveOptions) : List Happening → List Beat → Prop where
  | none : GoneOff options [] []
  | connection {happenings beats} (e : Event) : GoneOff options happenings beats →
      GoneOff options (happenings ++ [.connection e]) beats
  | resolves {happenings beats} : GoneOff options happenings beats →
      GoneOff options (happenings ++ [.resolves]) beats
  | beat {happenings beats handle} (b : Beat) : GoneOff options happenings beats →
      Ticking options happenings b.kind b.peer handle →
      GoneOff options (happenings ++ [.fires handle b.draws]) (beats ++ [b])
  | cleared {happenings beats handle draws} : GoneOff options happenings beats →
      (∀ kind peer, ¬ Ticking options happenings kind peer handle) →
      GoneOff options (happenings ++ [.fires handle draws]) beats

/-- An empty message, of the time at which it is made. -/
def pingMessage (draws : Draws) : WakuMessage :=
  ⟨⟨some [], some relayPingContentTopic, some 0, some draws.now.toSeconds⟩, none, none⟩

def Beat.pings (b : Beat) : Option PeerId :=
  match b.kind with
  | .ping => some b.peer
  | .relay => none

def Beat.message (b : Beat) : Option WakuMessage :=
  match b.kind with
  | .ping => none
  | .relay => some (pingMessage b.draws)

section

variable {β κ ρ : Type} {node : Sending β κ ρ} {happenings : List Happening} {beats : List Beat}
  {w : Running} {draws : Draws}

theorem fromBytes_ping (libs : Libs) (rt : Runtime) (draws : Draws) :
    fromBytes libs rt draws [] relayPingContentTopic none = .ok (pingMessage draws) := rfl

theorem fire_ok (interval : Interval) : w.fire node interval draws =
    { w with
      pinged := w.pinged ++ (Beat.pings ⟨interval.kind, interval.peer, draws⟩).toList
      promised := w.promised ++ (Beat.message ⟨interval.kind, interval.peer, draws⟩).toList } := by
  obtain ⟨kind, peer, seconds⟩ := interval
  cases kind with
  | ping => simp [Running.fire, Beat.pings, Beat.message]
  | relay => simp [Running.fire, fromBytes_ping, Beat.pings, Beat.message]

/-- The beats account for what a node has done. -/
structure Accounts (node : Sending β κ ρ) (happenings : List Happening) (beats : List Beat)
    (w : Running) : Prop where
  keepAlive : w.keepAlive = afterEvents node.options (connections happenings)
  goneOff : GoneOff node.options happenings beats
  pinged : w.pinged = beats.filterMap Beat.pings
  sent : w.sent ++ w.promised.map (node.relay.send node.codec) =
    (beats.filterMap Beat.message).map (node.relay.send node.codec)

theorem connections_append (happenings : List Happening) (h : Happening) :
    connections (happenings ++ [h]) = connections happenings ++ h.event.toList := by
  rw [connections, List.filterMap_append]
  cases h <;> rfl

/-- An interval is live exactly while it is the timer of a connected peer. -/
theorem ticking_iff {options : KeepAliveOptions} {kind : Kind} {peer : PeerId} {handle : Handle} :
    Ticking options happenings kind peer handle ↔
      Live (afterEvents options (connections happenings)) kind peer handle := by
  obtain ⟨hbooked, _⟩ := booked_afterEvents options (connections happenings)
  rw [hbooked.live_iff]
  constructor
  · exact And.right
  · intro htimer
    have hkeeps := keepsAlive_afterEvents options (connections happenings) kind
    exact ⟨(hkeeps.none peer handle (hbooked.live_iff.mpr htimer)).2, htimer⟩

theorem Accounts.fires (h : Accounts node happenings beats w) (handle : Handle) (draws : Draws) :
    ∃ beats, Accounts node (happenings ++ [.fires handle draws]) beats
      (w.step node (.fires handle draws)) := by
  have hconnections : connections (happenings ++ [.fires handle draws]) = connections happenings := by
    rw [connections_append]
    exact List.append_nil _
  cases hlive : w.keepAlive.intervals.get handle with
  | none =>
    refine ⟨beats, ?_⟩
    simp only [Running.step, hlive]
    refine ⟨by rw [hconnections, h.keepAlive], .cleared h.goneOff fun kind peer htick => ?_,
      h.pinged, h.sent⟩
    obtain ⟨interval, hget, _⟩ := ticking_iff.mp htick
    rw [h.keepAlive, hget] at hlive
    cases hlive
  | some interval =>
    let b : Beat := ⟨interval.kind, interval.peer, draws⟩
    have htick : Ticking node.options happenings b.kind b.peer handle := by
      refine ticking_iff.mpr ⟨interval, ?_, rfl, rfl⟩
      rw [← h.keepAlive, hlive]
    refine ⟨beats ++ [b], ?_⟩
    simp only [Running.step, hlive, fire_ok]
    refine ⟨by rw [hconnections, h.keepAlive], .beat b h.goneOff htick, ?_, ?_⟩
    · rw [h.pinged, List.filterMap_append]
      rfl
    · rw [List.map_append, ← List.append_assoc, h.sent, List.filterMap_append, List.map_append]
      rfl

theorem Accounts.step (h : Accounts node happenings beats w) (e : Happening) :
    ∃ beats, Accounts node (happenings ++ [e]) beats (w.step node e) := by
  cases e with
  | connection e =>
    refine ⟨beats, ?_, .connection e h.goneOff, h.pinged, h.sent⟩
    change on node.options w.keepAlive e = _
    rw [connections_append, h.keepAlive]
    unfold afterEvents after
    rw [List.foldl_append]
    rfl
  | fires handle draws => exact h.fires handle draws
  | resolves =>
    have hconnections : connections (happenings ++ [.resolves]) = connections happenings := by
      rw [connections_append]
      exact List.append_nil _
    refine ⟨beats, ?_⟩
    have hsent := h.sent
    cases hpromised : w.promised with
    | nil =>
      simp only [Running.step, hpromised]
      exact ⟨by rw [hconnections, h.keepAlive], .resolves h.goneOff, h.pinged, h.sent⟩
    | cons message promised =>
      simp only [Running.step, hpromised]
      refine ⟨by rw [hconnections, h.keepAlive], .resolves h.goneOff, h.pinged, ?_⟩
      rw [← hsent, hpromised, List.append_assoc]
      rfl

theorem accounts_after (node : Sending β κ ρ) (happenings : List Happening) :
    ∃ beats, Accounts node happenings beats (after (Running.step node) .new happenings) := by
  refine after_invariant (I := fun happenings w => ∃ beats, Accounts node happenings beats w)
    ⟨[], rfl, .none, rfl, rfl⟩ ?_ happenings
  rintro happenings w e ⟨beats, h⟩
  exact h.step e

/-! ## At another node -/

theorem pingMessage_sized (draws : Draws) : (pingMessage draws).proto.Sized where
  payload := by
    rintro _ ⟨⟩
    decide
  contentTopic := by
    rintro _ ⟨⟩
    decide

/-- What the keep-alive of one node comes to, there and at another one. -/
structure Traffic {β' κ' ρ' : Type} [DecidableEq κ'] (node : Sending β κ ρ)
    (happenings : List Happening) (w : Running) (pubsub : Pubsub β') (rc : Receiver κ' ρ')
    (history : List (Call κ' ρ')) (relay : WakuRelay β' κ' ρ') : Prop where
  beats : ∃ beats, Accounts node happenings beats w
  delivered : ∀ sent ∈ w.sent, Delivered pubsub rc history relay sent [] relayPingContentTopic

theorem keepAlive_traffic {β' κ' ρ' : Type} [DecidableEq κ'] [DecidableEq ρ'] (node : Sending β κ ρ)
    (happenings : List Happening) (pubsub : Pubsub β') (pubSubTopic : Option Topic)
    (rc : Receiver κ' ρ') (history : List (Call κ' ρ')) {relay : WakuRelay β' κ' ρ'}
    {text : Proto.TextReader} (hlibs : rc.libs.Lawful) (hcodec : rc.codec = Proto.wireCodec text)
    (hsame : node.codec = rc.codec) (hrelay : relay = afterCalls pubsub pubSubTopic history)
    (htopic : node.relay.pubSubTopic = relay.pubSubTopic)
    (hreceives : pubsub.subscribed relay.pubSubTopic relay.base = true)
    (hordinary : ∀ e ∈ history.filterMap Call.edit, ∀ t ∈ e.topics, t ∉ objectPrototype)
    (hthrows : ∀ r callback, rc.throws r callback = false) :
    Traffic node happenings (after (Running.step node) .new happenings) pubsub rc history relay := by
  obtain ⟨beats, h⟩ := accounts_after node happenings
  refine ⟨⟨beats, h⟩, fun sent hsent => ?_⟩
  have hmem := List.mem_append_left
    ((after (Running.step node) .new happenings).promised.map (node.relay.send node.codec)) hsent
  rw [h.sent, List.mem_map] at hmem
  obtain ⟨message, hmessage, rfl⟩ := hmem
  obtain ⟨b, _, hb⟩ := List.mem_filterMap.mp hmessage
  obtain rfl : pingMessage b.draws = message := by
    unfold Beat.message at hb
    split at hb
    · cases hb
    · exact Option.some.inj hb
  rw [hsame]
  refine send_delivers pubsub pubSubTopic history node.relay hlibs (by decide)
    (fromBytes_ping rc.libs rc.rt b.draws) ?_ hrelay htopic hreceives (.clear rfl rfl) hordinary
    hthrows
  rw [hcodec]
  exact Proto.wireCodec_undoes text (pingMessage_sized b.draws)

end

namespace OneNeighbour

def node : Sending (Bool × OrdSet Topic) Nat Nat :=
  ⟨⟨some (.finite 10), none⟩, .transparent, .node, Restarted.receiver.codec, .new .standard none⟩

/-- Both timers go off, and once more when the neighbour has gone. -/
def happenings : List Happening :=
  [.connection (.connect "a"), .fires 1 Hello.draws, .fires 2 Hello.draws, .resolves,
    .connection (.disconnect "a"), .fires 2 Hello.draws]

theorem ordinary : ∀ e ∈ Restarted.calm.filterMap Call.edit, ∀ t ∈ e.topics,
    t ∉ objectPrototype := by
  decide

end OneNeighbour

/-- The neighbour listens for all content topics. -/
theorem keepAlive_traffic_once : Delivered .standard Restarted.receiver Restarted.calm
    (Restarted.relay Restarted.calm)
    (OneNeighbour.node.relay.send OneNeighbour.node.codec (pingMessage Hello.draws)) []
    relayPingContentTopic :=
  (keepAlive_traffic OneNeighbour.node OneNeighbour.happenings .standard none Restarted.receiver
    Restarted.calm Libs.transparent_lawful rfl rfl rfl rfl (by decide) OneNeighbour.ordinary
    fun _ _ => rfl).delivered _ List.mem_cons_self

end Node
end JsWaku
