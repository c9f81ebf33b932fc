import JsWaku.Lib.Flood
import JsWaku.Relay.Bounds
import Mathlib.Algebra.Order.BigOperators.Group.List
import Mathlib.Algebra.Order.Group.Nat

/-!
# JsWaku.Relay.Network

Many relay nodes, and a message on its way through them.

`libp2p-gossipsub` hands a message to `_publish` when it first sees it, be it the node's own or one that
came in, and drops it when it comes in again.

* `Network.step` — a copy of the message arrives somewhere, or a node goes through an event of its own.
* `spreads_run`  — whatever the order, that is a flood.
* `network_heard_iff` — when all copies have arrived, those have the message who are linked to the
  author by peers that each went to address the next, though nobody sends it to the author.
* `network_frugal`    — nobody passes it on twice, and no more copies are sent than a bound for each
  node that has it.
-/

namespace JsWaku
namespace Relay

open Js Trace Flood

section

variable {S : Type}

/-- What `_publish` goes by. -/
structure Hearing (S : Type) where
  env : Surroundings S
  router : Router S

structure Network (S : Type) where
  routers : PeerId → Router S
  spread : Flood.State PeerId (Hearing S)

inductive NetEvent (S : Type) where
  /-- The copy in place `i` of those on their way arrives. -/
  | arrive (i : Nat) (env : Surroundings S)
  | own (id : PeerId) (e : Event S)

theorem settled_update {origin routers : PeerId → Router S}
    (h : ∀ id, Settled (origin id) (routers id)) {id : PeerId} {r : Router S}
    (hr : Settled (origin id) r) (id' : PeerId) :
    Settled (origin id') (Function.update routers id r id') := by
  rw [Function.update_apply]
  split
  · rename_i heq
    rw [heq]
    exact hr
  · exact h id'

variable [LinearOrder S]

/-- `takes u w`: the classes above `WakuRelay` let in at `w` what comes from `u`. -/
def rules (takes : PeerId → PeerId → Bool) (msg : InMessage) :
    Rules PeerId (Hearing S) where
  addresses k w := ∃ topic ∈ msg.topicIDs, Known k.router topic ∧
    (w ∈ k.router.direct ∨ w ∈ targets k.env topic k.router)
  tells k := (publish k.env msg k.router).2
  takes u w := takes u w = true

variable (gossipsub : Gossipsub) (takes : PeerId → PeerId → Bool) (msg : InMessage)

def Network.hear (s : Network S) (id : PeerId) (env : Surroundings S) : Network S where
  routers := Function.update s.routers id (publish env msg (s.routers id)).1
  spread := s.spread.pass (rules takes msg) id ⟨env, s.routers id⟩

/-- The author publishes the message. -/
def Network.announce (routers : PeerId → Router S) (author : PeerId) (env : Surroundings S) :
    Network S :=
  Network.hear takes { msg with receivedFrom := author } ⟨routers, .silent⟩ author env

def Network.step [Zero S] (s : Network S) : NetEvent S → Network S
  | .own id e => { s with routers := Function.update s.routers id (next gossipsub (s.routers id) e) }
  | .arrive i env =>
    match s.spread.inFlight[i]? with
    | none => s
    | some (src, dst) =>
      let rest := { s with spread := { s.spread with inFlight := s.spread.inFlight.eraseIdx i } }
      if takes src dst = true ∧ dst ∉ s.spread.hearers then
        Network.hear takes { msg with receivedFrom := src } rest dst env
      else rest

end

section

variable {S : Type} [LinearOrder S] {gossipsub : Gossipsub} {takes : PeerId → PeerId → Bool}
  {msg : InMessage} {author : PeerId} {s : Network S}

/-- Only the author is left out, who has the message. -/
theorem passes_publish (hfrom : ∀ id, msg.«from» = some id → id = author) {hearers : List PeerId}
    (hauthor : author ∈ hearers) (k : Hearing S) : Passes (rules takes msg) hearers k where
  nodup := publish_nodup k.env msg k.router
  addressed w hw := (mem_publish.mp hw).2
  others w hw := by
    by_cases h : msg.«from» = some w
    · rw [hfrom w h]
      exact .inr hauthor
    · exact .inl (mem_publish.mpr ⟨h, hw⟩)

theorem split_of_getElem? {α : Type} {l : List α} {i : Nat} {a : α} (h : l[i]? = some a) :
    ∃ before after, l = before ++ a :: after ∧ l.eraseIdx i = before ++ after := by
  obtain ⟨hi, rfl⟩ := List.getElem?_eq_some_iff.mp h
  refine ⟨l.take i, l.drop (i + 1), ?_, List.eraseIdx_eq_take_drop_succ l i⟩
  rw [← List.drop_eq_getElem_cons hi, List.take_append_drop]

variable [Zero S]

theorem spreads_step (hfrom : ∀ id, msg.«from» = some id → id = author)
    (h : Spreads (rules takes msg) author s.spread) (e : NetEvent S) :
    Spreads (rules takes msg) author (Network.step gossipsub takes msg s e).spread := by
  cases e with
  | own id e => exact h
  | arrive i env =>
    simp only [Network.step]
    cases hcopy : s.spread.inFlight[i]? with
    | none => exact h
    | some copy =>
      obtain ⟨src, dst⟩ := copy
      obtain ⟨before, after, hsplit, herase⟩ := split_of_getElem? hcopy
      have hspread : s.spread = ⟨s.spread.heard, before ++ (src, dst) :: after, s.spread.sent⟩ := by
        rw [← hsplit]
      rw [hspread] at h
      simp only [herase]
      split
      · rename_i htaken
        exact .passed h htaken.1 htaken.2
          (passes_publish hfrom (List.mem_cons_of_mem _ h.invariant.started) _)
      · rename_i htaken
        exact .dropped h fun htakes => by
          by_contra hnew
          exact htaken ⟨htakes, hnew⟩

theorem spreads_run (hfrom : ∀ id, msg.«from» = some id → id = author)
    (routers : PeerId → Router S) (env : Surroundings S) (events : List (NetEvent S)) :
    Spreads (rules takes msg) author (after (Network.step gossipsub takes msg)
      (.announce takes msg routers author env) events).spread := by
  refine after_invariant (I := fun _ (s : Network S) => Spreads (rules takes msg) author s.spread)
    ?_ (fun _ _ e h => spreads_step hfrom h e) events
  exact .start (passes_publish hfrom List.mem_cons_self _)

theorem network_heard_iff (gossipsub : Gossipsub)
    (hfrom : ∀ id, msg.«from» = some id → id = author)
    (routers : PeerId → Router S) (env : Surroundings S) (events : List (NetEvent S))
    {s : Network S} (hs : s = after (Network.step gossipsub takes msg)
      (.announce takes msg routers author env) events)
    (hquiet : s.spread.inFlight = []) (id : PeerId) :
    id ∈ s.spread.hearers ↔
      Relation.ReflTransGen (Link (rules takes msg) s.spread) author id := by
  subst hs
  exact heard_iff (spreads_run hfrom routers env events) hquiet

/-! ## What it costs -/

/-- The most copies that a node can send. -/
def copies (msg : InMessage) (r : Router S) : Nat :=
  r.direct.size + msg.topicIDs.dedup.length * (r.options.Dhi + r.options.Dout)

/-- Nobody passes the message on twice, no link is used twice in a direction, and the copies are few. -/
structure Frugal (msg : InMessage) (origin : PeerId → Router S) (s : Network S) : Prop where
  hearers : s.spread.hearers.Nodup
  links : s.spread.sent.Nodup
  copies : s.spread.sent.length ≤ (s.spread.hearers.map fun id => copies msg (origin id)).sum

/-- Every router, then and now, comes of a run of its own. -/
structure Grown (origin : PeerId → Router S) (s : Network S) : Prop where
  now : ∀ id, Settled (origin id) (s.routers id)
  heard : ∀ e ∈ s.spread.heard, Settled (origin e.1) e.2.router

variable {origin : PeerId → Router S}

theorem grown_hear (hopts : ∀ id, (origin id).options.Sane) (hD : ∀ id, 1 ≤ (origin id).options.D)
    (gossipsub : Gossipsub) (h : Grown origin s) (id : PeerId) (env : Surroundings S) :
    Grown origin (Network.hear takes msg s id env) where
  now := settled_update h.now
    (settled_next gossipsub (hopts id) (hD id) (h.now id) (.publish env msg))
  heard := List.forall_mem_cons.mpr ⟨h.now id, h.heard⟩

theorem grown_step (hopts : ∀ id, (origin id).options.Sane) (hD : ∀ id, 1 ≤ (origin id).options.D)
    (h : Grown origin s) (e : NetEvent S) :
    Grown origin (Network.step gossipsub takes msg s e) := by
  cases e with
  | own id e =>
    exact ⟨settled_update h.now (settled_next gossipsub (hopts id) (hD id) (h.now id) e), h.heard⟩
  | arrive i env =>
    simp only [Network.step]
    split
    · exact h
    · rename_i src dst _
      have hrest : Grown origin { s with
          spread := { s.spread with inFlight := s.spread.inFlight.eraseIdx i } } := ⟨h.now, h.heard⟩
      split
      · exact grown_hear hopts hD gossipsub hrest dst env
      · exact hrest

theorem network_frugal (gossipsub : Gossipsub)
    (hfrom : ∀ id, msg.«from» = some id → id = author)
    (hfresh : ∀ id, (origin id).Fresh) (hopts : ∀ id, (origin id).options.Sane)
    (hD : ∀ id, 1 ≤ (origin id).options.D) (history : PeerId → List (Event S))
    (env : Surroundings S) (events : List (NetEvent S)) :
    Frugal msg origin (after (Network.step gossipsub takes msg) (.announce takes msg
      (fun id => (run gossipsub (origin id) (history id)).1) author env) events) := by
  have hinv := (@spreads_run S _ gossipsub takes msg author _ hfrom
    (fun id => (run gossipsub (origin id) (history id)).1) env events).invariant
  have hgrown : Grown origin (after (Network.step gossipsub takes msg) (.announce takes msg
      (fun id => (run gossipsub (origin id) (history id)).1) author env) events) := by
    refine after_invariant (I := fun _ s => Grown origin s) ?_
      (fun _ _ e h => grown_step hopts hD h e) events
    refine grown_hear hopts hD gossipsub ⟨fun id => ?_, List.forall_mem_nil _⟩ author env
    exact settled_run gossipsub (hopts id) (hD id) (hfresh id) (history id)
  refine ⟨hinv.nodup, hinv.sent_nodup, ?_⟩
  rw [hinv.sent_length, State.hearers, List.map_map]
  refine List.sum_le_sum fun e he => ?_
  have h := hgrown.heard e he
  have hle := size_publish_le (h.options ▸ hopts e.1) (h.options ▸ hD e.1) h.bounded h.tidy e.2.env msg
  rwa [h.options, h.direct] at hle

end

namespace TwoNodes

/-- One of them knows of the other. -/
def origin (id : PeerId) : Router Int :=
  if id = "b" then Rejoin.router else { Rejoin.router with topics := fun _ => none }

def message : InMessage := ⟨none, "b", ["news"]⟩

def takes (_ _ : PeerId) : Bool := true

def arrivals : List (NetEvent Int) :=
  [.own "b" (.heartbeat (Rejoin.clock 1000 1)), .arrive 0 (Rejoin.clock 2000 1)]

def network : Network Int :=
  after (Network.step .standard takes message)
    (.announce takes message origin "b" (Rejoin.clock 0 1)) arrivals

theorem hearers : network.spread.hearers = ["a", "b"] := by decide

theorem fresh (id : PeerId) : (origin id).Fresh := by
  unfold origin
  split <;> exact ⟨rfl, rfl, rfl⟩

theorem options (id : PeerId) : (origin id).options = Rejoin.router.options := by
  unfold origin
  split <;> rfl

end TwoNodes

theorem network_heard_iff_two : Relation.ReflTransGen
    (Link (rules TwoNodes.takes TwoNodes.message) TwoNodes.network.spread) "b" "a" :=
  (network_heard_iff .standard (by rintro id ⟨⟩) TwoNodes.origin (Rejoin.clock 0 1) TwoNodes.arrivals
    rfl (by decide) "a").mp (show "a" ∈ TwoNodes.network.spread.hearers by
      rw [TwoNodes.hearers]; decide)

theorem network_frugal_two : Frugal TwoNodes.message TwoNodes.origin TwoNodes.network :=
  @network_frugal Int _ TwoNodes.takes TwoNodes.message "b" _ TwoNodes.origin .standard
    (by rintro id ⟨⟩) TwoNodes.fresh (fun id => by rw [TwoNodes.options]; exact rejoin_sane)
    (fun id => by rw [TwoNodes.options]; decide) (fun _ => []) (Rejoin.clock 0 1) TwoNodes.arrivals

end Relay
end JsWaku
