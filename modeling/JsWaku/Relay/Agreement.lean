import JsWaku.Relay.Fanout
import JsWaku.Relay.JoinAgain

/-!
# JsWaku.Relay.Agreement

The meshes of a node, and what its peers have been told.

* `sends`  — the control messages an event has for one peer.
* `Linked` — the last thing a peer was told about a topic is a GRAFT.
* `Agreed` — the members of every mesh are the peers who are linked.
* `always_agreed_iff` — that holds all through a run exactly when no join in it leaves out a member
  of the mesh it replaces, and no member of a mesh disconnects.
-/

namespace JsWaku
namespace Relay

open Js Trace

section

variable {S : Type} [LinearOrder S] [Zero S]

/-- One RPC of a heartbeat has both lists; its GRAFTs are dealt with first. -/
def sends (gossipsub : Gossipsub) (r : Router S) (e : Event S) (id : PeerId) :
    List ControlMessage :=
  match e with
  | .heartbeat env =>
    let beat := heartbeat gossipsub env r
    (beat.toGraft id).map (.graft id) ++ (beat.toPrune id).map (.prune id)
  | .join env topic =>
    match join env topic r with
    | .ok (_, grafts) => joinSends (grafts.filter fun g => g.id = id)
    | .error _ => []
  | .publish _ _ => []
  | .change _ _ _ => []

/-- A router, and for each peer what it has been told so far. -/
structure Conversation (S : Type) where
  router : Router S
  told : PeerId → List ControlMessage

def converse (gossipsub : Gossipsub) (s : Conversation S) (e : Event S) : Conversation S where
  router := next gossipsub s.router e
  told id := s.told id ++ sends gossipsub s.router e id

end

/-- What `id` was told has a GRAFT for the topic, and no PRUNE since. -/
def Linked (told : List ControlMessage) (id : PeerId) (topic : Topic) : Prop :=
  Standing (fun m topic => m = .graft id topic) (fun m topic => m = .prune id topic) told topic

section

variable {S : Type}

def Member (r : Router S) (topic : Topic) (id : PeerId) : Prop :=
  ∃ M, r.mesh.get topic = some M ∧ id ∈ M

def Agreed (s : Conversation S) : Prop :=
  ∀ id topic, Member s.router topic id ↔ Linked (s.told id) id topic

theorem member_of_get {r : Router S} {topic : Topic} {M : OrdSet PeerId} {id : PeerId}
    (h : r.mesh.get topic = some M) : Member r topic id ↔ id ∈ M := by
  constructor
  · rintro ⟨M', hM', hid⟩
    rw [h] at hM'
    cases hM'
    exact hid
  · intro hid
    exact ⟨M, h, hid⟩

theorem not_member_of_get {r : Router S} {topic : Topic} {id : PeerId}
    (h : r.mesh.get topic = none) : ¬ Member r topic id := by
  rintro ⟨M, hM, _⟩
  rw [h] at hM
  cases hM

theorem member_change {r : Router S} {topic : Topic} {id : PeerId} {peers : PeerId → Option String}
    {topics : Topic → Option (OrdSet PeerId)} {outbound : PeerId → Bool} :
    Member (r.change peers topics outbound) topic id ↔
      Member r topic id ∧ r.loses peers id = false := by
  constructor
  · rintro ⟨M, hM, hid⟩
    obtain ⟨M', hM', rfl⟩ := change_mesh hM
    rw [OrdSet.mem_filter, Bool.not_eq_true'] at hid
    exact ⟨⟨M', hM', hid.1⟩, hid.2⟩
  · rintro ⟨⟨M, hM, hid⟩, hstays⟩
    refine ⟨_, (OrdMap.get_mapValues _ _ _).trans (congrArg _ hM), ?_⟩
    rw [OrdSet.mem_filter, Bool.not_eq_true']
    exact ⟨hid, hstays⟩

theorem agreed_fresh {r : Router S} (hr : r.Fresh) : Agreed ⟨r, fun _ => []⟩ := by
  intro id topic
  refine iff_of_false (not_member_of_get ?_) not_standing_nil
  change r.mesh.get topic = none
  rw [hr.mesh]
  rfl

end

variable {id : PeerId} {topic : Topic} {grafts prunes : List Topic} {told : List ControlMessage}

theorem linked_append_graft : Linked (told ++ grafts.map (.graft id)) id topic ↔
    topic ∈ grafts ∨ Linked told id topic := by
  unfold Linked
  rw [standing_append_all, standing_iff_puts]
  · simp
  · simp

theorem linked_append_prune : Linked (told ++ prunes.map (.prune id)) id topic ↔
    Linked told id topic ∧ topic ∉ prunes := by
  unfold Linked
  rw [standing_append_all, or_iff_right]
  · simp [List.forall_mem_ne']
  · exact not_standing (by simp)

section

variable {S : Type} {t : Tick S} {topic : Topic} {run : MeshRun} {M : OrdSet PeerId}

/-- The mesh is `M` with the GRAFTs and without the PRUNEs of the heartbeat so far. -/
structure Noted (t : Tick S) (topic : Topic) (M : OrdSet PeerId) (run : MeshRun) : Prop where
  tended : Tended t topic M run
  members : ∀ p, p ∈ run.peers ↔
    (topic ∈ run.control.toGraft p ∨ p ∈ M) ∧ topic ∉ run.control.toPrune p

theorem Noted.prune (h : Noted t topic M run) (id : PeerId) :
    Noted t topic M (prunePeer t topic run id) := by
  refine ⟨h.tended.prune, fun p => ?_⟩
  have hpruned : topic ∈ (prunePeer t topic run id).control.toPrune p ↔
      p = id ∨ topic ∈ run.control.toPrune p := mem_push
  rw [mem_prunePeer, hpruned, h.members p]
  change _ ↔ (topic ∈ run.control.toGraft p ∨ p ∈ M) ∧ _
  tauto

/-- Nobody fit was pruned. -/
theorem Noted.graft {id : PeerId} (h : Noted t topic M run) (hfit : Fit t topic run id) :
    Noted t topic M (graftPeer topic run id) := by
  refine ⟨h.tended.graft hfit, fun p => ?_⟩
  have hgrafted : topic ∈ (graftPeer topic run id).control.toGraft p ↔
      p = id ∨ topic ∈ run.control.toGraft p := mem_push
  have hunpruned : topic ∉ run.control.toPrune id := fun hid => (h.tended.gone id hid).2 hfit.entry
  rw [mem_graftPeer, hgrafted, h.members p]
  change _ ↔ _ ∧ topic ∉ run.control.toPrune p
  constructor
  · rintro (rfl | ⟨hin, hout⟩)
    · exact ⟨.inl (.inl rfl), hunpruned⟩
    · exact ⟨or_assoc.mpr (.inr hin), hout⟩
  · rintro ⟨hin, hout⟩
    exact (or_assoc.mp hin).imp_right fun hin => ⟨hin, hout⟩

theorem noted_kept (t : Tick S) (topic : Topic) (M : OrdSet PeerId) :
    Kept t topic (Noted t topic M) where
  prune _ id h := h.prune id
  graft _ _ hfit h := h.graft hfit
  noPX _ noPX h := ⟨(tended_kept t topic M).noPX _ noPX h.tended, h.members⟩

end

section

variable {S : Type} [LinearOrder S] [Zero S] {gossipsub : Gossipsub} {env : Surroundings S}
  {r : Router S} {topic : Topic} {id : PeerId} {s : Conversation S}

theorem member_heartbeat_iff : Member (next gossipsub r (.heartbeat env)) topic id ↔
    (topic ∈ (heartbeat gossipsub env r).toGraft id ∨ Member r topic id) ∧
      topic ∉ (heartbeat gossipsub env r).toPrune id := by
  change Member (heartbeat gossipsub env r).router topic id ↔ _
  cases hM : r.mesh.get topic with
  | none =>
    obtain ⟨hnone, hquiet⟩ := heartbeat_other gossipsub env hM
    have hgrafted : topic ∉ (heartbeat gossipsub env r).toGraft id :=
      List.count_eq_zero.mp (hquiet.grafted id)
    refine iff_of_false (not_member_of_get hnone) ?_
    rintro ⟨hin, _⟩
    exact hin.elim hgrafted (not_member_of_get hM)
  | some M =>
    obtain ⟨c, hbefore, hmesh, hafter⟩ := heartbeat_round gossipsub env hM
    have hstart : Noted (tickOf gossipsub env r) topic M ⟨M, c⟩ := by
      refine ⟨tended_start hbefore, fun p => ?_⟩
      simp [hbefore.mem_toGraft, hbefore.mem_toPrune, Tick.start]
    have hnoted := (noted_kept (tickOf gossipsub env r) topic M).maintainTopic hstart
    rw [member_of_get hmesh, member_of_get hM, hnoted.members id, ← hafter.mem_toGraft,
      ← hafter.mem_toPrune]
    rfl

theorem linked_heartbeat_iff {told : List ControlMessage} :
    Linked (told ++ sends gossipsub r (.heartbeat env) id) id topic ↔
      (topic ∈ (heartbeat gossipsub env r).toGraft id ∨ Linked told id topic) ∧
        topic ∉ (heartbeat gossipsub env r).toPrune id := by
  rw [sends, ← List.append_assoc, linked_append_prune, linked_append_graft]

theorem agreed_heartbeat (h : Agreed s) : Agreed (converse gossipsub s (.heartbeat env)) := by
  intro id topic
  rw [converse, member_heartbeat_iff, linked_heartbeat_iff, h id topic]

/-- A join chooses the members of the mesh that it replaces, if there is one; no member of a mesh
disconnects. -/
def Retains (r : Router S) : Event S → Prop
  | .join env topic => r.started = true → ∀ id, Member r topic id → id ∈ joinPeers env topic r
  | .heartbeat _ => True
  | .publish _ _ => True
  | .change peers _ _ => ∀ id topic, Member r topic id → r.loses peers id = false

theorem sends_join (hstarted : r.started = true) : sends gossipsub r (.join env topic) id =
    (if id ∈ joinPeers env topic r then [topic] else []).map (.graft id) := by
  obtain ⟨r', _, hjoin⟩ := @join_ok S _ _ env topic r hstarted
  have hfilter : (joinPeers env topic r).toList.filter (fun p => p = id) =
      if id ∈ joinPeers env topic r then [id] else [] := by
    rw [List.filter_eq, (joinPeers env topic r).nodup.count]
    by_cases hmem : id ∈ (joinPeers env topic r).toList <;> simp [OrdSet.mem_def, hmem]
  simp only [sends, hjoin, joinSends, List.filter_map, Function.comp_def, hfilter]
  split <;> rfl

theorem linked_join_iff {told : List ControlMessage} (hstarted : r.started = true)
    (topic' : Topic) : Linked (told ++ sends gossipsub r (.join env topic) id) id topic' ↔
      (topic = topic' ∧ id ∈ joinPeers env topic r) ∨ Linked told id topic' := by
  rw [sends_join hstarted, linked_append_graft]
  refine or_congr_left ?_
  split
  · rename_i hmem
    simp [hmem, eq_comm]
  · rename_i hout
    simp [hout]

theorem member_join (hstarted : r.started = true) (topic' : Topic) :
    Member (next gossipsub r (.join env topic)) topic' id ↔
      if topic = topic' then id ∈ joinPeers env topic r else Member r topic' id := by
  have hset : Member { r with mesh := r.mesh.set topic (joinPeers env topic r) } topic' id ↔
      if topic = topic' then id ∈ joinPeers env topic r else Member r topic' id := by
    unfold Member
    rw [OrdMap.get_set]
    split
    · simp
    · rfl
  rcases next_join_cases gossipsub env topic r with ⟨hoff, _⟩ | ⟨_, _, heq⟩ | ⟨_, _, heq⟩
  · rw [hstarted] at hoff
    cases hoff
  · rw [heq]
    exact hset
  · rw [heq]
    exact hset

theorem agreed_join_iff (h : Agreed s) : Agreed (converse gossipsub s (.join env topic)) ↔
    Retains s.router (.join env topic) := by
  by_cases hstarted : s.router.started = true
  · have hpeer : ∀ id topic', (Member (converse gossipsub s (.join env topic)).router topic' id ↔
        Linked ((converse gossipsub s (.join env topic)).told id) id topic') ↔
          (topic = topic' → Member s.router topic id → id ∈ joinPeers env topic s.router) := by
      intro id topic'
      rw [converse, member_join hstarted, linked_join_iff hstarted, ← h id topic']
      by_cases htopic : topic = topic'
      · subst htopic
        simp
      · simp [htopic]
    constructor
    · intro hagreed _ id
      exact (hpeer id topic).mp (hagreed id topic) rfl
    · intro hretains id topic'
      exact (hpeer id topic').mpr fun _ => hretains hstarted id
  · have hoff : converse gossipsub s (.join env topic) = s := by
      simp [converse, next, step, sends, join, hstarted]
    rw [hoff]
    exact iff_of_true h fun hon => absurd hon hstarted

/-- Whoever disconnects is told nothing. -/
theorem agreed_change_iff {peers : PeerId → Option String}
    {topics : Topic → Option (OrdSet PeerId)} {outbound : PeerId → Bool} (h : Agreed s) :
    Agreed (converse gossipsub s (.change peers topics outbound)) ↔
      Retains s.router (.change peers topics outbound) := by
  have hpeer : ∀ id topic,
      (Member (converse gossipsub s (.change peers topics outbound)).router topic id ↔
        Linked ((converse gossipsub s (.change peers topics outbound)).told id) id topic) ↔
          (Member s.router topic id → s.router.loses peers id = false) := by
    intro id topic
    change (Member (s.router.change peers topics outbound) topic id ↔
      Linked (s.told id ++ []) id topic) ↔ _
    rw [member_change, List.append_nil, ← h id topic]
    exact and_iff_left_iff_imp
  exact forall₂_congr hpeer

theorem agreed_converse_iff (e : Event S) (h : Agreed s) :
    Agreed (converse gossipsub s e) ↔ Retains s.router e := by
  cases e with
  | heartbeat env => exact iff_of_true (agreed_heartbeat h) trivial
  | join env topic => exact agreed_join_iff h
  | publish env msg =>
    refine iff_of_true ?_ trivial
    intro id topic
    have hmesh : (publish env msg s.router).1.mesh = s.router.mesh :=
      (published_publish env msg s.router).mesh
    change (∃ M, (publish env msg s.router).1.mesh.get topic = some M ∧ id ∈ M) ↔
      Linked (s.told id ++ []) id topic
    rw [hmesh, List.append_nil]
    exact h id topic
  | change peers topics outbound => exact agreed_change_iff h

/-! ## Runs -/

variable {events : List (Event S)}

theorem always_agreed_iff (hr : r.Fresh) :
    Always (converse gossipsub) Agreed ⟨r, fun _ => []⟩ events ↔
      Throughout (converse gossipsub) (fun s e => Retains s.router e) ⟨r, fun _ => []⟩ events :=
  always_iff_throughout (fun _ e h => agreed_converse_iff e h) (agreed_fresh hr)

end

/-- The one join of the run finds no mesh. -/
theorem always_agreed_calm : Always (converse .standard) Agreed ⟨Rejoin.router, fun _ => []⟩
    Rejoin.calm := by
  refine (always_agreed_iff ⟨rfl, rfl, rfl⟩).mpr ⟨?_, trivial, trivial, trivial⟩
  rintro _ id ⟨M, hM, _⟩
  cases hM

end Relay
end JsWaku
