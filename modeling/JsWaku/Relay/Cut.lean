import JsWaku.Lib.Gather
import JsWaku.Relay.Mesh

/-!
# JsWaku.Relay.Cut

Whom the cut of an oversized mesh keeps.

* `picked` — the first `D` peers before anyone is moved: the best by score, then others at random.
* `staying_eq` — when too few of those are outbound: outbound peers from outside, all the outbound
  ones picked, and the rest of the picked in their order as far as there is room.
* `trimmed_cutDown` — `D` members stay, enough of them outbound, and the others are pruned once.
* `cutDown_keeps_best_iff` — when the best by score all stay.
-/

namespace JsWaku
namespace Relay

open Js Gather

section

variable {S : Type} {t : Tick S} {topic : Topic} {run : MeshRun}

theorem rotate_eq (peersArray : List PeerId) (i : Nat) : rotate peersArray i = toFront peersArray i := by
  unfold rotate toFront
  cases peersArray[i]? with
  | none => rfl
  | some p => rfl

theorem bubbleUp_eq (t : Tick S) (steps i need : Nat) (peersArray : List PeerId) :
    bubbleUp t steps i need peersArray = gather t.router.outbound steps i need peersArray := by
  induction steps generalizing i need peersArray with
  | zero => rfl
  | succ steps ih =>
    rw [bubbleUp, gather, ih, ih, rotate_eq]

/-- Both scans in a row, over `xs` and then over `post`: `need` outbound peers of `post` come first,
then the outbound ones of `xs`, then the others of `xs`. -/
theorem bubbleUp_twice (t : Tick S) (xs post : List PeerId) (need : Nat) :
    ∃ outs rest, outs.Perm (xs.filter t.router.outbound) ∧
      bubbleUp t post.length xs.length need
        (bubbleUp t (xs.length - 1) 1 (outboundCount t xs) (xs ++ post)) =
      (found t.router.outbound need post).reverse ++
        (outs ++ xs.filter (!t.router.outbound ·)) ++ rest := by
  obtain ⟨outs, hperm, hfront⟩ := gather_front t.router.outbound xs post
  have hlength : (outs ++ xs.filter (!t.router.outbound ·)).length = xs.length := by
    have h := (hperm.append_right (xs.filter (!t.router.outbound ·))).trans
      (List.filter_append_perm t.router.outbound xs)
    exact h.length_eq
  have hscan := gather_append t.router.outbound (outs ++ xs.filter (!t.router.outbound ·)) post []
    need
  rw [hlength, List.append_nil] at hscan
  refine ⟨outs, spared t.router.outbound need post, hperm, ?_⟩
  rw [bubbleUp_eq, bubbleUp_eq, outboundCount, hfront, ← List.append_assoc, hscan]
  simp

/-- A mesh that is cut has members enough for the places. -/
theorem D_le_length (hD : t.opts.D ≤ t.opts.Dhi) (hover : t.opts.Dhi < run.peers.size) :
    t.opts.D ≤ run.peers.toList.length :=
  hD.trans (Nat.le_of_lt hover)

end

section

variable {S : Type} [LinearOrder S] {t : Tick S} {topic : Topic} {run : MeshRun} {p : PeerId}

/-- The `Dscore` highest-scored members. -/
def best (t : Tick S) (peers : List PeerId) : List PeerId :=
  (sortDescending t peers).take t.opts.Dscore

def others (t : Tick S) (topic : Topic) (peers : List PeerId) : List PeerId :=
  t.shuffles.run .cut topic ((sortDescending t peers).drop t.opts.Dscore)

def picked (t : Tick S) (topic : Topic) (peers : List PeerId) : List PeerId :=
  (best t peers ++ others t topic peers).take t.opts.D

def passedOver (t : Tick S) (topic : Topic) (peers : List PeerId) : List PeerId :=
  (best t peers ++ others t topic peers).drop t.opts.D

def staying (t : Tick S) (topic : Topic) (peers : List PeerId) : List PeerId :=
  (cutOrder t topic peers).take t.opts.D

theorem best_others_perm (t : Tick S) (topic : Topic) (peers : List PeerId) :
    (best t peers ++ others t topic peers).Perm peers := by
  refine ((t.shuffles.perm _ _ _).append_left _).trans ?_
  rw [best, List.take_append_drop]
  exact List.perm_insertionSort _ _

theorem picked_passedOver (t : Tick S) (topic : Topic) (peers : List PeerId) :
    picked t topic peers ++ passedOver t topic peers = best t peers ++ others t topic peers :=
  List.take_append_drop _ _

theorem picked_length (topic : Topic) {peers : List PeerId} (h : t.opts.D ≤ peers.length) :
    (picked t topic peers).length = t.opts.D := by
  rw [picked, List.length_take, (best_others_perm t topic peers).length_eq]
  omega

theorem passedOver_length (topic : Topic) (peers : List PeerId) :
    (passedOver t topic peers).length = peers.length - t.opts.D := by
  rw [passedOver, List.length_drop, (best_others_perm t topic peers).length_eq]

theorem outboundCount_picked_add (t : Tick S) (topic : Topic) (peers : List PeerId) :
    outboundCount t (picked t topic peers) + outboundCount t (passedOver t topic peers) =
      outboundCount t peers := by
  rw [outboundCount, outboundCount, ← List.countP_append, picked_passedOver]
  exact (best_others_perm t topic peers).countP_eq _

theorem outboundCount_picked_le (t : Tick S) (topic : Topic) (peers : List PeerId) :
    outboundCount t (picked t topic peers) ≤ t.opts.D :=
  List.countP_le_length.trans (List.length_take_le _ _)

theorem staying_of_enough (peers : List PeerId)
    (h : t.opts.Dout ≤ outboundCount t (picked t topic peers)) :
    staying t topic peers = picked t topic peers := by
  have hnot : ¬ outboundCount t (picked t topic peers) < t.opts.Dout := Nat.not_lt.mpr h
  simp only [picked, best, others] at hnot
  simp only [staying, cutOrder, if_neg hnot]
  rfl

/-- The members that come in from outside. -/
def broughtIn (t : Tick S) (topic : Topic) (peers : List PeerId) : List PeerId :=
  found t.router.outbound (t.opts.D - outboundCount t (picked t topic peers))
    (passedOver t topic peers)

theorem broughtIn_length (t : Tick S) (topic : Topic) (peers : List PeerId) :
    (broughtIn t topic peers).length = min (t.opts.D - outboundCount t (picked t topic peers))
      (outboundCount t (passedOver t topic peers)) := found_length

theorem cutOrder_eq {peers : List PeerId} (hD : t.opts.D ≤ peers.length)
    (h : outboundCount t (picked t topic peers) < t.opts.Dout) :
    ∃ outs rest, outs.Perm ((picked t topic peers).filter t.router.outbound) ∧
      cutOrder t topic peers = (broughtIn t topic peers).reverse ++
        (outs ++ (picked t topic peers).filter (!t.router.outbound ·)) ++ rest := by
  obtain ⟨outs, rest, hperm, heq⟩ := bubbleUp_twice t (picked t topic peers)
    (passedOver t topic peers) (t.opts.D - outboundCount t (picked t topic peers))
  refine ⟨outs, rest, hperm, ?_⟩
  rw [picked_length topic hD, passedOver_length, picked_passedOver] at heq
  rw [broughtIn, ← heq]
  have hfirst : (if 0 < outboundCount t (picked t topic peers) then
        bubbleUp t (t.opts.D - 1) 1 (outboundCount t (picked t topic peers))
          (best t peers ++ others t topic peers)
      else best t peers ++ others t topic peers) =
      bubbleUp t (t.opts.D - 1) 1 (outboundCount t (picked t topic peers))
        (best t peers ++ others t topic peers) := by
    split
    · rfl
    · rename_i hzero
      rw [Nat.eq_zero_of_not_pos hzero, bubbleUp_eq, gather_none]
  have hlength := (bubbleUp_perm (t := t) (t.opts.D - 1) 1 (outboundCount t (picked t topic peers))
    (best t peers ++ others t topic peers)).trans (best_others_perm t topic peers)
  rw [← hlength.length_eq, ← hfirst]
  simp only [picked, best, others] at h
  simp only [cutOrder, if_pos h]
  rfl

/-- The places left for peers that are not outbound. -/
def room (t : Tick S) (topic : Topic) (peers : List PeerId) : Nat :=
  t.opts.D - outboundCount t (picked t topic peers) - (broughtIn t topic peers).length

theorem staying_eq {peers : List PeerId} (hD : t.opts.D ≤ peers.length)
    (h : outboundCount t (picked t topic peers) < t.opts.Dout) :
    ∃ outs, outs.Perm ((picked t topic peers).filter t.router.outbound) ∧
      staying t topic peers = (broughtIn t topic peers).reverse ++ outs ++
        ((picked t topic peers).filter (!t.router.outbound ·)).take (room t topic peers) := by
  obtain ⟨outs, rest, hperm, heq⟩ := cutOrder_eq hD h
  have houts : outs.length = outboundCount t (picked t topic peers) := by
    rw [hperm.length_eq, ← List.countP_eq_length_filter]
    rfl
  have hrest : ((picked t topic peers).filter (!t.router.outbound ·)).length +
      outboundCount t (picked t topic peers) = t.opts.D := by
    have hlength := (List.filter_append_perm t.router.outbound (picked t topic peers)).length_eq
    rw [List.length_append, picked_length topic hD, ← List.countP_eq_length_filter] at hlength
    unfold outboundCount
    omega
  have hin := broughtIn_length t topic peers
  have hfront : ((broughtIn t topic peers).reverse ++ outs).length + room t topic peers =
      t.opts.D := by
    rw [List.length_append, List.length_reverse, houts, room]
    omega
  refine ⟨outs, hperm, ?_⟩
  rw [staying, heq, ← hfront, ← List.append_assoc, List.append_assoc, List.take_length_add_append,
    List.take_append_of_le_length]
  rw [room]
  omega

theorem mem_staying_iff {peers : List PeerId} (hD : t.opts.D ≤ peers.length)
    (h : outboundCount t (picked t topic peers) < t.opts.Dout) :
    p ∈ staying t topic peers ↔ p ∈ broughtIn t topic peers ∨
      (p ∈ picked t topic peers ∧ t.router.outbound p = true) ∨
      p ∈ ((picked t topic peers).filter (!t.router.outbound ·)).take (room t topic peers) := by
  obtain ⟨outs, hperm, heq⟩ := staying_eq hD h
  rw [heq, List.mem_append, List.mem_append, List.mem_reverse, hperm.mem_iff, List.mem_filter,
    or_assoc]

theorem cutDown_eq (topic : Topic) (hover : t.opts.Dhi < run.peers.size) :
    cutDown t topic run = (excess t topic run.peers).foldl (prunePeer t topic) run :=
  if_pos hover

theorem mem_excess_iff (hmem : p ∈ run.peers) :
    p ∈ excess t topic run.peers ↔ ¬ p ∈ staying t topic run.peers.toList := by
  have hnodup : (cutOrder t topic run.peers.toList).Nodup :=
    (cutOrder_perm _).nodup_iff.mpr run.peers.nodup
  have hin : p ∈ cutOrder t topic run.peers.toList := (cutOrder_perm _).mem_iff.mpr hmem
  rw [← List.take_append_drop t.opts.D (cutOrder t topic run.peers.toList)] at hnodup hin
  constructor
  · intro hout hstays
    exact (List.disjoint_of_nodup_append hnodup) hstays hout
  · intro hstays
    exact (List.mem_append.mp hin).resolve_left hstays

theorem mem_of_mem_staying (h : p ∈ staying t topic run.peers.toList) : p ∈ run.peers :=
  (cutOrder_perm _).mem_iff.mp (List.mem_of_mem_take h)

theorem mem_cutDown_iff (hover : t.opts.Dhi < run.peers.size) :
    p ∈ (cutDown t topic run).peers ↔ p ∈ staying t topic run.peers.toList := by
  rw [cutDown_eq topic hover, mem_prunes]
  constructor
  · rintro ⟨hnot, hmem⟩
    by_contra hstays
    exact hnot ((mem_excess_iff hmem).mpr hstays)
  · intro hstays
    have hmem := mem_of_mem_staying hstays
    exact ⟨fun hout => (mem_excess_iff hmem).mp hout hstays, hmem⟩

theorem cutDown_perm_staying (hover : t.opts.Dhi < run.peers.size) :
    (cutDown t topic run).peers.toList.Perm (staying t topic run.peers.toList) := by
  have hstays : (staying t topic run.peers.toList).Nodup :=
    ((cutOrder_perm _).nodup_iff.mpr run.peers.nodup).sublist (List.take_sublist _ _)
  refine (List.perm_ext_iff_of_nodup (cutDown t topic run).peers.nodup hstays).mpr ?_
  intro p
  exact mem_cutDown_iff hover

theorem outboundCount_broughtIn (t : Tick S) (topic : Topic) (peers : List PeerId) :
    outboundCount t (broughtIn t topic peers) = (broughtIn t topic peers).length :=
  List.countP_eq_length.mpr fun _ hp => (of_mem_found hp).2

theorem outboundCount_staying_ge (topic : Topic) {peers : List PeerId} (hD : t.opts.D ≤ peers.length)
    (hDout : t.opts.Dout ≤ t.opts.D) :
    min t.opts.Dout (outboundCount t peers) ≤ outboundCount t (staying t topic peers) := by
  rcases Nat.lt_or_ge (outboundCount t (picked t topic peers)) t.opts.Dout with hfew | henough
  · obtain ⟨outs, hperm, heq⟩ := staying_eq hD hfew
    have houts : outboundCount t outs = outboundCount t (picked t topic peers) := by
      rw [outboundCount, hperm.countP_eq]
      simp [outboundCount, List.countP_filter]
    have hin := outboundCount_broughtIn t topic peers
    rw [broughtIn_length] at hin
    have hsum := outboundCount_picked_add t topic peers
    have hstays : outboundCount t (broughtIn t topic peers) + outboundCount t outs ≤
        outboundCount t (staying t topic peers) := by
      rw [heq]
      simp only [outboundCount, List.countP_append, List.countP_reverse]
      omega
    omega
  · rw [staying_of_enough peers henough]
    omega

/-- The mesh after a cut to `D` members: `run'` comes from `run` by pruning the others once each. -/
structure Trimmed (t : Tick S) (topic : Topic) (run run' : MeshRun) : Prop where
  size : run'.peers.size = t.opts.D
  members : ∀ p, p ∈ run'.peers → p ∈ run.peers
  pruned : ∃ pruned : List PeerId, pruned.Nodup ∧
    (∀ p, p ∈ pruned ↔ p ∈ run.peers ∧ ¬ p ∈ run'.peers) ∧
    run' = pruned.foldl (prunePeer t topic) run
  outbound : min t.opts.Dout (outboundCount t run.peers.toList) ≤ outboundCount t run'.peers.toList

theorem trimmed_cutDown (hDout : t.opts.Dout ≤ t.opts.D) (hD : t.opts.D ≤ t.opts.Dhi)
    (hover : t.opts.Dhi < run.peers.size) : Trimmed t topic run (cutDown t topic run) := by
  constructor
  · exact cutDown_size hD hover
  · intro p hp
    exact mem_of_mem_cutDown hp
  · refine ⟨excess t topic run.peers, excess_nodup _, ?_, cutDown_eq topic hover⟩
    intro p
    rw [mem_cutDown_iff hover]
    constructor
    · intro hp
      have hmem := mem_of_mem_excess hp
      exact ⟨hmem, (mem_excess_iff hmem).mp hp⟩
    · rintro ⟨hmem, hstays⟩
      exact (mem_excess_iff hmem).mpr hstays
  · have hge := outboundCount_staying_ge topic (D_le_length hD hover) hDout
    have hperm : outboundCount t (cutDown t topic run).peers.toList =
        outboundCount t (staying t topic run.peers.toList) := (cutDown_perm_staying hover).countP_eq _
    omega

end

namespace Crowded

def members : OrdSet PeerId :=
  .ofList ["a", "b", "c", "d", "e", "f", "g", "h", "i", "j", "k", "l", "m"]

def scorers : OrdSet PeerId := .ofList ["a", "b", "c", "d"]

/-- Thirteen members, of whom the last seven are outbound. -/
def router : Router Int where
  options := ⟨6, 4, 12, 4, 2, ⟨-50, 20⟩⟩
  peers id := if members.has id then some "/vac/waku/relay/2.0.0" else none
  topics topic := if topic = "news" then some members else none
  direct := .empty
  outbound id := ["g", "h", "i", "j", "k", "l", "m"].contains id
  backoff _ _ := none
  mesh := ⟨[("news", members)], by decide⟩
  fanout := .empty
  lastpub := .empty
  heartbeatTicks := 1
  started := true

def tick : Tick Int where
  router := router
  gossipsub := .standard
  shuffles := .identity
  score id := if id.any scorers.has then 10 else 0
  now := 0

def start : MeshRun := ⟨members, tick.start⟩

/-- All of them outbound. -/
def outbound : Tick Int := { tick with router := { router with outbound := fun _ => true } }

end Crowded

theorem trimmed_cutDown_crowded :
    Trimmed Crowded.tick "news" Crowded.start (cutDown Crowded.tick "news" Crowded.start) :=
  trimmed_cutDown (by decide) (by decide) (by decide)

section

variable {S : Type} [LinearOrder S] {t : Tick S} {topic : Topic} {run : MeshRun}

/-! ## The best by score -/

theorem picked_eq_append (topic : Topic) (hscore : t.opts.Dscore ≤ t.opts.D) (peers : List PeerId) :
    ∃ rest, picked t topic peers = best t peers ++ rest := by
  have hlength : (best t peers).length ≤ t.opts.D := (List.length_take_le _ _).trans hscore
  rw [picked, List.take_append, List.take_of_length_le hlength]
  exact ⟨_, rfl⟩

/-- The best that are not outbound. -/
def inbound (t : Tick S) (peers : List PeerId) : List PeerId :=
  (best t peers).filter (!t.router.outbound ·)

theorem inbound_nodup {peers : List PeerId} (h : peers.Nodup) : (inbound t peers).Nodup :=
  (((List.perm_insertionSort _ _).nodup_iff.mpr h).sublist (List.take_sublist _ _)).filter _

/-- None of them is moved to the front, so they need a place each. -/
theorem best_subset_staying_iff {peers : List PeerId} (hnodup : peers.Nodup)
    (hscore : t.opts.Dscore ≤ t.opts.D) (hD : t.opts.D ≤ peers.length)
    (h : outboundCount t (picked t topic peers) < t.opts.Dout) :
    (∀ p ∈ best t peers, p ∈ staying t topic peers) ↔
      (inbound t peers).length ≤ room t topic peers := by
  obtain ⟨rest, hpicked⟩ := picked_eq_append topic hscore peers
  have hinbound : (picked t topic peers).filter (!t.router.outbound ·) =
      inbound t peers ++ rest.filter (!t.router.outbound ·) := by
    rw [hpicked, List.filter_append]
    rfl
  constructor
  · intro hall
    have hsub : inbound t peers ⊆
        ((picked t topic peers).filter (!t.router.outbound ·)).take (room t topic peers) := by
      intro p hp
      obtain ⟨hbest, hin⟩ := List.mem_filter.mp hp
      have hnot : ¬ t.router.outbound p = true := by simpa using hin
      rcases (mem_staying_iff hD h).mp (hall p hbest) with hp | ⟨_, hp⟩ | hp
      · exact absurd (of_mem_found hp).2 hnot
      · exact absurd hp hnot
      · exact hp
    exact (List.subperm_of_subset (inbound_nodup hnodup) hsub).length_le.trans
      (List.length_take_le _ _)
  · intro hroom p hp
    rw [mem_staying_iff hD h]
    by_cases hout : t.router.outbound p = true
    · have hpick : p ∈ picked t topic peers := by
        rw [hpicked]
        exact List.mem_append_left _ hp
      exact .inr (.inl ⟨hpick, hout⟩)
    · have hin : p ∈ inbound t peers := List.mem_filter.mpr ⟨hp, by simpa using hout⟩
      refine .inr (.inr ?_)
      rw [hinbound, List.take_append, List.take_of_length_le hroom]
      exact List.mem_append_left _ hin

theorem inbound_le_room_iff (t : Tick S) (topic : Topic) (peers : List PeerId) :
    (inbound t peers).length ≤ room t topic peers ↔
      (∀ p ∈ best t peers, t.router.outbound p = true) ∨
        (inbound t peers).length + outboundCount t peers ≤ t.opts.D := by
  have hnone : (∀ p ∈ best t peers, t.router.outbound p = true) ↔ (inbound t peers).length = 0 := by
    rw [List.length_eq_zero_iff, inbound, List.filter_eq_nil_iff]
    simp
  have hin := broughtIn_length t topic peers
  have hsum := outboundCount_picked_add t topic peers
  have hle := outboundCount_picked_le t topic peers
  rw [hnone, room]
  omega

/-- The best all stay exactly when nobody is moved, or they are all outbound, or the mesh has no more
outbound members than there are places besides. -/
theorem cutDown_keeps_best_iff (hopts : t.opts.Dscore + t.opts.Dout ≤ t.opts.D)
    (hD : t.opts.D ≤ t.opts.Dhi) (hover : t.opts.Dhi < run.peers.size) :
    (∀ p ∈ best t run.peers.toList, p ∈ (cutDown t topic run).peers) ↔
      t.opts.Dout ≤ outboundCount t (picked t topic run.peers.toList) ∨
        (∀ p ∈ best t run.peers.toList, t.router.outbound p = true) ∨
        (inbound t run.peers.toList).length + outboundCount t run.peers.toList ≤ t.opts.D := by
  have hscore : t.opts.Dscore ≤ t.opts.D := by omega
  have hmem : (∀ p ∈ best t run.peers.toList, p ∈ (cutDown t topic run).peers) ↔
      ∀ p ∈ best t run.peers.toList, p ∈ staying t topic run.peers.toList :=
    forall₂_congr fun p _ => mem_cutDown_iff hover
  rw [hmem]
  rcases Nat.lt_or_ge (outboundCount t (picked t topic run.peers.toList)) t.opts.Dout
    with hfew | henough
  · rw [best_subset_staying_iff run.peers.nodup hscore (D_le_length hD hover) hfew,
      inbound_le_room_iff]
    exact ⟨.inr, fun h => h.resolve_left (Nat.not_le.mpr hfew)⟩
  · refine ⟨fun _ => .inl henough, fun _ p hp => ?_⟩
    obtain ⟨rest, hpicked⟩ := picked_eq_append topic hscore run.peers.toList
    rw [staying_of_enough _ henough, hpicked]
    exact List.mem_append_left _ hp

end

/-- The best stay if they are outbound themselves. -/
theorem cutDown_keeps_best_crowded :
    ((∀ p ∈ best Crowded.tick Crowded.start.peers.toList,
      p ∈ (cutDown Crowded.tick "news" Crowded.start).peers) ↔
      Crowded.tick.opts.Dout ≤
          outboundCount Crowded.tick (picked Crowded.tick "news" Crowded.start.peers.toList) ∨
        (∀ p ∈ best Crowded.tick Crowded.start.peers.toList, Crowded.router.outbound p = true) ∨
        (inbound Crowded.tick Crowded.start.peers.toList).length +
          outboundCount Crowded.tick Crowded.start.peers.toList ≤ Crowded.tick.opts.D) ∧
      ∀ p ∈ best Crowded.outbound Crowded.start.peers.toList,
        p ∈ (cutDown Crowded.outbound "news" Crowded.start).peers := by
  refine ⟨cutDown_keeps_best_iff (by decide) (by decide) (by decide), ?_⟩
  exact (cutDown_keeps_best_iff (by decide) (by decide) (by decide)).mpr
    (.inr (.inl fun _ _ => rfl))

/-- Six outbound peers without merit take all the places. -/
theorem crowded_cut_drops_best :
    Crowded.tick.opts.Dscore + Crowded.tick.opts.Dout ≤ Crowded.tick.opts.D ∧
      Crowded.tick.opts.D ≤ Crowded.tick.opts.Dhi ∧
      Crowded.tick.opts.Dhi < Crowded.start.peers.size ∧
      "a" ∈ best Crowded.tick Crowded.start.peers.toList ∧
      ¬ "a" ∈ (cutDown Crowded.tick "news" Crowded.start).peers := by decide

end Relay
end JsWaku
