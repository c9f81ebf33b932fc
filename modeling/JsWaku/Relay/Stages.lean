import JsWaku.Lib.Ledger
import JsWaku.Relay.Heartbeat

/-!
# JsWaku.Relay.Stages

What the stages of a heartbeat do to the mesh of one topic.

* `ledger topic run` — the mesh with the notes made about it; a prune is a removal from it and a
  graft an addition to it.
* `Tended` — newcomers are fit to be grafted, and whoever was pruned is out and in backoff. Every
  prune keeps it, and every graft of a fit peer.
-/

namespace JsWaku
namespace Relay

open Js

section

variable {S : Type} {t : Tick S} {topic : Topic} {run : MeshRun}
  {xs : List PeerId} {id p : PeerId}

def ledger (topic : Topic) (run : MeshRun) : Ledger PeerId where
  members := {p | p ∈ run.peers}
  added := fun p => (run.control.toGraft p).count topic
  removed := fun p => (run.control.toPrune p).count topic

theorem count_push_self (m : PeerId → List Topic) :
    (fun p => (push m id topic p).count topic) =
      fun p => if p = id then (m p).count topic + 1 else (m p).count topic := by
  funext p
  unfold push
  split <;> simp

theorem count_push_other {topic' : Topic} (h : topic' ≠ topic) (m : PeerId → List Topic)
    (p : PeerId) : (push m id topic' p).count topic = (m p).count topic := by
  unfold push
  split
  · simp [h]
  · rfl

theorem mem_push {m : PeerId → List Topic} :
    topic ∈ push m id topic p ↔ p = id ∨ topic ∈ m p := by
  unfold push
  split
  · rename_i h; simp [h]
  · rename_i h; simp [h]

@[simp] theorem mem_prunePeer : p ∈ (prunePeer t topic run id).peers ↔ p ≠ id ∧ p ∈ run.peers :=
  OrdSet.mem_delete

@[simp] theorem mem_graftPeer : p ∈ (graftPeer topic run id).peers ↔ p = id ∨ p ∈ run.peers :=
  OrdSet.mem_add

theorem ledger_prunePeer : ledger topic (prunePeer t topic run id) = (ledger topic run).remove id := by
  simp only [ledger, Ledger.remove, mem_prunePeer]
  congr 1
  exact count_push_self _

theorem ledger_graftPeer : ledger topic (graftPeer topic run id) = (ledger topic run).add id := by
  simp only [ledger, Ledger.add, mem_graftPeer]
  congr 1
  exact count_push_self _

theorem backoff_prunePeer_self : (prunePeer t topic run id).control.backoff topic id ≠ none :=
  t.gossipsub.addBackoff_self _ _ _ _

theorem backoff_prunePeer_other {topic' : Topic} (h : topic' ≠ topic ∨ p ≠ id) :
    (prunePeer t topic run id).control.backoff topic' p = run.control.backoff topic' p :=
  t.gossipsub.addBackoff_other _ _ _ _ _ _ h

theorem ledger_prunes :
    ledger topic (xs.foldl (prunePeer t topic) run) = (ledger topic run).removeAll xs := by
  induction xs generalizing run with
  | nil => rfl
  | cons x xs ih => rw [List.foldl_cons, ih, ledger_prunePeer]; rfl

theorem ledger_grafts :
    ledger topic (xs.foldl (graftPeer topic) run) = (ledger topic run).addAll xs := by
  induction xs generalizing run with
  | nil => rfl
  | cons x xs ih => rw [List.foldl_cons, ih, ledger_graftPeer]; rfl

theorem mem_prunes : p ∈ (xs.foldl (prunePeer t topic) run).peers ↔ p ∉ xs ∧ p ∈ run.peers := by
  have h := @Ledger.mem_removeAll PeerId _ (ledger topic run) p xs
  rwa [← ledger_prunes] at h

theorem mem_grafts : p ∈ (xs.foldl (graftPeer topic) run).peers ↔ p ∈ xs ∨ p ∈ run.peers := by
  have h := @Ledger.mem_addAll PeerId _ (ledger topic run) p xs
  rwa [← ledger_grafts] at h

/-- What every single edit of a list keeps, all of them keep. -/
theorem foldl_keeps {I : MeshRun → Prop} {f : MeshRun → PeerId → MeshRun}
    (hf : ∀ run, ∀ x ∈ xs, I run → I (f run x)) (hI : I run) : I (xs.foldl f run) := by
  induction xs generalizing run with
  | nil => exact hI
  | cons x xs ih =>
    exact ih (fun run y hy => hf run y (by simp [hy])) (hf run x (by simp) hI)

@[simp] theorem backoff_grafts :
    (xs.foldl (graftPeer topic) run).control.backoff = run.control.backoff :=
  foldl_keeps (fun _ _ _ h => h) (I := fun r => r.control.backoff = run.control.backoff) rfl

@[simp] theorem toGraft_prunes :
    (xs.foldl (prunePeer t topic) run).control.toGraft = run.control.toGraft :=
  foldl_keeps (fun _ _ _ h => h) (I := fun r => r.control.toGraft = run.control.toGraft) rfl

theorem size_grafts_le (topic : Topic) (run : MeshRun) (xs : List PeerId) :
    (xs.foldl (graftPeer topic) run).peers.size ≤ run.peers.size + xs.length := by
  induction xs generalizing run with
  | nil => exact Nat.le_refl _
  | cons x xs ih =>
    have h := ih (graftPeer topic run x)
    have hx : (graftPeer topic run x).peers.size ≤ run.peers.size + 1 := OrdSet.size_add_le _ _
    rw [List.foldl_cons, List.length_cons]
    omega

theorem size_grafts (topic : Topic) (hxs : xs.Nodup) (hnew : ∀ x ∈ xs, ¬ x ∈ run.peers) :
    (xs.foldl (graftPeer topic) run).peers.size = run.peers.size + xs.length := by
  induction xs generalizing run with
  | nil => rfl
  | cons x xs ih =>
    obtain ⟨hx, hxs⟩ := List.nodup_cons.mp hxs
    have hsize : (graftPeer topic run x).peers.size = run.peers.size + 1 :=
      OrdSet.size_add (hnew x (by simp))
    rw [List.foldl_cons, ih hxs, hsize, List.length_cons]
    · omega
    · intro y hy hmem
      rcases mem_graftPeer.mp hmem with rfl | hmem
      · exact hx hy
      · exact hnew y (by simp [hy]) hmem

theorem size_prunes (hxs : xs.Nodup) (hmem : ∀ x ∈ xs, x ∈ run.peers) :
    (xs.foldl (prunePeer t topic) run).peers.size = run.peers.size - xs.length := by
  induction xs generalizing run with
  | nil => rfl
  | cons x xs ih =>
    obtain ⟨hx, hxs⟩ := List.nodup_cons.mp hxs
    have hsize : (prunePeer t topic run x).peers.size = run.peers.size - 1 :=
      OrdSet.size_delete (hmem x (by simp))
    rw [List.foldl_cons, ih hxs, hsize, List.length_cons]
    · omega
    · intro y hy
      exact mem_prunePeer.mpr ⟨fun he => hx (he ▸ hy), hmem y (by simp [hy])⟩

def MeshRun.withNoPX (run : MeshRun) (noPX : PeerId → Bool) : MeshRun :=
  { run with control := { run.control with noPX := noPX } }

/-! ## What every edit keeps -/

/-- A peer that may be grafted, whatever its score. -/
structure Fit (t : Tick S) (topic : Topic) (run : MeshRun) (id : PeerId) : Prop where
  relay : RelayPeer t.router topic id
  indirect : ¬ id ∈ t.router.direct
  entry : run.control.backoff topic id = none

/-- The part that the filters of all grafting stages have in common. -/
theorem fit_iff {id : PeerId} (hrelay : RelayPeer t.router topic id) : Fit t topic run id ↔
    t.router.direct.has id = false ∧ (run.control.backoff topic id).isNone = true := by
  simp only [OrdSet.has, decide_eq_false_iff_not, Option.isNone_iff_eq_none]
  constructor
  · intro h
    exact ⟨h.indirect, h.entry⟩
  · rintro ⟨hdirect, hentry⟩
    exact ⟨hrelay, hdirect, hentry⟩

/-- Every prune keeps `I`, and so does every graft of a peer that is fit. -/
structure Kept (t : Tick S) (topic : Topic) (I : MeshRun → Prop) : Prop where
  prune : ∀ run id, I run → I (prunePeer t topic run id)
  graft : ∀ run id, Fit t topic run id → I run → I (graftPeer topic run id)
  noPX : ∀ run noPX, I run → I (run.withNoPX noPX)

theorem Kept.prunes {I : MeshRun → Prop} (h : Kept t topic I) (hI : I run) :
    I (xs.foldl (prunePeer t topic) run) :=
  foldl_keeps (fun run x _ => h.prune run x) hI

theorem Kept.grafts {I : MeshRun → Prop} (h : Kept t topic I)
    (hfit : ∀ x ∈ xs, Fit t topic run x) (hI : I run) : I (xs.foldl (graftPeer topic) run) := by
  have hkeep : I (xs.foldl (graftPeer topic) run) ∧
      (xs.foldl (graftPeer topic) run).control.backoff = run.control.backoff :=
    foldl_keeps (I := fun r => I r ∧ r.control.backoff = run.control.backoff)
      (fun r x hx hr => ⟨h.graft r x ⟨(hfit x hx).relay, (hfit x hx).indirect,
        by rw [hr.2]; exact (hfit x hx).entry⟩ hr.1, hr.2⟩) ⟨hI, rfl⟩
  exact hkeep.1

/-- `M` is the mesh the heartbeat found. -/
structure Tended (t : Tick S) (topic : Topic) (M : OrdSet PeerId) (run : MeshRun) : Prop where
  fresh : ∀ p, p ∈ run.peers → ¬ p ∈ M → RelayPeer t.router topic p ∧ ¬ p ∈ t.router.direct ∧
    run.control.backoff topic p = none
  gone : ∀ p, topic ∈ run.control.toPrune p →
    ¬ p ∈ run.peers ∧ run.control.backoff topic p ≠ none

variable {M : OrdSet PeerId}

theorem Tended.prune (h : Tended t topic M run) : Tended t topic M (prunePeer t topic run id) := by
  constructor
  · intro p hp hM
    obtain ⟨hne, hp⟩ := mem_prunePeer.mp hp
    obtain ⟨hrelay, hdirect, hentry⟩ := h.fresh p hp hM
    exact ⟨hrelay, hdirect, by rw [backoff_prunePeer_other (.inr hne)]; exact hentry⟩
  · intro p hp
    by_cases he : p = id
    · subst he
      exact ⟨fun hmem => (mem_prunePeer.mp hmem).1 rfl, backoff_prunePeer_self⟩
    · obtain ⟨hout, hentry⟩ := h.gone p ((mem_push.mp hp).resolve_left he)
      exact ⟨fun hmem => hout (mem_prunePeer.mp hmem).2,
        by rw [backoff_prunePeer_other (.inr he)]; exact hentry⟩

theorem Tended.graft (h : Tended t topic M run) (hfit : Fit t topic run id) :
    Tended t topic M (graftPeer topic run id) := by
  constructor
  · intro p hp hM
    rcases mem_graftPeer.mp hp with rfl | hp
    · exact ⟨hfit.relay, hfit.indirect, hfit.entry⟩
    · exact h.fresh p hp hM
  · intro p hp
    obtain ⟨hout, hentry⟩ := h.gone p hp
    refine ⟨fun hmem => ?_, hentry⟩
    rcases mem_graftPeer.mp hmem with rfl | hmem
    · exact hentry hfit.entry
    · exact hout hmem

theorem tended_kept (t : Tick S) (topic : Topic) (M : OrdSet PeerId) :
    Kept t topic (Tended t topic M) where
  prune _ _ h := h.prune
  graft _ _ hfit h := h.graft hfit
  noPX _ _ h := ⟨h.fresh, h.gone⟩

/-- Nobody who was pruned is fit to be grafted. -/
theorem Tended.removed_eq_zero (h : Tended t topic M run) (hfit : run.control.backoff topic id = none) :
    (ledger topic run).removed id = 0 :=
  List.count_eq_zero.mpr fun hmem => (h.gone id hmem).2 hfit

end

section

variable {S : Type} {t : Tick S} {topic : Topic} {run : MeshRun} {id p : PeerId}
  {M : OrdSet PeerId}

theorem prunes_withNoPX (xs : List PeerId) (noPX : PeerId → Bool) :
    xs.foldl (prunePeer t topic) (run.withNoPX noPX) =
      (xs.foldl (prunePeer t topic) run).withNoPX noPX := by
  induction xs generalizing run with
  | nil => rfl
  | cons x xs ih => exact @ih (prunePeer t topic run x)

theorem size_relayPeers_le (t : Tick S) (topic : Topic) (draw : Draw) {count : Int} (hcount : 0 < count)
    (filter : PeerId → Bool) : ((relayPeers t topic draw count filter).size : Int) ≤ count := by
  rw [relayPeers, size_getRelayPeers (t.shuffles.perm draw topic) hcount]
  exact Int.min_le_left _ _

variable [LinearOrder S] [Zero S]

/-- The members with a negative score. -/
def negatives (t : Tick S) (peers : OrdSet PeerId) : List PeerId :=
  peers.toList.filter fun id => t.score (some id) < 0

/-- Apart from the note not to exchange peers, the stage prunes the negative ones. -/
theorem dropNegative_eq (t : Tick S) (topic : Topic) (run : MeshRun) : ∃ noPX, dropNegative t topic run =
    ((negatives t run.peers).foldl (prunePeer t topic) run).withNoPX noPX := by
  unfold dropNegative negatives
  generalize run.peers.toList = l
  induction l generalizing run with
  | nil => exact ⟨run.control.noPX, rfl⟩
  | cons x l ih =>
    rw [List.foldl_cons]
    by_cases hx : t.score (some x) < 0
    · simp only [hx, ite_true, List.filter_cons, decide_true, List.foldl_cons]
      obtain ⟨noPX, h⟩ := ih ((prunePeer t topic run x).withNoPX fun p =>
        if p = x then true else (prunePeer t topic run x).control.noPX p)
      exact ⟨noPX, by rw [prunes_withNoPX] at h; exact h⟩
    · simp only [hx, ite_false, List.filter_cons, decide_false, Bool.false_eq_true]
      exact ih run

theorem dropNegative_nonneg (h : p ∈ (dropNegative t topic run).peers) : 0 ≤ t.score (some p) := by
  obtain ⟨noPX, heq⟩ := dropNegative_eq t topic run
  rw [heq] at h
  obtain ⟨hnot, hmem⟩ := mem_prunes.mp h
  by_contra hneg
  exact hnot (List.mem_filter.mpr ⟨hmem, by simpa using hneg⟩)

theorem graftable_iff (hrelay : RelayPeer t.router topic id) :
    graftable t topic run id = true ↔
      Fit t topic run id ∧ ¬ id ∈ run.peers ∧ 0 ≤ t.score (some id) := by
  rw [fit_iff hrelay]
  simp [graftable, OrdSet.has, and_assoc, and_left_comm]

theorem fit_of_mem_relayPeers {draw : Draw} {count : Int}
    (h : id ∈ relayPeers t topic draw count (graftable t topic run)) :
    Fit t topic run id ∧ ¬ id ∈ run.peers ∧ 0 ≤ t.score (some id) := by
  obtain ⟨hrelay, hgraft⟩ := of_mem_getRelayPeers (t.shuffles.perm draw topic) h
  exact (graftable_iff hrelay).mp hgraft

theorem fillUp_cases (t : Tick S) (topic : Topic) (run : MeshRun) :
    (fillUp t topic run = run ∧ t.opts.Dlo ≤ run.peers.size) ∨
    run.peers.size < t.opts.Dlo ∧ fillUp t topic run =
      (relayPeers t topic .fill ((t.opts.D : Int) - run.peers.size)
        (graftable t topic run)).toList.foldl (graftPeer topic) run := by
  unfold fillUp
  split
  · rename_i h; exact .inr ⟨h, rfl⟩
  · rename_i h; exact .inl ⟨rfl, Nat.le_of_not_lt h⟩

theorem topUpOutbound_cases (t : Tick S) (topic : Topic) (run : MeshRun) :
    topUpOutbound t topic run = run ∨
    t.opts.Dlo ≤ run.peers.size ∧ outboundCount t run.peers.toList < t.opts.Dout ∧
    topUpOutbound t topic run =
      (relayPeers t topic .topUp ((t.opts.Dout : Int) - outboundCount t run.peers.toList)
        (graftable t topic run)).toList.foldl (graftPeer topic) run := by
  unfold topUpOutbound
  split
  · rename_i hlo
    simp only
    split
    · rename_i hout; exact .inr ⟨hlo, hout, rfl⟩
    · exact .inl rfl
  · exact .inl rfl

/-- The second run is the first with some graftable relay peers grafted, or the same. -/
inductive Refilled (t : Tick S) (topic : Topic) (run : MeshRun) : MeshRun → Prop where
  | same : Refilled t topic run run
  | grafts (draw : Draw) (count : Int) : Refilled t topic run
      ((relayPeers t topic draw count (graftable t topic run)).toList.foldl (graftPeer topic) run)

theorem refilled_fillUp (t : Tick S) (topic : Topic) (run : MeshRun) :
    Refilled t topic run (fillUp t topic run) := by
  rcases fillUp_cases t topic run with ⟨heq, _⟩ | ⟨_, heq⟩
  · rw [heq]
    exact .same
  · rw [heq]
    exact .grafts _ _

theorem refilled_topUpOutbound (t : Tick S) (topic : Topic) (run : MeshRun) :
    Refilled t topic run (topUpOutbound t topic run) := by
  rcases topUpOutbound_cases t topic run with heq | ⟨_, _, heq⟩
  · rw [heq]
    exact .same
  · rw [heq]
    exact .grafts _ _

theorem fillUp_size_le (topic : Topic) (hD : t.opts.Dlo ≤ t.opts.D) (h : run.peers.size < t.opts.Dlo) :
    (fillUp t topic run).peers.size ≤ t.opts.D := by
  rcases fillUp_cases t topic run with ⟨_, hle⟩ | ⟨_, heq⟩
  · omega
  · have hcount : (0 : Int) < (t.opts.D : Int) - run.peers.size := by omega
    have hsize := size_relayPeers_le t topic .fill hcount (graftable t topic run)
    have hle := size_grafts_le topic run (relayPeers t topic .fill
      ((t.opts.D : Int) - run.peers.size) (graftable t topic run)).toList
    rw [heq]
    unfold OrdSet.size at hsize hle hcount ⊢
    omega

end

section

variable {S : Type} [LinearOrder S] {t : Tick S} {topic : Topic} {run : MeshRun} {id p : PeerId}

theorem rotate_perm (peersArray : List PeerId) (i : Nat) :
    (rotate peersArray i).Perm peersArray := by
  unfold rotate
  split
  · exact List.Perm.refl _
  · rename_i p hp
    obtain ⟨hi, rfl⟩ := List.getElem?_eq_some_iff.mp hp
    rw [List.eraseIdx_eq_take_drop_succ]
    refine List.perm_middle.symm.trans (List.Perm.of_eq ?_)
    rw [List.getElem_cons_drop, List.take_append_drop]

theorem bubbleUp_perm {S : Type} {t : Tick S} (steps i need : Nat) (peersArray : List PeerId) :
    (bubbleUp t steps i need peersArray).Perm peersArray := by
  induction steps generalizing i need peersArray with
  | zero => exact List.Perm.refl _
  | succ steps ih =>
    rw [bubbleUp]
    split
    · exact List.Perm.refl _
    · split
      · exact (ih _ _ _).trans (rotate_perm _ _)
      · exact ih _ _ _

theorem cutOrder_perm (peers : List PeerId) : (cutOrder t topic peers).Perm peers := by
  have hsort : (sortDescending t peers).Perm peers := List.perm_insertionSort _ _
  have hshuffle : ((sortDescending t peers).take t.opts.Dscore ++
      t.shuffles.run .cut topic ((sortDescending t peers).drop t.opts.Dscore)).Perm peers := by
    refine ((t.shuffles.perm _ _ _).append_left _).trans ?_
    rwa [List.take_append_drop]
  unfold cutOrder
  simp only
  split
  · refine (bubbleUp_perm _ _ _ _).trans ?_
    split
    · exact (bubbleUp_perm _ _ _ _).trans hshuffle
    · exact hshuffle
  · exact hshuffle

/-- The members the cut prunes. -/
def excess (t : Tick S) (topic : Topic) (peers : OrdSet PeerId) : List PeerId :=
  (cutOrder t topic peers.toList).drop t.opts.D

theorem excess_nodup (peers : OrdSet PeerId) : (excess t topic peers).Nodup :=
  ((cutOrder_perm _).nodup_iff.mpr peers.nodup).sublist (List.drop_sublist _ _)

theorem mem_of_mem_excess {peers : OrdSet PeerId} (h : id ∈ excess t topic peers) : id ∈ peers :=
  (cutOrder_perm _).mem_iff.mp (List.mem_of_mem_drop h)

theorem excess_length (peers : OrdSet PeerId) :
    (excess t topic peers).length = peers.size - t.opts.D := by
  rw [excess, List.length_drop, (cutOrder_perm _).length_eq, OrdSet.size]

theorem cutDown_cases (t : Tick S) (topic : Topic) (run : MeshRun) :
    (cutDown t topic run = run ∧ run.peers.size ≤ t.opts.Dhi) ∨
    t.opts.Dhi < run.peers.size ∧
      cutDown t topic run = (excess t topic run.peers).foldl (prunePeer t topic) run := by
  unfold cutDown
  split
  · rename_i h; exact .inr ⟨h, rfl⟩
  · rename_i h; exact .inl ⟨rfl, Nat.le_of_not_lt h⟩

end

end Relay
end JsWaku
