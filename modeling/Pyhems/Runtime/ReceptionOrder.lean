import Pyhems.Library.HoldBack
import Pyhems.Library.Transition
import Pyhems.Runtime.Router

/-! The order in which the frames of one address reach the subscribers. It is the order of their
reception as long as no frame is dispatched past others that are still queued. -/
namespace Pyhems.Runtime
open Protocol Library Transition HoldBack

def RuntimeEvent.frameNumber : RuntimeEvent → Option Nat
  | .instanceList _ _ _ => none
  | .frame receivedAt _ _ _ => some receivedAt

/-- The reception numbers of the frame events of an address, in the order of their dispatch. -/
def Router.delivered (s : Router) (address : Address) : List Nat :=
  s.dispatched.filterMap fun (source,event) => if source = address then event.frameNumber else none

/-- The reception numbers of the frames queued for an address. -/
def Router.held (s : Router) (address : Address) : List Nat :=
  ((s.pendingFrames.lookup address).getD []).map PendingFrame.receivedAt

/-- The frame is dispatched as soon as it is received: a device object of a known node sent it. -/
def Router.Direct (s : Router) (frame : Frame) (address : Address) : Prop :=
  frame.esv ∉ requestEsvs ∧ frame.seoj.classCode ≠ nodeProfileClass ∧
    s.deviceAddresses.get address ≠ none

/-- No frame is dispatched directly from an address with queued frames. -/
def NoOvertaking (s : Router) : RouterEvent → Prop
  | .receive frame address => s.Direct frame address → s.pendingFrames.lookup address = none
  | _ => True

/-- Every address has its frames in order, those that wait last. -/
def Router.InOrder (s : Router) : Prop :=
  ∀ address, HoldBack.InOrder (s.delivered address) (s.held address) s.clock

variable {s t : Router} {frame : Frame} {address : Address}

theorem delivered_congr (h : t.dispatched = s.dispatched) : t.delivered = s.delivered := by
  unfold Router.delivered
  rw [h]

theorem held_congr (h : t.pendingFrames = s.pendingFrames) : t.held = s.held := by
  unfold Router.held
  rw [h]

theorem inOrder_congr (hs : s.InOrder) (hdispatched : t.dispatched = s.dispatched)
    (hpending : t.pendingFrames = s.pendingFrames) (hclock : s.clock ≤ t.clock) : t.InOrder := by
  intro address
  rw [delivered_congr hdispatched,held_congr hpending]
  exact (hs address).mono hclock

@[simp] theorem scheduleAddressDiscovery_frame (s : Router) (address : Address) :
    (s.scheduleAddressDiscovery address).dispatched = s.dispatched ∧
      (s.scheduleAddressDiscovery address).pendingFrames = s.pendingFrames ∧
      (s.scheduleAddressDiscovery address).clock = s.clock := by
  unfold Router.scheduleAddressDiscovery
  split <;> exact ⟨rfl,rfl,rfl⟩

theorem delivered_dispatch (s : Router) (source : Address) (event : RuntimeEvent) (address : Address) :
    (s.dispatch source event).delivered address = s.delivered address ++
      (if source = address then event.frameNumber else none).toList := by
  unfold Router.delivered Router.dispatch
  rw [List.filterMap_append]
  congr 1

theorem held_insert (s : Router) (source : Address) (frames : List PendingFrame) (address : Address) :
    {s with pendingFrames := s.pendingFrames.insert source frames}.held address =
      if address = source then frames.map PendingFrame.receivedAt else s.held address := by
  unfold Router.held
  by_cases ha : address = source
  · rw [if_pos ha,ha,AList.lookup_insert]
    rfl
  · rw [if_neg ha,AList.lookup_insert_ne ha]

theorem held_erase (s : Router) (source address : Address) :
    {s with pendingFrames := s.pendingFrames.erase source}.held address =
      if address = source then [] else s.held address := by
  unfold Router.held
  by_cases ha : address = source
  · rw [if_pos ha,ha,AList.lookup_erase]
    rfl
  · rw [if_neg ha,AList.lookup_erase_ne ha]

theorem replay_frame (s : Router) (source : Address) (nodeId : NodeId) (frames : List PendingFrame) :
    (s.replay source nodeId frames).pendingFrames = s.pendingFrames ∧
      (s.replay source nodeId frames).clock = s.clock ∧
      ∀ address, (s.replay source nodeId frames).delivered address = s.delivered address ++
        if address = source then frames.map PendingFrame.receivedAt else [] := by
  induction frames generalizing s with
  | nil => exact ⟨rfl,rfl,fun address => by simp [Router.replay]⟩
  | cons pending frames ih =>
    obtain ⟨hpending,hclock,hdelivered⟩ := ih (s.dispatch source
      (.frame pending.receivedAt pending.frame nodeId pending.eoj))
    refine ⟨hpending,hclock,fun address => (hdelivered address).trans ?_⟩
    rw [delivered_dispatch]
    by_cases ha : address = source
    · simp [ha,RuntimeEvent.frameNumber]
    · simp [ha,Ne.symm ha]

/-! ### Every event -/

/-- A queued frame joins the end of the queue of its address. -/
theorem inOrder_keep (hs : s.InOrder) {u : Router} {source : Address} {kept : List PendingFrame}
    (hu : u.dispatched = s.dispatched) (hclock : u.clock = s.clock+1)
    (hpending : u.pendingFrames = s.pendingFrames)
    (hkept : (kept.map PendingFrame.receivedAt).Sublist (s.held source)) (frame : Frame) :
    (u.keep source (kept ++ [⟨frame,frame.seoj,s.clock⟩])).InOrder := by
  let frames := kept ++ [(⟨frame,frame.seoj,s.clock⟩ : PendingFrame)]
  obtain ⟨hdispatched,hframes,hkeptClock⟩ := scheduleAddressDiscovery_frame
    {u with pendingFrames := u.pendingFrames.insert source frames} source
  intro address
  have hdelivered : (u.keep source frames).delivered = s.delivered :=
    delivered_congr (hdispatched.trans hu)
  have hnext : (u.keep source frames).clock = s.clock+1 := hkeptClock.trans hclock
  have hheld : (u.keep source frames).held address = if address = source then
      kept.map PendingFrame.receivedAt ++ [s.clock] else s.held address := by
    have hinsert := held_insert u source frames address
    rw [held_congr hpending,List.map_append] at hinsert
    exact (congrFun (held_congr hframes) address).trans hinsert
  rw [hdelivered,hheld,hnext]
  by_cases ha : address = source
  · rw [if_pos ha,ha]
    exact ((hs source).lose hkept).hold
  · rw [if_neg ha]
    exact (hs address).mono (Nat.le_succ _)

theorem inOrder_queueUnknownFrame (hs : s.InOrder) {u : Router} (hu : u.dispatched = s.dispatched)
    (hclock : u.clock = s.clock+1) (hpending : u.pendingFrames = s.pendingFrames) (frame : Frame)
    (source : Address) : (u.queueUnknownFrame frame source s.clock).InOrder := by
  unfold Router.queueUnknownFrame
  simp only
  split
  · next frames hframes =>
    rw [hpending] at hframes
    have hheld : s.held source = frames.map PendingFrame.receivedAt := by
      rw [Router.held,hframes,Option.getD_some]
    refine inOrder_keep hs hu hclock hpending ?_ frame
    rw [hheld]
    refine List.Sublist.map _ ?_
    split
    · exact List.drop_sublist _ _
    · exact List.Sublist.refl _
  · split
    · exact inOrder_congr hs hu hpending (by omega)
    · have hnil : (([] : List PendingFrame).map PendingFrame.receivedAt).Sublist (s.held source) :=
        List.nil_sublist _
      exact inOrder_keep hs hu hclock hpending hnil frame

/-- The frames of an address are replayed behind those already dispatched. -/
theorem inOrder_announce (hs : s.InOrder) (source : Address) (nodeId : NodeId)
    (instances : List EOJ) (receivedAt : Nat) :
    (s.announce source nodeId instances receivedAt).InOrder := by
  let u := s.dispatch source (.instanceList receivedAt instances nodeId)
  have hu : ∀ address, u.delivered address = s.delivered address := by
    intro address
    rw [delivered_dispatch]
    simp [RuntimeEvent.frameNumber]
  have huorder : u.InOrder := fun address => (hu address).symm ▸ hs address
  unfold Router.announce
  simp only
  split
  · next frames hframes =>
    obtain ⟨hpending,hclock,hdelivered⟩ := replay_frame
      {u with pendingFrames := u.pendingFrames.erase source} source nodeId frames
    intro address
    rw [hdelivered,hclock,held_congr hpending,held_erase]
    by_cases ha : address = source
    · have hheld : u.held source = frames.map PendingFrame.receivedAt := by
        rw [Router.held,hframes,Option.getD_some]
      rw [if_pos ha,if_pos ha,ha,← hheld]
      exact (huorder source).flush
    · rw [if_neg ha,if_neg ha,List.append_nil]
      exact huorder address
  · exact huorder

theorem inOrder_handleNodeProfile (hs : s.InOrder) (frame : Frame) (source : Address)
    (receivedAt : Nat) : (s.handleNodeProfile frame source receivedAt).InOrder := by
  have hlearn : (s.learn source (extractDiscoveryInfo frame).1).InOrder := by
    unfold Router.learn
    split
    · exact inOrder_congr hs rfl rfl le_rfl
    · exact hs
  unfold Router.handleNodeProfile Router.introduce
  simp only
  split
  · obtain ⟨hdispatched,hframes,hclock⟩ := scheduleAddressDiscovery_frame
      (s.learn source (extractDiscoveryInfo frame).1) source
    exact inOrder_congr hlearn hdispatched hframes hclock.ge
  · split
    · exact hlearn
    · exact inOrder_announce hlearn _ _ _ _

theorem inOrder_dispatch (hs : s.InOrder) {u : Router} (hu : u.dispatched = s.dispatched)
    (hclock : u.clock = s.clock+1) (hpending : u.pendingFrames = s.pendingFrames) {source : Address}
    (hheld : s.held source = []) (frame : Frame) (nodeId : NodeId) (eoj : EOJ) :
    (u.dispatch source (.frame s.clock frame nodeId eoj)).InOrder := by
  intro address
  have hkept : (u.dispatch source (.frame s.clock frame nodeId eoj)).held address = s.held address :=
    congrFun (held_congr hpending) address
  have hnext : (u.dispatch source (.frame s.clock frame nodeId eoj)).clock = s.clock+1 := hclock
  rw [delivered_dispatch,hkept,hnext,congrFun (delivered_congr hu) address]
  by_cases ha : address = source
  · have hpass := hs address
    rw [ha,hheld] at hpass ⊢
    rw [if_pos rfl]
    exact hpass.pass
  · rw [if_neg (Ne.symm ha),Option.toList_none,List.append_nil]
    exact (hs address).mono (Nat.le_succ _)

theorem inOrder_processFrame (hs : s.InOrder) (hguard : NoOvertaking s (.receive frame address)) :
    (s.processFrame frame address).InOrder := by
  let u : Router := {s with clock := s.clock+1}
  have hclock : u.InOrder := inOrder_congr hs rfl rfl (Nat.le_succ _)
  have hanswer : (u.answerInfc frame address).dispatched = s.dispatched ∧
      (u.answerInfc frame address).clock = s.clock+1 ∧
      (u.answerInfc frame address).pendingFrames = s.pendingFrames ∧
      (u.answerInfc frame address).deviceAddresses = s.deviceAddresses := by
    unfold Router.answerInfc
    split <;> exact ⟨rfl,rfl,rfl,rfl⟩
  obtain ⟨hdispatched,hanswerClock,hpending,hdevices⟩ := hanswer
  unfold Router.processFrame
  simp only
  split
  · exact hclock
  · next hesv =>
    split
    · exact inOrder_queueUnknownFrame (u := u) hs rfl rfl rfl frame address
    · split
      · exact inOrder_handleNodeProfile hclock frame address _
      · next hclass =>
        split
        · exact inOrder_queueUnknownFrame hs hdispatched hanswerClock hpending frame address
        · next nodeId hknown =>
          have hdirect : s.Direct frame address := by
            refine ⟨hesv,hclass,?_⟩
            rw [← hdevices,hknown]
            nofun
          have hheld : s.held address = [] := by
            rw [Router.held,hguard hdirect]
            rfl
          exact inOrder_dispatch hs hdispatched hanswerClock hpending hheld frame nodeId _

theorem inOrder_step {event : RouterEvent} (hs : s.InOrder) (hguard : NoOvertaking s event)
    (h : s.step event = some t) : t.InOrder := by
  have hlose : ∀ pendingFrames : AList fun _ : Address => List PendingFrame,
      (∀ address, pendingFrames.lookup address = none ∨
        pendingFrames.lookup address = s.pendingFrames.lookup address) →
      Router.InOrder {s with pendingFrames} := by
    intro pendingFrames hlookup address
    refine (hs address).lose ?_
    unfold Router.held
    rcases hlookup address with hnone | hsame
    · simp [hnone]
    · simp [hsame]
  cases event with
  | receive frame address => cases h; exact inOrder_processFrame hs hguard
  | discoveryEnds address =>
    cases h
    unfold Router.discoveryEnds
    split
    · refine hlose _ fun address' => ?_
      by_cases ha : address' = address
      · exact Or.inl (by rw [ha,AList.lookup_erase])
      · exact Or.inr (AList.lookup_erase_ne ha)
    · exact hs
  | discoveryDone address task =>
    cases h
    unfold Router.discoveryDone
    split
    · exact inOrder_congr hs rfl rfl le_rfl
    · exact hs
  | stop =>
    cases h
    have hempty := hlose ∅ fun address => Or.inl (AList.lookup_empty address)
    exact inOrder_congr hempty rfl rfl le_rfl

theorem inOrder_init : Router.InOrder {} := fun _ => inOrder_nil

/-- Frames of one address are dispatched in the order of their reception, in every run in which
none is dispatched past queued ones. -/
theorem reception_order (h : Reaches Router.step NoOvertaking {} s) :
    ∀ address, (s.delivered address).Pairwise (· < ·) :=
  fun address =>
    (h.invariant inOrder_init (fun _ _ _ hs hguard ht => inOrder_step hs hguard ht) address).ordered

/-! ### The two routes in one discovery -/

def humiditySensor : EOJ := ⟨0x001201,by decide⟩

def statusNotification (value : UInt8) : Frame :=
  ⟨humiditySensor,controllerInstance,.inf,0,[⟨0x80,[value]⟩]⟩

def nodeProfileFrame (properties : List Property) : Frame :=
  ⟨nodeProfileInstance,controllerInstance,.getRes,1,properties⟩

def identification : Property := ⟨0x83,[0xFE,0x01]⟩

def instances : Property := ⟨0xD6,[1,0x00,0x12,0x01]⟩

/-- One answer identifies the node and lists its instances. -/
theorem reception_order_replayed :
    ∃ s : Router, s.delivered "192.0.2.1" = [0,2] ∧
      (s.delivered "192.0.2.1").Pairwise (· < ·) := by
  have hrun : Reaches Router.step NoOvertaking {} _ :=
    ((Reaches.refl.tail (l := .receive (statusNotification 0x30) "192.0.2.1")
      (fun h => absurd rfl h.2.2) rfl).tail
      (l := .receive (nodeProfileFrame [identification,instances]) "192.0.2.1")
      (fun h => absurd rfl h.2.1) rfl).tail
      (l := .receive (statusNotification 0x31) "192.0.2.1") (fun _ => rfl) rfl
  exact ⟨_,rfl,reception_order hrun "192.0.2.1"⟩

/-- The identification comes alone, and the instances only after the next notification: the
older notification is replayed behind the newer one. -/
theorem notification_overtaken : ¬ ∀ s, Reachable Router.step {} s →
    ∀ address, (s.delivered address).Pairwise (· < ·) := by
  intro h
  have hrun : Reachable Router.step {} _ :=
    (((Reaches.refl.tail (l := .receive (statusNotification 0x30) "192.0.2.1") trivial rfl).tail
      (l := .receive (nodeProfileFrame [identification]) "192.0.2.1") trivial rfl).tail
      (l := .receive (statusNotification 0x31) "192.0.2.1") trivial rfl).tail
      (l := .receive (nodeProfileFrame [instances]) "192.0.2.1") trivial rfl
  have hordered : [2,0].Pairwise (· < ·) := h _ hrun "192.0.2.1"
  revert hordered
  decide

end Pyhems.Runtime
