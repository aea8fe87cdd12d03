import Pyhems.Device.Announcement

/-! Polled and notified EPCs. What a device was not seen to notify is polled, in one of two tiers,
from the registration on and after whatever answer its INF_REQ got. -/
namespace Pyhems.Device
open Protocol Library Pyhems.Runtime Transition
open Get (Epc)

variable {config : Config} {key : DeviceKey} {s : Manager}

theorem computePollEpcs_disjoint (monitored getEpcs candidates notified : Finset Epc) :
    Disjoint (computePollEpcs monitored getEpcs candidates notified).1
      (computePollEpcs monitored getEpcs candidates notified).2 := Finset.sdiff_disjoint

theorem computePollEpcs_union (monitored getEpcs candidates notified : Finset Epc) :
    (computePollEpcs monitored getEpcs candidates notified).1 ∪
      (computePollEpcs monitored getEpcs candidates notified).2 = (monitored ∩ getEpcs) \ notified :=
  Finset.sdiff_union_of_subset Finset.inter_subset_left

theorem computePollEpcs_fast (monitored getEpcs candidates notified : Finset Epc) :
    (computePollEpcs monitored getEpcs candidates notified).2 ⊆ candidates := Finset.inter_subset_right

/-- The EPC sets of a registered object, with the answers to its INF_REQ: how they are tied, and what
the announcement waits for. -/
structure NodeState.Split (node : NodeState) (announced : Nat) (answers : List Frame) : Prop where
  requested : node.infRequestEpcs = node.monitoredEpcs ∩ node.infEpcs
  polled : (node.pollEpcs,node.fastPollEpcs) =
    computePollEpcs node.monitoredEpcs node.getEpcs node.fastCandidateEpcs node.infNotifiedEpcs
  notified : node.infNotifiedEpcs ⊆ node.infRequestEpcs
  waiting : announced = 0 → node.infNotifiedEpcs = ∅ ∧ node.infUnconfirmedEpcs = ∅
  confirmed : announced ≠ 0 → Disjoint node.infNotifiedEpcs node.infUnconfirmedEpcs ∧
    node.infNotifiedEpcs ∪ node.infUnconfirmedEpcs = node.infRequestEpcs
  carried : ∀ epc ∈ node.infNotifiedEpcs, ∃ frame ∈ answers, frame.esv = .inf ∧
    epc ∈ epcsOf frame.properties

theorem NodeState.SetUp.split {node : NodeState} {code : Nat} {initial : Finset Epc}
    {props : List Property} (hnode : node.SetUp config key code initial props) (answers : List Frame) :
    node.Split 0 answers := by
  refine ⟨?_,hnode.polled,?_,fun _ => hnode.silent,fun h => absurd rfl h,fun epc hepc => ?_⟩
  · rw [hnode.requested,hnode.monitored]
  · rw [hnode.silent.1]
    exact Finset.empty_subset _
  · rw [hnode.silent.1] at hepc
    cases hepc

/-- Nothing is requested, and the object is announced without an INF_REQ. -/
theorem NodeState.Split.announce {node : NodeState} {answers : List Frame} (hnode : node.Split 0 answers)
    (hinf : node.infRequestEpcs = ∅) : node.Split 1 answers := by
  obtain ⟨hnotified,hunconfirmed⟩ := hnode.waiting rfl
  refine ⟨hnode.requested,hnode.polled,hnode.notified,nofun,fun _ => ⟨?_,?_⟩,hnode.carried⟩
  · rw [hnotified]
    exact Finset.disjoint_empty_left _
  · rw [hnotified,hunconfirmed,hinf]
    exact Finset.union_idempotent _

/-- The INF_REQ has ended, and the object is announced with its result. -/
theorem NodeState.Split.answered {node : NodeState} {announced : Nat} {answers : List Frame}
    (hnode : node.Split announced answers) {reply : Reply} {result : InfRequestResult}
    (hresult : requestNotifications (sorted node.infRequestEpcs) reply = .ok result) :
    (node.notified result).Split 1 (answers ++ reply.frame.toList) := by
  have hanswers := requestNotifications_answers hresult
  rw [sorted,Finset.sort_toFinset] at hanswers
  refine ⟨hnode.requested,rfl,?_,nofun,fun _ => ⟨hanswers.apart,hanswers.covers⟩,fun epc hepc => ?_⟩
  · exact hanswers.covers ▸ Finset.subset_union_left
  · obtain ⟨frame,hframe,hcarried⟩ := hanswers.carried epc hepc
    refine ⟨frame,List.mem_append_right _ ?_,hcarried⟩
    rw [hframe]
    exact List.mem_singleton_self frame

/-- A node whose values or tried ranges alone differ. -/
theorem NodeState.Split.congr {node node' : NodeState} {announced : Nat} {answers : List Frame}
    (hnode : node.Split announced answers) (hsame : node.SameDevice node')
    (hpoll : node'.pollEpcs = node.pollEpcs) (hfast : node'.fastPollEpcs = node.fastPollEpcs)
    (hnotified : node'.infNotifiedEpcs = node.infNotifiedEpcs)
    (hunconfirmed : node'.infUnconfirmedEpcs = node.infUnconfirmedEpcs) :
    node'.Split announced answers := by
  refine ⟨?_,?_,?_,?_,?_,?_⟩
  · rw [hsame.requested,hsame.monitored,hsame.infMap]
    exact hnode.requested
  · rw [hpoll,hfast,hsame.monitored,hsame.getMap,hsame.candidates,hnotified]
    exact hnode.polled
  · rw [hnotified,hsame.requested]
    exact hnode.notified
  · rw [hnotified,hunconfirmed]
    exact hnode.waiting
  · rw [hnotified,hunconfirmed,hsame.requested]
    exact hnode.confirmed
  · rw [hnotified]
    exact hnode.carried

structure Life.Split (d : Life) : Prop where
  early : d.Early
  node : ∀ node, d.node = some node → node.Split d.announced d.infAnswers

namespace Life
variable {permits : Permits} {d d' : Life}

theorem split_init : Split {} := ⟨early_init,nofun⟩

theorem Split.move (hd : d.Split) (h : Move config key permits d d') : d'.Split := by
  have hearly := hd.early.move h
  cases h with
  | learn | forget | read | begin | select | proceed | fail | drop => exact ⟨hearly,hd.node⟩
  | register task code initial props node hstage _ hnode =>
    refine ⟨hearly,fun _ h => ?_⟩
    cases h
    have hsplit := (setupNode_setUp hnode).split d.infAnswers
    rwa [← hd.early.setup task _ hstage] at hsplit
  | write node properties hnode =>
    refine ⟨hearly,fun _ h => ?_⟩
    cases h
    exact (hd.node node hnode).congr ⟨rfl,rfl,rfl,rfl,rfl,rfl,rfl⟩ rfl rfl rfl rfl
  | recover node properties hnode =>
    refine ⟨hearly,fun _ h => ?_⟩
    cases h
    exact (hd.node node hnode).congr ⟨rfl,rfl,rfl,rfl,rfl,rfl,rfl⟩ rfl rfl rfl rfl
  | announce task stage node hstage _ hnode hinf =>
    have hsplit := hd.node node hnode
    rw [hd.early.setup task stage hstage] at hsplit
    refine ⟨hearly,fun node' hnode' => ?_⟩
    cases hnode.symm.trans hnode'
    rw [hd.early.setup task stage hstage]
    exact hsplit.announce hinf
  | notified task stage node reply result hstage _ hnode hresult =>
    refine ⟨hearly,fun _ h => ?_⟩
    cases h
    rw [hd.early.setup task stage hstage]
    exact (hd.node node hnode).answered hresult

end Life

/-- The EPC sets of a registered object. What is polled is what is monitored, can be asked for, and
was not notified; a monitored EPC that can be asked for is polled, or an answer to the INF_REQ of
the object carried it. -/
structure Manager.PollSplit (s : Manager) (key : DeviceKey) (node : NodeState) : Prop where
  disjoint : Disjoint node.pollEpcs node.fastPollEpcs
  union : node.pollEpcs ∪ node.fastPollEpcs = (node.monitoredEpcs ∩ node.getEpcs) \ node.infNotifiedEpcs
  fast : node.fastPollEpcs ⊆ node.fastCandidateEpcs
  notified : node.infNotifiedEpcs ⊆ node.monitoredEpcs ∩ node.infEpcs
  finished : DeviceEvent.deviceAdded key ∈ s.emitted →
    Disjoint node.infNotifiedEpcs node.infUnconfirmedEpcs ∧
      node.infNotifiedEpcs ∪ node.infUnconfirmedEpcs = node.infRequestEpcs
  covered : ∀ epc ∈ node.monitoredEpcs ∩ node.getEpcs, epc ∈ node.pollEpcs ∪ node.fastPollEpcs ∨
    ∃ frame ∈ entriesOf key s.infAnswers, frame.esv = .inf ∧ epc ∈ epcsOf frame.properties

/-- Polling and notifications together miss no EPC, in every state of every run. -/
theorem poll_split (h : Reachable (Manager.step config) {} s) {node : NodeState}
    (hnode : s.data key = some node) : s.PollSplit key node := by
  have hlife := life_invariant key Life.split_init (fun _ _ hd hmove => hd.move hmove) h
  have hsplit := hlife.node node hnode
  obtain ⟨hpoll,hfast⟩ := Prod.mk.inj hsplit.polled
  have hunion : node.pollEpcs ∪ node.fastPollEpcs =
      (node.monitoredEpcs ∩ node.getEpcs) \ node.infNotifiedEpcs := by
    rw [hpoll,hfast]
    exact computePollEpcs_union ..
  refine ⟨?_,hunion,?_,?_,fun hadded => ?_,fun epc hepc => ?_⟩
  · rw [hpoll,hfast]
    exact computePollEpcs_disjoint ..
  · rw [hfast]
    exact computePollEpcs_fast ..
  · exact hsplit.requested ▸ hsplit.notified
  · exact hsplit.confirmed (Nat.pos_iff_ne_zero.mp (List.count_pos_iff.mpr hadded))
  · by_cases hnotified : epc ∈ node.infNotifiedEpcs
    · exact Or.inr (hsplit.carried epc hnotified)
    · apply Or.inl
      rw [hunion]
      exact Finset.mem_sdiff.mpr ⟨hepc,hnotified⟩

/-- The sensor is polled for what it rejects: another EPC that the answer carries counts for nothing. -/
theorem poll_split_sensor : ∃ (s : Manager) (node : NodeState), s.data sensor = some node ∧
    node.pollEpcs = {0x80} ∧ s.PollSplit sensor node := by
  have hrun : (exec (Manager.step sensorConfig) {} (sensorListed ++ sensorRegistered 0x30 ++
      [.resume 1 (.reply (some (.ok (true,some ⟨humiditySensor,controllerInstance,.infSna,0,
        [⟨0x80,[]⟩,⟨0xE0,[]⟩]⟩))))])).any
      (fun s => (s.data sensor).any fun node => decide (node.pollEpcs = {0x80})) = true := by
    decide +kernel
  obtain ⟨s,hs,hcheck⟩ := (Option.any_eq_true _ _).mp hrun
  obtain ⟨node,hnode,hpoll⟩ := (Option.any_eq_true _ _).mp hcheck
  exact ⟨s,node,hnode,of_decide_eq_true hpoll,poll_split (reachable_of_exec hs) hnode⟩

end Pyhems.Device
