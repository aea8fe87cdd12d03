import Pyhems.Runtime.ReceptionOrder

/-! Direct discovery of unknown addresses: the frames queued for an address, and the task that
is to identify it. The queues are bounded, and each is looked after by an unfinished task or by
the mapping of its address, as long as no frame comes too late for the task. -/
namespace Pyhems.Runtime
open Protocol Library Transition

/-! ### What a frame does to the tables -/

/-- The frame joins the queue of its address. -/
def Router.accepts (s : Router) (frame : Frame) (address : Address) : Bool :=
  decide (frame.esv ∉ requestEsvs) && decide (frame.seoj.classCode ≠ nodeProfileClass) &&
    decide (s.deviceAddresses.get address = none) &&
    (decide (address ∈ s.pendingFrames) ||
      decide (s.pendingFrames.entries.length < maxPendingAddresses))

/-- The queue of an address after the frame joined it. -/
def Router.joined (s : Router) (frame : Frame) (address : Address) : List PendingFrame :=
  let new : PendingFrame := ⟨frame,frame.seoj,s.clock⟩
  match s.pendingFrames.lookup address with
  | some frames => appendPending frames new
  | none => [new]

/-- The frame is handled by `_handle_node_profile`. -/
def Router.profiled (frame : Frame) : Bool :=
  decide (frame.esv ∉ requestEsvs) && decide (frame.seoj.classCode = nodeProfileClass)

/-- The same map, queues and tasks. -/
structure Router.Agrees (s t : Router) : Prop where
  deviceAddresses : t.deviceAddresses = s.deviceAddresses
  pendingFrames : t.pendingFrames = s.pendingFrames
  discoveryTasks : t.discoveryTasks = s.discoveryTasks
  taskCount : t.taskCount = s.taskCount

/-- Every way in which a frame can change the map, the queues and the tasks. -/
inductive Received (s : Router) (frame : Frame) (address : Address) (t : Router) : Prop where
  | ignored (haccepts : s.accepts frame address = false) (h : s.Agrees t)
  | queued (haccepts : s.accepts frame address = true)
      (h : (s.keep address (s.joined frame address)).Agrees t)
  /-- A node profile of an unknown node that does not tell who it is. -/
  | unidentified (hprofiled : Router.profiled frame = true)
      (hid : (extractDiscoveryInfo frame).1 = none) (hunknown : s.deviceAddresses.get address = none)
      (h : (s.scheduleAddressDiscovery address).Agrees t)
  | identified (hprofiled : Router.profiled frame = true)
      (h : (s.learn address (extractDiscoveryInfo frame).1).Agrees t)
  /-- The queued frames are replayed behind the list of instances. -/
  | announced (hprofiled : Router.profiled frame = true)
      (h : Router.Agrees {s.learn address (extractDiscoveryInfo frame).1 with
        pendingFrames := s.pendingFrames.erase address} t)

variable {s t u : Router} {frame : Frame} {address : Address}

theorem Router.Agrees.refl (s : Router) : s.Agrees s := ⟨rfl,rfl,rfl,rfl⟩

theorem Router.Agrees.trans (h : s.Agrees t) (h' : t.Agrees u) : s.Agrees u :=
  ⟨h'.deviceAddresses.trans h.deviceAddresses,h'.pendingFrames.trans h.pendingFrames,
    h'.discoveryTasks.trans h.discoveryTasks,h'.taskCount.trans h.taskCount⟩

theorem agrees_schedule (h : s.Agrees t) (address : Address) :
    (s.scheduleAddressDiscovery address).Agrees (t.scheduleAddressDiscovery address) := by
  unfold Router.scheduleAddressDiscovery
  rw [h.discoveryTasks,h.taskCount]
  split
  · exact h
  · exact ⟨h.deviceAddresses,h.pendingFrames,rfl,rfl⟩

theorem agrees_keep (h : s.Agrees t) (address : Address) (frames : List PendingFrame) :
    (s.keep address frames).Agrees (t.keep address frames) := by
  have hinsert : Router.Agrees {s with pendingFrames := s.pendingFrames.insert address frames}
      {t with pendingFrames := t.pendingFrames.insert address frames} :=
    ⟨h.deviceAddresses,by rw [h.pendingFrames],h.discoveryTasks,h.taskCount⟩
  exact agrees_schedule hinsert address

theorem agrees_replay (s : Router) (address : Address) (nodeId : NodeId) (frames : List PendingFrame) :
    s.Agrees (s.replay address nodeId frames) := by
  induction frames generalizing s with
  | nil => exact .refl s
  | cons pending frames ih =>
    have hdispatch : s.Agrees (s.dispatch address
        (.frame pending.receivedAt pending.frame nodeId pending.eoj)) := ⟨rfl,rfl,rfl,rfl⟩
    exact hdispatch.trans (ih _)

theorem agrees_answerInfc (s : Router) (frame : Frame) (address : Address) :
    s.Agrees (s.answerInfc frame address) := by
  unfold Router.answerInfc
  split
  · exact ⟨rfl,rfl,rfl,rfl⟩
  · exact .refl s

theorem queueUnknownFrame_received (h : s.Agrees t) (hesv : frame.esv ∉ requestEsvs)
    (hclass : frame.seoj.classCode ≠ nodeProfileClass) (hunknown : s.deviceAddresses.get address = none) :
    Received s frame address (t.queueUnknownFrame frame address s.clock) := by
  unfold Router.queueUnknownFrame
  rw [h.pendingFrames]
  cases hframes : s.pendingFrames.lookup address with
  | some frames =>
    have hmem : address ∈ s.pendingFrames := by
      rw [← AList.lookup_isSome,hframes]
      rfl
    have hjoined : s.joined frame address = Router.appendPending frames ⟨frame,frame.seoj,s.clock⟩ := by
      rw [Router.joined,hframes]
    refine .queued (by simp [Router.accepts,hesv,hclass,hunknown,hmem]) ?_
    rw [hjoined]
    exact agrees_keep h address _
  | none =>
    have hmem : address ∉ s.pendingFrames := AList.lookup_eq_none.mp hframes
    have hjoined : s.joined frame address = [⟨frame,frame.seoj,s.clock⟩] := by
      rw [Router.joined,hframes]
    simp only
    split
    · next hfull => exact .ignored (by simp [Router.accepts,hmem,hfull]) h
    · next hroom =>
      refine .queued (by simpa [Router.accepts,hesv,hclass,hunknown,hmem] using hroom) ?_
      rw [hjoined]
      exact agrees_keep h address _

theorem learn_frame (s : Router) (address : Address) (nodeId : Option NodeId) :
    (s.learn address nodeId).pendingFrames = s.pendingFrames ∧
      (s.learn address nodeId).discoveryTasks = s.discoveryTasks ∧
      (s.learn address nodeId).taskCount = s.taskCount := by
  cases nodeId <;> exact ⟨rfl,rfl,rfl⟩

theorem agrees_learn (h : s.Agrees t) (address : Address) (nodeId : Option NodeId) :
    (s.learn address nodeId).Agrees (t.learn address nodeId) := by
  cases nodeId with
  | none => exact h
  | some nodeId => exact ⟨by rw [Router.learn,Router.learn,h.deviceAddresses],h.pendingFrames,
      h.discoveryTasks,h.taskCount⟩

theorem handleNodeProfile_received (h : s.Agrees t) (hprofiled : Router.profiled frame = true)
    (receivedAt : Nat) : Received s frame address (t.handleNodeProfile frame address receivedAt) := by
  have hlearn := agrees_learn h address (extractDiscoveryInfo frame).1
  obtain ⟨hlearned,_,_⟩ := learn_frame s address (extractDiscoveryInfo frame).1
  unfold Router.handleNodeProfile Router.introduce
  simp only
  split
  · next hunknown =>
    rw [hlearn.deviceAddresses] at hunknown
    cases hid : (extractDiscoveryInfo frame).1 with
    | some nodeId =>
      rw [hid,Router.learn,Bidict.get_forceput] at hunknown
      cases hunknown
    | none =>
      rw [hid] at hunknown
      exact .unidentified hprofiled hid hunknown (agrees_schedule h address)
  · next nodeId hknown =>
    split
    · exact .identified hprofiled hlearn
    · unfold Router.announce
      simp only
      split
      · refine .announced hprofiled (.trans ?_ (agrees_replay _ address nodeId _))
        refine ⟨hlearn.deviceAddresses,?_,hlearn.discoveryTasks,hlearn.taskCount⟩
        exact congrArg (AList.erase address) (hlearn.pendingFrames.trans hlearned)
      · exact .identified hprofiled ⟨hlearn.deviceAddresses,hlearn.pendingFrames,
          hlearn.discoveryTasks,hlearn.taskCount⟩

theorem processFrame_received (s : Router) (frame : Frame) (address : Address) :
    Received s frame address (s.processFrame frame address) := by
  let u : Router := {s with clock := s.clock+1}
  have hu : s.Agrees u := ⟨rfl,rfl,rfl,rfl⟩
  have hanswer : s.Agrees (u.answerInfc frame address) := hu.trans (agrees_answerInfc u frame address)
  unfold Router.processFrame
  simp only
  split
  · next hesv => exact .ignored (by simp [Router.accepts,hesv]) hu
  · next hesv =>
    split
    · next hinf => exact queueUnknownFrame_received hu hesv hinf.2.2 hinf.2.1
    · split
      · next hclass =>
        exact handleNodeProfile_received hu (by simp [Router.profiled,hesv,hclass]) s.clock
      · next hclass =>
        split
        · next hunknown =>
          rw [hanswer.deviceAddresses] at hunknown
          exact queueUnknownFrame_received hanswer hesv hclass hunknown
        · next nodeId hknown =>
          rw [hanswer.deviceAddresses] at hknown
          refine .ignored (by simp [Router.accepts,hknown]) (hanswer.trans ⟨rfl,rfl,rfl,rfl⟩)

/-! ### The discovery tasks -/

/-- A task between its creation and its first step, up to its end, up to its done-callback, and
after that. -/
inductive DiscoveryPhase where
  | created
  | running
  | ended
  | done
  deriving DecidableEq, Repr

def DiscoveryPhase.unfinished : DiscoveryPhase → Bool
  | created | running => true
  | ended | done => false

/-- A task of `_discover_address`. -/
structure DiscoveryTask where
  address : Address
  phase : DiscoveryPhase
  deriving DecidableEq, Repr

/-- Tasks are numbered in the order of their creation. `queued` records every frame that was
queued for an address. -/
structure Discovery where
  router : Router := {}
  tasks : List DiscoveryTask := []
  queued : Address → List PendingFrame := fun _ => []

inductive DiscoveryEvent where
  | receive (frame : Frame) (address : Address)
  | starts (task : Nat)
  | ends (task : Nat)
  | done (task : Nat)

namespace Discovery

/-- A received frame, with the task that it may create. -/
def receive (s : Discovery) (frame : Frame) (address : Address) : Discovery :=
  let router := s.router.processFrame frame address
  {router
   tasks := if s.router.taskCount < router.taskCount then s.tasks ++ [⟨address,.created⟩] else s.tasks
   queued :=
    if s.router.accepts frame address then
      Function.update s.queued address
        (s.queued address ++ [⟨frame,frame.seoj,s.router.clock⟩])
    else s.queued}

def starts (s : Discovery) (task : Nat) : Option Discovery :=
  match s.tasks[task]? with
  | some ⟨address,.created⟩ => some {s with tasks := s.tasks.set task ⟨address,.running⟩}
  | _ => none

/-- The task ends, past its `finally`. -/
def ends (s : Discovery) (task : Nat) : Option Discovery :=
  match s.tasks[task]? with
  | some ⟨address,.running⟩ =>
    some {s with router := s.router.discoveryEnds address, tasks := s.tasks.set task ⟨address,.ended⟩}
  | _ => none

def done (s : Discovery) (task : Nat) : Option Discovery :=
  match s.tasks[task]? with
  | some ⟨address,.ended⟩ =>
    some {s with router := s.router.discoveryDone address task, tasks := s.tasks.set task ⟨address,.done⟩}
  | _ => none

def step (s : Discovery) : DiscoveryEvent → Option Discovery
  | .receive frame address => some (s.receive frame address)
  | .starts task => s.starts task
  | .ends task => s.ends task
  | .done task => s.done task

def discovering (s : Discovery) (address : Address) : Bool :=
  s.tasks.any fun task => decide (task.address = address) && task.phase.unfinished

/-- The frame identifies its node, which other queued frames' address was mapped to. -/
def displaces (s : Discovery) (frame : Frame) (address : Address) : Bool :=
  Router.profiled frame &&
    match (extractDiscoveryInfo frame).1 with
    | none => false
    | some nodeId => s.router.pendingFrames.entries.any fun entry =>
      decide (entry.1 ≠ address) && decide (s.router.deviceAddresses.get entry.1 = some nodeId) &&
        !s.discovering entry.1

/-- A frame is queued for an address whose task has ended but is still in the table, or takes
the node from an address with queued frames that no task looks after. -/
def strands (s : Discovery) : DiscoveryEvent → Bool
  | .receive frame address =>
    s.router.accepts frame address && decide (address ∈ s.router.discoveryTasks) &&
      !s.discovering address || s.displaces frame address
  | _ => false

end Discovery

/-- The queues are bounded and hold the latest frames. -/
structure Bounded (s : Discovery) : Prop where
  addresses : s.router.pendingFrames.entries.length ≤ 32
  frames : ∀ address frames, s.router.pendingFrames.lookup address = some frames →
    1 ≤ frames.length ∧ frames.length ≤ 16 ∧ frames <:+ s.queued address

/-- Every queue is looked after. -/
def Discovery.Attended (s : Discovery) : Prop :=
  ∀ address ∈ s.router.pendingFrames,
    s.discovering address = true ∨ s.router.deviceAddresses.get address ≠ none

variable {d e : Discovery} {event : DiscoveryEvent} {task : Nat} {phase phase' : DiscoveryPhase}

theorem discovering_iff : d.discovering address = true ↔ ∃ (task : Nat) (phase : DiscoveryPhase),
    d.tasks[task]? = some ⟨address,phase⟩ ∧ phase.unfinished = true := by
  unfold Discovery.discovering
  rw [List.any_eq_true]
  constructor
  · rintro ⟨⟨source,phase⟩,hmem,h⟩
    obtain ⟨task,htask⟩ := List.mem_iff_getElem?.mp hmem
    obtain ⟨ha,hphase⟩ := Bool.and_eq_true_iff.mp h
    have ha : source = address := of_decide_eq_true ha
    exact ⟨task,phase,ha ▸ htask,hphase⟩
  · rintro ⟨task,phase,htask,hphase⟩
    exact ⟨_,List.mem_of_getElem? htask,by simpa using hphase⟩

/-- A task that moves on leaves the other tasks alone. -/
theorem discovering_set {source : Address}
    (htask : d.tasks[task]? = some ⟨source,phase⟩) (hset : e.tasks = d.tasks.set task ⟨source,phase'⟩)
    (hkept : address = source → phase.unfinished = true → phase'.unfinished = true)
    (h : d.discovering address = true) : e.discovering address = true := by
  obtain ⟨n,p,hn,hp⟩ := discovering_iff.mp h
  rw [discovering_iff,hset]
  by_cases he : n = task
  · subst he
    cases htask.symm.trans hn
    refine ⟨n,phase',?_,hkept rfl hp⟩
    rw [List.getElem?_set_self (List.getElem?_eq_some_iff.mp htask).1]
  · refine ⟨n,p,?_,hp⟩
    rw [List.getElem?_set_ne (Ne.symm he),hn]

/-! ### Bounds -/

theorem length_entries (nodes : AList fun _ : Address => List PendingFrame) :
    nodes.entries.length = nodes.keys.length := by
  rw [AList.keys,List.keys,List.length_map]

theorem length_insert_le {nodes : AList fun _ : Address => List PendingFrame} (address : Address)
    (frames : List PendingFrame) (h : address ∉ nodes → nodes.entries.length < 32)
    (hle : nodes.entries.length ≤ 32) : (nodes.insert address frames).entries.length ≤ 32 := by
  rw [length_entries] at h hle ⊢
  rw [AList.keys_insert,List.length_cons]
  by_cases hmem : address ∈ nodes
  · have hpos := List.length_pos_of_mem (AList.mem_keys.mp hmem)
    rw [List.length_erase_of_mem (AList.mem_keys.mp hmem)]
    omega
  · rw [List.erase_of_not_mem fun hk => hmem (AList.mem_keys.mpr hk)]
    exact h hmem

theorem length_erase_le (nodes : AList fun _ : Address => List PendingFrame) (address : Address) :
    (nodes.erase address).entries.length ≤ nodes.entries.length := by
  rw [length_entries,length_entries,AList.keys_erase]
  exact List.length_erase_le

/-- A full queue loses its oldest frame, so the latest ones stay. -/
theorem appendPending_recent {frames history : List PendingFrame} (new : PendingFrame)
    (hlength : frames.length ≤ 16) (h : frames <:+ history) :
    1 ≤ (Router.appendPending frames new).length ∧ (Router.appendPending frames new).length ≤ 16 ∧
      Router.appendPending frames new <:+ history ++ [new] := by
  have happend : ∀ kept : List PendingFrame, kept <:+ history → kept ++ [new] <:+ history ++ [new] := by
    rintro kept ⟨dropped,rfl⟩
    exact ⟨dropped,by rw [List.append_assoc]⟩
  unfold Router.appendPending maxPendingFramesPerAddress
  split
  · refine ⟨by simp,?_,happend _ ((List.drop_suffix 1 frames).trans h)⟩
    rw [List.length_append,List.length_drop,List.length_singleton]
    omega
  · refine ⟨by simp,?_,happend _ h⟩
    rw [List.length_append,List.length_singleton]
    omega

theorem profiled_not_accepted (h : Router.profiled frame = true) (s : Router) (address : Address) :
    s.accepts frame address = false := by
  have hclass : frame.seoj.classCode = nodeProfileClass :=
    of_decide_eq_true (Bool.and_eq_true_iff.mp h).2
  simp [Router.accepts,hclass]

theorem schedule_cases (s : Router) (address : Address) :
    address ∈ s.discoveryTasks ∧ s.scheduleAddressDiscovery address = s ∨
      address ∉ s.discoveryTasks ∧ s.scheduleAddressDiscovery address =
        {s with discoveryTasks := s.discoveryTasks.insert address s.taskCount, taskCount := s.taskCount+1} := by
  unfold Router.scheduleAddressDiscovery
  split
  · next hmem => exact Or.inl ⟨hmem,rfl⟩
  · next hmem => exact Or.inr ⟨hmem,rfl⟩

theorem keep_frame (s : Router) (address : Address) (frames : List PendingFrame) :
    (s.keep address frames).pendingFrames = s.pendingFrames.insert address frames ∧
      (s.keep address frames).deviceAddresses = s.deviceAddresses := by
  unfold Router.keep Router.scheduleAddressDiscovery
  split <;> exact ⟨rfl,rfl⟩

/-- Fewer queues. -/
theorem Bounded.shrink (hd : Bounded d) (hqueued : e.queued = d.queued)
    (h : e.router.pendingFrames = d.router.pendingFrames ∨
      ∃ address, e.router.pendingFrames = d.router.pendingFrames.erase address) : Bounded e := by
  rcases h with h | ⟨source,h⟩
  · refine ⟨?_,?_⟩
    · rw [h]
      exact hd.addresses
    · rw [h,hqueued]
      exact hd.frames
  · refine ⟨?_,fun address frames hframes => ?_⟩
    · rw [h]
      exact (length_erase_le _ source).trans hd.addresses
    · rw [h] at hframes
      rw [hqueued]
      by_cases ha : address = source
      · rw [ha,AList.lookup_erase] at hframes
        cases hframes
      · rw [AList.lookup_erase_ne ha] at hframes
        exact hd.frames address frames hframes

/-- One more frame in the queue of an address. -/
theorem Bounded.join (hd : Bounded d) (haccepts : d.router.accepts frame address = true)
    (hframes : e.router.pendingFrames =
      d.router.pendingFrames.insert address (d.router.joined frame address))
    (hqueued : e.queued = Function.update d.queued address
      (d.queued address ++ [⟨frame,frame.seoj,d.router.clock⟩])) : Bounded e := by
  have hroom : address ∉ d.router.pendingFrames → d.router.pendingFrames.entries.length < 32 := by
    intro hmem
    rcases Bool.or_eq_true_iff.mp (Bool.and_eq_true_iff.mp haccepts).2 with hknown | hroom
    · exact absurd (of_decide_eq_true hknown) hmem
    · exact of_decide_eq_true hroom
  refine ⟨?_,fun source frames hsource => ?_⟩
  · rw [hframes]
    exact length_insert_le address _ hroom hd.addresses
  · rw [hframes] at hsource
    rw [hqueued]
    by_cases ha : source = address
    · rw [ha,AList.lookup_insert] at hsource
      rw [ha,Function.update_self,← Option.some.inj hsource]
      unfold Router.joined
      cases hold : d.router.pendingFrames.lookup address with
      | some kept =>
        obtain ⟨_,hlength,hsuffix⟩ := hd.frames address kept hold
        exact appendPending_recent _ hlength hsuffix
      | none => exact ⟨le_rfl,by simp,List.suffix_append _ _⟩
    · rw [AList.lookup_insert_ne ha] at hsource
      rw [Function.update_of_ne ha]
      exact hd.frames source frames hsource

theorem Bounded.receive (hd : Bounded d) (frame : Frame) (address : Address) :
    Bounded (d.receive frame address) := by
  have hqueued : d.router.accepts frame address = false → (d.receive frame address).queued = d.queued := by
    intro haccepts
    simp only [Discovery.receive,haccepts]
    rfl
  cases processFrame_received d.router frame address with
  | ignored haccepts h => exact hd.shrink (hqueued haccepts) (Or.inl h.pendingFrames)
  | queued haccepts h =>
    refine hd.join haccepts (h.pendingFrames.trans (keep_frame _ _ _).1) ?_
    simp only [Discovery.receive,haccepts,if_true]
  | unidentified hprofiled hid hunknown h =>
    have hsame := h.pendingFrames.trans (scheduleAddressDiscovery_frame d.router address).2.1
    exact hd.shrink (hqueued (profiled_not_accepted hprofiled _ _)) (Or.inl hsame)
  | identified hprofiled h =>
    have hsame := h.pendingFrames.trans (learn_frame d.router address _).1
    exact hd.shrink (hqueued (profiled_not_accepted hprofiled _ _)) (Or.inl hsame)
  | announced hprofiled h =>
    exact hd.shrink (hqueued (profiled_not_accepted hprofiled _ _)) (Or.inr ⟨address,h.pendingFrames⟩)

/-- What a task does to the queues and to itself. -/
inductive Advanced (d : Discovery) : DiscoveryEvent → Discovery → Prop where
  | started (task : Nat) (address : Address) (htask : d.tasks[task]? = some ⟨address,.created⟩) :
      Advanced d (.starts task) {d with tasks := d.tasks.set task ⟨address,.running⟩}
  | ended (task : Nat) (address : Address) (htask : d.tasks[task]? = some ⟨address,.running⟩) :
      Advanced d (.ends task) {d with router := d.router.discoveryEnds address,
                                      tasks := d.tasks.set task ⟨address,.ended⟩}
  | done (task : Nat) (address : Address) (htask : d.tasks[task]? = some ⟨address,.ended⟩) :
      Advanced d (.done task) {d with router := d.router.discoveryDone address task,
                                      tasks := d.tasks.set task ⟨address,.done⟩}

theorem starts_advanced (h : d.starts task = some e) : Advanced d (.starts task) e := by
  unfold Discovery.starts at h
  split at h
  · next address htask =>
    cases h
    exact .started task address htask
  · cases h

theorem ends_advanced (h : d.ends task = some e) : Advanced d (.ends task) e := by
  unfold Discovery.ends at h
  split at h
  · next address htask =>
    cases h
    exact .ended task address htask
  · cases h

theorem done_advanced (h : d.done task = some e) : Advanced d (.done task) e := by
  unfold Discovery.done at h
  split at h
  · next address htask =>
    cases h
    exact .done task address htask
  · cases h

theorem discoveryEnds_cases (s : Router) (address : Address) :
    s.deviceAddresses.get address = none ∧
        s.discoveryEnds address = {s with pendingFrames := s.pendingFrames.erase address} ∨
      s.deviceAddresses.get address ≠ none ∧ s.discoveryEnds address = s := by
  unfold Router.discoveryEnds
  split
  · next hunknown => exact Or.inl ⟨hunknown,rfl⟩
  · next hknown => exact Or.inr ⟨hknown,rfl⟩

theorem discoveryDone_frame (s : Router) (address : Address) (task : Nat) :
    (s.discoveryDone address task).pendingFrames = s.pendingFrames ∧
      (s.discoveryDone address task).deviceAddresses = s.deviceAddresses := by
  unfold Router.discoveryDone
  split <;> exact ⟨rfl,rfl⟩

theorem Bounded.advance (hd : Bounded d) (h : Advanced d event e) : Bounded e := by
  cases h with
  | started task address htask => exact hd.shrink rfl (Or.inl rfl)
  | ended task address htask =>
    refine hd.shrink rfl ?_
    rcases discoveryEnds_cases d.router address with ⟨_,he⟩ | ⟨_,he⟩
    · exact Or.inr ⟨address,congrArg Router.pendingFrames he⟩
    · exact Or.inl (congrArg Router.pendingFrames he)
  | done task address htask => exact hd.shrink rfl (Or.inl (discoveryDone_frame _ _ _).1)

theorem bounded_init : Bounded {} := ⟨Nat.zero_le _,nofun⟩

theorem Bounded.step (hd : Bounded d) (h : d.step event = some e) : Bounded e := by
  cases event with
  | receive frame address =>
    cases h
    exact hd.receive frame address
  | starts task => exact hd.advance (starts_advanced h)
  | ends task => exact hd.advance (ends_advanced h)
  | done task => exact hd.advance (done_advanced h)

/-! ### Every queue is looked after -/

theorem discovering_append {tasks : List DiscoveryTask} (h : d.discovering address = true)
    (htasks : e.tasks = d.tasks ++ tasks) : e.discovering address = true := by
  unfold Discovery.discovering at h ⊢
  rw [htasks,List.any_append,h,Bool.true_or]

/-- A frame ends no task. -/
theorem discovering_receive (frame : Frame) (source : Address) (h : d.discovering address = true) :
    (d.receive frame source).discovering address = true := by
  have htasks : (d.receive frame source).tasks =
      if d.router.taskCount < (d.router.processFrame frame source).taskCount then
        d.tasks ++ [⟨source,.created⟩] else d.tasks := rfl
  split at htasks
  · exact discovering_append h htasks
  · unfold Discovery.discovering at h ⊢
    rwa [htasks]

/-- A discovery that is scheduled anew has a task. -/
theorem discovering_scheduled (hnew : address ∉ d.router.discoveryTasks)
    (h : (d.router.scheduleAddressDiscovery address).taskCount =
      (d.router.processFrame frame address).taskCount) :
    (d.receive frame address).discovering address = true := by
  have hcount : d.router.taskCount < (d.router.processFrame frame address).taskCount := by
    rcases schedule_cases d.router address with ⟨hmem,_⟩ | ⟨_,he⟩
    · exact absurd hmem hnew
    · rw [← h,he]
      exact Nat.lt_succ_self _
  have htasks : (d.receive frame address).tasks = d.tasks ++ [⟨address,.created⟩] := if_pos hcount
  unfold Discovery.discovering
  rw [htasks,List.any_append]
  simp [DiscoveryPhase.unfinished]

theorem keep_taskCount (s : Router) (address : Address) (frames : List PendingFrame) :
    (s.keep address frames).taskCount = (s.scheduleAddressDiscovery address).taskCount := by
  unfold Router.keep Router.scheduleAddressDiscovery
  split <;> rfl

/-- An address that is mapped stays so when a frame identifies its node, unless the frame
takes the node from it. -/
theorem Discovery.Attended.learn (hd : d.Attended) (hprofiled : Router.profiled frame = true)
    (hguard : d.displaces frame address = false) {source : Address}
    (hsource : source ∈ d.router.pendingFrames) : d.discovering source = true ∨
      (d.router.learn address (extractDiscoveryInfo frame).1).deviceAddresses.get source ≠ none := by
  rcases hd source hsource with htask | hmapped
  · exact Or.inl htask
  · cases hid : (extractDiscoveryInfo frame).1 with
    | none => exact Or.inr hmapped
    | some nodeId =>
      obtain ⟨other,hother⟩ := Option.ne_none_iff_exists'.mp hmapped
      have hlearn : (d.router.learn address (some nodeId)).deviceAddresses =
          d.router.deviceAddresses.forceput address nodeId := rfl
      rw [hlearn]
      by_cases ha : source = address
      · rw [ha,Bidict.get_forceput]
        exact Or.inr nofun
      · by_cases hn : other = nodeId
        -- The node of the address is taken, so a task is left to look after its frames.
        · obtain ⟨frames,hframes⟩ := Option.isSome_iff_exists.mp (AList.lookup_isSome.mpr hsource)
          simp only [Discovery.displaces,hprofiled,hid,Bool.true_and] at hguard
          have hentry := List.any_eq_false.mp hguard ⟨source,frames⟩ (AList.mem_lookup_iff.mp hframes)
          exact Or.inl (by simpa [ha,hother,hn] using hentry)
        · rw [Bidict.get_forceput_of_iff hother (iff_of_false ha hn)]
          exact Or.inr nofun

theorem Discovery.Attended.receive (hd : d.Attended)
    (hguard : d.strands (.receive frame address) = false) : (d.receive frame address).Attended := by
  obtain ⟨hlate,hdisplaces⟩ := Bool.or_eq_false_iff.mp hguard
  have hstill : ∀ source, d.discovering source = true →
      (d.receive frame address).discovering source = true := fun _ => discovering_receive frame address
  -- A queue that was there is looked after as before, if its address is still mapped.
  have hkept : (d.router.processFrame frame address).deviceAddresses = d.router.deviceAddresses →
      ∀ source ∈ d.router.pendingFrames, (d.receive frame address).discovering source = true ∨
        (d.router.processFrame frame address).deviceAddresses.get source ≠ none := by
    intro hmap source hsource
    rw [hmap]
    exact (hd source hsource).imp_left (hstill source)
  have hlearned : Router.profiled frame = true → (d.router.processFrame frame address).deviceAddresses =
        (d.router.learn address (extractDiscoveryInfo frame).1).deviceAddresses →
      ∀ source ∈ d.router.pendingFrames, (d.receive frame address).discovering source = true ∨
        (d.router.processFrame frame address).deviceAddresses.get source ≠ none := by
    intro hprofiled hmap source hsource
    rw [hmap]
    exact (hd.learn hprofiled hdisplaces hsource).imp_left (hstill source)
  intro source hsource
  have hsource : source ∈ (d.router.processFrame frame address).pendingFrames := hsource
  cases processFrame_received d.router frame address with
  | ignored haccepts h =>
    rw [h.pendingFrames] at hsource
    exact hkept h.deviceAddresses source hsource
  | queued haccepts h =>
    obtain ⟨hinsert,hmap⟩ := keep_frame d.router address (d.router.joined frame address)
    rw [h.pendingFrames,hinsert,AList.mem_insert] at hsource
    rcases hsource with rfl | hsource
    · by_cases hlisted : source ∈ d.router.discoveryTasks
      · exact Or.inl (hstill source (by simpa [haccepts,hlisted] using hlate))
      · have hcount := (keep_taskCount d.router source (d.router.joined frame source)).symm.trans
          h.taskCount.symm
        exact Or.inl (discovering_scheduled hlisted hcount)
    · exact hkept (h.deviceAddresses.trans hmap) source hsource
  | unidentified hprofiled hid hunknown h =>
    rw [h.pendingFrames,(scheduleAddressDiscovery_frame d.router address).2.1] at hsource
    have hmap : (d.router.scheduleAddressDiscovery address).deviceAddresses =
        d.router.deviceAddresses := by
      rcases schedule_cases d.router address with ⟨_,he⟩ | ⟨_,he⟩ <;> rw [he]
    exact hkept (h.deviceAddresses.trans hmap) source hsource
  | identified hprofiled h =>
    rw [h.pendingFrames,(learn_frame d.router address _).1] at hsource
    exact hlearned hprofiled h.deviceAddresses source hsource
  | announced hprofiled h =>
    rw [h.pendingFrames] at hsource
    exact hlearned hprofiled h.deviceAddresses source (AList.mem_erase.mp hsource).2

theorem Discovery.Attended.advance (hd : d.Attended) (h : Advanced d event e) : e.Attended := by
  intro source hsource
  cases h with
  | started task address htask =>
    exact (hd source hsource).imp_left (discovering_set htask rfl fun _ _ => rfl)
  | ended task address htask =>
    -- The frames of an address that is still unknown are gone with its task.
    have hkept : source ∈ d.router.pendingFrames ∧ (d.router.discoveryEnds address).deviceAddresses =
        d.router.deviceAddresses ∧ (source = address → d.router.deviceAddresses.get source ≠ none) := by
      have hsource : source ∈ (d.router.discoveryEnds address).pendingFrames := hsource
      rcases discoveryEnds_cases d.router address with ⟨_,he⟩ | ⟨hknown,he⟩ <;> rw [he] at hsource ⊢
      · have hsource : source ∈ d.router.pendingFrames.erase address := hsource
        obtain ⟨hne,hmem⟩ := AList.mem_erase.mp hsource
        exact ⟨hmem,rfl,fun h => absurd h hne⟩
      · exact ⟨hsource,rfl,fun h => h ▸ hknown⟩
    obtain ⟨hmem,hmap,hknown⟩ := hkept
    simp only [hmap]
    by_cases ha : source = address
    · exact Or.inr (hknown ha)
    · exact (hd source hmem).imp_left (discovering_set htask rfl fun h => absurd h ha)
  | done task address htask =>
    obtain ⟨hframes,hmap⟩ := discoveryDone_frame d.router address task
    have hsource : source ∈ (d.router.discoveryDone address task).pendingFrames := hsource
    rw [hframes] at hsource
    simp only [hmap]
    exact (hd source hsource).imp_left (discovering_set htask rfl fun _ h => by cases h)

theorem Discovery.Attended.step (hd : d.Attended) (hguard : d.strands event = false)
    (h : d.step event = some e) : e.Attended := by
  cases event with
  | receive frame address =>
    cases h
    exact hd.receive hguard
  | starts task => exact hd.advance (starts_advanced h)
  | ends task => exact hd.advance (ends_advanced h)
  | done task => exact hd.advance (done_advanced h)

/-- Queued frames are bounded in every run. -/
theorem bounded_reached {guard : Discovery → DiscoveryEvent → Prop}
    (h : Reaches Discovery.step guard {} d) : Bounded d :=
  h.invariant bounded_init fun _ _ _ hd _ ht => hd.step ht

/-- In every run in which no frame comes too late and no other address takes the node of a
queue, the queued frames are looked after. -/
theorem unknown_frames (h : Reaches Discovery.step (fun d event => d.strands event = false) {} d) :
    Bounded d ∧ d.Attended := by
  refine ⟨bounded_reached h,?_⟩
  apply h.invariant
  · intro source hsource
    exact absurd hsource (AList.notMem_empty source)
  · intro d event e hd hguard ht
    exact hd.step hguard ht

/-- The discovery of a sensor times out, and the frame that was queued for it is given up. -/
def givenUp : List DiscoveryEvent :=
  [.receive (statusNotification 0x30) "192.0.2.1",.starts 0,.receive (statusNotification 0x31) "192.0.2.1",
    .ends 0,.done 0,.receive (statusNotification 0x30) "192.0.2.1"]

theorem unknown_frames_again : ∃ d : Discovery, (d.queued "192.0.2.1").length = 3 ∧
    (d.router.pendingFrames.lookup "192.0.2.1").map List.length = some 1 ∧ Bounded d ∧ d.Attended := by
  have hrun : (exec (fun d event => if !d.strands event then Discovery.step d event else none) {}
      givenUp).any (fun d => decide ((d.queued "192.0.2.1").length = 3 ∧
        (d.router.pendingFrames.lookup "192.0.2.1").map List.length = some 1)) = true := by
    decide +kernel
  obtain ⟨d,hd,hend⟩ := (Option.any_eq_true _ _).mp hrun
  obtain ⟨hqueued,hlength⟩ := of_decide_eq_true hend
  have hreached := reaches_of_checked (fun d event => d.strands event = false)
    (fun _ _ hcheck => by simpa using hcheck) hd
  exact ⟨d,hqueued,hlength,unknown_frames hreached⟩

/-- A notification comes after the discovery has ended and before its done-callback. -/
def lateNotification : List DiscoveryEvent :=
  [.receive (statusNotification 0x30) "192.0.2.1",.starts 0,.ends 0,
    .receive (statusNotification 0x31) "192.0.2.1",.done 0]

/-- The late notification is queued without a discovery. -/
theorem frame_stranded : ¬ ∀ d, Reachable Discovery.step {} d → Bounded d ∧ d.Attended := by
  have hrun : (exec Discovery.step {} lateNotification).any (fun d => decide
      ((d.router.pendingFrames.lookup "192.0.2.1").isSome = true ∧
        d.discovering "192.0.2.1" = false ∧ d.router.deviceAddresses.get "192.0.2.1" = none)) = true := by
    decide +kernel
  obtain ⟨d,hd,hend⟩ := (Option.any_eq_true _ _).mp hrun
  obtain ⟨hqueued,hidle,hunknown⟩ := of_decide_eq_true hend
  intro h
  rcases (h d (reachable_of_exec hd)).2 "192.0.2.1" (AList.lookup_isSome.mp hqueued) with htask | hmapped
  · rw [hidle] at htask
    cases htask
  · exact hmapped hunknown

end Pyhems.Runtime
