import Pyhems.Device.CrewRefinement
import Pyhems.Device.Registration

/-! The jobs of a node in every run without cancellation: each is started once, in the order in which
they were enqueued, and one at a time. -/
namespace Pyhems.Device
open Protocol Library Transition Pyhems.Runtime

namespace Crew
variable {drops : Prop} {d d' : Crew} {task : Nat} {nodeId : NodeId}

/-- A job of the node is started and has not returned. -/
def Busy (d : Crew) (nodeId : NodeId) : Prop :=
  ∃ task deque c, d.posts task = some (.worker nodeId deque true,c)

/-- The jobs that the node has started and those that are queued are the ones enqueued for it, in
order, and all but one of those started have returned. -/
structure InOrder (d : Crew) (nodeId : NodeId) : Prop where
  staffed : d.Staffed
  free : d.stopping = none
  ordered : d.started nodeId ++ d.queued nodeId = d.enqueued nodeId
  busy : d.Busy nodeId → (d.started nodeId).length = d.finished nodeId+1
  rests : ¬ d.Busy nodeId → (d.started nodeId).length = d.finished nodeId

theorem inOrder_init : InOrder {} nodeId := ⟨staffed_init,rfl,rfl,nofun,fun _ => rfl⟩

/-- A post of no started job changes. -/
theorem busy_setPost {post : Option (Post × Bool)}
    (hold : ∀ deque c, d.posts task ≠ some (.worker nodeId deque true,c))
    (hpost : ∀ deque c, post ≠ some (.worker nodeId deque true,c)) :
    (d.setPost task post).Busy nodeId ↔ d.Busy nodeId := by
  constructor
  · rintro ⟨other,deque,c,h⟩
    by_cases hother : other = task
    · rw [hother,setPost_self] at h
      exact absurd h (hpost deque c)
    · exact ⟨other,deque,c,(setPost_other d hother post).symm.trans h⟩
  · rintro ⟨other,deque,c,h⟩
    have hother : other ≠ task := by
      rintro rfl
      exact hold deque c h
    exact ⟨other,deque,c,(setPost_other d hother post).trans h⟩

theorem Staffed.busy_create (hd : d.Staffed) {post : Post} (hpost : post.isIdle = true ∨ post.nodeId = none ∨
    ∃ n, post = .created n) : (d.create post).Busy nodeId ↔ d.Busy nodeId := by
  refine busy_setPost (fun deque c h => ?_) fun deque c h => ?_
  · cases (hd.fresh d.count (Nat.le_refl _)).symm.trans h
  · cases h
    rcases hpost with hidle | hnone | ⟨n,he⟩
    · cases hidle
    · cases hnone
    · cases he

/-- A worker between two jobs is the node's only one. -/
theorem Staffed.not_busy (hd : d.Staffed) {post : Post} {c : Bool} (hpost : d.posts task = some (post,c))
    (hnode : post.nodeId = some nodeId) (hbusy : ∀ deque, post ≠ .worker nodeId deque true) : ¬ d.Busy nodeId := by
  rintro ⟨other,deque,c',h⟩
  obtain rfl := hd.single ⟨post,c,hpost,hnode⟩ ⟨_,c',h,rfl⟩
  cases hpost.symm.trans h
  exact hbusy deque rfl

theorem queued_of {deque : Nat} (hjobs : d.nodeJobs nodeId = some deque) :
    d.queued nodeId = d.deques (nodeId,deque) := by
  unfold Crew.queued
  rw [hjobs]

theorem queued_congr (hjobs : d'.nodeJobs nodeId = d.nodeJobs nodeId)
    (hdeques : ∀ deque, d'.deques (nodeId,deque) = d.deques (nodeId,deque)) :
    d'.queued nodeId = d.queued nodeId := by
  unfold Crew.queued
  rw [hjobs]
  split
  · exact hdeques _
  · rfl

theorem update_deques {n : NodeId} (hn : nodeId ≠ n) (deque : Nat) (jobs : List Job) (deque' : Nat) :
    Function.update d.deques (n,deque) jobs (nodeId,deque') = d.deques (nodeId,deque') :=
  Function.update_of_ne (fun h => hn (congrArg Prod.fst h)) ..

/-- No job of the node starts, ends or is enqueued. -/
theorem InOrder.frame (hd : d.InOrder nodeId) (hstaffed : d'.Staffed) (hfree : d'.stopping = none)
    (hqueued : d'.queued nodeId = d.queued nodeId) (hbusy : d'.Busy nodeId ↔ d.Busy nodeId)
    (hstarted : d'.started nodeId = d.started nodeId) (hfinished : d'.finished nodeId = d.finished nodeId)
    (henqueued : d'.enqueued nodeId = d.enqueued nodeId) : d'.InOrder nodeId := by
  refine ⟨hstaffed,hfree,?_,fun h => ?_,fun h => ?_⟩
  · rw [hstarted,hqueued,henqueued]
    exact hd.ordered
  · rw [hstarted,hfinished]
    exact hd.busy (hbusy.mp h)
  · rw [hstarted,hfinished]
    exact hd.rests (h ∘ hbusy.mpr)

theorem InOrder.append (hd : d.InOrder nodeId) {n : NodeId} {deque : Nat} (hjobs : d.nodeJobs n = some deque)
    {job : Job} (hstaffed : (d.appendJob n job).Staffed) : (d.appendJob n job).InOrder nodeId := by
  rw [appendJob_some hjobs] at hstaffed ⊢
  refine ⟨hstaffed,hd.free,?_,hd.busy,hd.rests⟩
  have hordered := hd.ordered
  by_cases hn : nodeId = n
  · subst hn
    unfold Crew.queued at hordered ⊢
    simp only [hjobs,Function.update_self] at hordered ⊢
    rw [← List.append_assoc,hordered]
  · refine (congrArg (d.started nodeId ++ ·) ?_).trans (hordered.trans (Function.update_of_ne hn ..).symm)
    exact queued_congr rfl (update_deques hn deque _)

/-- A node without a worker has no job queued: what is enqueued for it goes to a new deque. -/
theorem InOrder.hire (hd : d.InOrder nodeId) {n : NodeId} {job : Job} (hworker : d.nodeWorkers n = none)
    (hstaffed : ((d.appendJob n job).hire n).Staffed) : ((d.appendJob n job).hire n).InOrder nodeId := by
  have hjobs := hd.staffed.unqueued hworker
  rw [appendJob_none hjobs] at hstaffed ⊢
  have hbusy : (d.create (.created n)).Busy nodeId ↔ d.Busy nodeId :=
    hd.staffed.busy_create (Or.inr (Or.inr ⟨n,rfl⟩))
  refine ⟨hstaffed,hd.free,?_,fun h => hd.busy (hbusy.mp h),fun h => hd.rests (h ∘ hbusy.mpr)⟩
  have hordered := hd.ordered
  by_cases hn : nodeId = n
  · subst hn
    unfold Crew.queued at hordered ⊢
    rw [hjobs] at hordered
    simp only [Crew.hire,Crew.create,Crew.setPost,Function.update_self]
    rw [← hordered,List.append_nil]
  · refine (congrArg (d.started nodeId ++ ·) ?_).trans (hordered.trans (Function.update_of_ne hn ..).symm)
    exact queued_congr (Function.update_of_ne hn ..) (update_deques hn d.dequeCount [job])

section Posts
variable {n : NodeId} {deque : Nat}

theorem InOrder.start (hd : d.InOrder nodeId) {job : Job} {jobs : List Job}
    (hpost : d.posts task = some (.worker n deque false,false)) (hdeque : d.deques (n,deque) = job :: jobs)
    (hstaffed : Staffed {d.setPost task (some (.worker n deque true,false)) with
      deques := Function.update d.deques (n,deque) jobs,
      started := Function.update d.started n (d.started n ++ [job]),
      running := some task}) :
    InOrder {d.setPost task (some (.worker n deque true,false)) with
      deques := Function.update d.deques (n,deque) jobs,
      started := Function.update d.started n (d.started n ++ [job]),
      running := some task} nodeId := by
  have hjobs := (hd.staffed.fits task _ _ hpost).deque n deque false rfl
  by_cases hn : nodeId = n
  · subst hn
    have hrests := hd.rests (hd.staffed.not_busy hpost rfl nofun)
    refine ⟨hstaffed,hd.free,?_,fun _ => ?_,fun h => ?_⟩
    · have hordered := hd.ordered
      unfold Crew.queued at hordered ⊢
      simp only [hjobs,hdeque,Crew.setPost,Function.update_self] at hordered ⊢
      rw [List.append_assoc]
      exact hordered
    · simp only [Function.update_self,List.length_append,List.length_singleton]
      exact congrArg (· + 1) hrests
    · exact absurd ⟨task,deque,false,setPost_self d task _⟩ h
  · refine hd.frame hstaffed hd.free (queued_congr rfl (update_deques hn deque jobs)) ?_
      (Function.update_of_ne hn ..) rfl rfl
    refine busy_setPost (fun deque' c h => ?_) fun deque' c h => ?_
    · cases hpost.symm.trans h
    · cases h
      exact hn rfl

theorem InOrder.finish (hd : d.InOrder nodeId) (hpost : d.posts task = some (.worker n deque true,false))
    (hstaffed : Staffed {d.setPost task (some (.worker n deque false,false)) with
      finished := Function.update d.finished n (d.finished n+1), running := some task}) :
    InOrder {d.setPost task (some (.worker n deque false,false)) with
      finished := Function.update d.finished n (d.finished n+1), running := some task} nodeId := by
  by_cases hn : nodeId = n
  · subst hn
    have hrests := hstaffed.not_busy (setPost_self d task _) rfl nofun
    refine ⟨hstaffed,hd.free,hd.ordered,fun h => absurd h hrests,fun _ => ?_⟩
    simp only [Function.update_self]
    exact hd.busy ⟨task,deque,false,hpost⟩
  · refine hd.frame hstaffed hd.free rfl ?_ rfl (Function.update_of_ne hn ..) rfl
    refine busy_setPost (fun deque' c h => ?_) fun deque' c h => ?_
    · cases hpost.symm.trans h
      exact hn rfl
    · cases h

theorem InOrder.dismiss (hd : d.InOrder nodeId) {c : Bool} (hpost : d.posts task = some (.worker n deque false,c))
    (hdeque : d.deques (n,deque) = []) (hstaffed : (d.dismiss task n).Staffed) :
    (d.dismiss task n).InOrder nodeId := by
  refine hd.frame hstaffed hd.free ?_ ?_ rfl rfl rfl
  · have hjobs := (hd.staffed.fits task _ _ hpost).deque n deque false rfl
    by_cases hn : nodeId = n
    · subst hn
      rw [queued_of hjobs,hdeque]
      unfold Crew.queued Crew.dismiss
      simp only [Function.update_self]
    · exact queued_congr (Function.update_of_ne hn ..) fun _ => rfl
  · refine busy_setPost (fun deque' c h => ?_) fun deque' c h => ?_
    · cases hpost.symm.trans h
    · cases h

end Posts

theorem InOrder.handle (hd : d.InOrder nodeId) {key : DeviceKey} {frame : Frame} {jobTask : Option Nat}
    (hstaffed : ((d.defer key frame).record key frame jobTask).Staffed) :
    ((d.defer key frame).record key frame jobTask).InOrder nodeId := by
  have hsame : ∃ deferredFrames handled,
      (d.defer key frame).record key frame jobTask = {d with deferredFrames, handled} := by
    unfold Crew.record Crew.defer
    split_ifs <;> exact ⟨_,_,rfl⟩
  obtain ⟨deferredFrames,handled,hsame⟩ := hsame
  rw [hsame] at hstaffed ⊢
  exact hd.frame hstaffed hd.free rfl Iff.rfl rfl rfl rfl

theorem InOrder.move (hd : d.InOrder nodeId) (h : Move False drops d d') : d'.InOrder nodeId := by
  have hstaffed := hd.staffed.move h
  have hcall : ∀ {post : Post}, post.nodeId = none → ((d.create post).Busy nodeId ↔ d.Busy nodeId) :=
    fun hpost => hd.staffed.busy_create (Or.inr (Or.inl hpost))
  cases h with
  | turn task post running => exact hd.frame hstaffed hd.free rfl Iff.rfl rfl rfl rfl
  | leave task post c hturn hpost hworker =>
    refine hd.frame hstaffed hd.free rfl ?_ rfl rfl rfl
    refine busy_setPost (fun deque' c h => ?_) fun deque' c h => ?_
    · cases hpost.symm.trans h
      cases hworker
    · cases h
  | take task n deque hturn hpost =>
    refine hd.frame hstaffed hd.free rfl ?_ rfl rfl rfl
    refine busy_setPost (fun deque' c h => ?_) fun deque' c h => ?_
    · cases hpost.symm.trans h
    · cases h
  | start task n deque job jobs hturn hpost hdeque => exact hd.start hpost hdeque hstaffed
  | finish task n deque hturn hpost => exact hd.finish hpost hstaffed
  | dismiss task n deque busy c hturn hpost hends =>
    obtain ⟨rfl,hdeque⟩ := hends.resolve_left id
    exact hd.dismiss hpost hdeque hstaffed
  | abandon task n c hturn hpost hends =>
    have hpaired := hd.staffed.paired n
    rw [hends.resolve_left And.left,(hd.staffed.fits task _ _ hpost).listed n rfl] at hpaired
    cases hpaired
  | append n job hworker =>
    obtain ⟨deque,hjobs⟩ := Option.isSome_iff_exists.mp ((hd.staffed.paired n).trans hworker)
    exact hd.append hjobs hstaffed
  | hire n job hworker => exact hd.hire hworker hstaffed
  | call => exact hd.frame hstaffed hd.free rfl (hcall rfl) rfl rfl rfl
  | refresh => exact hd.frame hstaffed hd.free rfl (hcall rfl) rfl rfl rfl
  | listen => exact hd.frame hstaffed hd.free rfl (hcall rfl) rfl rfl rfl
  | handle key frame jobTask => exact hd.handle hstaffed
  | register key => exact hd.frame hstaffed hd.free rfl Iff.rfl rfl rfl rfl
  | discard task => exact hd.frame hstaffed hd.free rfl Iff.rfl rfl rfl rfl
  | cancel cancelled hcancels => exact hcancels.elim
  | halt awaited hcancels => exact hcancels.elim
  | clear awaited hcancels => exact hcancels.elim
  | settle awaited consumer hcancels => exact hcancels.elim
  | settleUnstarted awaited hcancels => exact hcancels.elim
  | rest consumer hcancels => exact hcancels.elim

end Crew

/-- The node whose job the routine is in. -/
def Routine.jobOf : Routine → Option NodeId
  | .jobs (some (nodeId,_)) activity => if activity.isBusy then some nodeId else none
  | _ => none

namespace Manager

/-- The jobs that the node's worker has before it. -/
def queuedJobs (s : Manager) (nodeId : NodeId) : List Job :=
  match s.nodeJobs.lookup nodeId with
  | some deque => s.deques (nodeId,deque)
  | none => []

/-- The task is a live worker of the node. -/
def WorksFor (s : Manager) (nodeId : NodeId) (task : Nat) : Prop :=
  (s.tasks[task]?.bind fun t => t.routine.workerOf) = some nodeId

/-- A job of the node is started and has not returned. -/
def inJob (s : Manager) (nodeId : NodeId) : Bool :=
  s.tasks.any fun t => decide (t.routine.jobOf = some nodeId)

/-- The jobs of a node: those started and those queued are the ones enqueued, in order; one job at a
time is in progress, and one worker at a time is live. Queued jobs have a worker, which takes them
up without an await in between, and a worker that is gone has left none, and no entry either. -/
structure JobsInOrder (config : Config) (s : Manager) (nodeId : NodeId) : Prop where
  ordered : s.started nodeId ++ s.queuedJobs nodeId = s.enqueued nodeId
  alone : (s.started nodeId).length = s.finished nodeId + if s.inJob nodeId then 1 else 0
  single : ∀ task other, s.WorksFor nodeId task → s.WorksFor nodeId other → task = other
  kept : s.queuedJobs nodeId ≠ [] → ∃ task, s.WorksFor nodeId task
  takes : ∀ task c, s.tasks[task]? = some ⟨.created nodeId,c⟩ → s.running = none → ∃ deque t,
    s.step config (.resume task .woken) = some t ∧ s.nodeJobs.lookup nodeId = some deque ∧
      t.tasks[task]? = some ⟨.jobs (some (nodeId,deque)) .idle,false⟩
  starts : ∀ task deque c, s.tasks[task]? = some ⟨.jobs (some (nodeId,deque)) .idle,c⟩ →
    s.running = some task ∧ ∃ t, s.step config .advance = some t ∧
      ∀ job jobs, s.queuedJobs nodeId = job :: jobs → t.started nodeId = s.started nodeId ++ [job]
  left : (∀ task, ¬ s.WorksFor nodeId task) → nodeId ∉ s.nodeJobs ∧ nodeId ∉ s.nodeWorkers ∧
    s.started nodeId = s.enqueued nodeId ∧
      ∀ eoj, s.data (nodeId,eoj) = none → s.deferredFrames (nodeId,eoj) = []

end Manager

variable {config : Config} {s : Manager} {nodeId : NodeId} {task : Nat}

theorem crew_works : s.crew.Works nodeId task ↔ s.WorksFor nodeId task :=
  works_iff.trans Option.bind_eq_some_iff.symm

theorem crew_queued : s.crew.queued nodeId = s.queuedJobs nodeId := rfl

theorem post_job (r : Routine) :
    (∃ deque, r.post = some (.worker nodeId deque true)) ↔ r.jobOf = some nodeId := by
  unfold Routine.post Routine.jobOf
  constructor
  · rintro ⟨deque,h⟩
    split at h
    · cases h
    · obtain ⟨rfl,_,hbusy⟩ := Post.worker.inj (Option.some.inj h)
      exact if_pos hbusy
    all_goals cases h
  · intro h
    split at h
    · next n deque activity =>
      obtain ⟨hbusy,he⟩ := Option.ite_none_right_eq_some.mp h
      cases he
      exact ⟨deque,by simp only [hbusy]⟩
    · cases h

theorem crew_busy : s.crew.Busy nodeId ↔ s.inJob nodeId = true := by
  unfold Manager.inJob
  rw [List.any_eq_true]
  constructor
  · rintro ⟨task,deque,c,h⟩
    obtain ⟨t,htask,hpost⟩ := Option.bind_eq_some_iff.mp h
    obtain ⟨post,hroutine,he⟩ := Option.map_eq_some_iff.mp hpost
    cases he
    exact ⟨t,List.mem_of_getElem? htask,decide_eq_true ((post_job t.routine).mp ⟨deque,hroutine⟩)⟩
  · rintro ⟨⟨r,c⟩,hmem,hjob⟩
    obtain ⟨task,htask⟩ := List.getElem?_of_mem hmem
    obtain ⟨deque,hpost⟩ := (post_job r).mpr (of_decide_eq_true hjob)
    exact ⟨task,deque,c,(crew_posts htask).trans (congrArg (Option.map _) hpost)⟩

theorem inOrder_reaches (hconfig : ¬ config.Cancels) (nodeId : NodeId)
    (h : Reaches (Manager.step config) (fun s event => s.cancels event = false) {} s) :
    s.crew.InOrder nodeId := by
  refine crew_invariant (fun d => d.InOrder nodeId) Crew.inOrder_init (fun _ hd => hd.staffed)
    (fun _ _ hd (hmove : Crew.Move False True _ _) => hd.move hmove) hconfig ?_ h
  intro s event hd hguard
  refine ⟨?_,fun hcancels => ?_,fun _ => trivial⟩
  · have hfree : s.stopping = none := hd.free
    simp only [Manager.undisturbed,hfree,decide_true,Bool.true_or]
  · rw [hguard] at hcancels
    cases hcancels

/-- A worker before its first step finds the jobs that it was created for. -/
theorem takes_jobs (hd : s.crew.InOrder nodeId) {c : Bool} (htask : s.tasks[task]? = some ⟨.created nodeId,c⟩)
    (hrunning : s.running = none) : ∃ deque t, s.step config (.resume task .woken) = some t ∧
      s.nodeJobs.lookup nodeId = some deque ∧
        t.tasks[task]? = some ⟨.jobs (some (nodeId,deque)) .idle,false⟩ := by
  have hfits := hd.staffed.fits task _ _ (crew_posts htask)
  have hc : c = false := by
    by_contra hc
    obtain ⟨awaited,hphase⟩ := hfits.hired nodeId rfl (Bool.not_eq_false c ▸ hc)
    cases hphase.symm.trans hd.free
  subst hc
  have hpaired := hd.staffed.paired nodeId
  rw [hfits.listed nodeId rfl] at hpaired
  obtain ⟨deque,hjobs⟩ := Option.isSome_iff_exists.mp hpaired
  have hjobs : s.nodeJobs.lookup nodeId = some deque := hjobs
  obtain ⟨hlt,_⟩ := List.getElem?_eq_some_iff.mp htask
  refine ⟨deque,s.proceed task (.jobs (some (nodeId,deque)) .idle),?_,hjobs,List.getElem?_set_self hlt⟩
  simp only [Manager.step,hrunning,Manager.perform,htask,Option.bind_some,Manager.resume,
    Manager.resumeOther,hjobs,Bool.false_eq_true,↓reduceIte]

/-- A worker between two jobs is on its way to the next one. -/
theorem starts_job (hd : s.crew.InOrder nodeId) {deque : Nat} {c : Bool}
    (htask : s.tasks[task]? = some ⟨.jobs (some (nodeId,deque)) .idle,c⟩) :
    s.running = some task ∧ ∃ t, s.step config .advance = some t ∧
      ∀ job jobs, s.queuedJobs nodeId = job :: jobs → t.started nodeId = s.started nodeId ++ [job] := by
  have hfits := hd.staffed.fits task _ _ (crew_posts htask)
  have hrunning : s.running = some task := hfits.idle rfl
  have hqueued : s.queuedJobs nodeId = s.deques (nodeId,deque) :=
    Crew.queued_of (hfits.deque nodeId deque false rfl)
  have hstep : s.step config .advance = s.advance config task (some (nodeId,deque)) .idle := by
    simp only [Manager.step,hrunning,htask]
  refine ⟨hrunning,?_⟩
  rw [hstep,hqueued]
  cases hdeque : s.deques (nodeId,deque) with
  | nil =>
    simp only [Manager.advance,hdeque]
    exact ⟨_,rfl,fun _ _ he => by cases he⟩
  | cons job jobs =>
    simp only [Manager.advance,hdeque]
    refine ⟨_,rfl,fun job' jobs' he => ?_⟩
    cases he
    exact Function.update_self ..

/-- In every run without cancellation the jobs of every node are started once, in order and one at a
time. -/
theorem jobs_in_order (hconfig : ¬ config.Cancels)
    (h : Reaches (Manager.step config) (fun s event => s.cancels event = false) {} s) (nodeId : NodeId) :
    s.JobsInOrder config nodeId := by
  have hd := inOrder_reaches hconfig nodeId h
  have hworker : ∀ task, s.nodeWorkers.lookup nodeId = some task → s.WorksFor nodeId task :=
    fun task hlisted => crew_works.mp (hd.staffed.live hd.free nodeId task hlisted)
  refine ⟨hd.ordered,?_,fun task other h h' => ?_,fun hqueued => ?_,fun task c => takes_jobs hd,
    fun task deque c => starts_job hd,fun hnone => ?_⟩
  · split
    · next hbusy => exact hd.busy (crew_busy.mpr hbusy)
    · next hbusy => exact hd.rests (hbusy ∘ crew_busy.mp)
  · exact hd.staffed.single (crew_works.mpr h) (crew_works.mpr h')
  · have hjobs : (s.crew.nodeJobs nodeId).isSome := by
      by_contra hnone
      refine hqueued ?_
      rw [← crew_queued]
      unfold Crew.queued
      rw [Option.not_isSome_iff_eq_none.mp hnone]
    obtain ⟨task,hlisted⟩ := Option.isSome_iff_exists.mp ((hd.staffed.paired nodeId).symm.trans hjobs)
    exact ⟨task,hworker task hlisted⟩
  · have hlisted : s.crew.nodeWorkers nodeId = none := by
      by_contra hlisted
      obtain ⟨task,hlisted⟩ := Option.ne_none_iff_exists'.mp hlisted
      exact hnone task (hworker task hlisted)
    have hjobs := hd.staffed.unqueued hlisted
    refine ⟨AList.lookup_eq_none.mp hjobs,AList.lookup_eq_none.mp hlisted,?_,fun eoj _ => ?_⟩
    · have hordered := hd.ordered
      unfold Crew.queued at hordered
      rw [hjobs,List.append_nil] at hordered
      exact hordered
    · by_contra hdeferred
      have hworkers := (hd.staffed.deferred (nodeId,eoj) hdeferred).1
      rw [hlisted] at hworkers
      cases hworkers

theorem sensorConfig_cancels : ¬ sensorConfig.Cancels := by
  rintro ⟨classCode,code,h | h⟩
  · cases h
  · cases h

/-- The worker of the sensor's node is in the job for the instance list, and a second one is queued. -/
theorem jobs_in_order_sensor : ∃ s : Manager, s.inJob "fe01" = true ∧ s.queuedJobs "fe01" ≠ [] ∧
    s.JobsInOrder sensorConfig "fe01" := by
  have hrun : (exec (fun s event => if !s.cancels event then Manager.step sensorConfig s event else none) {}
      (sensorListed ++ [.received (.instanceList 0 [humiditySensor] "fe01"),.consume])).any
      (fun s => s.inJob "fe01" && decide (s.queuedJobs "fe01" ≠ [])) = true := by decide +kernel
  obtain ⟨s,hs,hcheck⟩ := (Option.any_eq_true _ _).mp hrun
  obtain ⟨hjob,hqueued⟩ := (Bool.and_eq_true _ _).mp hcheck
  have hreach := reaches_of_checked (fun s event => Manager.cancels s event = false)
    (fun _ _ hcheck => Bool.not_eq_true' _ |>.mp hcheck) hs
  exact ⟨s,hjob,of_decide_eq_true hqueued,jobs_in_order sensorConfig_cancels hreach "fe01"⟩

end Pyhems.Device
