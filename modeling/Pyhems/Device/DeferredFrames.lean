import Pyhems.Device.CrewRefinement
import Pyhems.Device.Registration

/-! Value frames that are received while an object is set up: as long as none finds its list full,
the registration applies all of them, the latest last. -/
namespace Pyhems.Device
open Protocol Library Transition Pyhems.Runtime
open Get (Epc)

def valueFrames (frames : List Frame) : List Frame :=
  frames.filter fun frame => decide (frame.esv ∈ valueEsvs)

theorem valueFrames_append (frames : List Frame) (frame : Frame) : valueFrames (frames ++ [frame]) =
    valueFrames frames ++ if frame.esv ∈ valueEsvs then [frame] else [] := by
  unfold valueFrames
  rw [List.filter_append]
  by_cases hesv : frame.esv ∈ valueEsvs
  · rw [if_pos hesv,List.filter_singleton,decide_eq_true hesv,cond_true]
  · rw [if_neg hesv,List.filter_singleton,decide_eq_false hesv,cond_false]

namespace Crew
variable {cancels drops : Prop} {d d' : Crew} {key : DeviceKey} {task : Nat} {nodeId : NodeId}

/-- The frames recorded for an object under a job task. -/
def handledBy (d : Crew) (key : DeviceKey) (task : Nat) : List Frame :=
  (d.handled.filter fun h => decide (h.key = key ∧ h.jobTask = some task)).map HandledFrame.frame

/-- The phase of `async_stop` in which the tables still name workers that have ended. -/
def Halting (d : Crew) : Prop := ∃ awaited, d.stopping = some (.workers awaited)

/-- What is deferred for an object that is not registered is what was received under the live worker
of its node. -/
structure Kept (d : Crew) (key : DeviceKey) : Prop where
  staffed : d.Staffed
  past : ∀ h ∈ d.handled, ∀ task, h.jobTask = some task → task < d.count
  kept : d.registered key = false → ¬ d.Halting → ∀ task, d.Works key.1 task →
    valueFrames (d.deferredFrames key) = d.handledBy key task

theorem kept_init : Kept {} key := ⟨staffed_init,nofun,fun _ _ _ _ => rfl⟩

/-- A worker has a live task before it. -/
theorem works_of_posts (h : d'.Works nodeId task)
    (hposts : ∀ post c, d'.posts task = some (post,c) → post.nodeId = some nodeId →
      ∃ post' c', d.posts task = some (post',c') ∧ post'.nodeId = some nodeId) : d.Works nodeId task := by
  obtain ⟨post,c,hpost,hnode⟩ := h
  exact hposts post c hpost hnode

/-- A task goes on with the same node, or ends. -/
theorem works_setPost {other : Nat} {post : Post} {c : Bool} {new : Option (Post × Bool)}
    (hpost : d.posts task = some (post,c)) (hnew : ∀ x, new = some x → x.1.nodeId = post.nodeId)
    (h : (d.setPost task new).Works nodeId other) : d.Works nodeId other := by
  refine works_of_posts h fun post' c' h hnode => ?_
  by_cases hother : other = task
  · rw [hother,setPost_self] at h
    exact ⟨post,c,hother ▸ hpost,(hnew _ h).symm.trans hnode⟩
  · exact ⟨post',c',(setPost_other d hother new).symm.trans h,hnode⟩

theorem works_remove {other : Nat} {post : Post} {c : Bool} (hpost : d.posts task = some (post,c))
    (h : (d.setPost task none).Works nodeId other) : d.Works nodeId other :=
  works_setPost hpost (fun _ he => by cases he) h

/-- A new task that works for no node. -/
theorem works_create {other : Nat} {post : Post} (hpost : post.nodeId = none)
    (h : (d.create post).Works nodeId other) : d.Works nodeId other := by
  refine works_of_posts h fun post' c' h hnode => ?_
  rcases of_created h with ⟨_,he⟩ | ⟨_,hold⟩
  · cases he
    cases hpost.symm.trans hnode
  · exact ⟨post',c',hold,hnode⟩

/-- No frame for the object is recorded, deferred or discarded, unless nobody works for its node. -/
theorem Kept.frame (hd : d.Kept key) (hstaffed : d'.Staffed) (hhandled : d'.handled = d.handled)
    (hcount : d.count ≤ d'.count) (hkept : d'.registered key = false → ¬ d'.Halting → ∀ task,
      d'.Works key.1 task → d.registered key = false ∧ ¬ d.Halting ∧ d.Works key.1 task ∧
        d'.deferredFrames key = d.deferredFrames key) : d'.Kept key := by
  refine ⟨hstaffed,fun h hmem task hjob => ?_,fun hkey hphase task hworks => ?_⟩
  · rw [hhandled] at hmem
    exact Nat.lt_of_lt_of_le (hd.past h hmem task hjob) hcount
  · obtain ⟨hkey',hphase',hworks',hdeferred⟩ := hkept hkey hphase task hworks
    unfold Crew.handledBy
    rw [hdeferred,hhandled]
    exact hd.kept hkey' hphase' task hworks'

theorem Kept.hire (hd : d.Kept key) {n : NodeId} {job : Job} (hworker : d.nodeWorkers n = none)
    (hstaffed : ((d.appendJob n job).hire n).Staffed) : ((d.appendJob n job).hire n).Kept key := by
  rw [appendJob_none (hd.staffed.unqueued hworker)] at hstaffed ⊢
  refine ⟨hstaffed,fun h hmem task hjob => Nat.lt_succ_of_lt (hd.past h hmem task hjob),
    fun hkey hphase task hworks => ?_⟩
  by_cases htask : task = d.count
  · subst htask
    obtain ⟨post,c,hpost,hnode⟩ := hworks
    cases (setPost_self d d.count _).symm.trans hpost
    -- Nothing is deferred for a node without a worker, and nothing is recorded under a new task.
    have hdeferred : d.deferredFrames key = [] := by
      by_contra hdeferred
      have hworkers := (hd.staffed.deferred key hdeferred).1
      rw [← Option.some.inj hnode,hworker] at hworkers
      cases hworkers
    have hhandled : d.handledBy key d.count = [] := by
      unfold Crew.handledBy
      rw [List.map_eq_nil_iff,List.filter_eq_nil_iff]
      intro h hmem hself
      exact Nat.lt_irrefl _ (hd.past h hmem d.count (of_decide_eq_true hself).2)
    exact (congrArg valueFrames hdeferred).trans hhandled.symm
  · refine hd.kept hkey hphase task (works_of_posts hworks fun post c hpost hnode => ?_)
    exact ⟨post,c,(setPost_other d htask _).symm.trans hpost,hnode⟩

theorem handledBy_record (d : Crew) (frame : Frame) (jobTask : Option Nat) {other : DeviceKey} :
    (d.record other frame jobTask).handledBy key task = d.handledBy key task ++
      if frame.esv ∈ valueEsvs ∧ other = key ∧ jobTask = some task then [frame] else [] := by
  unfold Crew.handledBy Crew.record
  by_cases hesv : frame.esv ∈ valueEsvs
  · simp only [hesv,if_true,true_and,List.filter_append,List.map_append]
    by_cases hself : other = key ∧ jobTask = some task
    · simp [hself]
    · rw [if_neg hself,List.filter_singleton,decide_eq_false hself]
      rfl
  · simp only [hesv,if_false,false_and,List.append_nil]

theorem valueFrames_defer (d : Crew) (frame : Frame) {other : DeviceKey} (hne : other ≠ key) :
    (d.defer other frame).deferredFrames key = d.deferredFrames key := by
  unfold Crew.defer
  split
  · exact Function.update_of_ne hne.symm ..
  · rfl

/-- A value frame is deferred when there is room, and no other frame is counted. -/
theorem valueFrames_defer_self (d : Crew) (frame : Frame) (hroom : frame.esv ∈ valueEsvs →
      (d.nodeWorkers key.1).isSome ∧ (d.deferredFrames key).length < maxDeferredFrames) :
    valueFrames ((d.defer key frame).deferredFrames key) = valueFrames (d.deferredFrames key) ++
      if frame.esv ∈ valueEsvs then [frame] else [] := by
  unfold Crew.defer
  split
  · simp only [Function.update_self]
    exact valueFrames_append _ frame
  · next hfull =>
    have hesv : frame.esv ∉ valueEsvs := fun hesv => hfull (hroom hesv)
    rw [if_neg hesv,List.append_nil]

theorem defer_eq (d : Crew) (frame : Frame) : d.defer key frame =
    {d with deferredFrames := (d.defer key frame).deferredFrames} := by
  unfold Crew.defer
  split <;> rfl

theorem Staffed.works_lt (hd : d.Staffed) (h : d.Works nodeId task) : task < d.count := by
  obtain ⟨post,c,hpost,_⟩ := h
  by_contra hge
  cases (hd.fresh task (Nat.le_of_not_lt hge)).symm.trans hpost

theorem mem_record {h : HandledFrame} {frame : Frame} {jobTask : Option Nat}
    (hmem : h ∈ (d.record key frame jobTask).handled) : h ∈ d.handled ∨ h.jobTask = jobTask := by
  unfold Crew.record at hmem
  split at hmem
  · rcases List.mem_append.mp hmem with hold | hnew
    · exact Or.inl hold
    · cases List.mem_singleton.mp hnew
      exact Or.inr rfl
  · exact Or.inl hmem

theorem Kept.handle (hd : d.Kept key) {other : DeviceKey} {frame : Frame} {jobTask : Option Nat}
    (hjob : ∀ task, jobTask = some task → d.Works other.1 task)
    (hnone : jobTask = none → ∀ task, ¬ d.Works other.1 task)
    (hroom : frame.esv ∈ valueEsvs → (d.nodeWorkers other.1).isSome →
      (d.deferredFrames other).length < maxDeferredFrames)
    (hstaffed : ((d.defer other frame).record other frame jobTask).Staffed) :
    ((d.defer other frame).record other frame jobTask).Kept key := by
  have hpast : ∀ h ∈ ((d.defer other frame).record other frame jobTask).handled, ∀ task,
      h.jobTask = some task → task < d.count := fun h hmem task htask => by
    rcases mem_record hmem with hold | hnew
    · rw [defer_eq] at hold
      exact hd.past h hold task htask
    · exact hd.staffed.works_lt (hjob task (hnew.symm.trans htask))
  have hkept : d.registered key = false → ¬ d.Halting → ∀ task, d.Works key.1 task →
      valueFrames ((d.defer other frame).deferredFrames key) =
        ((d.defer other frame).record other frame jobTask).handledBy key task := by
    intro hkey hphase task hworks
    have hdefer : (d.defer other frame).handledBy key task = d.handledBy key task := by
      rw [defer_eq]
      rfl
    rw [handledBy_record,hdefer,← hd.kept hkey hphase task hworks]
    by_cases hother : other = key
    · subst hother
      have htask : jobTask = some task := by
        cases hnew : jobTask with
        | none => exact absurd hworks (hnone hnew task)
        | some task' => rw [hd.staffed.single (hjob task' hnew) hworks]
      obtain ⟨post,c,hpost,hnode⟩ := hworks
      have hlisted : (d.nodeWorkers other.1).isSome := by
        rw [(hd.staffed.fits task post c hpost).listed _ hnode]
        rfl
      rw [valueFrames_defer_self d frame fun hesv => ⟨hlisted,hroom hesv hlisted⟩]
      simp only [htask,and_true]
    · rw [valueFrames_defer d frame hother,if_neg fun h => hother h.2.1,List.append_nil]
  have hsame : (d.defer other frame).record other frame jobTask = {d with
      deferredFrames := (d.defer other frame).deferredFrames,
      handled := ((d.defer other frame).record other frame jobTask).handled} := by
    unfold Crew.record Crew.defer
    split_ifs <;> rfl
  rw [hsame] at hstaffed ⊢
  exact ⟨hstaffed,hpast,hkept⟩

theorem Kept.move (hd : d.Kept key) (h : Move cancels False d d') : d'.Kept key := by
  have hstaffed := hd.staffed.move h
  cases h with
  | turn task post running =>
    exact hd.frame hstaffed rfl (Nat.le_refl _) fun hkey hphase _ hworks => ⟨hkey,hphase,hworks,rfl⟩
  | leave task post c hturn hpost =>
    exact hd.frame hstaffed rfl (Nat.le_refl _) fun hkey hphase _ hworks =>
      ⟨hkey,hphase,works_remove hpost hworks,rfl⟩
  | take task nodeId deque hturn hpost =>
    refine hd.frame hstaffed rfl (Nat.le_refl _) fun hkey hphase _ hworks =>
      ⟨hkey,hphase,works_setPost hpost (fun x he => ?_) hworks,rfl⟩
    cases he
    rfl
  | start task nodeId deque job jobs hturn hpost =>
    refine hd.frame hstaffed rfl (Nat.le_refl _) fun hkey hphase _ hworks =>
      ⟨hkey,hphase,works_setPost hpost (fun x he => ?_) hworks,rfl⟩
    cases he
    rfl
  | finish task nodeId deque hturn hpost =>
    refine hd.frame hstaffed rfl (Nat.le_refl _) fun hkey hphase _ hworks =>
      ⟨hkey,hphase,works_setPost hpost (fun x he => ?_) hworks,rfl⟩
    cases he
    rfl
  | dismiss task nodeId deque busy c hturn hpost =>
    refine hd.frame hstaffed rfl (Nat.le_refl _) fun hkey hphase other hworks =>
      ⟨hkey,hphase,works_remove hpost hworks,?_⟩
    -- The node of the worker that ends has no other one.
    have hn : key.1 ≠ nodeId := by
      rintro rfl
      have hworks' : d.Works key.1 other := works_remove hpost hworks
      obtain rfl := hd.staffed.single hworks' ⟨_,c,hpost,rfl⟩
      obtain ⟨post,c',hpost',_⟩ := hworks
      cases (setPost_self d other none).symm.trans hpost'
    exact if_neg fun h => hn h.1
  | abandon task nodeId c hturn hpost =>
    exact hd.frame hstaffed rfl (Nat.le_refl _) fun hkey hphase _ hworks =>
      ⟨hkey,hphase,works_remove hpost hworks,rfl⟩
  | append nodeId job hworker =>
    obtain ⟨deque,hjobs⟩ := Option.isSome_iff_exists.mp ((hd.staffed.paired nodeId).trans hworker)
    rw [appendJob_some hjobs] at hstaffed ⊢
    exact hd.frame hstaffed rfl (Nat.le_refl _) fun hkey hphase _ hworks => ⟨hkey,hphase,hworks,rfl⟩
  | hire nodeId job hworker => exact hd.hire hworker hstaffed
  | call =>
    exact hd.frame hstaffed rfl (Nat.le_succ _) fun hkey hphase _ hworks =>
      ⟨hkey,hphase,works_create rfl hworks,rfl⟩
  | refresh =>
    exact hd.frame hstaffed rfl (Nat.le_succ _) fun hkey hphase _ hworks =>
      ⟨hkey,hphase,works_create rfl hworks,rfl⟩
  | listen =>
    exact hd.frame hstaffed rfl (Nat.le_succ _) fun hkey hphase _ hworks =>
      ⟨hkey,hphase,works_create rfl hworks,rfl⟩
  | cancel cancelled =>
    refine hd.frame hstaffed rfl (Nat.le_refl _) fun hkey hphase _ hworks =>
      ⟨hkey,hphase,works_of_posts hworks fun post c hpost hnode => ?_,rfl⟩
    obtain ⟨c',hpost',_⟩ := of_cancelled hpost
    exact ⟨post,c',hpost',hnode⟩
  | handle other frame jobTask _ hjob hnone hroom =>
    exact hd.handle hjob hnone (hroom.resolve_left id) hstaffed
  | register other =>
    refine hd.frame hstaffed rfl (Nat.le_refl _) fun hkey hphase _ hworks => ?_
    have hother : key ≠ other := by
      rintro rfl
      cases (Function.update_self ..).symm.trans hkey
    exact ⟨(Function.update_of_ne hother ..).symm.trans hkey,hphase,hworks,Function.update_of_ne hother ..⟩
  | discard task =>
    exact hd.frame hstaffed rfl (Nat.le_refl _) fun hkey hphase _ hworks => ⟨hkey,hphase,hworks,rfl⟩
  | halt awaited =>
    exact hd.frame hstaffed rfl (Nat.le_refl _) fun _ hphase => absurd ⟨awaited,rfl⟩ hphase
  | clear awaited =>
    exact hd.frame hstaffed rfl (Nat.le_refl _) fun _ _ _ hworks => absurd hworks (hstaffed.unlisted rfl _)
  | settle awaited consumer _ _ hphase =>
    exact hd.frame hstaffed rfl (Nat.le_refl _) fun _ _ _ hworks =>
      absurd hworks (hstaffed.unlisted (hd.staffed.unmanned hphase nofun _) _)
  | settleUnstarted awaited _ hphase =>
    exact hd.frame hstaffed rfl (Nat.le_refl _) fun _ _ _ hworks =>
      absurd hworks (hstaffed.unlisted (hd.staffed.unmanned hphase nofun _) _)
  | rest consumer _ hphase =>
    exact hd.frame hstaffed rfl (Nat.le_refl _) fun _ _ _ hworks =>
      absurd hworks (hstaffed.unlisted (hd.staffed.unmanned hphase nofun _) _)

end Crew

/-! ### The registration -/

/-- The value frames for the object that were handled while the present job task of its node ran. -/
def Manager.handledFrames (s : Manager) (key : DeviceKey) : List Frame :=
  (s.handled.filter fun h => decide (h.key = key ∧ h.jobTask.isSome ∧ h.jobTask = s.jobTask key.1)).map
    HandledFrame.frame

/-- The step in which the answer to its setup read registers the object. -/
structure Manager.Registers (config : Config) (s : Manager) (task : Nat) (key : DeviceKey) (code : Nat)
    (props : List Property) (t : Manager) (node : NodeState) : Prop where
  setup : ∃ worker initial remaining c,
    s.tasks[task]? = some ⟨.jobs worker (.setup key (.properties code initial) remaining),c⟩
  step : s.step config (.resume task (.properties (.ok props))) = some t
  registered : t.data key = some node

/-- Every cached EDT is the one in the latest of the received frames that carries it, or the one
that the setup read if no frame does. -/
def Manager.LatestWins (s : Manager) (key : DeviceKey) (code : Nat) (props : List Property)
    (node : NodeState) : Prop :=
  ∃ bytes, toBytes code 3 = .ok bytes ∧ ∀ epc, node.properties epc =
    (LastWrite.latest ((s.handledFrames key).flatMap fun frame => writesOf frame.properties) epc).or
      (setupValues bytes props epc)

variable {config : Config} {s t : Manager} {key : DeviceKey} {task : Nat} {node : NodeState}

theorem enqueueNodeJob_data (nodeId : NodeId) (job : Job) : (s.enqueueNodeJob nodeId job).data = s.data := by
  have happend : (s.appendJob nodeId job).data = s.data := by
    unfold Manager.appendJob
    simp only
    split <;> rfl
  unfold Manager.enqueueNodeJob
  simp only
  split <;> exact happend

theorem applyFrame_properties (config : Config) (s : Manager) (key : DeviceKey) (node : NodeState)
    {frame : Frame} (hesv : frame.esv ∈ valueEsvs) : ∃ node', (s.applyFrame config key node frame).data key = some node' ∧
      node'.properties = LastWrite.writeAll node.properties (writesOf frame.properties) := by
  refine ⟨{node with properties := (writeProperties node.properties frame.properties).1},?_,
    writeProperties_values ..⟩
  unfold Manager.applyFrame Manager.checkRanges
  rw [if_neg (not_not.mpr hesv)]
  simp only [notify_data]
  split
  · exact Function.update_self ..
  · rw [enqueueNodeJob_data]
    exact Function.update_self ..

/-- The frames write their values one after the other. -/
theorem applyFrames_properties (config : Config) (hnode : s.data key = some node) (frames : List Frame) :
    ∃ node', (s.applyFrames config key frames).data key = some node' ∧ node'.properties =
      LastWrite.writeAll node.properties ((valueFrames frames).flatMap fun frame => writesOf frame.properties) := by
  unfold Manager.applyFrames
  induction frames generalizing s node with
  | nil => exact ⟨node,hnode,rfl⟩
  | cons frame frames ih =>
    rw [List.foldl_cons]
    simp only [hnode]
    by_cases hesv : frame.esv ∈ valueEsvs
    · have hvalue : valueFrames (frame :: frames) = frame :: valueFrames frames :=
        List.filter_cons_of_pos (decide_eq_true hesv)
      obtain ⟨node₁,hnode₁,hvalues₁⟩ := applyFrame_properties config s key node hesv
      obtain ⟨node₂,hnode₂,hvalues₂⟩ := ih hnode₁
      refine ⟨node₂,hnode₂,?_⟩
      rw [hvalues₂,hvalues₁,hvalue,List.flatMap_cons,LastWrite.writeAll_append]
    · have hvalue : valueFrames (frame :: frames) = valueFrames frames :=
        List.filter_cons_of_neg fun h => hesv (of_decide_eq_true h)
      have hsame : s.applyFrame config key node frame = s := if_pos hesv
      rw [hsame,hvalue]
      exact ih hnode

theorem kept_reaches (key : DeviceKey) (h : Reaches (Manager.step config)
    (fun s event => s.undisturbed config event = true ∧ s.drops event = false) {} s) : s.crew.Kept key := by
  refine crew_invariant (fun d => d.Kept key) Crew.kept_init (fun _ hd => hd.staffed)
    (fun _ _ hd (hmove : Crew.Move True False _ _) => hd.move hmove) (fun _ => trivial) ?_ h
  intro s event _ hguard
  refine ⟨hguard.1,fun _ => trivial,fun hdrops => ?_⟩
  rw [hguard.2] at hdrops
  cases hdrops

/-- What is deferred for an object that is not registered is what was handled under the job task. -/
theorem deferred_handled (hd : s.crew.Kept key) (hfree : s.stopping = none) (hdata : s.data key = none) :
    valueFrames (s.deferredFrames key) = s.handledFrames key := by
  have hkey : s.crew.registered key = false := by simp [Manager.crew,hdata]
  unfold Manager.handledFrames
  cases hjob : s.jobTask key.1 with
  | some task =>
    have hphase : ¬ s.crew.Halting := by
      rintro ⟨awaited,hphase⟩
      cases hphase.symm.trans hfree
    refine (hd.kept hkey hphase task (works_of_jobTask hjob)).trans ?_
    unfold Crew.handledBy
    congr 1
    refine List.filter_congr fun h _ => decide_eq_decide.mpr (and_congr_right fun _ => ?_)
    exact ⟨fun hself => ⟨by rw [hself]; rfl,hself⟩,And.right⟩
  | none =>
    have hdeferred : s.deferredFrames key = [] := by
      by_contra hdeferred
      obtain ⟨worker,hworker⟩ := Option.isSome_iff_exists.mp (hd.staffed.deferred key hdeferred).1
      exact not_works_of_jobTask hjob worker (hd.staffed.live hfree key.1 worker hworker)
    rw [hdeferred]
    refine (List.map_eq_nil_iff.mpr (List.filter_eq_nil_iff.mpr fun h _ hself => ?_)).symm
    obtain ⟨_,hsome,hnone⟩ := of_decide_eq_true hself
    rw [hnone] at hsome
    cases hsome

/-- In every run in which no value frame finds its list full, and which `async_stop` leaves
undisturbed, the values received during a setup win in the order of their reception. -/
theorem latest_wins {code : Nat} {props : List Property} (h : Reaches (Manager.step config)
      (fun s event => s.undisturbed config event = true ∧ s.drops event = false) {} s)
    (hguard : s.undisturbed config (.resume task (.properties (.ok props))) = true)
    (hregisters : s.Registers config task key code props t node) : s.LatestWins key code props node := by
  obtain ⟨⟨worker,initial,remaining,c,htask⟩,hstep,hnode⟩ := hregisters
  have hdata : s.data key = none :=
    (guarded_reachable h.reachable key).unregistered ((life_setups htask).trans (setupOf_self ..)) rfl
  have hsame : ∀ {u : Manager}, u.data = s.data → u.data key ≠ some node := fun hu hnode => by
    rw [hu,hdata] at hnode
    cases hnode
  unfold Manager.step at hstep
  split at hstep
  · next hevent => cases hevent
  · cases hstep
  · simp only [Manager.perform,htask,Option.bind_some,Manager.resume] at hstep
    split at hstep
    · cases hstep
      exact absurd hnode (hsame (interrupt_data ..))
    · next hc =>
      rw [Bool.eq_false_iff.mpr hc] at htask
      have hfree := free_of_resumed (staffed_reaches (h.mono fun _ _ hg => hg.1)) htask hguard
        (Or.inl ⟨_,_,rfl⟩)
      cases hstep
      unfold Manager.setupRead at hnode
      simp only at hnode
      split at hnode
      · exact absurd hnode (hsame (raise_data ..))
      · exact absurd hnode (hsame rfl)
      · next node₀ hsetup =>
        obtain ⟨bytes,hbytes,hread⟩ := (setupNode_setUp hsetup).values
        let u : Manager := {s with setupReads := s.setupReads ++ [(key,props)]}
        let v : Manager := {u.putNode key node₀ with deferredFrames := Function.update s.deferredFrames key []}
        let w := v.proceed task (.jobs worker (.setup key .registered remaining))
        have hw : w.data key = some node₀ := Function.update_self ..
        obtain ⟨node',hnode',hvalues⟩ := applyFrames_properties config hw (s.deferredFrames key)
        cases hnode'.symm.trans hnode
        refine ⟨bytes,hbytes,fun epc => ?_⟩
        rw [hvalues,hread,LastWrite.writeAll_apply,deferred_handled (kept_reaches key h) hfree hdata]

/-! ### The sensor notifies its status while its setup read is awaited -/

def statusEvent (status : UInt8) : ManagerEvent :=
  .received (.frame 0 (statusNotification status) "fe01" humiditySensor)

/-- The worker of the sensor's node awaits the setup read. -/
def sensorRead : Routine := .jobs (some ("fe01",0)) (.setup sensor (.properties 1 {0x80}) [])

theorem registers_sensor {status : UInt8} (hread : s.tasks[1]?.any (fun t => decide (t.routine = sensorRead)) = true)
    (hstep : s.step sensorConfig (.resume 1 (.properties (.ok (sensorProperties status)))) = some t)
    (hnode : t.data sensor = some node) : s.Registers sensorConfig 1 sensor 1 (sensorProperties status) t node := by
  obtain ⟨⟨r,c⟩,htask,hr⟩ := (Option.any_eq_true _ _).mp hread
  cases of_decide_eq_true hr
  exact ⟨⟨_,_,_,c,htask⟩,hstep,hnode⟩

theorem latest_wins_sensor : ∃ (s t : Manager) (node : NodeState),
    s.Registers sensorConfig 1 sensor 1 (sensorProperties 0x30) t node ∧
      s.LatestWins sensor 1 (sensorProperties 0x30) node ∧ node.properties 0x80 = some [0x31] := by
  have hrun : (exec (fun s event => if s.undisturbed sensorConfig event && !s.drops event then
      Manager.step sensorConfig s event else none) {} (sensorListed ++ [statusEvent 0x31,.consume])).any
      (fun s => s.undisturbed sensorConfig (.resume 1 (.properties (.ok (sensorProperties 0x30)))) &&
        s.tasks[1]?.any (fun t => decide (t.routine = sensorRead)) &&
        (s.step sensorConfig (.resume 1 (.properties (.ok (sensorProperties 0x30))))).any fun t =>
          (t.data sensor).any fun node => decide (node.properties 0x80 = some [0x31])) = true := by
    decide +kernel
  obtain ⟨s,hs,hcheck⟩ := (Option.any_eq_true _ _).mp hrun
  obtain ⟨hcheck,hstep⟩ := (Bool.and_eq_true _ _).mp hcheck
  obtain ⟨hguard,hread⟩ := (Bool.and_eq_true _ _).mp hcheck
  obtain ⟨t,hstep,hcheck⟩ := (Option.any_eq_true _ _).mp hstep
  obtain ⟨node,hnode,hvalue⟩ := (Option.any_eq_true _ _).mp hcheck
  have hreach := reaches_of_checked
    (fun s event => Manager.undisturbed sensorConfig s event = true ∧ s.drops event = false)
    (fun _ _ hcheck => ⟨(Bool.and_eq_true _ _ |>.mp hcheck).1,
      Bool.not_eq_true' _ |>.mp (Bool.and_eq_true _ _ |>.mp hcheck).2⟩) hs
  have hregisters := registers_sensor hread hstep hnode
  exact ⟨s,t,node,hregisters,latest_wins hreach hguard hregisters,of_decide_eq_true hvalue⟩

/-- After 64 deferred notifications a newer one is dropped: the sensor is registered with the old
status, although both the last notification and the setup read carry the new one. -/
theorem latest_dropped : ¬ ∀ s, Reachable (Manager.step sensorConfig) {} s → ∀ task key code props t node,
    s.Registers sensorConfig task key code props t node → s.LatestWins key code props node := by
  intro h
  have hrun : (exec (Manager.step sensorConfig) {} (sensorListed ++
      (List.replicate 64 [statusEvent 0x30,.consume]).flatten ++ [statusEvent 0x31,.consume])).any
      (fun s => s.tasks[1]?.any (fun t => decide (t.routine = sensorRead)) &&
        decide (LastWrite.latest ((s.handledFrames sensor).flatMap fun frame => writesOf frame.properties) 0x80 =
          some [0x31]) &&
        (s.step sensorConfig (.resume 1 (.properties (.ok (sensorProperties 0x31))))).any fun t =>
          (t.data sensor).any fun node => decide (node.properties 0x80 = some [0x30])) = true := by
    decide +kernel
  obtain ⟨s,hs,hcheck⟩ := (Option.any_eq_true _ _).mp hrun
  obtain ⟨hcheck,hstep⟩ := (Bool.and_eq_true _ _).mp hcheck
  obtain ⟨hread,hlatest⟩ := (Bool.and_eq_true _ _).mp hcheck
  obtain ⟨t,hstep,hcheck⟩ := (Option.any_eq_true _ _).mp hstep
  obtain ⟨node,hnode,hvalue⟩ := (Option.any_eq_true _ _).mp hcheck
  obtain ⟨bytes,_,hwins⟩ := h s (reachable_of_exec hs) _ _ _ _ t node (registers_sensor hread hstep hnode)
  have hcached := hwins 0x80
  rw [of_decide_eq_true hlatest,of_decide_eq_true hvalue,Option.some_or] at hcached
  exact absurd hcached (by decide)

end Pyhems.Device
