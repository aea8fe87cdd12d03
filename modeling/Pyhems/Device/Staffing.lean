import Pyhems.Device.Crew

/-! What the moves of the job tasks keep: every live task has its place in the tables of the manager,
every node at most one worker, and each phase of `async_stop` leaves fewer kinds of tasks. -/
namespace Pyhems.Device.Crew
open Protocol Pyhems.Runtime

/-- What goes with a live task: the entries of its node, or its place in the other tables, and what
`async_stop` has done about it. -/
structure Fits (d : Crew) (task : Nat) (post : Post) (c : Bool) : Prop where
  idle : post.isIdle = true → d.running = some task
  listed : ∀ nodeId, post.nodeId = some nodeId → d.nodeWorkers nodeId = some task
  deque : ∀ nodeId deque busy, post = .worker nodeId deque busy → d.nodeJobs nodeId = some deque
  refreshing : post = .refresh → task ∈ d.refreshTasks
  consumer : post = .consumer → d.eventConsumerTask = some task
  hired : ∀ nodeId, post = .created nodeId → c = true → ∃ awaited, d.stopping = some (.workers awaited)
  halted : ∀ awaited, d.stopping = some (.workers awaited) → post.nodeId ≠ none → c = true
  refreshes : ∀ awaited, d.stopping = some (.refreshes awaited) → post = .refresh → task ∈ awaited
  settled : ∀ consumer, d.stopping = some (.consumer consumer) → post ≠ .refresh

/-- The tables of the manager and its live tasks agree. Once `async_stop` has cleared the tables no
worker is left. -/
structure Staffed (d : Crew) : Prop where
  fresh : ∀ task, d.count ≤ task → d.posts task = none
  fits : ∀ task post c, d.posts task = some (post,c) → d.Fits task post c
  running : ∀ task, d.running = some task → ∃ post, d.posts task = some (post,false)
  paired : ∀ nodeId, (d.nodeJobs nodeId).isSome = (d.nodeWorkers nodeId).isSome
  live : d.stopping = none → ∀ nodeId task, d.nodeWorkers nodeId = some task → d.Works nodeId task
  deferred : ∀ key, d.deferredFrames key ≠ [] → (d.nodeWorkers key.1).isSome ∧ d.registered key = false
  halted : ∀ awaited, d.stopping = some (.workers awaited) → ∀ nodeId task,
    d.nodeWorkers nodeId = some task → task ∈ awaited
  cleared : d.stopping = none ∨ (∃ awaited, d.stopping = some (.workers awaited)) ∨
    ∀ nodeId, d.nodeWorkers nodeId = none
  settled : ∀ task, d.stopping = some (.consumer task) → d.eventConsumerTask = some task

variable {cancels drops : Prop} {d d' : Crew} {task : Nat} {post : Post} {c : Bool} {nodeId : NodeId}

theorem staffed_init : Staffed {} :=
  ⟨fun _ _ => rfl,nofun,nofun,fun _ => rfl,nofun,fun _ h => absurd rfl h,nofun,Or.inl rfl,nofun⟩

theorem setPost_self (d : Crew) (task : Nat) (post : Option (Post × Bool)) :
    (d.setPost task post).posts task = post := Function.update_self ..

theorem setPost_other (d : Crew) {task other : Nat} (h : other ≠ task) (post : Option (Post × Bool)) :
    (d.setPost task post).posts other = d.posts other := Function.update_of_ne h ..

theorem of_removed {other : Nat} {x : Post × Bool} (h : (d.setPost task none).posts other = some x) :
    other ≠ task ∧ d.posts other = some x := by
  by_cases hother : other = task
  · rw [hother,setPost_self] at h
    cases h
  · exact ⟨hother,(setPost_other d hother none).symm.trans h⟩

theorem Staffed.fresh_setPost (hd : d.Staffed) {x : Post × Bool} (hpost : d.posts task = some x)
    (post : Option (Post × Bool)) (other : Nat) (h : d.count ≤ other) : (d.setPost task post).posts other = none := by
  have hother : other ≠ task := by
    rintro rfl
    rw [hd.fresh other h] at hpost
    cases hpost
  exact (setPost_other d hother _).trans (hd.fresh other h)

/-- A task of a node that has no worker does not exist. -/
theorem Staffed.unlisted (hd : d.Staffed) (hnone : d.nodeWorkers nodeId = none) (task : Nat) :
    ¬ d.Works nodeId task := by
  rintro ⟨post,c,hpost,hnode⟩
  rw [(hd.fits task post c hpost).listed nodeId hnode] at hnone
  cases hnone

/-- A node has one worker. -/
theorem Staffed.single (hd : d.Staffed) {other : Nat} (h : d.Works nodeId task)
    (hother : d.Works nodeId other) : task = other := by
  obtain ⟨post,c,hpost,hnode⟩ := h
  obtain ⟨post',c',hpost',hnode'⟩ := hother
  have hlisted := (hd.fits task post c hpost).listed nodeId hnode
  rw [(hd.fits other post' c' hpost').listed nodeId hnode'] at hlisted
  exact (Option.some.inj hlisted).symm

/-- Only a task whose turn it is may be between two jobs. -/
theorem Staffed.turn_idle (hd : d.Staffed) (hturn : d.Turn task) {other : Nat} {post' : Post} {c' : Bool}
    (hpost : d.posts other = some (post',c')) (hidle : post'.isIdle = true) : other = task := by
  have hrunning := (hd.fits other post' c' hpost).idle hidle
  rcases hturn with hnone | hself
  · rw [hnone] at hrunning
    cases hrunning
  · rw [hself] at hrunning
    exact (Option.some.inj hrunning).symm

theorem Staffed.turn (hd : d.Staffed) (hturn : d.Turn task) (hpost : d.posts task = some (post,false))
    {running : Option Nat}
    (hrunning : running = some task ∨ running = none ∧ post.isIdle = false) :
    Staffed {d with running} := by
  refine {hd with fits := fun other post' c' hother => ?_, running := fun other hother => ?_}
  · refine {hd.fits other post' c' hother with idle := fun hidle => ?_}
    obtain rfl := hd.turn_idle hturn hother hidle
    cases hpost.symm.trans hother
    exact hrunning.resolve_right fun h => Bool.noConfusion (h.2.symm.trans hidle)
  · rcases hrunning with hself | ⟨hnone,_⟩
    · cases hself.symm.trans hother
      exact ⟨post,hpost⟩
    · cases hnone.symm.trans hother

/-- A task that works for no node ends. -/
theorem Staffed.leave (hd : d.Staffed) (hturn : d.Turn task) (hpost : d.posts task = some (post,c))
    (hworker : post.nodeId = none) : Staffed {d.setPost task none with running := none} := by
  refine {hd with fresh := hd.fresh_setPost hpost none, fits := fun other post' c' h => ?_,
                  running := nofun, live := fun hfree nodeId other h => ?_}
  · obtain ⟨hother,h⟩ := of_removed h
    exact {hd.fits other post' c' h with idle := fun hidle => absurd (hd.turn_idle hturn h hidle) hother}
  · obtain ⟨post',c',h',hnode⟩ := hd.live hfree nodeId other h
    refine ⟨post',c',(setPost_other d ?_ none).trans h',hnode⟩
    rintro rfl
    cases hpost.symm.trans h'
    rw [hworker] at hnode
    cases hnode

/-- A worker goes from one of its posts to another. -/
theorem Staffed.repost (hd : d.Staffed) (hturn : d.Turn task) (hpost : d.posts task = some (post,false))
    {deque : Nat} {busy : Bool} (hnode : post.nodeId = some nodeId) (hjobs : d.nodeJobs nodeId = some deque)
    (deques : NodeId × Nat → List Job) (started : NodeId → List Job) (finished : NodeId → Nat) :
    Staffed {d.setPost task (some (.worker nodeId deque busy,false)) with
      running := some task, deques, started, finished} := by
  have hfits := hd.fits task post false hpost
  refine {hd with fresh := hd.fresh_setPost hpost _, fits := fun other post' c' h => ?_,
                  running := fun other h => ?_, live := fun hfree nodeId' other h => ?_}
  · by_cases hother : other = task
    · rw [hother]
      rw [hother,show Crew.posts _ task = _ from setPost_self d task _] at h
      cases h
      refine ⟨fun _ => rfl,fun _ he => hfits.listed _ (hnode.trans he),?_,nofun,nofun,nofun,?_,nofun,nofun⟩
      · intro _ _ _ he
        cases he
        exact hjobs
      · intro awaited hstop _
        exact hfits.halted awaited hstop (by rw [hnode]; exact Option.some_ne_none _)
    · have h : d.posts other = some (post',c') := (setPost_other d hother _).symm.trans h
      exact {hd.fits other post' c' h with idle := fun hidle => absurd (hd.turn_idle hturn h hidle) hother}
  · cases h
    exact ⟨_,setPost_self d task _⟩
  · obtain ⟨post',c',h',hnode'⟩ := hd.live hfree nodeId' other h
    by_cases hother : other = task
    · subst hother
      cases hpost.symm.trans h'
      exact ⟨_,_,setPost_self d other _,hnode.symm.trans hnode'⟩
    · exact ⟨post',c',(setPost_other d hother _).trans h',hnode'⟩

theorem Staffed.dismiss (hd : d.Staffed) (hturn : d.Turn task) (hpost : d.posts task = some (post,c))
    (hnode : post.nodeId = some nodeId) : (d.dismiss task nodeId).Staffed := by
  have hlisted := (hd.fits task post c hpost).listed nodeId hnode
  -- No other task works for the node.
  have hleft : ∀ other post' c', d.posts other = some (post',c') → other ≠ task →
      post'.nodeId ≠ some nodeId := by
    intro other post' c' h hother he
    rw [(hd.fits other post' c' h).listed nodeId he] at hlisted
    exact hother (Option.some.inj hlisted)
  have hkept : ∀ nodeId' other, (d.dismiss task nodeId).nodeWorkers nodeId' = some other →
      nodeId' ≠ nodeId ∧ d.nodeWorkers nodeId' = some other := by
    intro nodeId' other h
    by_cases hn : nodeId' = nodeId
    · rw [hn,show (d.dismiss task nodeId).nodeWorkers nodeId = none from Function.update_self ..] at h
      cases h
    · exact ⟨hn,(Function.update_of_ne hn ..).symm.trans h⟩
  refine ⟨hd.fresh_setPost hpost none,fun other post' c' h => ?_,nofun,fun nodeId' => ?_,
    fun hfree nodeId' other h => ?_,fun key h => ?_,fun awaited hstop nodeId' other h => ?_,?_,hd.settled⟩
  · obtain ⟨hother,h⟩ := of_removed h
    have hfits := hd.fits other post' c' h
    refine {hfits with idle := fun hidle => absurd (hd.turn_idle hturn h hidle) hother,
                       listed := fun nodeId' he => ?_, deque := fun nodeId' deque busy he => ?_}
    · have hn : nodeId' ≠ nodeId := fun hn => hleft other post' c' h hother (hn ▸ he)
      exact (Function.update_of_ne hn ..).trans (hfits.listed nodeId' he)
    · have hn : nodeId' ≠ nodeId := fun hn => hleft other post' c' h hother (by rw [he,hn]; rfl)
      exact (Function.update_of_ne hn ..).trans (hfits.deque nodeId' deque busy he)
  · unfold Crew.dismiss
    by_cases hn : nodeId' = nodeId
    · simp only [hn,Function.update_self]
    · simp only [Function.update_of_ne hn]
      exact hd.paired nodeId'
  · obtain ⟨hn,h⟩ := hkept nodeId' other h
    obtain ⟨post',c',h',hnode'⟩ := hd.live hfree nodeId' other h
    refine ⟨post',c',(setPost_other d ?_ none).trans h',hnode'⟩
    rintro rfl
    cases hpost.symm.trans h'
    exact hn (Option.some.inj (hnode'.symm.trans hnode))
  · simp only [Crew.dismiss] at h
    split at h
    · exact absurd rfl h
    · next hkey =>
      obtain ⟨hworker,hregistered⟩ := hd.deferred key h
      have hn : key.1 ≠ nodeId := fun hn => hkey ⟨hn,hregistered⟩
      refine ⟨?_,hregistered⟩
      rwa [show (d.dismiss task nodeId).nodeWorkers key.1 = d.nodeWorkers key.1 from
        Function.update_of_ne hn ..]
  · exact hd.halted awaited hstop nodeId' other (hkept nodeId' other h).2
  · rcases hd.cleared with hfree | hworkers | hnone
    · exact Or.inl hfree
    · exact Or.inr (Or.inl hworkers)
    · rw [hnone nodeId] at hlisted
      cases hlisted

/-- A worker that is cancelled before its first step. -/
theorem Staffed.abandon (hd : d.Staffed) (hturn : d.Turn task)
    (hpost : d.posts task = some (.created nodeId,c)) (hends : cancels ∧ c = true ∨ d.nodeJobs nodeId = none) :
    Staffed {d.setPost task none with running := none} := by
  have hfits := hd.fits task _ c hpost
  have hc : c = true := by
    rcases hends with ⟨_,hc⟩ | hnone
    · exact hc
    · have hpaired := hd.paired nodeId
      rw [hnone,hfits.listed nodeId rfl] at hpaired
      cases hpaired
  obtain ⟨awaited,hstop⟩ := hfits.hired nodeId rfl hc
  refine {hd with fresh := hd.fresh_setPost hpost none, fits := fun other post' c' h => ?_,
                  running := nofun, live := fun hfree => ?_}
  · obtain ⟨hother,h⟩ := of_removed h
    exact {hd.fits other post' c' h with idle := fun hidle => absurd (hd.turn_idle hturn h hidle) hother}
  · cases hstop.symm.trans hfree

theorem appendJob_some {deque : Nat} (hjobs : d.nodeJobs nodeId = some deque) (job : Job) :
    d.appendJob nodeId job = {d with
      enqueued := Function.update d.enqueued nodeId (d.enqueued nodeId ++ [job]),
      deques := Function.update d.deques (nodeId,deque) (d.deques (nodeId,deque) ++ [job])} := by
  unfold Crew.appendJob
  simp only [hjobs]

theorem appendJob_none (hjobs : d.nodeJobs nodeId = none) (job : Job) :
    d.appendJob nodeId job = {d with
      enqueued := Function.update d.enqueued nodeId (d.enqueued nodeId ++ [job]),
      nodeJobs := Function.update d.nodeJobs nodeId (some d.dequeCount),
      deques := Function.update d.deques (nodeId,d.dequeCount) [job],
      dequeCount := d.dequeCount+1} := by
  unfold Crew.appendJob
  simp only [hjobs]

theorem Staffed.unqueued (hd : d.Staffed) (hworker : d.nodeWorkers nodeId = none) :
    d.nodeJobs nodeId = none := by
  have hpaired := hd.paired nodeId
  rw [hworker] at hpaired
  exact Option.not_isSome_iff_eq_none.mp (by rw [hpaired]; exact Bool.false_ne_true)

theorem Staffed.append (hd : d.Staffed) (hworker : (d.nodeWorkers nodeId).isSome) (job : Job) :
    (d.appendJob nodeId job).Staffed := by
  obtain ⟨deque,hdeque⟩ := Option.isSome_iff_exists.mp ((hd.paired nodeId).trans hworker)
  rw [appendJob_some hdeque]
  exact {hd with fits := fun other post' c' h => {hd.fits other post' c' h with}}

theorem of_created {post : Post} {other : Nat} {x : Post × Bool} (h : (d.create post).posts other = some x) :
    other = d.count ∧ x = (post,false) ∨ other ≠ d.count ∧ d.posts other = some x := by
  by_cases hother : other = d.count
  · rw [hother,show (d.create post).posts d.count = _ from setPost_self d d.count _] at h
    exact Or.inl ⟨hother,(Option.some.inj h).symm⟩
  · exact Or.inr ⟨hother,(setPost_other d hother _).symm.trans h⟩

theorem Staffed.create_fresh (hd : d.Staffed) (post : Post) (other : Nat) (h : d.count+1 ≤ other) :
    (d.create post).posts other = none :=
  (setPost_other d (Nat.ne_of_gt h) _).trans (hd.fresh other (Nat.le_of_lt h))

theorem Staffed.create_old (hd : d.Staffed) (post : Post) {other : Nat} {x : Post × Bool}
    (h : d.posts other = some x) : (d.create post).posts other = some x := by
  have hother : other ≠ d.count := by
    rintro rfl
    rw [hd.fresh _ (Nat.le_refl _)] at h
    cases h
  exact (setPost_other d hother _).trans h

theorem Staffed.hire (hd : d.Staffed) (hworker : d.nodeWorkers nodeId = none) (hfree : d.stopping = none)
    (job : Job) : ((d.appendJob nodeId job).hire nodeId).Staffed := by
  have hjobs := hd.unqueued hworker
  rw [appendJob_none hjobs]
  have hold : ∀ other post' c', d.posts other = some (post',c') → post'.nodeId ≠ some nodeId :=
    fun other post' c' h he => hd.unlisted hworker other ⟨post',c',h,he⟩
  have hphase : ∀ phase, d.stopping ≠ some phase := fun phase h => by
    rw [hfree] at h
    cases h
  refine ⟨hd.create_fresh (.created nodeId),fun other post' c' h => ?_,fun other h => ?_,fun nodeId' => ?_,
    fun _ nodeId' other h => ?_,fun key h => ?_,fun awaited h => absurd h (hphase _),Or.inl hfree,
    fun _ h => absurd h (hphase _)⟩
  · rcases of_created h with ⟨rfl,he⟩ | ⟨_,h⟩
    · cases he
      refine ⟨nofun,fun nodeId' he => ?_,nofun,nofun,nofun,fun _ _ => nofun,fun _ h => absurd h (hphase _),
        fun _ h => absurd h (hphase _),fun _ h => absurd h (hphase _)⟩
      cases he
      exact Function.update_self ..
    · have hfits := hd.fits other post' c' h
      refine {hfits with listed := fun nodeId' he => ?_, deque := fun nodeId' deque busy he => ?_}
      · have hn : nodeId' ≠ nodeId := fun hn => hold other post' c' h (hn ▸ he)
        exact (Function.update_of_ne hn ..).trans (hfits.listed nodeId' he)
      · have hn : nodeId' ≠ nodeId := fun hn => hold other post' c' h (by rw [he,hn]; rfl)
        exact (Function.update_of_ne hn ..).trans (hfits.deque nodeId' deque busy he)
  · obtain ⟨post',hpost'⟩ := hd.running other h
    exact ⟨post',hd.create_old _ hpost'⟩
  · unfold Crew.hire
    by_cases hn : nodeId' = nodeId
    · simp only [hn,Function.update_self,Option.isSome_some,Crew.create,Crew.setPost]
    · simp only [Function.update_of_ne hn,Crew.create,Crew.setPost]
      exact hd.paired nodeId'
  · by_cases hn : nodeId' = nodeId
    · subst hn
      cases (Function.update_self ..).symm.trans h
      exact ⟨_,_,setPost_self d d.count _,rfl⟩
    · obtain ⟨post',c',h',hnode'⟩ := hd.live hfree nodeId' other ((Function.update_of_ne hn ..).symm.trans h)
      exact ⟨post',c',hd.create_old _ h',hnode'⟩
  · obtain ⟨hworker',hregistered⟩ := hd.deferred key h
    refine ⟨?_,hregistered⟩
    have hn : key.1 ≠ nodeId := fun hn => by
      rw [hn,hworker] at hworker'
      cases hworker'
    exact (congrArg Option.isSome (Function.update_of_ne hn ..)).trans hworker'

/-- A task that works for no node starts, and the tables know it. -/
theorem Staffed.create (hd : d.Staffed) (hnode : post.nodeId = none) {refreshTasks : List Nat}
    {consumer : Option Nat} (hkept : ∀ other ∈ d.refreshTasks, other ∈ refreshTasks)
    (hrefresh : post = .refresh → d.count ∈ refreshTasks ∧ d.stopping = none)
    (hconsumer : consumer = d.eventConsumerTask ∧ post ≠ .consumer ∨
      consumer = some d.count ∧ d.eventConsumerTask = none) :
    Staffed {d.create post with refreshTasks, eventConsumerTask := consumer} := by
  have hsame : ∀ other, d.eventConsumerTask = some other → consumer = some other := fun other h => by
    rcases hconsumer with ⟨he,_⟩ | ⟨_,hnone⟩
    · rw [he,h]
    · rw [hnone] at h
      cases h
  refine {hd with fresh := hd.create_fresh post, fits := fun other post' c' h => ?_,
                  running := fun other h => ?_, live := fun hfree nodeId other h => ?_,
                  settled := fun other h => hsame other (hd.settled other h)}
  · rcases of_created h with ⟨rfl,he⟩ | ⟨_,h⟩
    · cases he
      refine ⟨fun hidle => ?_,fun _ he => ?_,fun _ _ _ he => ?_,fun he => (hrefresh he).1,fun he => ?_,
        fun _ _ => nofun,fun _ _ he => absurd hnode he,fun awaited hstop he => ?_,fun _ hstop he => ?_⟩
      · cases post with
        | worker => cases hnode
        | created | outside | refresh | consumer => cases hidle
      · rw [hnode] at he
        cases he
      · rw [he] at hnode
        cases hnode
      · rcases hconsumer with ⟨_,hne⟩ | ⟨hself,_⟩
        · exact absurd he hne
        · exact hself
      · cases (hrefresh he).2.symm.trans hstop
      · cases (hrefresh he).2.symm.trans hstop
    · have hfits := hd.fits other post' c' h
      exact {hfits with refreshing := fun he => hkept other (hfits.refreshing he),
                        consumer := fun he => hsame other (hfits.consumer he)}
  · obtain ⟨post',hpost'⟩ := hd.running other h
    exact ⟨post',hd.create_old post hpost'⟩
  · obtain ⟨post',c',h',hnode'⟩ := hd.live hfree nodeId other h
    exact ⟨post',c',hd.create_old post h',hnode'⟩

theorem of_cancelled {cancelled : List Nat} (h : (d.cancelTasks cancelled).posts task = some (post,c)) :
    ∃ c', d.posts task = some (post,c') ∧ c = (c' || decide (task ∈ cancelled)) := by
  obtain ⟨⟨post',c'⟩,hpost,he⟩ := Option.map_eq_some_iff.mp h
  cases he
  exact ⟨c',hpost,rfl⟩

theorem works_cancelTasks (cancelled : List Nat) (h : d.Works nodeId task) :
    (d.cancelTasks cancelled).Works nodeId task := by
  obtain ⟨post,c,hpost,hnode⟩ := h
  exact ⟨post,_,congrArg (Option.map _) hpost,hnode⟩

theorem Staffed.fresh_cancelTasks (hd : d.Staffed) (cancelled : List Nat) (other : Nat)
    (h : d.count ≤ other) : (d.cancelTasks cancelled).posts other = none :=
  congrArg (Option.map _) (hd.fresh other h)

theorem Staffed.cancelTasks (hd : d.Staffed) {cancelled : List Nat} (hturn : d.running = none)
    (hcreated : ∀ task ∈ cancelled, ∀ nodeId c, d.posts task ≠ some (.created nodeId,c)) :
    (d.cancelTasks cancelled).Staffed := by
  refine {hd with fresh := hd.fresh_cancelTasks cancelled, fits := fun other post' c' h => ?_,
                  running := fun other h => ?_, live := fun hfree nodeId other h => ?_}
  · obtain ⟨c₀,hpost,rfl⟩ := of_cancelled h
    have hfits := hd.fits other post' c₀ hpost
    refine {hfits with hired := fun nodeId he hc => ?_, halted := fun awaited hstop he => ?_}
    · rcases Bool.or_eq_true _ _ |>.mp hc with hc | hmem
      · exact hfits.hired nodeId he hc
      · exact absurd (he ▸ hpost) (hcreated other (of_decide_eq_true hmem) nodeId c₀)
    · rw [hfits.halted awaited hstop he]
      rfl
  · cases hturn.symm.trans h
  · exact works_cancelTasks cancelled (hd.live hfree nodeId other h)

/-- `async_stop` cancels the workers. -/
theorem Staffed.halt (hd : d.Staffed) {awaited : List Nat} (hturn : d.running = none)
    (hall : ∀ nodeId task, d.nodeWorkers nodeId = some task → task ∈ awaited) :
    Staffed {d.cancelTasks awaited with stopping := some (.workers awaited)} := by
  refine {hd with fresh := hd.fresh_cancelTasks awaited, fits := fun other post' c' h => ?_,
                  running := fun other h => ?_, live := nofun, cleared := Or.inr (Or.inl ⟨awaited,rfl⟩),
                  halted := fun _ he => ?_, settled := nofun}
  · obtain ⟨c₀,hpost,rfl⟩ := of_cancelled h
    have hfits := hd.fits other post' c₀ hpost
    refine {hfits with hired := fun _ _ _ => ⟨awaited,rfl⟩, halted := fun _ _ he => ?_,
                       refreshes := nofun, settled := nofun}
    obtain ⟨nodeId,hnode⟩ := Option.ne_none_iff_exists'.mp he
    rw [decide_eq_true (hall nodeId other (hfits.listed nodeId hnode)),Bool.or_true]
  · cases hturn.symm.trans h
  · cases he
    exact hall

/-- The workers have ended, and `async_stop` clears the tables. -/
theorem Staffed.clear (hd : d.Staffed) {awaited : List Nat} (hturn : d.running = none)
    (hphase : d.stopping = some (.workers awaited)) (hdone : ∀ task ∈ awaited, d.posts task = none) :
    Staffed {d.cancelTasks d.refreshTasks with
      nodeWorkers := fun _ => none, nodeJobs := fun _ => none, deferredFrames := fun _ => [],
      stopping := some (.refreshes d.refreshTasks)} := by
  have hgone : ∀ other post' c', d.posts other = some (post',c') → post'.nodeId = none := by
    intro other post' c' h
    by_contra hnode
    obtain ⟨nodeId,hnode⟩ := Option.ne_none_iff_exists'.mp hnode
    have hmem := hd.halted awaited hphase nodeId other ((hd.fits other post' c' h).listed nodeId hnode)
    rw [hdone other hmem] at h
    cases h
  refine ⟨hd.fresh_cancelTasks d.refreshTasks,fun other post' c' h => ?_,fun other h => ?_,fun _ => rfl,nofun,
    fun _ h => absurd rfl h,nofun,Or.inr (Or.inr fun _ => rfl),nofun⟩
  · obtain ⟨c₀,hpost,rfl⟩ := of_cancelled h
    have hfits := hd.fits other post' c₀ hpost
    have hnode := hgone other post' c₀ hpost
    refine {hfits with listed := fun nodeId he => ?_, deque := fun _ _ _ he => ?_, hired := fun _ he => ?_,
                       halted := nofun, refreshes := fun awaited' he hrefresh => ?_, settled := nofun}
    · rw [hnode] at he
      cases he
    · rw [he] at hnode
      cases hnode
    · rw [he] at hnode
      cases hnode
    · cases he
      exact hfits.refreshing hrefresh
  · cases hturn.symm.trans h

/-- The refresh tasks have ended. -/
theorem Staffed.unrefreshed (hd : d.Staffed) {awaited : List Nat}
    (hphase : d.stopping = some (.refreshes awaited)) (hdone : ∀ task ∈ awaited, d.posts task = none)
    (h : d.posts task = some (post,c)) : post ≠ .refresh := by
  rintro rfl
  rw [hdone task ((hd.fits task _ c h).refreshes awaited hphase rfl)] at h
  cases h

theorem Staffed.unmanned (hd : d.Staffed) {phase : StopPhase} (hphase : d.stopping = some phase)
    (hworkers : ∀ awaited, phase ≠ .workers awaited) (nodeId : NodeId) : d.nodeWorkers nodeId = none := by
  rcases hd.cleared with hfree | ⟨awaited,hstop⟩ | hnone
  · cases hphase.symm.trans hfree
  · cases hphase.symm.trans hstop
    exact absurd rfl (hworkers awaited)
  · exact hnone nodeId

theorem Staffed.settle (hd : d.Staffed) {awaited : List Nat} {consumer : Nat} (hturn : d.running = none)
    (hphase : d.stopping = some (.refreshes awaited)) (hdone : ∀ task ∈ awaited, d.posts task = none)
    (hconsumer : d.eventConsumerTask = some consumer) :
    Staffed {d.cancelTasks [consumer] with refreshTasks := [], stopping := some (.consumer consumer)} := by
  have hnone := hd.unmanned hphase nofun
  refine {hd with fresh := hd.fresh_cancelTasks [consumer], fits := fun other post' c' h => ?_,
                  running := fun other h => ?_, live := nofun, halted := nofun,
                  cleared := Or.inr (Or.inr hnone), settled := fun _ he => ?_}
  · obtain ⟨c₀,hpost,rfl⟩ := of_cancelled h
    have hfits := hd.fits other post' c₀ hpost
    have hrefresh := hd.unrefreshed hphase hdone hpost
    refine {hfits with refreshing := fun he => absurd he hrefresh, hired := fun nodeId he => ?_,
                       halted := nofun, refreshes := nofun, settled := fun _ _ => hrefresh}
    cases (hfits.listed nodeId (by rw [he]; rfl)).symm.trans (hnone nodeId)
  · cases hturn.symm.trans h
  · cases he
    exact hconsumer

/-- `async_stop` returns. -/
theorem Staffed.stopped (hd : d.Staffed) {phase : StopPhase} (hphase : d.stopping = some phase)
    (hworkers : ∀ awaited, phase ≠ .workers awaited)
    (hrefresh : ∀ task c, d.posts task ≠ some (.refresh,c)) {consumer : Option Nat}
    (hconsumer : ∀ task c, d.posts task ≠ some (.consumer,c)) (refreshTasks : List Nat) :
    Staffed {d with refreshTasks, eventConsumerTask := consumer, stopping := none} := by
  have hnone := hd.unmanned hphase hworkers
  refine {hd with fits := fun other post' c' h => ?_, live := fun _ nodeId other h => ?_,
                  halted := nofun, cleared := Or.inl rfl, settled := nofun}
  · have hfits := hd.fits other post' c' h
    refine {hfits with refreshing := fun he => absurd (he ▸ h) (hrefresh other c'),
                       consumer := fun he => absurd (he ▸ h) (hconsumer other c'),
                       hired := fun nodeId he => ?_, halted := nofun, refreshes := nofun, settled := nofun}
    cases (hfits.listed nodeId (by rw [he]; rfl)).symm.trans (hnone nodeId)
  · cases (hnone nodeId).symm.trans h

theorem Staffed.handle (hd : d.Staffed) {key : DeviceKey} (hkey : d.registered key = false) (frame : Frame)
    (jobTask : Option Nat) : ((d.defer key frame).record key frame jobTask).Staffed := by
  have hdefer : (d.defer key frame).Staffed := by
    unfold Crew.defer
    split
    · next hroom =>
      refine {hd with fits := fun other post' c' h => {hd.fits other post' c' h with},
                      deferred := fun key' h => ?_}
      by_cases hk : key' = key
      · rw [hk]
        exact ⟨hroom.1,hkey⟩
      · exact hd.deferred key' (fun he => h ((Function.update_of_ne hk ..).trans he))
    · exact hd
  unfold Crew.record
  split
  · exact {hdefer with fits := fun other post' c' h => {hdefer.fits other post' c' h with}}
  · exact hdefer

theorem Staffed.register (hd : d.Staffed) (key : DeviceKey) :
    Staffed {d with registered := Function.update d.registered key true,
                    deferredFrames := Function.update d.deferredFrames key []} := by
  refine {hd with fits := fun other post' c' h => {hd.fits other post' c' h with},
                  deferred := fun key' h => ?_}
  by_cases hk : key' = key
  · rw [hk] at h
    exact absurd (Function.update_self ..) h
  · obtain ⟨hworker,hregistered⟩ := hd.deferred key' fun he => h ((Function.update_of_ne hk ..).trans he)
    exact ⟨hworker,(Function.update_of_ne hk ..).trans hregistered⟩

theorem Staffed.discard (hd : d.Staffed) (hdone : d.posts task = none) :
    Staffed {d with refreshTasks := d.refreshTasks.erase task} := by
  refine {hd with fits := fun other post' c' h => ?_}
  have hfits := hd.fits other post' c' h
  refine {hfits with refreshing := fun he => ?_}
  have hother : other ≠ task := by
    rintro rfl
    rw [hdone] at h
    cases h
  exact (List.mem_erase_of_ne hother).mpr (hfits.refreshing he)

theorem Staffed.move (hd : d.Staffed) (h : Move cancels drops d d') : d'.Staffed := by
  cases h with
  | turn task post running hturn hpost hrunning => exact hd.turn hturn hpost hrunning
  | leave task post c hturn hpost hworker => exact hd.leave hturn hpost hworker
  | take task nodeId deque hturn hpost hjobs => exact hd.repost hturn hpost rfl hjobs _ _ _
  | start task nodeId deque job jobs hturn hpost =>
    exact hd.repost hturn hpost rfl ((hd.fits task _ _ hpost).deque _ _ _ rfl) _ _ _
  | finish task nodeId deque hturn hpost =>
    exact hd.repost hturn hpost rfl ((hd.fits task _ _ hpost).deque _ _ _ rfl) _ _ _
  | dismiss task nodeId deque busy c hturn hpost => exact hd.dismiss hturn hpost rfl
  | abandon task nodeId c hturn hpost hends => exact hd.abandon hturn hpost hends
  | append nodeId job hworker => exact hd.append hworker job
  | hire nodeId job hworker hfree => exact hd.hire hworker hfree job
  | call => exact hd.create rfl (fun _ => id) nofun (Or.inl ⟨rfl,nofun⟩)
  | refresh hfree =>
    exact hd.create rfl (fun _ => List.mem_append_left _)
      (fun _ => ⟨List.mem_append_right _ (List.mem_singleton_self _),hfree⟩) (Or.inl ⟨rfl,nofun⟩)
  | listen hfree hconsumer => exact hd.create rfl (fun _ => id) nofun (Or.inr ⟨rfl,hconsumer⟩)
  | cancel cancelled _ hturn hcreated => exact hd.cancelTasks hturn hcreated
  | handle key frame jobTask hkey => exact hd.handle hkey frame jobTask
  | register key => exact hd.register key
  | discard task hdone => exact hd.discard hdone
  | halt awaited _ hturn _ hall => exact hd.halt hturn hall
  | clear awaited _ hturn hphase hdone => exact hd.clear hturn hphase hdone
  | settle awaited consumer _ hturn hphase hdone hconsumer => exact hd.settle hturn hphase hdone hconsumer
  | settleUnstarted awaited _ hphase hdone hconsumer =>
    refine hd.stopped hphase nofun (fun task c h => hd.unrefreshed hphase hdone h rfl) (fun task c h => ?_) []
    cases ((hd.fits task _ c h).consumer rfl).symm.trans hconsumer
  | rest consumer _ hphase hdone =>
    refine hd.stopped hphase nofun (fun task c h => (hd.fits task _ c h).settled consumer hphase rfl)
      (fun task c h => ?_) _
    cases ((hd.fits task _ c h).consumer rfl).symm.trans (hd.settled consumer hphase)
    cases hdone.symm.trans h

end Pyhems.Device.Crew
