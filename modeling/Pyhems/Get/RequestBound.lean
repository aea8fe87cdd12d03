import Mathlib.Data.Nat.Log
import Pyhems.Get.Turns

/-! How many requests one run can send. Every accepted answer shortens the queue; every
retried batch halves the size in force, which no accepted answer raises again. -/
namespace Pyhems.Get
open Protocol Library

variable {target : Target} {probe : Bool} {device : Device} {s t : GetState}

/-- The length of a batch cut at `size` from a queue of `length` EPCs. -/
def cut (size : Option Nat) (length : Nat) : Nat :=
  match size with
  | none => length
  | some size => min size length

theorem cut_le_length (size : Option Nat) (length : Nat) : cut size length ≤ length := by
  cases size with
  | none => exact le_refl _
  | some size => exact min_le_right _ _

theorem cut_le_cut {size size' : Option Nat} {length length' : Nat} (hlength : length' ≤ length)
    (hsize : ∀ b, size = some b → ∃ k ≤ b, size' = some k) : cut size' length' ≤ cut size length := by
  cases size with
  | none => exact (cut_le_length size' length').trans hlength
  | some b =>
    obtain ⟨k,hk,rfl⟩ := hsize b rfl
    exact min_le_min hk hlength

/-- The largest batch that can be planned next. -/
def GetState.bound (s : GetState) : Nat :=
  cut (batchSize s.capability.observedBatchCapacity s.vars.probeSize) s.vars.queue.length

theorem GetState.bound_le (s : GetState) : s.bound ≤ s.vars.queue.length := cut_le_length _ _

/-- The accepted answers and the halvings that are still possible. -/
def GetState.measure (s : GetState) : Nat := s.vars.queue.length + Nat.clog 2 s.bound

theorem clog_half {n : Nat} (h : 2 ≤ n) : Nat.clog 2 ((n+1)/2) + 1 = Nat.clog 2 n :=
  (Nat.clog_of_two_le (by omega) h).symm

/-- A fixed limit is at most the number of EPCs that fixed it, and never larger than before. -/
theorem fixBatchCapacity_le (capability : GetCapability) (capacity : Nat) :
    ∃ k ≤ capacity, (fixBatchCapacity capability capacity).observedBatchCapacity = some k ∧
      ∀ previous, capability.observedBatchCapacity = some previous → k ≤ previous := by
  unfold fixBatchCapacity
  split
  · next h => exact ⟨capacity,le_refl _,rfl,by simp [h]⟩
  · next previous h =>
    split
    · next hle => exact ⟨previous,hle,h,by simp [h]⟩
    · next hlt => exact ⟨capacity,le_refl _,rfl,by simp [h]; omega⟩

theorem batchSize_probe (limit : Option Nat) (p : Nat) : ∃ k ≤ p, batchSize limit (some p) = some k := by
  cases limit with
  | none => exact ⟨p,le_refl p,rfl⟩
  | some l => exact ⟨min l p,min_le_right l p,rfl⟩

theorem Planned.length_le_cut {policy : Option GetBatchPolicy} {size : Option Nat}
    {queue batch rest : List Epc} (h : Planned policy size queue batch rest) :
    batch.length ≤ cut size queue.length := by
  have hqueue := h.perm.length_eq
  rw [List.length_append] at hqueue
  cases size with
  | none => exact Nat.le.intro hqueue
  | some b => exact le_min (h.limit_le b rfl) (Nat.le.intro hqueue)

/-- A retried turn keeps the queue's length and takes one halving. -/
theorem Retried.progress {batch rest : List Epc} {next : Handled} {log : List Exchange}
    {policy : Option GetBatchPolicy}
    (hplan : Planned policy (batchSize s.capability.observedBatchCapacity s.vars.probeSize)
      s.vars.queue batch rest) (hne : s.vars.queue ≠ [])
    (h : Retried probe s.capability.observedBatchCapacity batch rest s.capability s.vars
      (device s.log batch) next) :
    next.vars.queue.length = s.vars.queue.length ∧
      Nat.clog 2 (GetState.mk next.capability next.vars log).bound + 1 ≤ Nat.clog 2 s.bound := by
  have hsize := h.size
  have hpos := List.length_pos_iff.mpr (hplan.nonempty hne)
  have hqueue := hplan.perm.length_eq
  rw [h.next_eq]
  refine ⟨hqueue,?_⟩
  obtain ⟨k,hk,he⟩ := batchSize_probe s.capability.observedBatchCapacity ((batch.length+1)/2)
  have hhalf : (GetState.mk (retryInHalves s.capability s.vars batch rest).capability
      (retryInHalves s.capability s.vars batch rest).vars log).bound ≤ (batch.length+1)/2 := by
    simp only [GetState.bound,retryInHalves,he]
    exact (min_le_left _ _).trans hk
  calc
    _ ≤ Nat.clog 2 ((batch.length+1)/2) + 1 := Nat.add_le_add_right (Nat.clog_mono_right 2 hhalf) 1
    _ = Nat.clog 2 batch.length := clog_half (by omega)
    _ ≤ Nat.clog 2 s.bound := Nat.clog_mono_right 2 hplan.length_le_cut

/-- An accepted turn shortens the queue and does not raise the size in force. -/
theorem Accepted.progress {batch rest : List Epc} {next : Handled} {log : List Exchange}
    {policy : Option GetBatchPolicy}
    (hplan : Planned policy (batchSize s.capability.observedBatchCapacity s.vars.probeSize)
      s.vars.queue batch rest) (hnodup : s.vars.queue.Nodup)
    (h : Accepted probe s.capability.observedBatchCapacity batch rest s.capability s.vars
      (device s.log batch) next) :
    next.vars.queue.length + 1 ≤ s.vars.queue.length ∧
      Nat.clog 2 (GetState.mk next.capability next.vars log).bound ≤ Nat.clog 2 s.bound := by
  have hbatch : batch.Nodup := (List.nodup_append.mp (hplan.perm.nodup_iff.mpr hnodup)).1
  have hqueue := ((h.perm hbatch).trans hplan.perm).length_eq
  have hpos := List.length_pos_iff.mpr h.ne_nil
  have hle : next.accepted.length ≤ batch.length := (h.nodup.subperm h.subset).length_le
  rw [List.length_append] at hqueue
  have hshort : next.vars.queue.length ≤ s.vars.queue.length := by omega
  refine ⟨by omega,Nat.clog_mono_right 2 (cut_le_cut hshort ?_)⟩
  obtain ⟨fixes,_,hcap,hprobe⟩ := h.limit_eq
  intro b hb
  have hsize := hplan.limit_le b hb
  cases fixes
  · exact ⟨b,le_refl b,by simpa [hcap,hprobe] using hb⟩
  · obtain ⟨k,hk,he,_⟩ := fixBatchCapacity_le s.capability next.accepted.length
    exact ⟨k,by omega,by simp [hcap,hprobe,he,batchSize]⟩

/-- The queue stays free of duplicates. -/
theorem nodup_queue_again (hnodup : s.vars.queue.Nodup)
    (h : getBatchesBody target probe device s = .again t) : t.vars.queue.Nodup := by
  obtain ⟨batch,rest,next,_,hplan,hcase,rfl⟩ := getBatchesBody_again h
  have hbatch : (batch ++ rest).Nodup := hplan.perm.nodup_iff.mpr hnodup
  rcases hcase with hcase | hcase
  · exact (List.nodup_append.mp (hcase.perm.nodup_iff.mpr hbatch)).1
  · exact (List.nodup_append.mp ((hcase.perm (List.nodup_append.mp hbatch).1).nodup_iff.mpr hbatch)).1

/-- Every further turn lowers the measure. -/
theorem measure_again (hnodup : s.vars.queue.Nodup)
    (h : getBatchesBody target probe device s = .again t) : t.measure < s.measure := by
  obtain ⟨batch,rest,next,hne,hplan,hcase,rfl⟩ := getBatchesBody_again h
  unfold GetState.measure
  rcases hcase with hcase | hcase
  · obtain ⟨hlen,hclog⟩ := hcase.progress hplan hne
    exact hlen ▸ Nat.add_lt_add_left hclog _
  · obtain ⟨hlen,hclog⟩ := hcase.progress hplan hnodup
    exact Nat.add_lt_add_of_lt_of_le hlen hclog

theorem clog_le_self (n : Nat) : Nat.clog 2 n ≤ n :=
  Nat.clog_le_of_le_pow Nat.lt_two_pow_self.le

theorem measure_start_lt (epcs : List Epc) (capability : GetCapability) (received : Received) :
    (getBatchesStart epcs capability received).measure < 2*epcs.length+1 := by
  have hlen := FirstMatch.length_fromkeys_le epcs
  have hbound := (getBatchesStart epcs capability received).bound_le
  have hclog := clog_le_self (getBatchesStart epcs capability received).bound
  have hqueue : (getBatchesStart epcs capability received).vars.queue.length =
      (FirstMatch.fromkeys epcs).length := rfl
  unfold GetState.measure
  omega

/-- The loop always ends: the fuel of `runGetBatches` suffices for every device. -/
theorem runGetBatches_total (target : Target) (probe : Bool) (device : Device) (epcs : List Epc)
    (capability : GetCapability) (received : Received) :
    ∃ run, runGetBatches target probe device epcs capability received = some run := by
  obtain ⟨run,hrun,_⟩ := Loop.run_total (fun s : GetState => s.vars.queue.Nodup)
    (fun _ => True) GetState.measure
    (fun s t hs h => ⟨nodup_queue_again hs h,measure_again hs h⟩) (fun _ _ _ _ => trivial)
    (FirstMatch.nodup_fromkeys epcs) (measure_start_lt epcs capability received)
  exact ⟨run,hrun⟩

/-! ### Counting -/

/-- The turns spent so far, against the queue and the halvings that remain. -/
structure Spent (probe : Bool) (n : Nat) (s : GetState) : Prop where
  nodup : s.vars.queue.Nodup
  answered : (s.log.countP fun x => !x.retried) + s.vars.queue.length ≤ n
  halved : s.log.countP Exchange.retried + Nat.clog 2 s.bound ≤ Nat.clog 2 n
  plain : probe = false → s.log.countP Exchange.retried = 0

theorem Spent.again {n : Nat} (hs : Spent probe n s)
    (h : getBatchesBody target probe device s = .again t) : Spent probe n t := by
  have hnodup := nodup_queue_again hs.nodup h
  obtain ⟨batch,rest,next,hne,hplan,hcase,rfl⟩ := getBatchesBody_again h
  have hanswered := hs.answered
  have hhalved := hs.halved
  rcases hcase with hcase | hcase
  · have hretried : next.retried = true := by rw [hcase.next_eq]; rfl
    obtain ⟨hlen,hclog⟩ := hcase.progress hplan hne
    refine ⟨hnodup,?_,?_,fun hplain => absurd (hcase.probing.symm.trans hplain) (by decide)⟩
    · simpa [List.countP_append,hretried,hlen] using hanswered
    · simp only [List.countP_append,List.countP_singleton,hretried,if_true]
      exact (Nat.add_assoc _ _ _).trans_le ((Nat.add_le_add_left (by rwa [Nat.add_comm]) _).trans hhalved)
  · obtain ⟨hlen,hclog⟩ := hcase.progress hplan hs.nodup
    refine ⟨hnodup,?_,?_,fun hplain => by simp [List.countP_append,hcase.retried_eq,hs.plain hplain]⟩
    · simp only [List.countP_append,List.countP_singleton,hcase.retried_eq,Bool.not_false,if_true]
      exact (Nat.add_right_comm _ _ _).trans_le ((Nat.add_le_add_left hlen _).trans hanswered)
    · simpa [List.countP_append,hcase.retried_eq] using (Nat.add_le_add_left hclog _).trans hhalved

theorem Spent.length_le {n : Nat} (hs : Spent probe n s) :
    s.log.length + s.vars.queue.length ≤ n + s.log.countP Exchange.retried := by
  have hsum : s.log.length = s.log.countP Exchange.retried + s.log.countP fun x => !x.retried := by
    rw [List.length_eq_countP_add_countP Exchange.retried]
    congr 2
    funext x
    cases x.retried <;> rfl
  have hanswered := hs.answered
  omega

/-! ### Sizes stay positive -/

theorem fixBatchCapacity_ne_zero {capability : GetCapability} {capacity : Nat}
    (hlimit : capability.observedBatchCapacity ≠ some 0) (hcapacity : capacity ≠ 0) :
    (fixBatchCapacity capability capacity).observedBatchCapacity ≠ some 0 := by
  unfold fixBatchCapacity
  split
  · simpa using hcapacity
  · split
    · exact hlimit
    · simpa using hcapacity

theorem batchSize_ne_zero {limit probeSize : Option Nat} (hlimit : limit ≠ some 0)
    (hprobe : probeSize ≠ some 0) : batchSize limit probeSize ≠ some 0 := by
  cases probeSize with
  | none => exact hlimit
  | some p =>
    cases limit with
    | none => exact hprobe
    | some l =>
      intro h
      rcases Nat.min_eq_zero_iff.mp (Option.some.inj h) with rfl | rfl
      · exact hlimit rfl
      · exact hprobe rfl

/-- The stored limit and the probe size are unknown or at least one. -/
structure Positive (s : GetState) : Prop where
  limit : s.capability.observedBatchCapacity ≠ some 0
  probeSize : s.vars.probeSize ≠ some 0

theorem Retried.positive {limit : Option Nat} {batch rest : List Epc} {attempt : Attempt}
    {next : Handled} (hs : Positive s) (hbatch : batch ≠ [])
    (h : Retried probe limit batch rest s.capability s.vars attempt next) :
    next.capability.observedBatchCapacity ≠ some 0 ∧ next.vars.probeSize ≠ some 0 := by
  have hpos := List.length_pos_iff.mpr hbatch
  rw [h.next_eq]
  refine ⟨hs.limit,fun hzero => ?_⟩
  have : (batch.length+1)/2 = 0 := Option.some.inj hzero
  omega

theorem Accepted.positive {limit : Option Nat} {batch rest : List Epc} {attempt : Attempt}
    {next : Handled} (hs : Positive s)
    (h : Accepted probe limit batch rest s.capability s.vars attempt next) :
    next.capability.observedBatchCapacity ≠ some 0 ∧ next.vars.probeSize ≠ some 0 := by
  obtain ⟨fixes,_,hcap,hprobe⟩ := h.limit_eq
  cases fixes
  · exact ⟨by simpa [hcap] using hs.limit,by simpa [hprobe] using hs.probeSize⟩
  · have hne := (List.length_pos_iff.mpr h.ne_nil).ne'
    exact ⟨by simpa [hcap] using fixBatchCapacity_ne_zero hs.limit hne,by simp [hprobe]⟩

theorem Positive.again (hs : Positive s)
    (h : getBatchesBody target probe device s = .again t) : Positive t := by
  obtain ⟨batch,rest,next,hne,hplan,hcase,rfl⟩ := getBatchesBody_again h
  rcases hcase with hcase | hcase
  · exact ⟨(hcase.positive hs (hplan.nonempty hne)).1,(hcase.positive hs (hplan.nonempty hne)).2⟩
  · exact ⟨(hcase.positive hs).1,(hcase.positive hs).2⟩

/-! ### Whole runs -/

/-- A run returns, gives up with `GetAbortedError`, or passes on what an await raised. -/
def GetRun.EndsWell (run : GetRun) : Prop :=
  run.outcome = .ok () ∨ (∃ text, run.outcome = .error (.getAbortedError text)) ∨
    ∃ x ∈ run.log, ∃ exn, x.attempt = .raised exn ∧ run.outcome = .error exn

/-- What a leaving turn makes of the turns spent before it. -/
theorem Spent.leave {n : Nat} {run : GetRun} (hs : Spent probe n s) (hpos : Positive s)
    (h : getBatchesBody target probe device s = .leave run) :
    run.EndsWell ∧ run.log.length ≤ n + s.log.countP Exchange.retried ∧
      run.log.countP Exchange.retried = s.log.countP Exchange.retried := by
  have hlen := hs.length_le
  obtain ⟨_,_,⟨_,hout,hlog⟩ | ⟨hzero,_⟩ | ⟨batch,rest,exn,hne,_,herr,hout,hlog⟩⟩ :=
    getBatchesBody_leave h
  · exact ⟨Or.inl hout,by rw [hlog]; omega,by rw [hlog]⟩
  · exact absurd hzero (batchSize_ne_zero hpos.limit hpos.probeSize)
  · have hqueue := List.length_pos_iff.mpr hne
    refine ⟨?_,by rw [hlog,List.length_append,List.length_singleton]; omega,by
      simp [hlog,List.countP_append]⟩
    rcases handleAttempt_error herr with hraised | ⟨⟨text,rfl⟩,_⟩
    · exact Or.inr (Or.inr ⟨_,by rw [hlog]; exact List.mem_append_right _ (List.mem_singleton.mpr rfl),
        exn,hraised,hout⟩)
    · exact Or.inr (Or.inl ⟨text,hout⟩)

theorem Spent.start (epcs : List Epc) (capability : GetCapability) (received : Received) :
    Spent probe (FirstMatch.fromkeys epcs).length (getBatchesStart epcs capability received) :=
  ⟨FirstMatch.nodup_fromkeys epcs,by simp [getBatchesStart],
    (Nat.zero_add _).trans_le (Nat.clog_mono_right 2 (GetState.bound_le _)),fun _ => rfl⟩

/-- Every run over `n` distinct EPCs ends well, whatever the device does. -/
theorem runGetBatches_spent (target : Target) (probe : Bool) (device : Device) (epcs : List Epc)
    (capability : GetCapability) (hlimit : capability.observedBatchCapacity ≠ some 0)
    (received : Received) :
    ∃ run retries, runGetBatches target probe device epcs capability received = some run ∧
      run.EndsWell ∧ run.log.length ≤ (FirstMatch.fromkeys epcs).length + retries ∧
      run.log.countP Exchange.retried = retries ∧
      retries ≤ Nat.clog 2 (FirstMatch.fromkeys epcs).length ∧ (probe = false → retries = 0) := by
  let n := (FirstMatch.fromkeys epcs).length
  obtain ⟨run,hrun,retries,hwell,hlen,hcount,hle,hplain⟩ := Loop.run_total
    (fun s : GetState => Spent probe n s ∧ Positive s)
    (fun run : GetRun => ∃ retries, run.EndsWell ∧ run.log.length ≤ n + retries ∧
      run.log.countP Exchange.retried = retries ∧ retries ≤ Nat.clog 2 n ∧
      (probe = false → retries = 0)) GetState.measure
    (fun s t hs h => ⟨⟨hs.1.again h,hs.2.again h⟩,measure_again hs.1.nodup h⟩)
    (fun s run hs h => by
      obtain ⟨hwell,hlen,hcount⟩ := hs.1.leave hs.2 h
      exact ⟨_,hwell,hlen,hcount,(Nat.le_add_right _ _).trans hs.1.halved,hs.1.plain⟩)
    ⟨Spent.start epcs capability received,hlimit,by simp [getBatchesStart]⟩
    (measure_start_lt epcs capability received)
  exact ⟨run,retries,hrun,hwell,hlen,hcount,hle,hplain⟩

/-- With probing a run over `n` distinct EPCs sends at most `n + ⌈log₂ n⌉` requests, of
which at most `⌈log₂ n⌉` are repeated; without probing it sends at most `n`. -/
theorem request_bound (target : Target) (device : Device) (epcs : List Epc) (hnodup : epcs.Nodup)
    (capability : GetCapability) (hlimit : capability.observedBatchCapacity ≠ some 0)
    (received : Received) :
    (∃ run, runGetBatches target true device epcs capability received = some run ∧ run.EndsWell ∧
      run.log.length ≤ epcs.length + Nat.clog 2 epcs.length ∧
      run.log.countP Exchange.retried ≤ Nat.clog 2 epcs.length) ∧
    ∃ run, runGetBatches target false device epcs capability received = some run ∧ run.EndsWell ∧
      run.log.length ≤ epcs.length := by
  have hprobed := runGetBatches_spent target true device epcs capability hlimit received
  have hplain := runGetBatches_spent target false device epcs capability hlimit received
  rw [FirstMatch.fromkeys_eq_self hnodup] at hprobed hplain
  obtain ⟨run,retries,hrun,hwell,hlen,hcount,hle,_⟩ := hprobed
  obtain ⟨run',retries',hrun',hwell',hlen',_,_,hzero⟩ := hplain
  exact ⟨⟨run,hrun,hwell,hlen.trans (Nat.add_le_add_left hle _),hcount ▸ hle⟩,
    run',hrun',hwell',by rw [hzero rfl] at hlen'; exact hlen'⟩

/-- Three EPCs requested from a device that never answers. -/
theorem request_bound_silent :
    let target : Target := ⟨"192.0.2.1",⟨0x029001,by decide⟩⟩
    (∃ run, runGetBatches target true (fun _ _ => .unanswered) [0x80,0xB0,0xB1] {} (fun _ => none) =
        some run ∧ run.EndsWell ∧ run.log.length ≤ 3 + Nat.clog 2 3 ∧
        run.log.countP Exchange.retried ≤ Nat.clog 2 3) ∧
      ∃ run, runGetBatches target false (fun _ _ => .unanswered) [0x80,0xB0,0xB1] {}
        (fun _ => none) = some run ∧ run.EndsWell ∧ run.log.length ≤ 3 :=
  request_bound _ _ _ (by decide) _ (by decide) _

end Pyhems.Get
