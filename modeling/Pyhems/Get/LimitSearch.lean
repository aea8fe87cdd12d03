import Pyhems.Get.Accounting
import Pyhems.Get.RequestBound

/-! The search for the response limit. Against a device that never loses an answer the loop
probes with halved batches until one fits, and the limit it fixes there is the
hidden limit of the device up to a factor of two. -/
namespace Pyhems.Get
open Protocol Library

variable {c : Nat} {value : Epc → Bytes} {device : Device} {target : Target} {s t : GetState}
  {epcs queue batch rest : List Epc} {attempt : Attempt} {next : Handled}

/-- A device with hidden limit `c`. Beyond the limit it chooses, request by request, between
no answer, an answer without values, and the values of the first `c` EPCs. -/
structure LossFree (c : Nat) (value : Epc → Bytes) (device : Device) : Prop where
  within : ∀ log batch, batch.length ≤ c → ∃ properties, device log batch = .answered properties ∧
    properties.Perm (batch.map fun epc => ⟨epc,value epc⟩)
  beyond : ∀ log batch, c < batch.length → device log batch = .unanswered ∨
    ∃ properties, device log batch = .answered properties ∧
      (properties.Perm (batch.map fun epc => ⟨epc,[]⟩) ∨
        properties.Perm ((batch.take c).map fun epc => ⟨epc,value epc⟩))

/-- The answer processed some of the requested EPCs, not all. -/
def Exchange.Partial (x : Exchange) : Prop :=
  matchResponse x.batch x.attempt ≠ [] ∧ (matchResponse x.batch x.attempt).length < x.batch.length

/-! ### What an answer of such a device matches -/

/-- The four answers, in terms of the matched properties. -/
inductive Reply (c : Nat) (value : Epc → Bytes) (batch : List Epc) (attempt : Attempt) : Prop where
  | values (hle : batch.length ≤ c)
      (hmatched : (matchResponse batch attempt).Perm (batch.map fun epc => ⟨epc,value epc⟩))
  | silent (hgt : c < batch.length) (hmatched : matchResponse batch attempt = [])
  | empty (hgt : c < batch.length)
      (hmatched : (matchResponse batch attempt).Perm (batch.map fun epc => ⟨epc,[]⟩))
  | firstOnly (hgt : c < batch.length)
      (hmatched : (matchResponse batch attempt).Perm ((batch.take c).map fun epc => ⟨epc,value epc⟩))

theorem matchResponse_perm {f : Epc → Bytes} {asked : List Epc} {properties : List Property}
    (hsub : asked ⊆ batch) (hnodup : asked.Nodup)
    (h : properties.Perm (asked.map fun epc => ⟨epc,f epc⟩)) :
    (matchResponse batch (.answered properties)).Perm (asked.map fun epc => ⟨epc,f epc⟩) := by
  have hkeys : (properties.map Property.epc).Perm asked := by
    refine (h.map Property.epc).trans (.of_eq ?_)
    simp [Function.comp_def]
  have hwhole : matchResponse batch (.answered properties) = properties :=
    FirstMatch.collect_eq_self (hkeys.nodup_iff.mpr hnodup)
      (fun _ hp => hsub (hkeys.subset (List.mem_map_of_mem hp)))
  rwa [hwhole]

theorem LossFree.reply (h : LossFree c value device) (hnodup : batch.Nodup) (log : List Exchange) :
    Reply c value batch (device log batch) ∧
      (∀ exn, device log batch ≠ .raised exn) ∧ device log batch ≠ .notSent := by
  by_cases hle : batch.length ≤ c
  · obtain ⟨properties,he,hperm⟩ := h.within log batch hle
    rw [he]
    exact ⟨.values hle (matchResponse_perm (fun _ h => h) hnodup hperm),nofun,nofun⟩
  · have hgt : c < batch.length := by omega
    rcases h.beyond log batch hgt with he | ⟨properties,he,hperm | hperm⟩
    · rw [he]
      exact ⟨.silent hgt rfl,nofun,nofun⟩
    · rw [he]
      exact ⟨.empty hgt (matchResponse_perm (fun _ h => h) hnodup hperm),nofun,nofun⟩
    · rw [he]
      exact ⟨.firstOnly hgt (matchResponse_perm (List.take_subset c batch)
        (hnodup.sublist (List.take_sublist c batch)) hperm),nofun,nofun⟩

/-- The answer carries the device's values, and at least one of them. -/
structure Carries (value : Epc → Bytes) (asked : List Epc) (matched : List Property) : Prop where
  length_eq : matched.length = asked.length
  edt_eq : ∀ prop ∈ matched, prop.edt = value prop.epc
  valued : ∃ prop ∈ matched, prop.edt ≠ []

theorem carries_of_perm {asked : List Epc} {matched : List Property}
    (h : matched.Perm (asked.map fun epc => ⟨epc,value epc⟩)) (hne : asked ≠ [])
    (hvalue : ∀ epc ∈ asked, value epc ≠ []) : Carries value asked matched := by
  refine ⟨by simpa using h.length_eq,fun prop hprop => ?_,?_⟩
  · obtain ⟨epc,_,rfl⟩ := List.mem_map.mp (h.subset hprop)
    rfl
  · obtain ⟨epc,hepc⟩ := List.exists_mem_of_ne_nil asked hne
    exact ⟨⟨epc,value epc⟩,h.symm.subset (List.mem_map_of_mem hepc),hvalue epc hepc⟩

theorem Carries.not_retried {asked : List Epc} {limit : Option Nat} {capability : GetCapability}
    {vars : Vars} (h : Carries value asked (matchResponse batch attempt)) :
    ¬ Retried true limit batch rest capability vars attempt next := by
  intro hretried
  obtain ⟨prop,hprop,hedt⟩ := h.valued
  rcases hretried.why with hnil | ⟨_,_,_,hall⟩
  · rw [hnil] at hprop
    cases hprop
  · exact hedt (hall prop hprop)

/-- An accepted answer without values would have been retried. -/
theorem Accepted.not_empty {capability : GetCapability} {vars : Vars}
    (h : Accepted true none batch rest capability vars attempt next) (hsize : 1 < batch.length)
    (hmatched : (matchResponse batch attempt).Perm (batch.map fun epc => ⟨epc,[]⟩)) : False := by
  have hlen : next.accepted.length = batch.length := by
    rw [h.accepted_eq,List.length_map]
    simpa using hmatched.length_eq
  obtain ⟨prop,hprop,hedt⟩ := h.valued rfl rfl hsize hlen
  obtain ⟨epc,_,rfl⟩ := List.mem_map.mp (hmatched.subset hprop)
  exact hedt rfl

/-! ### The phases of the search -/

theorem Planned.noPolicy {size : Nat} (h : Planned none (some size) queue batch rest) :
    batch = queue.take size ∧ rest = queue.drop size := by
  have hsplit := h.split_eq
  rw [show batchCapacity none (some size) = some size from rfl,splitBatch_noPolicy] at hsplit
  cases hsplit
  exact ⟨rfl,rfl⟩

theorem Planned.unlimited (h : Planned none none queue batch rest) : batch = queue ∧ rest = [] := by
  have hsplit := h.split_eq
  rw [show batchCapacity none none = none from rfl,splitBatch_unlimited] at hsplit
  cases hsplit
  exact ⟨rfl,rfl⟩

/-- Where a search over `epcs` stands. The first two phases are those of a list that fits
into one request. -/
inductive Phase (c : Nat) (epcs : List Epc) (s : GetState) : Prop where
  | fits (hle : epcs.length ≤ c) (hlimit : s.capability.observedBatchCapacity = none)
      (hprobe : s.vars.probeSize = none) (hqueue : s.vars.queue = epcs) (hlog : s.log = [])
  | fitted (hle : epcs.length ≤ c) (hqueue : s.vars.queue = []) (hlog : s.log.length = 1)
      (hlimit : s.capability.observedBatchCapacity =
        if 1 < epcs.length then some epcs.length else none)
  | searching (size : Nat) (hgt : c < epcs.length)
      (hlimit : s.capability.observedBatchCapacity = none)
      (hsize : s.vars.probeSize.getD epcs.length = size) (hqueue : s.vars.queue = epcs)
      (hlow : c+1 ≤ 2*size) (hhigh : size ≤ epcs.length) (hwhole : ∀ x ∈ s.log, ¬ x.Partial)
  | known (limit : Nat) (hgt : c < epcs.length)
      (hlimit : s.capability.observedBatchCapacity = some limit) (hprobe : s.vars.probeSize = none)
      (hlow : c+1 ≤ 2*limit) (hhigh : limit ≤ c) (hpart : (∃ x ∈ s.log, x.Partial) → limit = c)

/-- The batch of a turn in the searching phase. -/
theorem Planned.searching {size : Nat} {probeSize : Option Nat}
    (h : Planned none (batchSize none probeSize) epcs batch rest)
    (hsize : probeSize.getD epcs.length = size) : batch = epcs.take size ∧ rest = epcs.drop size := by
  cases probeSize with
  | none =>
    cases hsize
    obtain ⟨rfl,rfl⟩ := h.unlimited
    simp
  | some p =>
    cases hsize
    exact h.noPolicy

theorem fixBatchCapacity_of_none {capability : GetCapability} {capacity : Nat}
    (h : capability.observedBatchCapacity = none) :
    (fixBatchCapacity capability capacity).observedBatchCapacity = some capacity := by
  simp [fixBatchCapacity,h]

theorem Accepted.fixed {capability : GetCapability} {vars : Vars} {limit : Option Nat}
    (h : Accepted true limit batch rest capability vars attempt next)
    (hfixes : next.accepted.length < batch.length ∨ vars.probeSize ≠ none ∨
      limit = none ∧ 1 < batch.length) :
    next.capability = fixBatchCapacity capability next.accepted.length ∧
      next.vars.probeSize = none := by
  obtain ⟨fixes,hiff,hcapability,hprobe⟩ := h.limit_eq
  cases hiff.mpr ⟨rfl,hfixes⟩
  exact ⟨hcapability,hprobe⟩

theorem Accepted.unfixed {capability : GetCapability} {vars : Vars} {limit : Option Nat}
    (h : Accepted true limit batch rest capability vars attempt next)
    (hfixes : ¬ (next.accepted.length < batch.length ∨ vars.probeSize ≠ none ∨
      limit = none ∧ 1 < batch.length)) :
    next.capability = capability ∧ next.vars.probeSize = vars.probeSize := by
  obtain ⟨fixes,hiff,hcapability,hprobe⟩ := h.limit_eq
  cases fixes
  · exact ⟨hcapability,hprobe⟩
  · exact absurd (hiff.mp rfl).2 hfixes

/-- What was accepted from an answer is what the device holds. -/
theorem Accepted.property_eq {capability : GetCapability} {vars : Vars} {limit : Option Nat}
    {asked : List Epc} (h : Accepted true limit batch rest capability vars attempt next)
    (hcarries : Carries value asked (matchResponse batch attempt)) :
    ∀ epc ∈ next.accepted, attempt.property epc = some ⟨epc,value epc⟩ := by
  intro epc hepc
  rw [← find_matchResponse (h.subset hepc)]
  rw [h.accepted_eq] at hepc
  obtain ⟨prop,hfound⟩ := Option.isSome_iff_exists.mp (mem_accepted_iff.mp hepc)
  have hsame : prop.epc = epc := by simpa using List.find?_some hfound
  have hedt := hcarries.edt_eq prop (List.mem_of_find?_eq_some hfound)
  rw [hfound,← hsame,← hedt]

/-- What a turn of the search shows about its one exchange and the next phase. -/
def Advances (c : Nat) (value : Epc → Bytes) (epcs : List Epc) (log : List Exchange)
    (batch : List Epc) (attempt : Attempt) (next : Handled) : Prop :=
  Phase c epcs ⟨next.capability,next.vars,log ++ [⟨batch,attempt,next.accepted,next.retried⟩]⟩ ∧
    ∀ epc ∈ next.accepted, attempt.property epc = some ⟨epc,value epc⟩

theorem not_partial_of_length {x : Exchange}
    (h : (matchResponse x.batch x.attempt).length = x.batch.length) : ¬ x.Partial :=
  fun hx => absurd h (Nat.ne_of_lt hx.2)

theorem forall_mem_concat {log : List Exchange} {x : Exchange} (hlog : ∀ y ∈ log, ¬ y.Partial)
    (hx : ¬ x.Partial) : ∀ y ∈ log ++ [x], ¬ y.Partial := by
  intro y hy
  rcases List.mem_append.mp hy with hy | hy
  · exact hlog y hy
  · exact List.mem_singleton.mp hy ▸ hx

/-- A list that fits is accepted whole in one turn. -/
theorem fits_advances (hne : epcs ≠ []) (hvalue : ∀ epc ∈ epcs, value epc ≠ [])
    (hle : epcs.length ≤ c) (hlimit : s.capability.observedBatchCapacity = none)
    (hprobe : s.vars.probeSize = none) (hlog : s.log = [])
    (hplan : Planned none none epcs batch rest) (hreply : Reply c value batch attempt)
    (hcase : Retried true none batch rest s.capability s.vars attempt next ∨
      Accepted true none batch rest s.capability s.vars attempt next) :
    Advances c value epcs s.log batch attempt next := by
  obtain ⟨rfl,rfl⟩ := hplan.unlimited
  cases hreply with
  | silent hgt => omega
  | empty hgt => omega
  | firstOnly hgt => omega
  | values _ hmatched =>
    have hcarries := carries_of_perm hmatched hne hvalue
    rcases hcase with hcase | hcase
    · exact absurd hcase hcarries.not_retried
    have hlen : next.accepted.length = batch.length := by
      rw [hcase.accepted_eq,List.length_map,hcarries.length_eq]
    have hqueue : next.vars.queue = [] := by
      have hall := hcase.nodup.subperm hcase.subset |>.perm_of_length_le hlen.ge
      rw [hcase.queue_eq,List.append_nil,List.filter_eq_nil_iff]
      exact fun epc hepc hnot => of_decide_eq_true hnot (hall.symm.subset hepc)
    refine ⟨.fitted hle hqueue (by simp [hlog]) ?_,hcase.property_eq hcarries⟩
    by_cases hsize : 1 < batch.length
    · rw [if_pos hsize,(hcase.fixed (Or.inr (Or.inr ⟨rfl,hsize⟩))).1,
        fixBatchCapacity_of_none hlimit,hlen]
    · rw [if_neg hsize,(hcase.unfixed (by rw [hlen,hprobe]; simpa using hsize)).1,hlimit]

/-- While the limit is unknown a probe is halved, or its answer fixes the limit. -/
theorem searching_advances (hvalue : ∀ epc ∈ epcs, value epc ≠ []) (hc : 1 ≤ c) {size : Nat}
    (hgt : c < epcs.length) (hlimit : s.capability.observedBatchCapacity = none)
    (hsize : s.vars.probeSize.getD epcs.length = size) (hlow : c+1 ≤ 2*size)
    (hhigh : size ≤ epcs.length) (hwhole : ∀ x ∈ s.log, ¬ x.Partial)
    (hplan : Planned none (batchSize none s.vars.probeSize) epcs batch rest)
    (hreply : Reply c value batch attempt)
    (hcase : Retried true none batch rest s.capability s.vars attempt next ∨
      Accepted true none batch rest s.capability s.vars attempt next) :
    Advances c value epcs s.log batch attempt next := by
  obtain ⟨hbatch,hrest⟩ := hplan.searching hsize
  have hlen : batch.length = size := by rw [hbatch,List.length_take]; omega
  have hsub : batch ⊆ epcs := hbatch ▸ List.take_subset size epcs
  -- Halving leaves a probe of at least half the hidden limit.
  have hhalved : Retried true none batch rest s.capability s.vars attempt next → c < batch.length →
      ((matchResponse batch attempt) = [] ∨ (matchResponse batch attempt).length = batch.length) →
      Advances c value epcs s.log batch attempt next := by
    rintro ⟨_,_,rfl,_⟩ hbig hanswer
    refine ⟨.searching ((batch.length+1)/2) hgt hlimit rfl ?_ (by omega) (by omega)
      (forall_mem_concat hwhole ?_),by simp [retryInHalves]⟩
    · rw [retryInHalves,hbatch,hrest]
      exact List.take_append_drop size epcs
    · rcases hanswer with hnil | hfull
      · exact fun hx => hx.1 hnil
      · exact not_partial_of_length hfull
  cases hreply with
  | silent hbig hmatched =>
    rcases hcase with hcase | hcase
    · exact hhalved hcase hbig (Or.inl hmatched)
    · exact absurd hmatched hcase.matched
  | empty hbig hmatched =>
    rcases hcase with hcase | hcase
    · exact hhalved hcase hbig (Or.inr (by simpa using hmatched.length_eq))
    · exact (hcase.not_empty (by omega) hmatched).elim
  | values hle hmatched =>
    have hcarries := carries_of_perm hmatched (by rintro rfl; simp at hlen; omega)
      (fun epc hepc => hvalue epc (hsub hepc))
    rcases hcase with hcase | hcase
    · exact absurd hcase hcarries.not_retried
    have haccepted : next.accepted.length = size := by
      rw [hcase.accepted_eq,List.length_map,hcarries.length_eq,hlen]
    have hprobe : s.vars.probeSize ≠ none := by
      intro hnone
      rw [hnone] at hsize
      simp only [Option.getD_none] at hsize
      omega
    obtain ⟨hcapability,hnext⟩ := hcase.fixed (Or.inr (Or.inl hprobe))
    refine ⟨.known size hgt ?_ hnext hlow (by omega) ?_,hcase.property_eq hcarries⟩
    · rw [hcapability,fixBatchCapacity_of_none hlimit,haccepted]
    · rintro ⟨x,hx,hpart⟩
      exact absurd hpart (forall_mem_concat hwhole (not_partial_of_length hcarries.length_eq) x hx)
  | firstOnly hbig hmatched =>
    have htake : (batch.take c).length = c := by rw [List.length_take]; omega
    have hcarries := carries_of_perm hmatched (by intro hnil; rw [hnil] at htake; simp at htake; omega)
      (fun epc hepc => hvalue epc (hsub (List.take_subset c batch hepc)))
    rcases hcase with hcase | hcase
    · exact absurd hcase hcarries.not_retried
    have haccepted : next.accepted.length = c := by
      rw [hcase.accepted_eq,List.length_map,hcarries.length_eq,htake]
    obtain ⟨hcapability,hnext⟩ := hcase.fixed (Or.inl (haccepted ▸ hbig))
    refine ⟨.known c hgt ?_ hnext (by omega) le_rfl (fun _ => rfl),hcase.property_eq hcarries⟩
    rw [hcapability,fixBatchCapacity_of_none hlimit,haccepted]

/-- Once the limit is known every batch fits, and nothing changes the limit. -/
theorem known_advances (hqueue : s.vars.queue ≠ []) (hvalue : ∀ epc ∈ s.vars.queue, value epc ≠ [])
    {limit : Nat} (hgt : c < epcs.length)
    (hlimit : s.capability.observedBatchCapacity = some limit) (hprobe : s.vars.probeSize = none)
    (hlow : c+1 ≤ 2*limit) (hhigh : limit ≤ c) (hpart : (∃ x ∈ s.log, x.Partial) → limit = c)
    (hplan : Planned none (some limit) s.vars.queue batch rest) (hreply : Reply c value batch attempt)
    (hcase : Retried true (some limit) batch rest s.capability s.vars attempt next ∨
      Accepted true (some limit) batch rest s.capability s.vars attempt next) :
    Advances c value epcs s.log batch attempt next := by
  have hlen := hplan.limit_le limit rfl
  have hsub : batch ⊆ s.vars.queue := fun _ h => hplan.perm.subset (List.mem_append_left _ h)
  cases hreply with
  | silent hbig => omega
  | empty hbig => omega
  | firstOnly hbig => omega
  | values _ hmatched =>
    have hcarries := carries_of_perm hmatched (hplan.nonempty hqueue)
      (fun epc hepc => hvalue epc (hsub hepc))
    rcases hcase with hcase | hcase
    · exact absurd hcase hcarries.not_retried
    have haccepted : next.accepted.length = batch.length := by
      rw [hcase.accepted_eq,List.length_map,hcarries.length_eq]
    obtain ⟨hcapability,hnext⟩ := hcase.unfixed (by rw [haccepted,hprobe]; simp)
    refine ⟨.known limit hgt (hcapability ▸ hlimit) (hnext.trans hprobe) hlow hhigh ?_,
      hcase.property_eq hcarries⟩
    rintro ⟨x,hx,hxpart⟩
    rcases List.mem_append.mp hx with hx | hx
    · exact hpart ⟨x,hx,hxpart⟩
    · rw [List.mem_singleton.mp hx] at hxpart
      exact absurd hxpart (not_partial_of_length hcarries.length_eq)

/-! ### Whole searches -/

/-- The invariant of the loop head of a search. -/
structure Search (c : Nat) (value : Epc → Bytes) (classCode : Nat) (epcs : List Epc)
    (received : Received) (s : GetState) : Prop where
  accounted : Accounted epcs received s
  sizes : Positive s
  noPolicy : getGetBatchPolicy s.capability.manufacturerCode classCode = none
  phase : Phase c epcs s
  values : ∀ x ∈ s.log, ∀ epc ∈ x.accepted, x.attempt.property epc = some ⟨epc,value epc⟩

/-- The hypotheses on the device and the requested list that a search rests on. -/
structure Searchable (c : Nat) (value : Epc → Bytes) (device : Device) (epcs : List Epc) : Prop where
  lossFree : LossFree c value device
  positive : 1 ≤ c
  nodup : epcs.Nodup
  valued : ∀ epc ∈ epcs, value epc ≠ []

variable {received : Received}

theorem fixBatchCapacity_manufacturerCode (capability : GetCapability) (capacity : Nat) :
    (fixBatchCapacity capability capacity).manufacturerCode = capability.manufacturerCode := by
  unfold fixBatchCapacity
  split
  · rfl
  · split <;> rfl

theorem manufacturerCode_next {probe : Bool} {limit : Option Nat} {capability : GetCapability}
    {vars : Vars} (h : Retried probe limit batch rest capability vars attempt next ∨
      Accepted probe limit batch rest capability vars attempt next) :
    next.capability.manufacturerCode = capability.manufacturerCode := by
  rcases h with h | h
  · rw [h.next_eq]
    rfl
  · obtain ⟨fixes,_,hcapability,_⟩ := h.limit_eq
    rw [hcapability]
    split
    · exact fixBatchCapacity_manufacturerCode _ _
    · rfl

theorem Search.queue_subset {classCode : Nat} (hs : Search c value classCode epcs received s) :
    s.vars.queue ⊆ epcs := fun _ h =>
  FirstMatch.mem_fromkeys.mp (hs.accounted.perm.subset (List.mem_append_left _ h))

/-- One exchange of a search leads to the next phase. -/
theorem Search.advances (hd : Searchable c value device epcs)
    (hs : Search c value target.deoj.classCode epcs received s) (hne : s.vars.queue ≠ [])
    (hplan : Planned none (batchSize s.capability.observedBatchCapacity s.vars.probeSize)
      s.vars.queue batch rest) (hreply : Reply c value batch attempt)
    (hcase : Retried true s.capability.observedBatchCapacity batch rest s.capability s.vars
        attempt next ∨
      Accepted true s.capability.observedBatchCapacity batch rest s.capability s.vars attempt next) :
    Advances c value epcs s.log batch attempt next := by
  cases hs.phase with
  | fits hle hlimit hprobe hqueue hlog =>
    rw [hlimit,hprobe,hqueue] at hplan
    rw [hlimit] at hcase
    exact fits_advances (hqueue ▸ hne) hd.valued hle hlimit hprobe hlog hplan hreply hcase
  | fitted _ hqueue => exact absurd hqueue hne
  | searching size hgt hlimit hsize hqueue hlow hhigh hwhole =>
    rw [hlimit,hqueue] at hplan
    rw [hlimit] at hcase
    exact searching_advances hd.valued hd.positive hgt hlimit hsize hlow hhigh hwhole hplan hreply
      hcase
  | known limit hgt hlimit hprobe hlow hhigh hpart =>
    rw [hlimit,hprobe] at hplan
    rw [hlimit] at hcase
    exact known_advances hne (fun epc hepc => hd.valued epc (hs.queue_subset hepc)) hgt hlimit
      hprobe hlow hhigh hpart hplan hreply hcase

theorem Search.again (hd : Searchable c value device epcs)
    (hs : Search c value target.deoj.classCode epcs received s)
    (h : getBatchesBody target true device s = .again t) :
    Search c value target.deoj.classCode epcs received t := by
  have haccounted := hs.accounted.again h
  have hsizes := hs.sizes.again h
  obtain ⟨batch,rest,next,hne,hplan,hcase,rfl⟩ := getBatchesBody_again h
  rw [hs.noPolicy] at hplan
  have hbatch := hplan.perm.nodup_iff.mpr (List.nodup_append.mp hs.accounted.nodup).1
  obtain ⟨hphase,hvalues⟩ := hs.advances hd hne hplan
    (hd.lossFree.reply (List.nodup_append.mp hbatch).1 s.log).1 hcase
  refine ⟨haccounted,hsizes,by rw [manufacturerCode_next hcase]; exact hs.noPolicy,hphase,?_⟩
  intro x hx
  rcases List.mem_append.mp hx with hx | hx
  · exact hs.values x hx
  · rw [List.mem_singleton.mp hx]
    exact hvalues

/-- A search leaves the loop only with an empty queue. -/
theorem Search.leave (hd : Searchable c value device epcs)
    (hs : Search c value target.deoj.classCode epcs received s) {run : GetRun}
    (h : getBatchesBody target true device s = .leave run) :
    s.vars.queue = [] ∧ run.outcome = .ok () ∧ run.capability = s.capability ∧ run.log = s.log := by
  have hc := hd.positive
  obtain ⟨hcapability,_,⟨hnil,hout,hlog⟩ | ⟨hzero,_⟩ | ⟨batch,rest,exn,hne,hplan,herr,_⟩⟩ :=
    getBatchesBody_leave h
  · exact ⟨hnil,hout,hcapability,hlog⟩
  · exact absurd hzero (batchSize_ne_zero hs.sizes.limit hs.sizes.probeSize)
  · have hbatch := hplan.perm.nodup_iff.mpr (List.nodup_append.mp hs.accounted.nodup).1
    obtain ⟨hreply,hraised,hsent⟩ := hd.lossFree.reply (List.nodup_append.mp hbatch).1 s.log
    rcases handleAttempt_error herr with hraise | ⟨_,hnot | ⟨hnil,hplain | hone⟩⟩
    · exact absurd hraise (hraised exn)
    · exact absurd hnot hsent
    · cases hplain
    · -- A batch of one EPC is within the limit, so it was answered.
      cases hreply with
      | values _ hmatched =>
        have hlen := hmatched.length_eq
        rw [hnil,List.length_map] at hlen
        simp [hone] at hlen
      | silent hgt => omega
      | empty hgt => omega
      | firstOnly hgt => omega

theorem Search.start {capability : GetCapability} {classCode : Nat} (hd : Searchable c value device epcs)
    (hpolicy : getGetBatchPolicy capability.manufacturerCode classCode = none)
    (hlimit : capability.observedBatchCapacity = none) :
    Search c value classCode epcs received (getBatchesStart epcs capability received) := by
  have hqueue : (getBatchesStart epcs capability received).vars.queue = epcs :=
    FirstMatch.fromkeys_eq_self hd.nodup
  refine ⟨.start capability,⟨by simp [getBatchesStart,hlimit],by simp [getBatchesStart]⟩,hpolicy,?_,
    by simp [getBatchesStart]⟩
  by_cases hle : epcs.length ≤ c
  · exact .fits hle hlimit rfl hqueue rfl
  · exact .searching epcs.length (by omega) hlimit rfl hqueue (by omega) le_rfl
      (by simp [getBatchesStart])

/-- Against a loss-free device with hidden limit `c` a probing run ends normally, stores every
value, and leaves a limit that is `c` up to a factor of two, and `c` itself once an
answer was partial. A list that fits into one request is read by that request. -/
theorem limit_search (target : Target) (epcs : List Epc) (hnodup : epcs.Nodup)
    (capability : GetCapability)
    (hpolicy : getGetBatchPolicy capability.manufacturerCode target.deoj.classCode = none)
    (hlimit : capability.observedBatchCapacity = none) (received : Received) (c : Nat) (hc : 1 ≤ c)
    (value : Epc → Bytes) (hvalue : ∀ epc ∈ epcs, value epc ≠ []) (device : Device)
    (hdevice : LossFree c value device) :
    ∃ run, runGetBatches target true device epcs capability received = some run ∧
      run.outcome = .ok () ∧ (∀ epc ∈ epcs, run.received epc = some ⟨epc,value epc⟩) ∧
      (c < epcs.length → ∃ limit, run.capability.observedBatchCapacity = some limit ∧
        limit ≤ c ∧ c+1 ≤ 2*limit ∧ ((∃ x ∈ run.log, x.Partial) → limit = c)) ∧
      (1 < epcs.length → epcs.length ≤ c →
        run.capability.observedBatchCapacity = some epcs.length ∧ run.log.length = 1) ∧
      (epcs.length = 1 → run.capability.observedBatchCapacity = none) := by
  have hd : Searchable c value device epcs := ⟨hdevice,hc,hnodup,hvalue⟩
  obtain ⟨run,hrun⟩ := runGetBatches_total target true device epcs capability received
  have hsettled := runGetBatches_settled hrun
  obtain ⟨s,hheads,hleave⟩ := Loop.heads_of_run hrun
  have hs : Search c value target.deoj.classCode epcs received s :=
    hheads.invariant (fun _ _ hs ht => hs.again hd ht) (.start hd hpolicy hlimit)
  obtain ⟨hnil,hout,hcapability,hlog⟩ := hs.leave hd hleave
  refine ⟨run,hrun,hout,fun epc hepc => ?_,?_⟩
  · obtain ⟨x,hx,haccepted⟩ := List.mem_flatMap.mp (hsettled.complete hout hepc)
    have hfound : (run.log.find? fun x => decide (epc ∈ x.accepted)).isSome := by
      rw [List.find?_isSome]
      exact ⟨x,hx,by simpa using haccepted⟩
    obtain ⟨y,hy⟩ := Option.isSome_iff_exists.mp hfound
    have hyaccepted : epc ∈ y.accepted := by simpa using List.find?_some hy
    have hyvalue := hs.values y (hlog ▸ List.mem_of_find?_eq_some hy) epc hyaccepted
    rw [hsettled.received epc,acceptedProperty,hy,Option.bind_some,hyvalue,keep,
      if_neg (hvalue epc hepc)]
  · rw [hcapability,hlog]
    cases hs.phase with
    | fits hle hlimit _ hqueue =>
      have hempty : epcs = [] := hqueue ▸ hnil
      subst hempty
      simp
    | fitted hle _ hlength hlimit =>
      refine ⟨fun hgt => by omega,fun hsize _ => ⟨by rw [hlimit,if_pos hsize],hlength⟩,fun hone => ?_⟩
      rw [hlimit,if_neg (by omega)]
    | searching size hgt _ _ hqueue =>
      have hempty : epcs = [] := hqueue ▸ hnil
      simp [hempty] at hgt
    | known limit hgt hlimit _ hlow hhigh hpart =>
      exact ⟨fun _ => ⟨limit,hlimit,hhigh,hlow,hpart⟩,fun _ hle => by omega,fun hone => by omega⟩

/-- A device that processes two EPCs per request. It is silent on its first request if that
asks for more, and answers partially after that. -/
def twoAtATime : Device := fun log batch =>
  if batch.length ≤ 2 then .answered (batch.map fun epc => ⟨epc,[0x30]⟩)
  else if log = [] then .unanswered
  else .answered ((batch.take 2).map fun epc => ⟨epc,[0x30]⟩)

theorem lossFree_twoAtATime : LossFree 2 (fun _ => [0x30]) twoAtATime := by
  refine ⟨fun log batch hle => ⟨_,by rw [twoAtATime,if_pos hle],.refl _⟩,fun log batch hgt => ?_⟩
  rw [twoAtATime,if_neg (by omega)]
  split
  · exact Or.inl rfl
  · exact Or.inr ⟨_,rfl,Or.inr (.refl _)⟩

/-- Five EPCs against that device. -/
theorem limit_search_twoAtATime :
    ∃ run, runGetBatches ⟨"192.0.2.1",⟨0x028801,by decide⟩⟩ true twoAtATime
        [0x80,0xB0,0xB1,0xB2,0xB3] {} (fun _ => none) = some run ∧ run.outcome = .ok () ∧
      run.received 0xB3 = some ⟨0xB3,[0x30]⟩ ∧
      ∃ limit, run.capability.observedBatchCapacity = some limit ∧ limit ≤ 2 ∧ 3 ≤ 2*limit ∧
        ((∃ x ∈ run.log, x.Partial) → limit = 2) := by
  obtain ⟨run,hrun,hout,hvalues,hlimit,_⟩ := limit_search ⟨"192.0.2.1",⟨0x028801,by decide⟩⟩
    [0x80,0xB0,0xB1,0xB2,0xB3] (by decide) {} rfl rfl (fun _ => none) 2 (by decide)
    (fun _ => [0x30]) (by simp) twoAtATime lossFree_twoAtATime
  exact ⟨run,hrun,hout,hvalues 0xB3 (by decide),hlimit (by decide)⟩

end Pyhems.Get
