import Pyhems.Device.NodeState
import Pyhems.Library.RefCount
import Pyhems.Library.Transition

/-! Subscriptions to the EPCs of a device: each caller gets a function that ends its subscription,
and the manager counts for each EPC of a device how many subscriptions want it. What is polled is
what at least one active subscription wants. Device keys are only compared. -/
namespace Pyhems.Device
open Library Library.RefCount
open Get (Epc)

variable {κ : Type} [DecidableEq κ]

/-- An unsubscribe function with the variables that it closes over. -/
structure Unsubscribe (κ : Type) where
  deviceKey : κ
  epcs : Finset Epc
  unsubscribed : Bool := false

/-- `_subscribed_epcs` and `_subscription_confirmed`, with the unsubscribe functions in the order in
which they were returned. -/
structure Subscriptions (κ : Type) where
  subscribedEpcs : κ → Option (Counter Epc) := fun _ => none
  subscriptionConfirmed : Finset κ := ∅
  functions : List (Unsubscribe κ) := []

namespace Subscriptions

def subscribeEpcs (s : Subscriptions κ) (deviceKey : κ) (epcs : Finset Epc) : Subscriptions κ :=
  let counts := (s.subscribedEpcs deviceKey).getD Counter.empty
  ⟨Function.update s.subscribedEpcs deviceKey (some (counts.update epcs)),
    insert deviceKey s.subscriptionConfirmed,s.functions ++ [⟨deviceKey,epcs,false⟩]⟩

/-- `unsub`, for the function at an index. -/
def unsub (s : Subscriptions κ) (i : Nat) (f : Unsubscribe κ) : Subscriptions κ :=
  if f.unsubscribed then s
  else
    let functions := s.functions.set i {f with unsubscribed := true}
    match s.subscribedEpcs f.deviceKey with
    | none => {s with functions := functions}
    | some counts =>
      ⟨Function.update s.subscribedEpcs f.deviceKey (some ((counts.subtract f.epcs).prune f.epcs)),
        s.subscriptionConfirmed,functions⟩

def effectiveEpcs (s : Subscriptions κ) (deviceKey : κ) (candidateEpcs : Finset Epc) : Finset Epc :=
  if deviceKey ∉ s.subscriptionConfirmed then candidateEpcs
  else
    let subscribed := (s.subscribedEpcs deviceKey).getD Counter.empty
    candidateEpcs.filter fun epc => (subscribed epc).isSome

def effectivePollEpcs (s : Subscriptions κ) (data : κ → Option NodeState) (deviceKey : κ) : Finset Epc :=
  match data deviceKey with
  | none => ∅
  | some node => s.effectiveEpcs deviceKey node.pollEpcs

def effectiveFastPollEpcs (s : Subscriptions κ) (data : κ → Option NodeState) (deviceKey : κ) :
    Finset Epc :=
  match data deviceKey with
  | none => ∅
  | some node => s.effectiveEpcs deviceKey node.fastPollEpcs

end Subscriptions

/-! ### Calls -/

/-- A call of `subscribe_epcs`, or of the unsubscribe function that was returned at an index. -/
inductive SubscriptionCall (κ : Type) where
  | subscribe (deviceKey : κ) (epcs : Finset Epc)
  | unsubscribe (i : Nat)
  deriving DecidableEq

/-- Only a function that was returned can be called. -/
def Subscriptions.step (s : Subscriptions κ) : SubscriptionCall κ → Option (Subscriptions κ)
  | .subscribe deviceKey epcs => some (s.subscribeEpcs deviceKey epcs)
  | .unsubscribe i => s.functions[i]?.map (s.unsub i)

def SubscriptionCall.subscription : SubscriptionCall κ → Option (κ × Finset Epc)
  | .subscribe deviceKey epcs => some (deviceKey,epcs)
  | .unsubscribe _ => none

def subscriptionsOf (calls : List (SubscriptionCall κ)) : List (κ × Finset Epc) :=
  calls.filterMap SubscriptionCall.subscription

/-- `subscribe_epcs` was called for the key. -/
def Subscribed (calls : List (SubscriptionCall κ)) (deviceKey : κ) : Prop :=
  ∃ epcs, SubscriptionCall.subscribe deviceKey epcs ∈ calls

/-- A subscription of the key that contains the EPC and whose function was never called. -/
def Wanted (calls : List (SubscriptionCall κ)) (deviceKey : κ) (epc : Epc) : Prop :=
  ∃ i epcs, (subscriptionsOf calls)[i]? = some (deviceKey,epcs) ∧
    SubscriptionCall.unsubscribe i ∉ calls ∧ epc ∈ epcs

def SubscriptionCall.keyIn (calls : List (SubscriptionCall κ)) : SubscriptionCall κ → Option κ
  | .subscribe deviceKey _ => some deviceKey
  | .unsubscribe i => (subscriptionsOf calls)[i]?.map Prod.fst

/-! ### Counters and subscriptions -/

/-- The function ends an active subscription of the key to the EPC. -/
def Unsubscribe.Holds (f : Unsubscribe κ) (deviceKey : κ) (epc : Epc) : Prop :=
  f.deviceKey = deviceKey ∧ f.unsubscribed = false ∧ epc ∈ f.epcs

instance (f : Unsubscribe κ) (deviceKey : κ) (epc : Epc) : Decidable (f.Holds deviceKey epc) :=
  inferInstanceAs (Decidable (_ ∧ _ ∧ _))

namespace Subscriptions

/-- The number of active subscriptions of the key to the EPC. -/
def holders (s : Subscriptions κ) (deviceKey : κ) (epc : Epc) : Nat :=
  s.functions.countP fun f => decide (f.Holds deviceKey epc)

/-- The counters count the active subscriptions, and the counter of a subscription is never dropped. -/
structure Consistent (s : Subscriptions κ) : Prop where
  counted : ∀ deviceKey, Counts ((s.subscribedEpcs deviceKey).getD Counter.empty) (s.holders deviceKey)
  known : ∀ f ∈ s.functions, (s.subscribedEpcs f.deviceKey).isSome = true

variable {s t : Subscriptions κ}

theorem consistent_start : Consistent ({} : Subscriptions κ) :=
  ⟨fun _ => counts_empty,fun _ hf => absurd hf List.not_mem_nil⟩

theorem holders_subscribeEpcs (s : Subscriptions κ) (deviceKey : κ) (epcs : Finset Epc) (key : κ)
    (epc : Epc) : (s.subscribeEpcs deviceKey epcs).holders key epc =
      s.holders key epc+if deviceKey = key ∧ epc ∈ epcs then 1 else 0 := by
  simp [holders,subscribeEpcs,Unsubscribe.Holds,List.countP_append,List.countP_cons]

theorem Consistent.subscribeEpcs (h : s.Consistent) (deviceKey : κ) (epcs : Finset Epc) :
    (s.subscribeEpcs deviceKey epcs).Consistent where
  counted key := by
    by_cases hkey : deviceKey = key
    · subst hkey
      have hholders : (s.subscribeEpcs deviceKey epcs).holders deviceKey = fun epc =>
          s.holders deviceKey epc+if epc ∈ epcs then 1 else 0 := by
        funext epc
        simp [holders_subscribeEpcs]
      rw [hholders]
      simpa [Subscriptions.subscribeEpcs] using (h.counted deviceKey).update epcs
    · have hholders : (s.subscribeEpcs deviceKey epcs).holders key = s.holders key := by
        funext epc
        simp [holders_subscribeEpcs,hkey]
      rw [hholders]
      simpa [Subscriptions.subscribeEpcs,Function.update_of_ne (Ne.symm hkey)] using h.counted key
  known f hf := by
    by_cases hkey : f.deviceKey = deviceKey
    · simp [Subscriptions.subscribeEpcs,hkey]
    · obtain hf | hf := List.mem_append.mp hf
      · simpa [Subscriptions.subscribeEpcs,Function.update_of_ne hkey] using h.known f hf
      · exact absurd (congrArg Unsubscribe.deviceKey (List.mem_singleton.mp hf)) hkey

/-- Ending a subscription takes one holder from each of its EPCs. -/
theorem holders_end {i : Nat} {f : Unsubscribe κ} (hf : s.functions[i]? = some f)
    (hactive : f.unsubscribed = false) (key : κ) (epc : Epc) :
    (s.functions.set i {f with unsubscribed := true}).countP (fun f => decide (f.Holds key epc)) =
      s.holders key epc-if f.deviceKey = key ∧ epc ∈ f.epcs then 1 else 0 := by
  obtain ⟨hi,rfl⟩ := List.getElem?_eq_some_iff.mp hf
  rw [List.countP_set hi]
  simp [Unsubscribe.Holds,holders,hactive]

theorem holders_pos {f : Unsubscribe κ} (hf : f ∈ s.functions) (hactive : f.unsubscribed = false)
    {epc : Epc} (hepc : epc ∈ f.epcs) : 0 < s.holders f.deviceKey epc :=
  List.countP_pos_iff.mpr ⟨f,hf,decide_eq_true ⟨rfl,hactive,hepc⟩⟩

theorem Consistent.unsub (h : s.Consistent) {i : Nat} {f : Unsubscribe κ}
    (hf : s.functions[i]? = some f) : (s.unsub i f).Consistent := by
  have hmem := List.mem_of_getElem? hf
  obtain ⟨counts,hcounts⟩ := Option.isSome_iff_exists.mp (h.known f hmem)
  unfold Subscriptions.unsub
  by_cases hactive : f.unsubscribed = true
  · rwa [if_pos hactive]
  rw [if_neg hactive]
  simp only [hcounts]
  rw [Bool.not_eq_true] at hactive
  refine ⟨fun key => ?_,fun g hg => ?_⟩
  · by_cases hkey : f.deviceKey = key
    · subst hkey
      have hcounted := h.counted f.deviceKey
      rw [hcounts] at hcounted
      intro epc
      rw [holders,holders_end hf hactive]
      simpa using hcounted.release (fun epc => holders_pos hmem hactive) epc
    · intro epc
      rw [holders,holders_end hf hactive]
      simpa [hkey,Function.update_of_ne (Ne.symm hkey)] using h.counted key epc
  · by_cases hkey : g.deviceKey = f.deviceKey
    · simp [hkey]
    · obtain hg | rfl := List.mem_or_eq_of_mem_set hg
      · simpa [Function.update_of_ne hkey] using h.known g hg
      · exact absurd rfl hkey

theorem Consistent.step (h : s.Consistent) {call : SubscriptionCall κ} (hstep : s.step call = some t) :
    t.Consistent := by
  cases call with
  | subscribe deviceKey epcs =>
    cases hstep
    exact h.subscribeEpcs deviceKey epcs
  | unsubscribe i =>
    obtain ⟨f,hf,rfl⟩ := Option.map_eq_some_iff.mp hstep
    exact h.unsub hf

/-! ### Histories -/

/-- The function that a subscription of the history is ended by, at its index. -/
def functionOf (calls : List (SubscriptionCall κ)) (i : Nat) (subscription : κ × Finset Epc) :
    Unsubscribe κ :=
  ⟨subscription.1,subscription.2,decide (SubscriptionCall.unsubscribe i ∈ calls)⟩

/-- What the manager knows of a history: which keys were subscribed to, and for each subscription
whether its function was called. -/
structure Records (s : Subscriptions κ) (calls : List (SubscriptionCall κ)) : Prop where
  confirmed : ∀ key, key ∈ s.subscriptionConfirmed ↔ Subscribed calls key
  functions : s.functions = (subscriptionsOf calls).mapIdx (functionOf calls)
  returned : ∀ i, SubscriptionCall.unsubscribe i ∈ calls → i < (subscriptionsOf calls).length

theorem records_start : Records ({} : Subscriptions κ) [] where
  confirmed key := by simp [Subscribed]
  functions := rfl
  returned i hi := absurd hi List.not_mem_nil

variable {calls : List (SubscriptionCall κ)}

theorem Records.subscribeEpcs (h : s.Records calls) (deviceKey : κ) (epcs : Finset Epc) :
    (s.subscribeEpcs deviceKey epcs).Records (calls ++ [.subscribe deviceKey epcs]) := by
  have hsubscriptions : subscriptionsOf (calls ++ [.subscribe deviceKey epcs]) =
      subscriptionsOf calls ++ [(deviceKey,epcs)] := by
    simp [subscriptionsOf,SubscriptionCall.subscription]
  have hended (i : Nat) : SubscriptionCall.unsubscribe i ∈ calls ++ [.subscribe deviceKey epcs] ↔
      SubscriptionCall.unsubscribe i ∈ calls := by simp
  refine ⟨fun key => ?_,?_,fun i hi => ?_⟩
  · have hmem : key ∈ (s.subscribeEpcs deviceKey epcs).subscriptionConfirmed ↔
        key = deviceKey ∨ Subscribed calls key := by
      simp [Subscriptions.subscribeEpcs,h.confirmed key]
    rw [hmem]
    simp [Subscribed,exists_or,or_comm]
  · have hnew : SubscriptionCall.unsubscribe (subscriptionsOf calls).length ∉ calls :=
      fun hcalled => absurd (h.returned _ hcalled) (Nat.lt_irrefl _)
    have hfunctions : functionOf (calls ++ [.subscribe deviceKey epcs]) = functionOf calls := by
      funext i subscription
      simp [functionOf]
    rw [hsubscriptions,hfunctions,List.mapIdx_concat,← h.functions]
    simp [Subscriptions.subscribeEpcs,functionOf,hnew]
  · rw [hsubscriptions,List.length_append]
    exact Nat.lt_add_right _ (h.returned i ((hended i).mp hi))

/-- A second call of a function finds its flag set. -/
theorem unsub_functions {i : Nat} {f : Unsubscribe κ} (hf : s.functions[i]? = some f) :
    (s.unsub i f).functions = s.functions.set i {f with unsubscribed := true} := by
  unfold Subscriptions.unsub
  split
  · next hcalled =>
    obtain ⟨hi,rfl⟩ := List.getElem?_eq_some_iff.mp hf
    rw [← hcalled]
    exact (List.set_getElem_self hi).symm
  · dsimp only
    split <;> rfl

theorem unsub_subscriptionConfirmed (s : Subscriptions κ) (i : Nat) (f : Unsubscribe κ) :
    (s.unsub i f).subscriptionConfirmed = s.subscriptionConfirmed := by
  unfold Subscriptions.unsub
  split
  · rfl
  · dsimp only
    split <;> rfl

theorem Records.unsub (h : s.Records calls) {i : Nat} {f : Unsubscribe κ}
    (hf : s.functions[i]? = some f) : (s.unsub i f).Records (calls ++ [.unsubscribe i]) := by
  have hsubscriptions : subscriptionsOf (calls ++ [.unsubscribe i]) = subscriptionsOf calls := by
    simp [subscriptionsOf,SubscriptionCall.subscription]
  have hlength : s.functions.length = (subscriptionsOf calls).length := by simp [h.functions]
  obtain ⟨hi,hfi⟩ := List.getElem?_eq_some_iff.mp hf
  refine ⟨fun key => ?_,?_,fun j hj => ?_⟩
  · rw [unsub_subscriptionConfirmed,h.confirmed key]
    simp [Subscribed]
  · rw [unsub_functions hf,hsubscriptions]
    refine List.ext_getElem? fun j => ?_
    have hold : s.functions[j]? = (subscriptionsOf calls)[j]?.map (functionOf calls j) := by
      rw [h.functions,List.getElem?_mapIdx]
    rw [List.getElem?_mapIdx]
    by_cases hj : i = j
    · subst hj
      rw [List.getElem?_set_self hi]
      obtain ⟨subscription,hsubscription,hf'⟩ := Option.map_eq_some_iff.mp (hold.symm.trans hf)
      subst hf'
      simp [hsubscription,functionOf]
    · have hfunction : functionOf (calls ++ [.unsubscribe i]) j = functionOf calls j := by
        funext subscription
        simp [functionOf,Ne.symm hj]
      rw [List.getElem?_set_ne hj,hold,hfunction]
  · rw [hsubscriptions]
    obtain hj | hj := List.mem_append.mp hj
    · exact h.returned j hj
    · cases List.mem_singleton.mp hj
      exact hlength ▸ hi

/-- A run of calls from the start is counted and recorded. -/
theorem exec_records {calls : List (SubscriptionCall κ)}
    (h : Transition.exec Subscriptions.step {} calls = some s) : s.Consistent ∧ s.Records calls := by
  induction calls using List.reverseRecOn generalizing s with
  | nil =>
    cases h
    exact ⟨consistent_start,records_start⟩
  | append_singleton calls call ih =>
    rw [Transition.exec,List.foldlM_append] at h
    obtain ⟨u,hu,hlast⟩ := Option.bind_eq_some_iff.mp h
    obtain ⟨hconsistent,hrecords⟩ := ih hu
    have hstep : u.step call = some s := by simpa using hlast
    refine ⟨hconsistent.step hstep,?_⟩
    cases call with
    | subscribe deviceKey epcs =>
      cases hstep
      exact hrecords.subscribeEpcs deviceKey epcs
    | unsubscribe i =>
      obtain ⟨f,hf,rfl⟩ := Option.map_eq_some_iff.mp hstep
      exact hrecords.unsub hf

/-! ### What is polled -/

theorem Records.holders_pos_iff (h : s.Records calls) (key : κ) (epc : Epc) :
    0 < s.holders key epc ↔ Wanted calls key epc := by
  rw [holders,List.countP_pos_iff,h.functions]
  constructor
  · rintro ⟨f,hf,hholds⟩
    obtain ⟨i,hi,rfl⟩ := List.mem_mapIdx.mp hf
    obtain ⟨hkey,hactive,hepc⟩ := of_decide_eq_true hholds
    refine ⟨i,(subscriptionsOf calls)[i].2,?_,of_decide_eq_false hactive,hepc⟩
    rw [List.getElem?_eq_getElem hi,← hkey]
    rfl
  · rintro ⟨i,epcs,hi,hactive,hepc⟩
    obtain ⟨hlt,hi⟩ := List.getElem?_eq_some_iff.mp hi
    refine ⟨functionOf calls i (key,epcs),List.mem_mapIdx.mpr ⟨i,hlt,by rw [hi]⟩,?_⟩
    exact decide_eq_true ⟨rfl,decide_eq_false hactive,hepc⟩

/-- What is left of the candidates of a key after a history: all of them if `subscribe_epcs` was
never called for it, else those that an active subscription wants. -/
def Narrows (calls : List (SubscriptionCall κ)) (key : κ) (candidates effective : Finset Epc) : Prop :=
  (¬ Subscribed calls key → effective = candidates) ∧
    (Subscribed calls key → ∀ epc, epc ∈ effective ↔ epc ∈ candidates ∧ Wanted calls key epc)

theorem effectiveEpcs_narrows (hconsistent : s.Consistent) (hrecords : s.Records calls) (key : κ)
    (candidates : Finset Epc) : Narrows calls key candidates (s.effectiveEpcs key candidates) := by
  have hconfirmed := hrecords.confirmed key
  unfold effectiveEpcs
  refine ⟨fun hnever => if_pos (mt hconfirmed.mp hnever),fun hsubscribed epc => ?_⟩
  rw [if_neg (not_not.mpr (hconfirmed.mpr hsubscribed)),Finset.mem_filter,(hconsistent.counted key).isSome_iff,
    hrecords.holders_pos_iff]

theorem unsub_subscribedEpcs_of_ne {i : Nat} {f : Unsubscribe κ} {key : κ} (hkey : key ≠ f.deviceKey) :
    (s.unsub i f).subscribedEpcs key = s.subscribedEpcs key := by
  unfold Subscriptions.unsub
  split
  · rfl
  · dsimp only
    split
    · rfl
    · exact Function.update_of_ne hkey _ _

theorem effectiveEpcs_of_ne {call : SubscriptionCall κ} (hrecords : s.Records calls)
    (hstep : s.step call = some t) {key : κ} (hkey : call.keyIn calls ≠ some key)
    (candidates : Finset Epc) : t.effectiveEpcs key candidates = s.effectiveEpcs key candidates := by
  cases call with
  | subscribe deviceKey epcs =>
    cases hstep
    have hne : key ≠ deviceKey := fun heq => hkey (congrArg some heq.symm)
    simp [effectiveEpcs,Subscriptions.subscribeEpcs,hne]
  | unsubscribe i =>
    obtain ⟨f,hf,rfl⟩ := Option.map_eq_some_iff.mp hstep
    rw [hrecords.functions,List.getElem?_mapIdx] at hf
    obtain ⟨subscription,hsubscription,rfl⟩ := Option.map_eq_some_iff.mp hf
    have hne : key ≠ (functionOf calls i subscription).deviceKey := fun heq =>
      hkey (by rw [SubscriptionCall.keyIn,hsubscription,heq]; rfl)
    rw [effectiveEpcs,effectiveEpcs,unsub_subscriptionConfirmed,unsub_subscribedEpcs_of_ne hne]

/-- Subscriptions are counted exactly: a registered device is polled for the candidates that an
active subscription wants, or for all of them if nobody ever subscribed, and a call for one key
changes nothing for another. -/
theorem effectivePollEpcs_counted (data : κ → Option NodeState)
    (h : Transition.exec Subscriptions.step {} calls = some s) :
    (∀ key node, data key = some node →
      Narrows calls key node.pollEpcs (s.effectivePollEpcs data key) ∧
      Narrows calls key node.fastPollEpcs (s.effectiveFastPollEpcs data key)) ∧
    ∀ call t, s.step call = some t → ∀ key, call.keyIn calls ≠ some key →
      t.effectivePollEpcs data key = s.effectivePollEpcs data key ∧
      t.effectiveFastPollEpcs data key = s.effectiveFastPollEpcs data key := by
  obtain ⟨hconsistent,hrecords⟩ := exec_records h
  refine ⟨fun key node hnode => ?_,fun call t hstep key hkey => ?_⟩
  · rw [effectivePollEpcs,effectiveFastPollEpcs,hnode]
    exact ⟨effectiveEpcs_narrows hconsistent hrecords key _,
      effectiveEpcs_narrows hconsistent hrecords key _⟩
  · unfold effectivePollEpcs effectiveFastPollEpcs
    cases data key with
    | none => exact ⟨rfl,rfl⟩
    | some node =>
      exact ⟨effectiveEpcs_of_ne hrecords hstep hkey _,effectiveEpcs_of_ne hrecords hstep hkey _⟩

/-- Two callers share an EPC, and the first calls its function twice. -/
def sharedCalls : List (SubscriptionCall String) :=
  [.subscribe "fe01-028701" {0x80,0xB0},.subscribe "fe01-028701" {0x80},.unsubscribe 0,.unsubscribe 0]

def polledNode : NodeState where
  properties _ := none
  manufacturerCode := 0
  getEpcs := {0x80,0xB0}
  setEpcs := ∅
  infEpcs := ∅
  pollEpcs := {0x80,0xB0}
  fastPollEpcs := ∅
  monitoredEpcs := {0x80,0xB0}
  fastCandidateEpcs := ∅
  infRequestEpcs := ∅

def sharedSubscriptions : Subscriptions String :=
  (Transition.exec Subscriptions.step {} sharedCalls).getD {}

theorem effectivePollEpcs_counted_shared :
    Narrows sharedCalls "fe01-028701" {0x80,0xB0}
      (sharedSubscriptions.effectivePollEpcs (fun _ => some polledNode) "fe01-028701") ∧
    sharedSubscriptions.effectivePollEpcs (fun _ => some polledNode) "fe01-028701" = {0x80} := by
  have hrun : Transition.exec Subscriptions.step {} sharedCalls = some sharedSubscriptions := rfl
  have hcounted := effectivePollEpcs_counted (fun _ => some polledNode) hrun
  exact ⟨(hcounted.1 "fe01-028701" polledNode rfl).1,by decide⟩

end Subscriptions

end Pyhems.Device
