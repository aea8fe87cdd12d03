import Pyhems.Poll.Firings

/-! What a wake-up of the loop achieves. After it every device with wanted EPCs on a tier has a cycle in
progress, or was polled on the tier less than its interval ago. -/
namespace Pyhems.Poll
open Library Device Protocol Relation Transition
open Get (Epc PollerArguments PollerTiers)
variable {κ : Type} [DecidableEq κ]

namespace Tier

/-- The interval of a device on the tier. -/
def effective (tier : Tier) (s : Poller κ) (key : κ) : ℚ :=
  match tier with
  | .normal => s.schedule.effectiveInterval key
  | .fast => s.schedule.effectiveFastInterval key

/-- The EPCs that are polled for a device on the tier. -/
def wanted (tier : Tier) (s : Poller κ) (key : κ) : Finset Epc :=
  match tier with
  | .normal => s.effectivePollEpcs key
  | .fast => s.effectiveFastPollEpcs key

/-- The EPCs of the tier that are not narrowed to the subscribed ones. -/
def candidates (tier : Tier) (node : PolledNode) : Finset Epc :=
  match tier with
  | .normal => node.pollEpcs
  | .fast => node.fastPollEpcs

/-- What the scheduler finds for the tier. -/
def found (tier : Tier) (s : Poller κ) (now : ℚ) (key : κ) (node : PolledNode) : Bool :=
  match tier with
  | .normal => s.normalDue now key node
  | .fast => s.fastDue now key node

end Tier

namespace Poller
variable {s : Poller κ} {now : ℚ} {key : κ} {node : PolledNode} {tier : Tier}

/-- The tier does not have to poll the device at a time. -/
def Recent (s : Poller κ) (now : ℚ) (tier : Tier) (key : κ) : Prop :=
  ∃ last, (s.stateOf key).bind tier.last = some last ∧ now-last < tier.effective s key

/-- The device is polled, or does not have to be. -/
def Served (s : Poller κ) (now : ℚ) (tier : Tier) (key : κ) : Prop :=
  s.isPolling key = true ∨ s.Recent now tier key

theorem effectiveEpcs_subset (subscriptions : Subscriptions κ) (key : κ) (candidates : Finset Epc) :
    subscriptions.effectiveEpcs key candidates ⊆ candidates := by
  rw [Subscriptions.effectiveEpcs]
  split
  · exact subset_rfl
  · exact Finset.filter_subset _ _

theorem wanted_subset (hnode : Dict.get key s.data = some node) : tier.wanted s key ⊆ tier.candidates node := by
  cases tier with
  | normal =>
    rw [Tier.wanted,effectivePollEpcs,Subscriptions.effectivePollEpcs,hnode]
    exact effectiveEpcs_subset _ _ _
  | fast =>
    rw [Tier.wanted,effectiveFastPollEpcs,Subscriptions.effectiveFastPollEpcs,hnode]
    exact effectiveEpcs_subset _ _ _

/-- A tier with EPCs that is not due was polled recently. -/
theorem recent_of_not_found (hcandidates : tier.candidates node ≠ ∅) (hdue : tier.found s now key node = false) :
    s.Recent now tier key := by
  have hdue : due now (tier.effective s key) ((s.stateOf key).bind tier.last) = false := by
    cases tier with
    | normal => exact (Bool.and_eq_false_iff.mp hdue).resolve_left fun h => of_decide_eq_false h hcandidates
    | fast => exact (Bool.and_eq_false_iff.mp hdue).resolve_left fun h => of_decide_eq_false h hcandidates
  rw [Recent]
  cases hlast : (s.stateOf key).bind tier.last with
  | none =>
    rw [hlast] at hdue
    cases hdue
  | some last =>
    rw [hlast] at hdue
    exact ⟨last,rfl,not_le.mp (of_decide_eq_false hdue)⟩

theorem wanted_subset_cycleEpcs (hfound : tier.found s now key node = true) :
    tier.wanted s key ⊆ s.cycleEpcs key (s.fastDue now key node) (s.normalDue now key node) := by
  rw [cycleEpcs]
  cases tier with
  | normal =>
    rw [Tier.found] at hfound
    rw [hfound]
    exact Finset.subset_union_left
  | fast =>
    rw [Tier.found] at hfound
    rw [hfound]
    exact Finset.subset_union_right

/-! ### Firing -/

/-- A device that is fired is polled. -/
theorem isPolling_fire (h : s.Wired) (key : κ) (fast normal : Bool) (epcs : Finset Epc) :
    (s.fire key fast normal epcs).isPolling key = true := by
  have hobject := h.getState_object key
  rw [fire,isPolling,stateOf]
  simp only [s.get_getState]
  rw [Option.bind_some,List.getElem?_modify_eq,hobject,Option.map_eq_map,Option.map_some,Option.any_some,polling,
    ScheduleState.launch,Option.bind_some,List.getElem?_concat_length]

/-- The states of the other devices stay as they are. -/
theorem stateOf_getState (h : s.Wired) {other : κ} (hne : other ≠ key) :
    (s.getState key).1.stateOf other = s.stateOf other := by
  rw [getState]
  cases hkey : Dict.get key s.states with
  | some i => rfl
  | none =>
    simp only [stateOf,Dict.get_insert,if_neg (Ne.symm hne)]
    cases hother : Dict.get other s.states with
    | none => rfl
    | some j => exact List.getElem?_append_left (h.stored _ (Dict.mem_of_get hother))

theorem stateOf_fire (h : s.Wired) {other : κ} (hne : other ≠ key) (fast normal : Bool) (epcs : Finset Epc) :
    (s.fire key fast normal epcs).stateOf other = s.stateOf other := by
  have hmodify := (h.create key).stateOf_modify (s.get_getState key)
    (fun state => state.launch s.now fast normal (s.getState key).1.tasks.length) other
  rw [if_neg hne,stateOf_getState h hne] at hmodify
  exact hmodify

theorem polling_fire {state : ScheduleState} (hpolling : s.polling state = true) (fast normal : Bool)
    (epcs : Finset Epc) : (s.fire key fast normal epcs).polling state = true := by
  obtain ⟨objects,states,hfire⟩ := s.fire_spec key fast normal epcs
  rw [hfire]
  rw [polling] at hpolling ⊢
  cases hcycle : state.cycleTask with
  | none =>
    rw [hcycle] at hpolling
    cases hpolling
  | some task =>
    rw [hcycle,Option.bind_some] at hpolling
    rw [Option.bind_some]
    cases htask : s.tasks[task]? with
    | none =>
      rw [htask] at hpolling
      cases hpolling
    | some t =>
      rw [htask] at hpolling
      rw [List.getElem?_append_left (List.getElem?_eq_some_iff.mp htask).1,htask]
      exact hpolling

/-- A device that is polled goes on to be polled when another one is fired. -/
theorem isPolling_fire_of_isPolling (hpolling : s.isPolling key = true) (h : s.Wired) (other : κ) (fast normal : Bool)
    (epcs : Finset Epc) : (s.fire other fast normal epcs).isPolling key = true := by
  by_cases hother : key = other
  · subst hother
    exact isPolling_fire h key fast normal epcs
  · rw [isPolling,stateOf_fire h hother fast normal epcs]
    obtain ⟨state,hsome,hpolling⟩ := (Option.any_eq_true _ _).mp hpolling
    rw [hsome]
    exact polling_fire hpolling fast normal epcs

theorem Served.fire (hserved : s.Served now tier key) (h : s.Wired) (other : κ) (fast normal : Bool)
    (epcs : Finset Epc) : (s.fire other fast normal epcs).Served now tier key := by
  by_cases hother : key = other
  · subst hother
    exact .inl (isPolling_fire h key fast normal epcs)
  · obtain hpolling | ⟨last,hlast,hrecent⟩ := hserved
    · exact .inl (isPolling_fire_of_isPolling hpolling h other fast normal epcs)
    · right
      have hstate := stateOf_fire h hother fast normal epcs
      have heffective : tier.effective (s.fire other fast normal epcs) key = tier.effective s key := by
        obtain ⟨objects,states,hfire⟩ := s.fire_spec other fast normal epcs
        have htiers : (s.fire other fast normal epcs).tiers = s.tiers := by rw [hfire]
        have hschedule : (s.fire other fast normal epcs).schedule.state key = s.schedule.state key :=
          congrArg (Option.map _) hstate
        cases tier with
        | normal => rw [Tier.effective,Tier.effective,Get.PropertyPoller.effectiveInterval_getD,
            Get.PropertyPoller.effectiveInterval_getD,hschedule,schedule,schedule,htiers]
        | fast => rw [Tier.effective,Tier.effective,Get.PropertyPoller.effectiveFastInterval_getD,
            Get.PropertyPoller.effectiveFastInterval_getD,hschedule,schedule,schedule,htiers]
      exact ⟨last,hstate ▸ hlast,heffective ▸ hrecent⟩

/-! ### Wake-ups -/

/-- The loop leaves a device alone, or fires a cycle for the EPCs of its tiers that are due. -/
theorem scheduleDevice_cases (now : ℚ) (drift : κ → ℚ≥0) (key : κ) (node : PolledNode) :
    s.scheduleDevice now drift key node = s ∨ s.isPolling key = false ∧ ∃ fast normal,
      s.cycleEpcs key fast normal ≠ ∅ ∧ s.scheduleDevice now drift key node =
        {s with now := s.now+drift key}.fire key fast normal (s.cycleEpcs key fast normal) := by
  rw [scheduleDevice]
  split
  · exact .inl rfl
  · next hidle =>
    split
    · exact .inl rfl
    · simp only
      split
      · exact .inl rfl
      · rw [firePoll]
        cases Dict.get key s.data with
        | none => exact .inl rfl
        | some _ =>
          simp only
          split
          · exact .inl rfl
          · next hepcs => exact .inr ⟨Bool.eq_false_iff.mpr hidle,_,_,hepcs,rfl⟩

variable {drift : κ → ℚ≥0}

theorem Wired.clock (h : s.Wired) (now : ℚ) : Wired {s with now} := ⟨h.keys,h.distinct,h.stored,h.held,h.own⟩

theorem Wired.scheduleDevice (h : s.Wired) (key : κ) (node : PolledNode) (hnow : now ≤ s.now) :
    (s.scheduleDevice now drift key node).Wired :=
  Simulation.preserved Wired (fun _ _ ha hmove => ha.move hmove) (moves_scheduleDevice hnow drift key node) h

theorem Served.scheduleDevice (hserved : s.Served now tier key) (h : s.Wired) (other : κ) (node : PolledNode) :
    (s.scheduleDevice now drift other node).Served now tier key := by
  obtain hsame | ⟨_,fast,normal,_,hfire⟩ := scheduleDevice_cases (s := s) now drift other node
  · rw [hsame]
    exact hserved
  · rw [hfire]
    have hlater : Served {s with now := s.now+drift other} now tier key := hserved
    exact hlater.fire (h.clock _) other fast normal _

/-- The loop serves the device that it comes to. -/
theorem Wired.served_scheduleDevice (h : s.Wired) (hnode : Dict.get key s.data = some node)
    (hwanted : tier.wanted s key ≠ ∅) : (s.scheduleDevice now drift key node).Served now tier key := by
  have hcandidates : tier.candidates node ≠ ∅ := fun hempty =>
    hwanted (Finset.subset_empty.mp (hempty ▸ wanted_subset hnode))
  rw [Poller.scheduleDevice]
  split
  · next hpolling => exact .inl hpolling
  · split
    · next hnone =>
      cases tier with
      | normal => exact absurd hnone.1 hcandidates
      | fast => exact absurd hnone.2 hcandidates
    · simp only
      split
      · next hidle =>
        apply Or.inr (recent_of_not_found hcandidates _)
        cases tier with
        | normal => exact hidle.1
        | fast => exact hidle.2
      · rw [firePoll,hnode]
        simp only
        split
        · next hempty =>
          apply Or.inr (recent_of_not_found hcandidates _)
          by_contra hfound
          have hsubset := wanted_subset_cycleEpcs (Bool.not_eq_false _ ▸ hfound : tier.found s now key node = true)
          rw [hempty] at hsubset
          exact hwanted (Finset.subset_empty.mp hsubset)
        · exact .inl (isPolling_fire (h.clock _) key _ _ _)

theorem scheduleDevice_frame (now : ℚ) (drift : κ → ℚ≥0) (key : κ) (node : PolledNode) :
    (s.scheduleDevice now drift key node).data = s.data ∧
    (s.scheduleDevice now drift key node).subscriptions = s.subscriptions := by
  obtain hsame | ⟨_,fast,normal,_,hfire⟩ := scheduleDevice_cases (s := s) now drift key node
  · rw [hsame]
    exact ⟨rfl,rfl⟩
  · obtain ⟨objects,states,hspec⟩ := fire_spec (s := {s with now := s.now+drift key}) key fast normal _
    rw [hfire,hspec]
    exact ⟨rfl,rfl⟩

theorem wanted_congr {t : Poller κ} (hdata : t.data = s.data) (hsubscriptions : t.subscriptions = s.subscriptions) :
    tier.wanted t key = tier.wanted s key := by
  cases tier with
  | normal => rw [Tier.wanted,Tier.wanted,effectivePollEpcs,effectivePollEpcs,hdata,hsubscriptions]
  | fast => rw [Tier.wanted,Tier.wanted,effectiveFastPollEpcs,effectiveFastPollEpcs,hdata,hsubscriptions]

/-- The loop serves every device that it comes to or that is served already. -/
theorem Wired.served_foldl (h : s.Wired) (hnow : now ≤ s.now) (hnode : Dict.get key s.data = some node)
    (hwanted : tier.wanted s key ≠ ∅) {entries : List (κ × PolledNode)}
    (hentry : (key,node) ∈ entries ∨ s.Served now tier key) :
    (entries.foldl (fun t entry => t.scheduleDevice now drift entry.1 entry.2) s).Served now tier key := by
  induction entries generalizing s with
  | nil => exact hentry.resolve_left List.not_mem_nil
  | cons entry entries ih =>
    obtain ⟨hdata,hsubscriptions⟩ := scheduleDevice_frame (s := s) now drift entry.1 entry.2
    have hlater := (moves_scheduleDevice hnow drift entry.1 entry.2).now_le
    rw [List.foldl_cons]
    apply ih (h.scheduleDevice entry.1 entry.2 hnow) (hnow.trans hlater) (hdata ▸ hnode)
    · rw [wanted_congr hdata hsubscriptions]
      exact hwanted
    · obtain hmem | hserved := hentry
      · obtain rfl | hmem := List.mem_cons.mp hmem
        · exact .inr (h.served_scheduleDevice hnode hwanted)
        · exact .inl hmem
      · exact .inr (hserved.scheduleDevice h entry.1 entry.2)

/-- Only devices that are present have a state. -/
def Current (s : Poller κ) : Prop := ∀ key ∈ s.states.map Prod.fst, (Dict.get key s.data).isSome = true

theorem Current.scheduleDevice (hcurrent : s.Current) (hnode : (Dict.get key s.data).isSome = true) :
    (s.scheduleDevice now drift key node).Current := by
  obtain hsame | ⟨_,fast,normal,_,hfire⟩ := scheduleDevice_cases (s := s) now drift key node
  · rw [hsame]
    exact hcurrent
  · rw [hfire]
    rw [fire,getState]
    cases hkey : Dict.get key s.states with
    | some i => exact hcurrent
    | none =>
      intro other hother
      obtain rfl | hother := Dict.mem_keys_insert.mp hother
      · exact hnode
      · exact hcurrent other hother

theorem Current.foldl (hcurrent : s.Current) {entries : List (κ × PolledNode)}
    (hentries : ∀ e ∈ entries, (Dict.get e.1 s.data).isSome = true) :
    (entries.foldl (fun t entry => t.scheduleDevice now drift entry.1 entry.2) s).Current := by
  induction entries generalizing s with
  | nil => exact hcurrent
  | cons entry entries ih =>
    obtain ⟨hdata,_⟩ := scheduleDevice_frame (s := s) now drift entry.1 entry.2
    rw [List.foldl_cons]
    apply ih (hcurrent.scheduleDevice (hentries entry List.mem_cons_self))
    intro e he
    rw [hdata]
    exact hentries e (List.mem_cons_of_mem _ he)

/-- After a wake-up of the loop, in every run, each device with wanted EPCs on a tier is polled or was
polled on it less than its interval before, and no device that is gone has a state. -/
theorem wake_complete {tiers : PollerTiers} (h : Reachable step {tiers} s) {t : Poller κ}
    (hstep : s.step (.wake drift) = some t) :
    (∀ key node tier, Dict.get key s.data = some node → tier.wanted s key ≠ ∅ → t.Served s.now tier key) ∧
      t.Current := by
  obtain ⟨_,hstep⟩ := Option.ite_none_right_eq_some.mp hstep
  cases hstep
  refine ⟨?_,?_⟩
  · intro key node tier hnode hwanted
    have hcleaned : s.cleanupStale.Wired := (wired_of_reachable h).dropStates _
    exact hcleaned.served_foldl le_rfl hnode hwanted (.inl (Dict.mem_of_get hnode))
  · have hcleaned : s.cleanupStale.Current := by
      intro key hkey
      obtain ⟨e,he,rfl⟩ := List.mem_map.mp hkey
      exact (List.mem_filter.mp he).2
    exact hcleaned.foldl fun e he => Dict.get_isSome (List.mem_map_of_mem he)

/-! ### What a wake-up fires -/

/-- The cycle is for a device that is present, and requests what is wanted on its tiers. -/
def Wants (s : Poller κ) (f : Firing κ) : Prop :=
  (Dict.get f.deviceKey s.data).isSome = true ∧ f.epcs ≠ ∅ ∧
    ∀ epc, epc ∈ f.epcs ↔ ∃ tier : Tier, f.on tier = true ∧ epc ∈ tier.wanted s f.deviceKey

theorem mem_cycleEpcs {fast normal : Bool} {epc : Epc} :
    epc ∈ s.cycleEpcs key fast normal ↔ normal = true ∧ epc ∈ Tier.normal.wanted s key ∨
      fast = true ∧ epc ∈ Tier.fast.wanted s key := by
  rw [cycleEpcs,Finset.mem_union]
  cases normal <;> cases fast <;> simp [Tier.wanted]

theorem wants_firing (hpresent : (Dict.get key s.data).isSome = true) {fast normal : Bool}
    (hepcs : s.cycleEpcs key fast normal ≠ ∅) : s.Wants (s.firing key fast normal (s.cycleEpcs key fast normal)) := by
  refine ⟨hpresent,hepcs,?_⟩
  intro epc
  rw [firing]
  simp only
  rw [mem_cycleEpcs]
  constructor
  · rintro (⟨hon,hwanted⟩ | ⟨hon,hwanted⟩)
    · exact ⟨.normal,hon,hwanted⟩
    · exact ⟨.fast,hon,hwanted⟩
  · rintro ⟨tier,hon,hwanted⟩
    cases tier with
    | normal => exact .inl ⟨hon,hwanted⟩
    | fast => exact .inr ⟨hon,hwanted⟩

/-- What the loop has fired since a state. -/
structure Woken (s t : Poller κ) (fired : List (Firing κ)) : Prop where
  data : t.data = s.data
  subscriptions : t.subscriptions = s.subscriptions
  fired_eq : t.fired = s.fired ++ fired
  polling : ∀ f ∈ fired, t.isPolling f.deviceKey = true
  wants : ∀ f ∈ fired, s.Wants f
  nodup : (fired.map Firing.deviceKey).Nodup

theorem Woken.scheduleDevice {t : Poller κ} {fired : List (Firing κ)} (h : s.Woken t fired) (hwired : t.Wired)
    (hpresent : (Dict.get key s.data).isSome = true) (now : ℚ) (drift : κ → ℚ≥0) (node : PolledNode) :
    ∃ fired', s.Woken (t.scheduleDevice now drift key node) fired' := by
  obtain ⟨hdata,hsubscriptions⟩ := scheduleDevice_frame (s := t) now drift key node
  obtain hsame | ⟨hidle,fast,normal,hepcs,hfire⟩ := scheduleDevice_cases (s := t) now drift key node
  · rw [hsame]
    exact ⟨fired,h⟩
  · have hlater : Wired {t with now := t.now+drift key} := hwired.clock _
    have hwants : s.Wants (firing {t with now := t.now+drift key} key fast normal (t.cycleEpcs key fast normal)) := by
      have hwants : t.Wants (firing t key fast normal (t.cycleEpcs key fast normal)) :=
        wants_firing (h.data ▸ hpresent) hepcs
      obtain ⟨hsome,hne,hwanted⟩ := hwants
      refine ⟨h.data ▸ hsome,hne,?_⟩
      intro epc
      simp only [← wanted_congr h.data h.subscriptions]
      exact hwanted epc
    refine ⟨fired ++ [firing {t with now := t.now+drift key} key fast normal (t.cycleEpcs key fast normal)],
      hdata.trans h.data,hsubscriptions.trans h.subscriptions,?_,?_,?_,?_⟩
    · obtain ⟨objects,states,hspec⟩ := fire_spec (s := {t with now := t.now+drift key}) key fast normal
        (t.cycleEpcs key fast normal)
      rw [hfire,hspec]
      exact (congrArg (· ++ _) h.fired_eq).trans (List.append_assoc _ _ _)
    · intro f hf
      rw [hfire]
      obtain hf | hf := List.mem_append.mp hf
      · exact isPolling_fire_of_isPolling (s := {t with now := t.now+drift key}) (h.polling f hf) hlater key fast normal _
      · rw [List.mem_singleton.mp hf]
        exact isPolling_fire hlater key fast normal _
    · intro f hf
      obtain hf | hf := List.mem_append.mp hf
      · exact h.wants f hf
      · rw [List.mem_singleton.mp hf]
        exact hwants
    · rw [List.map_append,List.map_singleton,List.nodup_append]
      refine ⟨h.nodup,List.nodup_singleton _,?_⟩
      rintro other hother _ hkey rfl
      obtain ⟨f,hf,rfl⟩ := List.mem_map.mp hother
      have hpolling := h.polling f hf
      rw [List.mem_singleton.mp hkey] at hpolling
      exact Bool.false_ne_true (hidle.symm.trans hpolling)

theorem Woken.foldl {t : Poller κ} {fired : List (Firing κ)} (h : s.Woken t fired) (hwired : t.Wired)
    (hnow : now ≤ t.now) {entries : List (κ × PolledNode)}
    (hentries : ∀ e ∈ entries, (Dict.get e.1 s.data).isSome = true) :
    ∃ fired', s.Woken (entries.foldl (fun t entry => t.scheduleDevice now drift entry.1 entry.2) t) fired' := by
  induction entries generalizing t fired with
  | nil => exact ⟨fired,h⟩
  | cons entry entries ih =>
    obtain ⟨fired',hfirst⟩ := h.scheduleDevice hwired (hentries entry List.mem_cons_self) now drift entry.2
    have hlater := (moves_scheduleDevice hnow drift entry.1 entry.2).now_le
    rw [List.foldl_cons]
    exact ih hfirst (hwired.scheduleDevice entry.1 entry.2 hnow) (hnow.trans hlater)
      fun e he => hentries e (List.mem_cons_of_mem _ he)

/-- In every run a wake-up of the loop fires at most one cycle for a device, which is present, and the cycle
is for exactly the EPCs that are wanted on the tiers that it is fired for, of which there is one. -/
theorem wake_sound {tiers : PollerTiers} (h : Reachable step {tiers} s) {t : Poller κ}
    (hstep : s.step (.wake drift) = some t) :
    ∃ fired, t.fired = s.fired ++ fired ∧ (fired.map Firing.deviceKey).Nodup ∧ ∀ f ∈ fired, s.Wants f := by
  obtain ⟨_,hstep⟩ := Option.ite_none_right_eq_some.mp hstep
  cases hstep
  have hcleaned : s.cleanupStale.Wired := (wired_of_reachable h).dropStates _
  have hstart : s.Woken s.cleanupStale [] :=
    ⟨rfl,rfl,(List.append_nil _).symm,List.forall_mem_nil _,List.forall_mem_nil _,List.nodup_nil⟩
  obtain ⟨fired,hwoken⟩ := hstart.foldl hcleaned le_rfl fun e he => Dict.get_isSome (List.mem_map_of_mem he)
  exact ⟨fired,hwoken.fired_eq,hwoken.nodup,hwoken.wants⟩

theorem wake_sound_meter : ∃ s t : Poller String, s.step (.wake fun _ => 0) = some t ∧ t.isPolling "meter" = true ∧
    ∃ fired, t.fired = s.fired ++ fired ∧ (fired.map Firing.deviceKey).Nodup ∧ ∀ f ∈ fired, s.Wants f := by
  have hrun : (exec step {tiers := ({} : PollerArguments).tiers} (firstCycle.take 3)).any
      (fun s => (s.step (.wake fun _ => 0)).any fun t => t.isPolling "meter") = true := by decide +kernel
  obtain ⟨s,hs,hcheck⟩ := (Option.any_eq_true _ _).mp hrun
  obtain ⟨t,ht,hpolling⟩ := (Option.any_eq_true _ _).mp hcheck
  exact ⟨s,t,ht,hpolling,wake_sound (reachable_of_exec hs) ht⟩

/-- The meter is polled at the second wake-up, and was polled recently at the third. -/
theorem wake_complete_meter : ∃ s t : Poller String,
    s.step (.wake fun _ => 0) = some t ∧ t.isPolling "meter" = false ∧
    ((∀ key node tier, Dict.get key s.data = some node → tier.wanted s key ≠ ∅ → t.Served s.now tier key) ∧
      t.Current) := by
  have hrun : (exec step {tiers := ({} : PollerArguments).tiers} (firstCycle ++ [.respond 0 (some 2),.elapse 30])).any
      (fun s => (s.step (.wake fun _ => 0)).any fun t => !t.isPolling "meter") = true := by decide +kernel
  obtain ⟨s,hs,hcheck⟩ := (Option.any_eq_true _ _).mp hrun
  obtain ⟨t,ht,hidle⟩ := (Option.any_eq_true _ _).mp hcheck
  exact ⟨s,t,ht,(Bool.not_eq_true' _).mp hidle,wake_complete (reachable_of_exec hs) ht⟩

end Poller
end Pyhems.Poll
