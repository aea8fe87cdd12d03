import Pyhems.Library.Spacing
import Pyhems.Poll.Cycles

/-! When cycles are fired. Two firings of a device on one tier lie apart by the interval that the
device has at the later one, so a tier does not poll a device too often, however its cycles end. -/
namespace Pyhems.Poll
open Library Device Protocol Relation Transition
open Get (Epc PollerArguments PollerTiers DeviceScheduleState)
variable {κ : Type}

/-- The two cadences of the scheduler. -/
inductive Tier where
  | normal
  | fast

/-- The time of the last cycle on the tier. -/
def Tier.last : Tier → ScheduleState → Option ℚ
  | .normal, state => state.lastPolledAt
  | .fast, state => state.lastFastPolledAt

/-- The least interval of the tier. -/
def Tier.base (tiers : PollerTiers) : Tier → ℚ
  | .normal => tiers.pollInterval
  | .fast => min tiers.fastPollInterval tiers.pollInterval

def Firing.on (f : Firing κ) : Tier → Bool
  | .normal => f.normal
  | .fast => f.fast

def Firing.interval (f : Firing κ) : Tier → ℚ
  | .normal => f.normalInterval
  | .fast => f.fastInterval

/-- Of two firings with one state on one tier, the later one waits for its interval. -/
def Firing.Apart (a b : Firing κ) : Prop :=
  a.state = b.state → ∀ tier, a.on tier = true → b.on tier = true → a.time+b.interval tier ≤ b.time

/-- What the state objects know of the firings. -/
structure Poller.Timed (s : Poller κ) : Prop where
  fresh : ∀ f ∈ s.fired, f.state < s.objects.length
  past : ∀ (i : Nat) (state : ScheduleState), s.objects[i]? = some state → ∀ (tier : Tier) (last : ℚ),
    tier.last state = some last → last ≤ s.now
  latest : ∀ f ∈ s.fired, ∀ tier : Tier, f.on tier = true → ∀ state, s.objects[f.state]? = some state →
    ∃ last, tier.last state = some last ∧ f.time ≤ last
  apart : s.fired.Pairwise Firing.Apart

theorem Tier.base_pos (tiers : PollerTiers) (tier : Tier) : 0 < tier.base tiers := by
  cases tier with
  | normal => exact zero_lt_one.trans_le tiers.one_le_pollInterval
  | fast => exact zero_lt_one.trans_le (le_min tiers.one_le_fastPollInterval tiers.one_le_pollInterval)

theorem Tier.last_getD (tier : Tier) (state : Option ScheduleState) :
    tier.last (state.getD {}) = state.bind tier.last := by
  cases state with
  | none => cases tier <;> rfl
  | some state => rfl

namespace Poller
variable {s : Poller κ}

theorem timed_start (tiers : PollerTiers) : Timed ({tiers} : Poller κ) where
  fresh := nofun
  past := nofun
  latest := nofun
  apart := List.Pairwise.nil

/-- A change of the state objects that leaves their times alone. -/
theorem Timed.modify (h : s.Timed) (i : Nat) {f : ScheduleState → ScheduleState}
    (hf : ∀ (tier : Tier) state, tier.last (f state) = tier.last state) :
    Timed {s with objects := s.objects.modify i f} := by
  refine ⟨?_,?_,?_,h.apart⟩
  · intro g hg
    rw [List.length_modify]
    exact h.fresh g hg
  · intro j state hstate tier last hlast
    obtain ⟨_,hstate⟩ | ⟨rfl,old,hold,rfl⟩ := modify_eq_some hstate
    · exact h.past j state hstate tier last hlast
    · rw [hf] at hlast
      exact h.past j old hold tier last hlast
  · intro g hg tier hon state hstate
    obtain ⟨_,hstate⟩ | ⟨_,old,hold,rfl⟩ := modify_eq_some hstate
    · exact h.latest g hg tier hon state hstate
    · rw [hf]
      exact h.latest g hg tier hon old (by rw [‹g.state = i›]; exact hold)

/-- A firing waits for the interval after the last one, and is the last one from then on. -/
theorem Timed.launch (h : s.Timed) {f : Firing κ} {state : ScheduleState} (hstate : s.objects[f.state]? = some state)
    (htime : f.time = s.now)
    (hdue : ∀ tier : Tier, f.on tier = true → s.WasDue (f.interval tier) (tier.last state))
    {g : ScheduleState → ScheduleState}
    (hg : ∀ (tier : Tier) state, tier.last (g state) = if f.on tier then some s.now else tier.last state)
    (tasks : List (CycleTask κ)) :
    Timed {s with objects := s.objects.modify f.state g, tasks, fired := s.fired ++ [f]} := by
  refine ⟨?_,?_,?_,?_⟩
  · intro a ha
    rw [List.length_modify]
    obtain ha | ha := List.mem_append.mp ha
    · exact h.fresh a ha
    · rw [List.mem_singleton.mp ha]
      exact (List.getElem?_eq_some_iff.mp hstate).1
  · intro i other hother tier last hlast
    obtain ⟨_,hother⟩ | ⟨_,old,hold,rfl⟩ := modify_eq_some hother
    · exact h.past i other hother tier last hlast
    · rw [hg] at hlast
      split at hlast
      · cases hlast
        exact le_rfl
      · exact h.past _ old hold tier last hlast
  · intro a ha tier hon other hother
    obtain ha | ha := List.mem_append.mp ha
    · obtain ⟨_,hother⟩ | ⟨hsame,old,hold,rfl⟩ := modify_eq_some hother
      · exact h.latest a ha tier hon other hother
      · obtain ⟨last,hlast,hle⟩ := h.latest a ha tier hon old (hsame ▸ hold)
        rw [hg]
        split
        · exact ⟨s.now,rfl,hle.trans (h.past _ old hold tier last hlast)⟩
        · exact ⟨last,hlast,hle⟩
    · cases List.mem_singleton.mp ha
      rw [List.getElem?_modify_eq,hstate] at hother
      cases hother
      exact ⟨s.now,by rw [hg,if_pos hon],htime.le⟩
  · rw [List.pairwise_append]
    refine ⟨h.apart,List.pairwise_singleton _ _,?_⟩
    intro a ha b hb
    cases List.mem_singleton.mp hb
    intro hsame tier honA honB
    obtain ⟨last,hlast,hle⟩ := h.latest a ha tier honA state (hsame ▸ hstate)
    obtain ⟨now,hnow,hdue⟩ := hdue tier honB
    rw [hlast] at hdue
    have hwait : f.interval tier ≤ now-last := of_decide_eq_true hdue
    calc a.time+f.interval tier ≤ last+f.interval tier := add_le_add_left hle _
      _ ≤ now := le_sub_iff_add_le'.mp hwait
      _ ≤ f.time := htime ▸ hnow

variable [DecidableEq κ]

theorem Timed.create (h : s.Timed) (key : κ) : (s.getState key).1.Timed := by
  rw [getState]
  cases hkey : Dict.get key s.states with
  | some i => exact h
  | none =>
    refine ⟨?_,?_,?_,h.apart⟩
    · intro f hf
      rw [List.length_append]
      exact Nat.lt_add_right _ (h.fresh f hf)
    · intro i state hstate tier last hlast
      obtain hstate | ⟨_,rfl⟩ := concat_eq_some hstate
      · exact h.past i state hstate tier last hlast
      · cases tier <;> cases hlast
    · intro f hf tier hon state hstate
      rw [List.getElem?_append_left (h.fresh f hf)] at hstate
      exact h.latest f hf tier hon state hstate

/-- The state object that a cycle of a device is fired with, a new one if it has none. -/
theorem Wired.getState_object (h : s.Wired) (key : κ) :
    (s.getState key).1.objects[(s.getState key).2]? = some ((s.stateOf key).getD {}) := by
  rw [getState,stateOf]
  cases hkey : Dict.get key s.states with
  | none => exact List.getElem?_concat_length
  | some i =>
    have hi := h.stored _ (Dict.mem_of_get hkey)
    have hstate := List.getElem?_eq_getElem hi
    simp only [Option.bind_some,hstate,Option.getD_some]

theorem Timed.fire (h : s.Timed) (hwired : s.Wired) {key : κ} {fast normal : Bool} (epcs : Finset Epc)
    (hnormal : normal = true →
      s.WasDue (s.schedule.effectiveInterval key) ((s.stateOf key).bind ScheduleState.lastPolledAt))
    (hfast : fast = true →
      s.WasDue (s.schedule.effectiveFastInterval key) ((s.stateOf key).bind ScheduleState.lastFastPolledAt)) :
    (s.fire key fast normal epcs).Timed := by
  obtain ⟨objects,states,hstate,_⟩ := s.getState_spec key
  have hnow : (s.getState key).1.now = s.now := by rw [hstate]
  refine (h.create key).launch (f := s.firing key fast normal epcs) (hwired.getState_object key) hnow.symm ?_ ?_ _
  · intro tier hon
    rw [tier.last_getD,WasDue,hnow]
    cases tier with
    | normal => exact hnormal hon
    | fast => exact hfast hon
  · intro tier state
    rw [hnow]
    cases tier <;> rfl

theorem Timed.move {t : Poller κ} (h : s.Timed) (hwired : s.Wired) (hmove : s.Move t) : t.Timed := by
  cases hmove with
  | control _ _ _ _ hnow =>
    exact ⟨h.fresh,fun i state hstate tier last hlast => (h.past i state hstate tier last hlast).trans hnow,
      h.latest,h.apart⟩
  | create key => exact h.create key
  | fire key fast normal epcs _ hnormal hfast => exact h.fire hwired epcs hnormal hfast
  | @observe task i t response =>
    obtain ⟨data,notices,hobserve⟩ := s.observe_spec _ _ response
    rw [hobserve]
    have hmodify := h.modify i (f := (·.observe response)) fun tier _ => by cases tier <;> rfl
    exact ⟨hmodify.fresh,hmodify.past,hmodify.latest,hmodify.apart⟩
  | _ => exact ⟨h.fresh,h.past,h.latest,h.apart⟩

/-- The intervals of a poller are no shorter than the bases of its tiers. -/
structure Based (s : Poller κ) (tiers : PollerTiers) : Prop where
  tiers_eq : s.tiers = tiers
  base : ∀ f ∈ s.fired, ∀ tier : Tier, tier.base tiers ≤ f.interval tier

theorem Tier.base_le_interval (tier : Tier) (key : κ) (fast normal : Bool) (epcs : Finset Epc) :
    tier.base s.tiers ≤ (s.firing key fast normal epcs).interval tier := by
  cases tier with
  | normal =>
    rw [Firing.interval,firing,s.schedule.effectiveInterval_getD key]
    exact (s.tiers.effectiveInterval_bounds _).1
  | fast =>
    rw [Firing.interval,firing,s.schedule.effectiveFastInterval_getD key]
    exact (s.tiers.effectiveFastInterval_bounds _).1

theorem Based.move {tiers : PollerTiers} {t : Poller κ} (h : s.Based tiers) (hmove : s.Move t) : t.Based tiers := by
  cases hmove with
  | create key =>
    obtain ⟨objects,states,hstate,_⟩ := s.getState_spec key
    rw [hstate]
    exact ⟨h.tiers_eq,h.base⟩
  | fire key fast normal epcs =>
    obtain ⟨objects,states,hfire⟩ := s.fire_spec key fast normal epcs
    rw [hfire]
    refine ⟨h.tiers_eq,?_⟩
    intro f hf tier
    obtain hf | hf := List.mem_append.mp hf
    · exact h.base f hf tier
    · rw [List.mem_singleton.mp hf,← h.tiers_eq]
      exact Tier.base_le_interval tier key fast normal epcs
  | observe response =>
    obtain ⟨data,notices,hobserve⟩ := s.observe_spec _ _ response
    rw [hobserve]
    exact ⟨h.tiers_eq,h.base⟩
  | _ => exact ⟨h.tiers_eq,h.base⟩

/-- The firings on a tier with one state in a window of time. -/
def firingsIn (s : Poller κ) (tier : Tier) (state : Nat) (lo hi : ℚ) : List (Firing κ) :=
  s.fired.filter fun f => decide (f.state = state ∧ f.on tier = true ∧ lo ≤ f.time ∧ f.time ≤ hi)

/-- After every run the firings on a tier with one state lie apart by the interval of the later one,
which is no shorter than the base of the tier, so that a window has room for few of them. -/
theorem firings_apart {arguments : PollerArguments} (h : Reachable step {tiers := arguments.tiers} s) :
    s.fired.Pairwise Firing.Apart ∧
    (∀ f ∈ s.fired, ∀ tier : Tier, tier.base arguments.tiers ≤ f.interval tier) ∧
    ∀ (tier : Tier) (state : Nat) (lo hi : ℚ), lo ≤ hi →
      ((s.firingsIn tier state lo hi).length:ℚ) ≤ (hi-lo)/tier.base arguments.tiers+1 := by
  have htimed : s.Timed := invariant_of_wired Timed (timed_start _) (fun _ _ hs ht hmove => ht.move hs hmove) h
  have hbased : s.Based arguments.tiers :=
    invariant (fun s => s.Based arguments.tiers) ⟨rfl,nofun⟩ (fun _ _ hs hmove => hs.move hmove) h
  refine ⟨htimed.apart,hbased.base,?_⟩
  intro tier state lo hi hle
  have hmem : ∀ f ∈ s.firingsIn tier state lo hi, f ∈ s.fired ∧
      f.state = state ∧ f.on tier = true ∧ lo ≤ f.time ∧ f.time ≤ hi := fun f hf =>
    ⟨(List.mem_filter.mp hf).1,of_decide_eq_true (List.mem_filter.mp hf).2⟩
  apply Spacing.length_le Firing.time _ (tier.base_pos _) hle
  · exact fun f hf => (hmem f hf).2.2.2
  · have hapart := htimed.apart.sublist (List.filter_sublist (p := fun f => decide (f.state = state ∧
      f.on tier = true ∧ lo ≤ f.time ∧ f.time ≤ hi)))
    apply hapart.imp_of_mem
    intro a b ha hb hab
    obtain ⟨_,hstate,hon,_⟩ := hmem a ha
    obtain ⟨hfired,hstate',hon',_⟩ := hmem b hb
    have hwait := hab (hstate.trans hstate'.symm) tier hon hon'
    exact (add_le_add_right (hbased.base b hfired tier) _).trans hwait

/-- The meter answers its first cycle, and is polled again after a minute. -/
def secondCycle : List (PollEvent String) :=
  firstCycle ++ [.respond 0 (some 2),.elapse 30,.wake fun _ => 0,.elapse 30,.wake fun _ => 0]

theorem firings_apart_meter : ∃ s : Poller String, s.fired.map Firing.time = [10,70] ∧
    (s.fired.Pairwise Firing.Apart ∧
      (∀ f ∈ s.fired, ∀ tier : Tier, tier.base ({} : PollerArguments).tiers ≤ f.interval tier) ∧
      ∀ (tier : Tier) (state : Nat) (lo hi : ℚ), lo ≤ hi →
        ((s.firingsIn tier state lo hi).length:ℚ) ≤ (hi-lo)/tier.base ({} : PollerArguments).tiers+1) := by
  have hrun : (exec step {tiers := ({} : PollerArguments).tiers} secondCycle).any
      (fun s => s.fired.map Firing.time == [10,70]) = true := by decide +kernel
  obtain ⟨s,hs,htimes⟩ := (Option.any_eq_true _ _).mp hrun
  exact ⟨s,beq_iff_eq.mp htimes,firings_apart (reachable_of_exec hs)⟩

end Poller
end Pyhems.Poll
