import Pyhems.Get.PollCycle

/-! The polling intervals of the normal and the fast tier. Both are computed in the same way from the
latency and the failures of a device, each from its own base, and have one maximum. -/
namespace Pyhems.Get

/-- The base of a tier, or the latency with the safety factor where that is more. -/
def PollerSettings.slowed (settings : PollerSettings) (base : ℚ) (state : DeviceScheduleState) : ℚ :=
  match state.latencyEwma with
  | none => base
  | some ewma => max base (ewma*settings.safetyFactor)

/-- The base of a tier, doubled with each failure. -/
def DeviceScheduleState.backedOff (state : DeviceScheduleState) (base : ℚ) : ℚ :=
  base*backoffBase^(min state.consecutiveFailures maxBackoffExponent)

/-- The body that `_effective_interval` and `_effective_fast_interval` share. -/
def PollerSettings.tierInterval (settings : PollerSettings) (base : ℚ) (state : DeviceScheduleState) : ℚ :=
  let slowed := settings.slowed base state
  let interval := if state.consecutiveFailures = 0 then slowed else max slowed (state.backedOff base)
  min interval settings.maxInterval

/-- The arguments of a poller that its intervals depend on. -/
structure PollerArguments where
  pollInterval : ℚ := 60
  awaitingTimeout : Option ℚ := none
  safetyFactor : ℚ := 5/2
  maxInterval : ℚ := 600
  fastPollInterval : ℚ := 10

/-- The settings of both tiers, as the constructor leaves them. -/
structure PollerTiers extends PollerSettings where
  awaitingTimeout : ℚ
  fastPollInterval : ℚ
  one_le_pollInterval : 1 ≤ pollInterval
  one_le_safetyFactor : 1 ≤ safetyFactor
  pollInterval_le_maxInterval : pollInterval ≤ maxInterval
  one_le_fastPollInterval : 1 ≤ fastPollInterval
  awaitingTimeout_nonneg : 0 ≤ awaitingTimeout

/-- `PropertyPoller.__init__`, without the empty scheduling state. -/
def PollerArguments.tiers (arguments : PollerArguments) : PollerTiers where
  pollInterval := max 1 arguments.pollInterval
  awaitingTimeout :=
    match arguments.awaitingTimeout with
    | none => max 1 arguments.pollInterval
    | some timeout => max 0 timeout
  safetyFactor := max 1 arguments.safetyFactor
  maxInterval := max (max 1 arguments.pollInterval) arguments.maxInterval
  fastPollInterval := max 1 arguments.fastPollInterval
  one_le_pollInterval := le_max_left _ _
  one_le_safetyFactor := le_max_left _ _
  pollInterval_le_maxInterval := le_max_left _ _
  one_le_fastPollInterval := le_max_left _ _
  awaitingTimeout_nonneg := by
    cases arguments.awaitingTimeout with
    | none => exact zero_le_one.trans (le_max_left _ _)
    | some timeout => exact le_max_left _ _

/-- `_effective_fast_interval` for a device with a state. -/
def PollerTiers.effectiveFastInterval (tiers : PollerTiers) (state : DeviceScheduleState) : ℚ :=
  min (tiers.tierInterval tiers.fastPollInterval state) (tiers.effectiveInterval state)

/-- A state with more failures and a latency that is no lower. No observation is below every latency. -/
instance : Preorder DeviceScheduleState where
  le s t := (∀ ewma ∈ s.latencyEwma, ∃ ewma' ∈ t.latencyEwma, ewma ≤ ewma') ∧
    s.consecutiveFailures ≤ t.consecutiveFailures
  le_refl _ := ⟨fun ewma h => ⟨ewma,h,le_refl _⟩,le_refl _⟩
  le_trans s t u := by
    intro ⟨hst,hfailures⟩ ⟨htu,hfailures'⟩
    refine ⟨fun ewma h => ?_,hfailures.trans hfailures'⟩
    obtain ⟨ewma',h',hle⟩ := hst ewma h
    obtain ⟨ewma'',h'',hle'⟩ := htu ewma' h'
    exact ⟨ewma'',h'',hle.trans hle'⟩

section Tier
variable {settings : PollerSettings} {base : ℚ} {state : DeviceScheduleState}

theorem effectiveInterval_eq (settings : PollerSettings) (state : DeviceScheduleState) :
    settings.effectiveInterval state = settings.tierInterval settings.pollInterval state := rfl

theorem le_slowed : base ≤ settings.slowed base state := by
  rw [PollerSettings.slowed]
  cases state.latencyEwma with
  | none => exact le_refl base
  | some ewma => exact le_max_left _ _

/-- Without a failure the backoff leaves the base, so it may be taken in either case. -/
theorem tierInterval_eq (settings : PollerSettings) (base : ℚ) (state : DeviceScheduleState) :
    settings.tierInterval base state =
      min (max (settings.slowed base state) (state.backedOff base)) settings.maxInterval := by
  by_cases hzero : state.consecutiveFailures = 0
  · have hbase : state.backedOff base = base := by
      rw [DeviceScheduleState.backedOff,hzero,Nat.zero_min,pow_zero,mul_one]
    rw [PollerSettings.tierInterval,if_pos hzero,hbase,max_eq_left le_slowed]
  · rw [PollerSettings.tierInterval,if_neg hzero]

theorem tierInterval_le : settings.tierInterval base state ≤ settings.maxInterval := min_le_right _ _

theorem le_tierInterval (h : base ≤ settings.maxInterval) : base ≤ settings.tierInterval base state := by
  rw [tierInterval_eq]
  exact le_min (le_slowed.trans (le_max_left _ _)) h

theorem slowed_mono_base : Monotone fun base => settings.slowed base state := by
  intro base base' h
  simp only [PollerSettings.slowed]
  cases state.latencyEwma with
  | none => exact h
  | some ewma => exact max_le_max_right _ h

theorem backoff_pos (n : Nat) : 0 < backoffBase^n := pow_pos (by decide) n

theorem backedOff_mono_base : Monotone state.backedOff :=
  fun _ _ h => mul_le_mul_of_nonneg_right h (backoff_pos _).le

/-- A tier with a smaller base has the smaller interval in every state. -/
theorem tierInterval_mono_base : Monotone fun base => settings.tierInterval base state := by
  intro base base' h
  simp only [tierInterval_eq]
  exact min_le_min_right _ (max_le_max (slowed_mono_base h) (backedOff_mono_base h))

theorem slowed_mono (hsafety : 0 ≤ settings.safetyFactor) : Monotone (settings.slowed base) := by
  intro s t h
  cases hs : s.latencyEwma with
  | none =>
    rw [PollerSettings.slowed,hs]
    exact le_slowed
  | some ewma =>
    obtain ⟨ewma',ht,hle⟩ := h.1 ewma hs
    rw [Option.mem_def] at ht
    rw [PollerSettings.slowed,PollerSettings.slowed,hs,ht]
    exact max_le_max_left _ (mul_le_mul_of_nonneg_right hle hsafety)

theorem backedOff_mono (hbase : 0 ≤ base) : Monotone fun s : DeviceScheduleState => s.backedOff base := by
  intro s t h
  have hexponent : min s.consecutiveFailures maxBackoffExponent ≤ min t.consecutiveFailures maxBackoffExponent :=
    min_le_min_right _ h.2
  exact mul_le_mul_of_nonneg_left (pow_le_pow_right₀ (by decide) hexponent) hbase

/-- More failures and a higher latency do not make the interval shorter. -/
theorem tierInterval_mono (hbase : 0 ≤ base) (hsafety : 0 ≤ settings.safetyFactor) :
    Monotone (settings.tierInterval base) := by
  intro s t h
  rw [tierInterval_eq,tierInterval_eq]
  exact min_le_min_right _ (max_le_max (slowed_mono hsafety h) (backedOff_mono hbase h))

end Tier

namespace PollerTiers
variable (tiers : PollerTiers) (state : DeviceScheduleState)

theorem effectiveInterval_bounds :
    tiers.pollInterval ≤ tiers.effectiveInterval state ∧ tiers.effectiveInterval state ≤ tiers.maxInterval := by
  rw [effectiveInterval_eq]
  exact ⟨le_tierInterval tiers.pollInterval_le_maxInterval,tierInterval_le⟩

theorem effectiveInterval_mono : Monotone tiers.effectiveInterval :=
  tierInterval_mono (zero_le_one.trans tiers.one_le_pollInterval) (zero_le_one.trans tiers.one_le_safetyFactor)

/-- Folded down to the normal tier, the fast one is the tier of the smaller base. -/
theorem effectiveFastInterval_eq : tiers.effectiveFastInterval state =
    tiers.tierInterval (min tiers.fastPollInterval tiers.pollInterval) state := by
  rw [effectiveFastInterval,effectiveInterval_eq]
  exact (tierInterval_mono_base.map_min (f := fun base => tiers.tierInterval base state)).symm

theorem effectiveFastInterval_bounds :
    min tiers.fastPollInterval tiers.pollInterval ≤ tiers.effectiveFastInterval state ∧
      tiers.effectiveFastInterval state ≤ tiers.effectiveInterval state := by
  refine ⟨?_,min_le_right _ _⟩
  rw [effectiveFastInterval_eq]
  exact le_tierInterval ((min_le_right _ _).trans tiers.pollInterval_le_maxInterval)

theorem effectiveFastInterval_mono : Monotone tiers.effectiveFastInterval := by
  have hbase : 0 ≤ min tiers.fastPollInterval tiers.pollInterval :=
    zero_le_one.trans (le_min tiers.one_le_fastPollInterval tiers.one_le_pollInterval)
  intro s t h
  rw [effectiveFastInterval_eq,effectiveFastInterval_eq]
  exact tierInterval_mono hbase (zero_le_one.trans tiers.one_le_safetyFactor) h

example : (PollerArguments.tiers {}).effectiveFastInterval {latencyEwma := some 8} = 20 := by decide +kernel

end PollerTiers

end Pyhems.Get
