/-
# Settings

The numbers that govern a machine.  Each of them has to be positive where it is
given; `Settings.rejected?` names the first that is not.
-/

namespace MarkSweep

/-- The settings by name. -/
inductive Setting where
  | stackCapacity
  | initialThreshold
  | growthFactor
  | minThreshold
  | maxObjects
  deriving DecidableEq

namespace Setting

/-- The settings in the order in which they are checked. -/
def all : List Setting :=
  [.stackCapacity, .initialThreshold, .growthFactor, .minThreshold, .maxObjects]

def name : Setting → String
  | .stackCapacity => "stack_capacity"
  | .initialThreshold => "initial_threshold"
  | .growthFactor => "growth_factor"
  | .minThreshold => "min_threshold"
  | .maxObjects => "max_objects"

/-- Why a setting is rejected. -/
def complaint (setting : Setting) : String :=
  s!"{setting.name} must be > 0"

end Setting

/-- The settings of a machine. -/
structure Settings where
  /-- How many roots the stack can hold. -/
  stackCapacity : Nat := 256
  /-- The cell count at which the first collection runs. -/
  initialThreshold : Nat := 8
  /-- The threshold after a collection, as a multiple of the cells that survived. -/
  growthFactor : Nat := 2
  /-- The least threshold a collection may leave. -/
  minThreshold : Nat := 1
  /-- The most cells that may be live at once; absent for no limit. -/
  maxObjects : Option Nat := none
  deriving DecidableEq

namespace Settings

/-- The number given for a setting. -/
def value? (settings : Settings) : Setting → Option Nat
  | .stackCapacity => some settings.stackCapacity
  | .initialThreshold => some settings.initialThreshold
  | .growthFactor => some settings.growthFactor
  | .minThreshold => some settings.minThreshold
  | .maxObjects => settings.maxObjects

/-- The settings with another number for one of them. -/
def assign (settings : Settings) (setting : Setting) (number : Nat) : Settings :=
  match setting with
  | .stackCapacity => { settings with stackCapacity := number }
  | .initialThreshold => { settings with initialThreshold := number }
  | .growthFactor => { settings with growthFactor := number }
  | .minThreshold => { settings with minThreshold := number }
  | .maxObjects => { settings with maxObjects := some number }

/-- The first setting that is zero. -/
def rejected? (settings : Settings) : Option Setting :=
  Setting.all.find? fun setting => settings.value? setting == some 0

/-- Settings are accepted when every number that was given is positive. -/
theorem rejected?_eq_none_iff (settings : Settings) :
    settings.rejected? = none ↔ ∀ setting, settings.value? setting ≠ some 0 := by
  rw [rejected?, List.find?_eq_none]
  constructor
  · intro h setting
    have := h setting (by cases setting <;> simp [Setting.all])
    simpa using this
  · intro h setting _
    simpa using h setting

/-- In settings that are accepted, every number is positive. -/
theorem pos_of_value? {settings : Settings} (h : settings.rejected? = none) (setting : Setting)
    {number : Nat} (hvalue : settings.value? setting = some number) : 0 < number := by
  refine Nat.pos_of_ne_zero fun hzero => ?_
  exact settings.rejected?_eq_none_iff.1 h setting (hzero ▸ hvalue)

end Settings

end MarkSweep
