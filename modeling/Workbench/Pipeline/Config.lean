/-!
# Modes and settings of a compilation

A mode says what a compilation is for. Settings say how hard it tries, and hold for a pipeline until
they are changed. What can keep a compilation from starting is a `Refusal`; everything that happens
later is part of its result.
-/

namespace Workbench.Pipeline

/-! ### Modes -/

inductive Mode where
  /-- Keeps names and never optimizes. -/
  | debug
  /-- Optimizes, and fails on critical findings. -/
  | release
  /-- Does everything, but its output is never stored. -/
  | test
  /-- Only estimates the gas. -/
  | simulation
  deriving DecidableEq, Repr, Inhabited

namespace Mode

def name : Mode → String
  | debug => "debug"
  | release => "release"
  | test => "test"
  | simulation => "simulation"

def all : List Mode := [debug, release, test, simulation]

/-- The mode of a name in lower case. -/
def ofName? (name : String) : Option Mode :=
  all.find? fun m => m.name == name

theorem ofName?_name (m : Mode) : ofName? m.name = some m := by
  cases m <;> decide

/-- The mode that a user names, in upper or lower case; the error is a message. -/
def parse (text : String) : Except String Mode :=
  let name := text.map Char.toLower
  match ofName? name with
  | some m => .ok m
  | none =>
      .error s!"unknown compilation mode `{name}` (expected debug, release, test or simulation)"

def optimizes (m : Mode) : Bool :=
  m != debug

def keepsNames (m : Mode) : Bool :=
  m == debug

/-- Whether a critical finding fails a build. -/
def failsOnCritical (m : Mode) : Bool :=
  m == release

/-- Whether the output of a successful build is stored. -/
def isStored (m : Mode) : Bool :=
  m == debug || m == release

end Mode

/-! ### Settings -/

structure Config where
  optimizationLevel : Nat
  /-- Whether modules are sealed. -/
  quantumSafety : Bool
  /-- Whether multiplications may become shifts. -/
  gasOptimization : Bool
  /-- Larger sources, in bytes, are not looked at. -/
  maxSourceSize : Nat
  deriving DecidableEq, Repr

namespace Config

/-- The settings that hold unless others are given. -/
def standard : Config := ⟨2, false, false, 1048576⟩

instance : Inhabited Config := ⟨standard⟩

def maxLevel : Nat := 3

end Config

/-- A change of one setting. -/
inductive Setting where
  | level (value : Nat)
  | quantumSafety (value : Bool)
  | gasOptimization (value : Bool)
  deriving DecidableEq, Repr

/-! ### Refusals -/

/-- What keeps a compilation from giving a result at all. -/
inductive Refusal where
  | levelOutOfRange (level : Nat)
  | badConfig (reason : String)
  /-- The directory of a project cannot be walked. -/
  | unreadableProject (path reason : String)
  deriving DecidableEq, Repr, Inhabited

def Refusal.message : Refusal → String
  | levelOutOfRange level => s!"invalid optimization level {level} (expected 0..=3)"
  | badConfig reason => s!"invalid pipeline configuration: {reason}"
  | unreadableProject path reason => s!"failed to walk project directory {path}: {reason}"

namespace Config

/-- The settings themselves, if a compilation can run under them. -/
def validate (c : Config) : Except Refusal Config :=
  if maxLevel < c.optimizationLevel then .error (.levelOutOfRange c.optimizationLevel)
  else if c.maxSourceSize = 0 then .error (.badConfig "max_source_size must be greater than zero")
  else .ok c

/-- Settings under which a compilation can run. -/
def IsValid (c : Config) : Prop :=
  c.optimizationLevel ≤ maxLevel ∧ 0 < c.maxSourceSize

instance (c : Config) : Decidable c.IsValid :=
  inferInstanceAs (Decidable (_ ∧ _))

theorem validate_eq_ok_iff {c d : Config} : c.validate = .ok d ↔ c.IsValid ∧ d = c := by
  unfold validate IsValid
  grind

/-- The settings after a change, which has to be possible. -/
def set (c : Config) : Setting → Except Refusal Config
  | .level value =>
      if maxLevel < value then .error (.levelOutOfRange value)
      else .ok { c with optimizationLevel := value }
  | .quantumSafety value => .ok { c with quantumSafety := value }
  | .gasOptimization value => .ok { c with gasOptimization := value }

/-- The settings after a change; an impossible one changes nothing. -/
def trySet (c : Config) (setting : Setting) : Config :=
  match c.set setting with
  | .ok c => c
  | .error _ => c

theorem IsValid.trySet {c : Config} (h : c.IsValid) (setting : Setting) :
    (c.trySet setting).IsValid := by
  cases setting with
  | level value =>
      by_cases hv : maxLevel < value
      · simpa [Config.trySet, set, hv] using h
      · simp only [Config.trySet, set, hv, if_false]
        exact ⟨Nat.le_of_not_lt hv, h.2⟩
  | quantumSafety value => exact h
  | gasOptimization value => exact h

end Config

/-! ### Requests -/

/-- What to compile. Settings that are not given are those of the pipeline. -/
structure Request where
  source : String
  mode : Mode
  optimizationLevel : Option Nat
  quantumSafety : Option Bool
  gasOptimization : Option Bool
  deriving DecidableEq, Repr, Inhabited

namespace Request

/-- A request that leaves all settings to the pipeline. -/
def plain (source : String) (mode : Mode) : Request :=
  ⟨source, mode, none, none, none⟩

def settings (r : Request) (c : Config) : Config :=
  { c with
    optimizationLevel := r.optimizationLevel.getD c.optimizationLevel
    quantumSafety := r.quantumSafety.getD c.quantumSafety
    gasOptimization := r.gasOptimization.getD c.gasOptimization }

end Request

/-- The level at which the optimizer runs in a mode. -/
def Mode.level (m : Mode) (c : Config) : Nat :=
  if m.optimizes then c.optimizationLevel else 0

end Workbench.Pipeline
