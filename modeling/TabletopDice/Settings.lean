/-
Settings of the service and how environment variables override them.  The case of a
variable's name does not matter, and variables that are not known are ignored.
-/

namespace TabletopDice

structure Settings where
  /-- The most steps that one call may take. -/
  rollCap : Int := 10000
  /-- A seed makes a session reproducible; without one the system's randomness is used. -/
  rngSeed : Option Int := none
  logLevel : String := "INFO"
deriving DecidableEq

/-- A variable that should hold an integer holds something else. -/
structure SettingsError where
  variableName : String
  value : String
deriving DecidableEq

namespace Settings

/-- An integer in plain decimal digits with an optional sign.  Only such plain decimals are
covered; padding, underscores between digits and whatever else a more lenient reader takes for
an integer are none here. -/
def readInt? (text : String) : Option Int :=
  match text.toList with
  | '-' :: digits => natural? digits |>.map fun n => -(n : Int)
  | '+' :: digits => natural? digits |>.map Int.ofNat
  | digits => natural? digits |>.map Int.ofNat
where
  natural? (digits : List Char) : Option Nat :=
    if digits ≠ [] ∧ digits.all Char.isDigit then some (Nat.ofDigitChars 10 digits 0)
    else none

/-- The text of a variable, whose name is given in lower case.  Of several variables with
one name only the last counts, and what the others hold is never read. -/
def text? (environment : List (String × String)) (variableName : String) : Option String :=
  (environment.reverse.find? fun entry =>
    String.ofList (entry.1.toList.map Char.toLower) = variableName).map Prod.snd

/-- The integer that a variable holds, if it is there. -/
def int? (environment : List (String × String)) (variableName : String) :
    Except SettingsError (Option Int) :=
  match text? environment variableName with
  | none => .ok none
  | some value =>
    match readInt? value with
    | some n => .ok (some n)
    | none => .error ⟨variableName, value⟩

/-- The defaults under all overrides. -/
def ofEnvironment (environment : List (String × String)) : Except SettingsError Settings := do
  let defaults : Settings := {}
  let rollCap ← int? environment "mcp_dice_roll_cap"
  let rngSeed ← int? environment "mcp_dice_rng_seed"
  return {
    rollCap := rollCap.getD defaults.rollCap
    rngSeed := rngSeed.or defaults.rngSeed
    logLevel := (text? environment "mcp_dice_log_level").getD defaults.logLevel }

end Settings

end TabletopDice
