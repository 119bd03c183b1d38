import ShellSale.Account.Keyring
import ShellSale.Endpoint.Basic

/-!
# Settings

What can be set on the command line or in the environment, and its defaults. A setting that the
command line does not mention is taken from the environment.
-/

namespace ShellSale

/-- Why a command line is not carried out. -/
inductive Refusal where
  /-- Help was asked for. -/
  | help
  /-- The version was asked for. -/
  | version
  /-- Nothing was given at all. -/
  | nothingGiven
  | phaseMissing
  | unknownPhase
  | unknownArgument
  /-- A setting was given twice. -/
  | repeated
  /-- An option has no value, or the path of the plan is empty. -/
  | valueMissing
  /-- A request for help or for the version has a value. -/
  | valueNotWanted
  /-- A value that makes no sense for its setting. -/
  | malformedValue
deriving DecidableEq

namespace Refusal

/-- The exit code of the program. To have asked for help or for the version is no mistake. -/
def exitCode : Refusal → Nat
  | help | version => 0
  | _ => 2

end Refusal

/-- What can be set. -/
inductive Setting where
  | endpoint
  | plan
  | confirmationTimeout
  | rootKey
  | userKey
  | overlordKey
  | overloadKey
  | charlieKey
  | davidKey
  | eveKey
  | ferdieKey
deriving DecidableEq

namespace Setting

/-- All settings, in the order in which the environment is looked through. -/
def all : List Setting :=
  [endpoint, plan, confirmationTimeout, rootKey, userKey, overlordKey, overloadKey, charlieKey,
    davidKey, eveKey, ferdieKey]

/-- The name of the option. -/
def option : Setting → String
  | endpoint => "endpoint"
  | plan => "plan"
  | confirmationTimeout => "confirmation-timeout-secs"
  | rootKey => "root-privkey"
  | userKey => "user-privkey"
  | overlordKey => "overlord-privkey"
  | overloadKey => "overload-privkey"
  | charlieKey => "charlie-privkey"
  | davidKey => "david-privkey"
  | eveKey => "eve-privkey"
  | ferdieKey => "ferdie-privkey"

/-- The name of the environment variable. -/
def variableName : Setting → String
  | endpoint => "ENDPOINT"
  | plan => "SALE_PLAN"
  | confirmationTimeout => "CONFIRMATION_TIMEOUT_SECS"
  | rootKey => "ROOT_PRIVKEY"
  | userKey => "USER_PRIVKEY"
  | overlordKey => "OVERLORD_PRIVKEY"
  | overloadKey => "OVERLOAD_PRIVKEY"
  | charlieKey => "CHARLIE_PRIVKEY"
  | davidKey => "DAVID_PRIVKEY"
  | eveKey => "EVE_PRIVKEY"
  | ferdieKey => "FERDIE_PRIVKEY"

/-- The setting with an option. -/
def ofOption? (name : String) : Option Setting :=
  all.find? fun s => s.option == name

end Setting

/-- The values of all settings. -/
structure Settings where
  endpoint : Endpoint :=
    { scheme := "ws"
      authority := some { host := some (.v4 [127, 0, 0, 1]), service := some 9944 }
      route := .segments [""] }
  /-- The path of the plan; the plan of the defaults is carried out without one. -/
  plan : Option String := none
  /-- In seconds. -/
  confirmationTimeout : Nat := 120
  keys : SecretUris := {}

namespace Settings

/-- A number of seconds that fits into 64 bits. A plus sign may stand before it. -/
def seconds? (text : String) : Option Nat :=
  let digits := match text.toList with
    | '+' :: digits => digits
    | digits => digits
  if digits.isEmpty || !digits.all Char.isDigit then none
  else
    let n := digits.foldl (fun n c => n * 10 + (c.toNat - 48)) 0
    if n < UInt64.size then some n else none

/-- Gives a setting its value. -/
def set (s : Settings) : Setting → String → Except Refusal Settings
  | .endpoint, value =>
    match Endpoint.read? value with
    | some endpoint => .ok { s with endpoint }
    | none => .error .malformedValue
  | .plan, value =>
    if value.isEmpty then .error .valueMissing else .ok { s with plan := some value }
  | .confirmationTimeout, value =>
    match seconds? value with
    | some n => .ok { s with confirmationTimeout := n }
    | none => .error .malformedValue
  | .rootKey, value => .ok { s with keys := { s.keys with root := value } }
  | .userKey, value => .ok { s with keys := { s.keys with user := value } }
  | .overlordKey, value => .ok { s with keys := { s.keys with overlord := some value } }
  | .overloadKey, value => .ok { s with keys := { s.keys with overload := some value } }
  | .charlieKey, value => .ok { s with keys := { s.keys with charlie := value } }
  | .davidKey, value => .ok { s with keys := { s.keys with david := value } }
  | .eveKey, value => .ok { s with keys := { s.keys with eve := value } }
  | .ferdieKey, value => .ok { s with keys := { s.keys with ferdie := value } }

end Settings

end ShellSale
