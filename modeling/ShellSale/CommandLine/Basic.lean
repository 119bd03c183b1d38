import ShellSale.CommandLine.Setting
import ShellSale.Sale.Phase

/-!
# The command line

A command line is options and then the phase to run. Words are read from left to right, so the first
mistake counts; but the value of an option is looked at only when the next option comes, or at the
end of the line.
-/

namespace ShellSale

/-- What a word of the command line looks like. -/
inductive Word where
  /-- The mark behind which nothing is an option. -/
  | separator
  /-- An option, perhaps with its value behind an equals sign. -/
  | long (name : String) (value : Option String)
  /-- One-letter options, of which the first counts. -/
  | short (letter : Char)
  | plain (text : String)
deriving DecidableEq

namespace Word

/-- A word by its look. -/
def ofText (text : String) : Word :=
  match text.toList with
  | ['-', '-'] => .separator
  | '-' :: '-' :: rest =>
    let (name, value) := rest.span (· ≠ '=')
    .long (String.ofList name) (if value.isEmpty then none else some (String.ofList (value.drop 1)))
  | '-' :: letter :: _ => .short letter
  | _ => .plain text

end Word

/-- What is known in the middle of a command line. -/
structure CommandReading where
  settings : Settings := {}
  /-- The settings that have their values. -/
  given : List Setting := []
  /-- The option named last, with its value if it has come. -/
  pending : Option (Setting × Option String) := none

namespace CommandReading

/-- Gives a setting its value, which it must not have yet. -/
def give (r : CommandReading) (s : Setting) (value : String) : Except Refusal CommandReading := do
  if s ∈ r.given then throw .repeated
  return { r with settings := ← r.settings.set s value, given := s :: r.given }

/-- Looks at the option named last. -/
def settle (r : CommandReading) : Except Refusal CommandReading :=
  match r.pending with
  | none => .ok r
  | some (_, none) => .error .valueMissing
  | some (s, some value) => give { r with pending := none } s value

/-- The setting whose value is the next word that is no option. -/
def awaited? (r : CommandReading) : Option Setting :=
  match r.pending with
  | some (s, none) => some s
  | _ => none

/-- Ends a command line with a request, if all is well with the options before it. -/
def request (r : CommandReading) (refusal : Refusal) : Except Refusal CommandReading := do
  discard r.settle
  throw refusal

/-- Reads an option. -/
def long (r : CommandReading) (name : String) (value : Option String) :
    Except Refusal CommandReading := do
  match Setting.ofOption? name, value with
  | some s, some value => (← r.settle).give s value
  | some s, none => return { ← r.settle with pending := some (s, none) }
  | none, value =>
    if name ≠ "help" ∧ name ≠ "version" then throw .unknownArgument
    else if value.isSome then throw .valueNotWanted
    else r.request (if name = "help" then .help else .version)

/-- Reads a one-letter option. -/
def short (r : CommandReading) : Char → Except Refusal CommandReading
  | 'h' => r.request .help
  | 'V' => r.request .version
  | _ => .error .unknownArgument

/-- What becomes of a request for help with the words behind it: at most one, and a phase or a
request itself. -/
def helpAbout : List String → Refusal
  | [] => .help
  | [word] => if (PhaseName.ofText? word).isSome ∨ word = "help" then .help else .unknownPhase
  | _ => .unknownPhase

/-- Checks the words behind the phase: there may only be a request for help. -/
def behindPhase : List String → Except Refusal Unit
  | [] => .ok ()
  | word :: rest =>
    match Word.ofText word with
    | .separator => if rest.isEmpty then .ok () else .error .unknownArgument
    | .long "help" none => .error .help
    | .long "help" (some _) => .error .valueNotWanted
    | .short 'h' => .error .help
    | _ => .error .unknownArgument

/-- Reads words up to the end of the line. -/
def words (r : CommandReading) : List String →
    Except Refusal (CommandReading × Option PhaseName)
  | [] => .ok (r, none)
  | word :: rest =>
    match Word.ofText word with
    | .separator => if rest.isEmpty then .ok (r, none) else .error .unknownArgument
    | .long name value => do words (← r.long name value) rest
    | .short letter => do words (← r.short letter) rest
    | .plain text =>
      match r.awaited? with
      | some s => words { r with pending := some (s, some text) } rest
      | none =>
        match PhaseName.ofText? text with
        | some phase => do
          behindPhase rest
          return (r, some phase)
        | none => .error (if text = "help" then helpAbout rest else .unknownPhase)

/-- Takes settings that were not given from the environment. -/
def fill (r : CommandReading) (environment : List (String × String)) :
    Except Refusal CommandReading :=
  Setting.all.foldlM (fun r s =>
    match environment.lookup s.variableName with
    | some value => if s ∈ r.given then .ok r else r.give s value
    | none => .ok r) r

end CommandReading

/-- A command line that can be carried out. -/
structure CommandLine where
  phase : PhaseName
  settings : Settings

/-- Reads the arguments of the program in an environment. -/
def CommandLine.read (arguments : List String) (environment : List (String × String)) :
    Except Refusal CommandLine := do
  let (r, phase) ← CommandReading.words {} arguments
  let r ← (← r.settle).fill environment
  match phase with
  | some phase => return { phase, settings := r.settings }
  | none => throw (if r.given.isEmpty then .nothingGiven else .phaseMissing)

end ShellSale
