import ShellSale.Node.Storage
import ShellSale.Program.Interrupt
import ShellSale.Program.Run

/-!
# The end of the program

How the program ends that was run with a command line: its exit code and its log. A run that fails
says so in the log. The first interrupt only adds a line; the second ends the program there and
then.
-/

namespace ShellSale

/-- What is left of the program when it has ended. -/
structure Exit where
  code : Nat
  log : List LogLine
  /-- When the program ended. -/
  time : Nat
  node : Node

namespace Exit

/-- The lines that a run added to the log, each with its moment. -/
def lines (log : List (Nat × Entry Call)) : List (Nat × LogLine) :=
  log.filterMap fun
    | (at_, .line l) => some (at_, l)
    | _ => none

/-- Adds a line behind those that were there at its moment. -/
def insert (at_ : Nat) (l : LogLine) (log : List (Nat × LogLine)) : List (Nat × LogLine) :=
  let (before, after) := log.partition fun entry => entry.1 ≤ at_
  before ++ (at_, l) :: after

/-- How a run ends that nothing cuts short. -/
def ofResult (c : CommandLine) : Except RunFailure Unit → Nat × List LogLine
  | .ok () => (0, [])
  | .error (.error e) => (1, [⟨.error, "❌ " ++ c.phase.title ++ " failed: " ++ e.message⟩])
  | .error (.overflow _) => (101, [])

/-- How a run ends that is interrupted at some moments, earliest first. -/
def ofRun (c : CommandLine) (result : Except RunFailure Unit) (w : World Node Call) :
    List Nat → Exit
  | [] =>
    let (code, last) := ofResult c result
    { code, log := (lines w.log).map (·.2) ++ last, time := w.now, node := w.node }
  | [first] =>
    let (code, last) := ofResult c result
    let log := insert first InterruptWatch.warning (lines w.log)
    { code, log := log.map (·.2) ++ last, time := w.now, node := w.node }
  | first :: second :: _ =>
    let log := (insert first InterruptWatch.warning (lines w.log)).filter (·.1 ≤ second)
    { code := 130
      log := log.map (·.2) ++ [InterruptWatch.farewell]
      time := second
      node := w.node }

end Exit

/-- The connection to a node in memory. -/
def Node.connection (n : Node) : Connection Node where
  client := n.client
  storage := Node.storage
  version := 1
  interruptHandle := n.interruptHandle

/-- The least severity of the lines that are written under a setting for the log. Without one,
everything but the details is written. -/
def LogLine.threshold : Option String → Option Severity
  | none => some .info
  | some text =>
    match text.toLower with
    | "" | "error" => some .error
    | "warn" => some .warn
    | "info" => some .info
    | "debug" | "trace" => some .debug
    | _ => none

/-- Whether a line is written. -/
def LogLine.isWritten (threshold : Option Severity) (l : LogLine) : Bool :=
  threshold.any fun s => l.severity.rank ≤ s.rank

/-- Runs the program with arguments in an environment and a setting for the log, against a node in
memory. A command line that is refused leaves no line in the log. -/
def Exit.ofProgram (arguments : List String) (environment : List (String × String))
    (logSetting : Option String) (s : Surroundings) (n : Node) : Exit :=
  match CommandLine.read arguments environment with
  | .error refusal => { code := refusal.exitCode, log := [], time := 0, node := n }
  | .ok c =>
    let (result, w) := c.run s n.connection { node := n }
    let interrupts := (w.node.interrupts.filter (· ≤ w.now)).mergeSort
    let exit := Exit.ofRun c result w interrupts
    { exit with log := exit.log.filter (·.isWritten (LogLine.threshold logSetting)) }

end ShellSale
