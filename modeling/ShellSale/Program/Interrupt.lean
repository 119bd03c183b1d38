import ShellSale.Text.LogLine

/-!
# Interrupts

The first interrupt raises the abort signal, the second ends the program at once. A watcher of the
interrupts is done with the second one, or when no more can come.
-/

namespace ShellSale

/-- What a watcher of interrupts sees. -/
inductive Signal where
  | interrupt
  /-- No more interrupts will come. -/
  | finished
deriving DecidableEq

/-- A watcher of interrupts. -/
inductive InterruptWatch where
  /-- No interrupt has come. -/
  | calm
  /-- One interrupt has come, and another would end the program. -/
  | warned
  /-- The interrupts ended, with one seen or none. -/
  | released (aborted : Bool)
  /-- A second interrupt has come: the program shall exit. -/
  | leaving
deriving DecidableEq

namespace InterruptWatch

/-- The watcher after one signal. -/
def next : InterruptWatch → Signal → InterruptWatch
  | calm, .interrupt => warned
  | calm, .finished => released false
  | warned, .interrupt => leaving
  | warned, .finished => released true
  | done, _ => done

/-- The watcher after some signals. -/
def after (w : InterruptWatch) (signals : List Signal) : InterruptWatch :=
  signals.foldl next w

/-- Whether the watcher has raised the abort signal. -/
def hasAborted : InterruptWatch → Bool
  | calm => false
  | warned => true
  | released aborted => aborted
  | leaving => true

/-- Whether the watcher is done. -/
def isDone : InterruptWatch → Bool
  | calm | warned => false
  | released _ | leaving => true

/-- Whether the watcher asks the program to exit. -/
def exits (w : InterruptWatch) : Bool :=
  w = leaving

/-- What the watcher tells the log on the first interrupt. -/
def warning : LogLine :=
  ⟨.warn, "🛑 Ctrl-C received, calls not yet submitted will be skipped; press again to exit"⟩

/-- What the program tells the log on the second interrupt. -/
def farewell : LogLine :=
  ⟨.error, "🛑 Second Ctrl-C received, exiting without waiting for confirmations"⟩

/-- What the watcher has told the log. -/
def log (w : InterruptWatch) : List LogLine :=
  if w.hasAborted then [warning] else []

end InterruptWatch

end ShellSale
