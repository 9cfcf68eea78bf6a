import Noobs.Spec.Web
import Noobs.Spec.Install

/-!
# Starting programs, and finding file systems

`QProcess::start` is given a command: it splits it into a program and its arguments, and
starts the program if there is one. The exit code of what was never started is 0.

A machine decides by itself what comes of its steps. Here it decides by the programs
there are (`withProcesses`), and `findfs` by the file systems that are attached
(`withFileSystems`).
-/

namespace Noobs

/-! ## Commands -/

/-- `QChar::isSpace`: whitespace and Unicode's separators. -/
def isSeparator (c : Char) : Bool :=
  isSpace c || (0x2000 ≤ c.toNat && c.toNat ≤ 0x200A) ||
    [0xA0, 0x1680, 0x180E, 0x2028, 0x2029, 0x202F, 0x205F, 0x3000].contains c.toNat

/-- The variables of `parseCombinedArgString` in Qt 4's `qprocess.cpp`. -/
structure Splitter where
  args : List Text := []
  tmp : Text := []
  quoteCount : ℕ := 0
  inQuote : Bool := false
  deriving DecidableEq, Repr

/-- The arguments with the current one, if it is not empty. -/
def Splitter.flush (s : Splitter) : List Text := if s.tmp = [] then s.args else s.args ++ [s.tmp]

/-- The body of its loop. Three quotes in a row are the quote itself, a single one begins
or ends a quotation. -/
def Splitter.push (s : Splitter) (c : Char) : Splitter :=
  if c = '"' then
    if s.quoteCount = 2 then { s with quoteCount := 0, tmp := s.tmp ++ [c] }
    else { s with quoteCount := s.quoteCount + 1 }
  else
    let inQuote := if s.quoteCount = 1 then !s.inQuote else s.inQuote
    if !inQuote && isSeparator c then
      { args := s.flush, tmp := [], quoteCount := 0, inQuote := inQuote }
    else { s with tmp := s.tmp ++ [c], quoteCount := 0, inQuote := inQuote }

/-- `parseCombinedArgString`. -/
def parseCombinedArgString (program : Text) : List Text := (program.foldl Splitter.push {}).flush

/-! ## Programs -/

/-- Which programs can be started, and with what they exit, given the whole command line
and how often it was started before. -/
structure Processes where
  startable : Text → Bool
  exit : List Text → ℕ → ℤ

/-- `QProcess::start(command)` starts this program with these arguments. -/
def Processes.Starts (e : Processes) (command program : Text) (args : List Text) : Prop :=
  parseCombinedArgString command = program :: args ∧ e.startable program = true

/-- `QProcess::exitCode()` once a command has finished. -/
def Processes.exitCode (e : Processes) (command : Text) (n : ℕ) : ℤ :=
  match parseCombinedArgString command with
  | [] => 0
  | program :: args => if e.startable program then e.exit (program :: args) n else 0

/-- The machine on which `mkfs` starts these programs. -/
def Machine.withProcesses (m : Machine) (e : Processes) : Machine :=
  { m with outcome := fun s n => match s with
      | .mkfs _ command => { ok := decide (e.exitCode command n = 0) }
      | s => m.outcome s n }

/-! ## File systems -/

/-- The machine to which these file systems are attached after so many steps, as pairs of
a device and a label. -/
def Machine.withFileSystems (m : Machine) (fs : ℕ → List (Text × Text)) : Machine :=
  { m with findfs := fun label n => (fs n).any fun f => f.2 == label }

end Noobs
