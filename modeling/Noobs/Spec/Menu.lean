import Noobs.Spec.Install
import Noobs.Spec.Parse

/-!
# The menu

The loop of `BootManager::run` (`recovery/BootManager.cpp`) that takes numbers from the
console where there is to be no server.

What `operator>>` leaves in the selection where it fails, how far a `QTextStream` reads
behind the end of a line, and what comes of the downloads are parameters.
-/

namespace Noobs

/-! ## The console -/

/-- What is left to be read from `stdin`, and whether `std::cin` is in its fail state. -/
structure Console where
  input : Text
  failed : Bool := false
  deriving DecidableEq, Repr

/-- What is left behind the number a text begins with. -/
def behindNumber (text : Text) : Text :=
  let text := text.dropWhile isSpace
  let text := if text.head? = some '-' ∨ text.head? = some '+' then text.tail else text
  text.dropWhile Char.isDigit

/-- `std::cin >> selection`. In the fail state nothing is read. -/
def Console.extract (c : Console) : Option ℤ × Console :=
  if c.failed then (none, c)
  else match stoi c.input with
    | .ok n => (some n, { c with input := behindNumber c.input })
    | .error _ => (none, { input := behindNumber c.input, failed := true })

/-- `QTextStream::readLine`, on a stream that is made for one line: the line, and what the
stream has left. -/
structure LineReader where
  readLine : Text → Text × Text
  suffix : ∀ input, (readLine input).2 <:+ input

def LineReader.read (r : LineReader) (c : Console) : Text × Console :=
  ((r.readLine c.input).1, { c with input := (r.readLine c.input).2 })

/-! ## The loop -/

/-- The parameters of the loop; `raspbian` is what comes of the operating system that
`Utility::Debug::getRaspbianJSON` describes. -/
structure Menu where
  I : IntType
  sys : Sysfs
  reader : LineReader
  /-- The selection behind an extraction that failed, by the one before it. -/
  onFail : Console → ℤ → ℤ
  raspbian : Attempt OSInfo

inductive MenuEnd where
  | left
  | rebooted
  | crashed (f : Fault)
  deriving DecidableEq, Repr

/-- The selection and the console behind `std::cin >> selection`. -/
def Menu.select (menu : Menu) (console : Console) (selection : ℤ) : ℤ × Console :=
  match console.extract with
  | (some n, console) => (n, console)
  | (none, console') => (menu.onFail console selection, console')

/-- The selection 4, which ends the loop however the installation does. -/
def Menu.installRaspbian (menu : Menu) : Sys (Option MenuEnd) := do
  newInstallManager
  match menu.raspbian with
  | .done os =>
    let _ ← installOS menu.I menu.sys (.new menu.I menu.sys) os
    return some .left
  | .invalid => return some .left
  | .crashed f => return some (.crashed f)
  | .unanswered => return none

/-- So many iterations of the loop; `none` while it still runs. -/
def Menu.run (menu : Menu) : (fuel : ℕ) → Console → (selection : ℤ) → Sys (Option MenuEnd)
  | 0, _, _ => return none
  | fuel + 1, console, selection =>
    let (selection, console) := menu.select console selection
    if selection = 1 then do
      if ← bootIntoPartition [] then return some .rebooted
      else menu.run fuel console selection
    else if selection = 2 then do
      let (line, console) := menu.reader.read console
      if ← bootIntoPartition line then return some .rebooted
      else menu.run fuel console selection
    else if selection = 3 then do
      let (line, console) := menu.reader.read console
      let _ ← setDefaultBootPartition line
      menu.run fuel console selection
    else if selection = 4 then menu.installRaspbian
    else if selection = 5 then return some .left
    else menu.run fuel console selection

end Noobs
