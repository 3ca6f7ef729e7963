import CallAtlas.Command.Performance
import CallAtlas.Store.Image

/-!
# The program

Runs a command on the disk of the machine. Everything that is decided is decided
elsewhere; here files are opened, and what is said is printed.
-/

namespace CallAtlas.Machine

/-- A program on the machine. It keeps the locks that it holds. -/
abbrev Host := StateT (List (Path × IO.FS.Handle)) IO

def fault (code : UInt32) (words : String) : Disk.Fault :=
  match code.toNat with
  | 2 => .notFound
  | 16 => .busy
  | 17 => .occupied
  | 20 => .notADirectory
  | 21 => .isADirectory
  | 36 => .nameTooLong
  | code => .system s!"{words} (os error {code})"

def faultOf : IO.Error → Disk.Fault
  | .noFileOrDirectory _ code words => fault code words
  | .alreadyExists _ code words => fault code words
  | .inappropriateType _ code words => fault code words
  | .invalidArgument _ code words => fault code words
  | .permissionDenied _ code words => fault code words
  | .resourceBusy code words => fault code words
  | .resourceExhausted _ code words => fault code words
  | .noSuchThing _ code words => fault code words
  | .otherError code words => fault code words
  | .illegalOperation code words => fault code words
  | why => .system (toString why)

def usePath (p : Path) (action : IO α) : IO (Except Disk.Fault α) := do
  match Disk.pathFault? p with
  | some why => return .error why
  | none =>
      try return .ok (← action)
      catch why => return .error (faultOf why)

def canOpen (p : Path) : IO Bool := do
  return (← usePath p (IO.FS.Handle.mk p.text .read)).toOption.isSome

def lock (p : Path) : IO (Except Disk.Fault (Option IO.FS.Handle)) :=
  usePath p do
    let handle ← IO.FS.Handle.mk p.text .append
    return if ← handle.tryLock then some handle else none

def readText (p : Path) : IO (Except Disk.Fault String) := do
  match ← usePath p (IO.FS.readBinFile p.text) with
  | .error why => return .error why
  | .ok bytes =>
      match String.fromUTF8? bytes with
      | some text => return .ok text
      | none => return .error .notText

def openDatabase (p : Path) : IO (Except Store.Fault Store.Database) := do
  match ← usePath p (IO.FS.readBinFile p.text) with
  | .ok bytes => return Store.Image.read bytes
  | .error .isADirectory => return .error .unreadable
  | .error _ => return .error (.cannotOpen p.text)

instance : MonadDisk Host where
  has p := canOpen p
  hasDirectory p := canOpen (p.child ".")
  readText p := readText p
  openDatabase p := if Store.Database.isTransient p.text then pure (.ok .void) else openDatabase p
  makeDirectory p := usePath p (IO.FS.createDir p.text)
  writeText p content := usePath p (IO.FS.writeFile p.text content)
  appendText p more := usePath p (IO.FS.withFile p.text .append (·.putStr more))
  rename p q := usePath p (IO.FS.rename p.text q.text)
  lock p := do
    match ← lock p with
    | .ok (some handle) =>
        modify ((p, handle) :: ·)
        return .ok true
    | .ok none => return .ok false
    | .error why => return .error why
  unlock p := do
    for (q, handle) in ← get do
      if q = p then handle.unlock
    modify (·.filter (·.1 ≠ p))
  makeScratch := do
    try return .ok ⟨toString (← IO.FS.createTempDir)⟩
    catch why => return .error (faultOf why)
  dropScratch p := do
    try IO.FS.removeDirAll p.text
    catch _ => return

def environment : IO Settings.Environment := do
  Command.environmentNames.filterMapM fun name => do
    return (← IO.getEnv name).map (name, ·)

def run (args : List String) : IO UInt32 := do
  let started ← IO.monoNanosNow
  let env ← environment
  let theme : Console.Theme := if ← (← IO.getStdout).isTty then .colored else .plain
  let input : Host String := do (← IO.getStdin).readToEnd
  let (answer, _) ← (Command.run args env theme input : Host Answer).run []
  IO.print answer.transcript.out
  IO.eprint answer.transcript.err
  if answer.isTimed then
    let elapsed := (← IO.monoNanosNow) - started
    IO.print (Console.Voice.timing ⟨false, theme⟩ (Console.duration elapsed))
  return answer.exit.toUInt32

end CallAtlas.Machine

def main (args : List String) : IO UInt32 :=
  CallAtlas.Machine.run args
