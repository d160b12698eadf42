import LivePlayback.Console

/-!
# The command line

Reads the files that are named, prints the console's lines as they come and sleeps between two
connections. It runs until it is interrupted.
-/

namespace LivePlayback.CommandLine
set_option autoImplicit false

def ioFault (e : IO.Error) : IoFault :=
  match e with
  | .noFileOrDirectory _ _ _ => .notFound
  | e => ⟨.other, toString e⟩

def readFile (path : String) : IO (Except IoFault ByteArray) := do
  try return .ok (← IO.FS.readBinFile path)
  catch e => return .error (ioFault e)

/-- The files that are named, read once. -/
def readFiles (paths : List String) : IO (String → Except IoFault ByteArray) := do
  let files ← paths.mapM fun path => do return (path, ← readFile path)
  return fun path => (files.lookup path).getD (.error .notFound)

partial def run (c : Console) : IO UInt32 := do
  let (lines, next, c) := c.round
  for line in lines do
    IO.println line.text
  (← IO.getStdout).flush
  match next with
  | .again => run c
  | .sleep t =>
    IO.sleep ((Instant.ceilMilli (t - c.now)) / nanosPerMilli).toUInt32
    run { c with now := t }
  | .stopped =>
    IO.println c.finish.1.text
    return 0
  | .broken => return 101

end LivePlayback.CommandLine

open LivePlayback in
def main (args : List String) : IO UInt32 := do
  match Console.start args (← CommandLine.readFiles (args.take 2)) with
  | .error fault =>
    (← IO.getStderr).putStr fault.message
    return fault.code.toUInt32
  | .ok c => CommandLine.run c
