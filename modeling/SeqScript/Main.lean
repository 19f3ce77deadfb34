import SeqScript.CommandLine.Run

/-!
# The command line program

Reads the files an invocation names, runs it and carries its outcome out.
-/

namespace SeqScript.CommandLine

/-- The text of a file, or why it cannot be read. -/
def fetch (file : String) : IO (Except String String) := do
  try return .ok (← IO.FS.readFile file)
  catch e => return .error (toString e)

/-- The files an invocation names, as they are now. -/
def snapshot (i : Invocation) : IO Files := do
  let names := i.config.toList ++ [i.input]
  let texts ← names.mapM fun name => return (name, ← fetch name)
  return ⟨fun name => (texts.lookup name).getD (.error "not read"), fun _ => none⟩

/-- Writes the file of an outcome; a refusal makes it a failure. -/
def settle (o : Outcome) : IO Outcome := do
  match o.written with
  | none => return o
  | some (file, text) =>
    try
      IO.FS.writeFile file text
      return o
    catch e => return { failed ⟨"writing " ++ file, [toString e]⟩ with warnings := o.warnings }

def perform (words : List String) : IO Outcome := do
  match read (← IO.getEnv "SEQCODEC_CONFIG") words with
  | .error stop => return stopped stop
  | .ok i => settle (run (← snapshot i) i)

end SeqScript.CommandLine

def main (words : List String) : IO UInt32 := do
  let o ← SeqScript.CommandLine.perform words
  for w in o.warnings do IO.eprintln ("WARN " ++ w.line)
  IO.print o.stdout
  IO.eprint o.stderr
  return o.code.toUInt32
