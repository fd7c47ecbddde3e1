import TableQuery.Command.Run

/-! # The program

Reads the words of the command line and gives `Command.perform` access to the environment, the files and
the standard input. Lines go to the standard output, log records to the standard error. -/

namespace TableQuery.Program

open Command

def usage : String :=
  "Generate CREATE TABLE statements and list the parameters of SQL queries.\n\n" ++
  "ddl FILE [--strict]             print the statement of every table defined in a JSON file\n" ++
  "params QUERY [--arg NAME=VALUE] print the parameters of a query, one per line\n"

/-- The system's words for a failed access, with their number. -/
def reason : IO.Error → String
  | .alreadyExists _ code text | .interrupted _ code text | .noFileOrDirectory _ code text
  | .invalidArgument _ code text | .permissionDenied _ code text | .resourceExhausted _ code text
  | .inappropriateType _ code text | .noSuchThing _ code text | .otherError code text
  | .resourceBusy code text | .resourceVanished code text | .unsupportedOperation code text
  | .hardwareFault code text | .unsatisfiedConstraints code text | .illegalOperation code text
  | .protocolError code text | .timeExpired code text => text ++ " (os error " ++ toString code ++ ")"
  | .unexpectedEof => "unexpected end of file"
  | .userError text => text

partial def readStream (stream : IO.FS.Stream) (before : ByteArray) : IO ByteArray := do
  let bytes ← stream.read 65536
  if bytes.isEmpty then return before else readStream stream (before ++ bytes)

/-- What is read, or the system's words when that fails. -/
def attempt (read : IO ByteArray) : IO (Except String ByteArray) := do
  try
    return .ok (← read)
  catch e => return .error (reason e)

def readStandardInput : IO (Except String ByteArray) := attempt do readStream (← IO.getStdin) .empty

def readFile (name : String) : IO (Except String ByteArray) := attempt (IO.FS.readBinFile name)

def readSetting (name : String) : IO (Option ByteArray) := return (← IO.getEnv name).map String.toUTF8

def report (o : Outcome) : IO UInt32 := do
  let verbosity := Verbosity.ofSetting (← IO.getEnv logVariable)
  IO.print o.output
  for line in o.logLines verbosity do IO.eprintln line
  return UInt32.ofNat o.exitCode

def run (words : List String) : IO UInt32 := do
  match readLine words with
  | .ok request => report (← perform readStandardInput readFile readSetting request)
  | .error .help => IO.print usage; return 0
  | .error (.version command) => IO.println (versionLine command); return 0
  | .error _ => IO.eprint usage; return 1

end TableQuery.Program

def main (words : List String) : IO UInt32 := TableQuery.Program.run words
