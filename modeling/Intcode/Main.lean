import Intcode.CommandLine

/-!
# The program

Model of `main`: it reads the arguments and the source, and prints the response. What the response
is is decided by `CommandLine.reply`, which this follows. The log is filtered as it is by default; a
filter that the environment asks for is not read. A chain whose machines wait for each other is
given up with a message here.
-/

namespace Intcode.CommandLine

/-- More steps than any run can take in practice. -/
def ampleFuel : Nat := 0x4000000000000000

/-- An error of the operating system, whose number may come negated. -/
def SourceError.ofCode (code : UInt32) (details : String) : SourceError :=
  .system details.capitalize (if code < 0x80000000 then code.toNat else (0 - code).toNat)

/-- An error met while reading. -/
def SourceError.ofSystem : IO.Error → SourceError
  | .noFileOrDirectory _ code details => .ofCode code details
  | .inappropriateType _ code details => .ofCode code details
  | .permissionDenied _ code details => .ofCode code details
  | .invalidArgument _ code details => .ofCode code details
  | .resourceExhausted _ code details => .ofCode code details
  | .otherError code details => .ofCode code details
  | other => .system (toString other) 0

/-- Everything that a stream still has. -/
partial def readAll (stream : IO.FS.Stream) (before : ByteArray) : IO ByteArray := do
  let bytes ← stream.read 65536
  if bytes.isEmpty then return before else readAll stream (before ++ bytes)

/-- The bytes of a source. -/
def Source.read : Source → IO ByteArray
  | standardInput => do readAll (← IO.getStdin) ByteArray.empty
  | file path => IO.FS.readBinFile path

/-- The text of a source, or why there is none. -/
def Source.readText (source : Source) : IO (Except SourceError String) := do
  try
    return decodeText (← source.read)
  catch error =>
    return .error (.ofSystem error)

/-- Prints a response. -/
def Response.print (response : Response) : IO UInt32 := do
  (← IO.getStdout).putStr response.stdout
  (← IO.getStderr).putStr response.stderr
  return response.status.toUInt32

end Intcode.CommandLine

open Intcode CommandLine in
/-- Answers the request that the arguments make, or refuses them. -/
def main (arguments : List String) : IO UInt32 := do
  match Request.ofArguments? arguments with
  | none => (Response.refusal arguments).print
  | some request =>
    match respond .standard ampleFuel request (← request.source.readText) with
    | some response => response.print
    | none => (Response.failure "" "the run does not end").print
