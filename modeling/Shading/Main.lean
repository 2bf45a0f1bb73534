import Shading.CommandLine

/-!
    The program.

    It reads its command line, runs the request on the machine that it is started on, and ends with exit
    code 0, or 1 after a failure, or 2 when the command line is wrong. -/

namespace Shading

/-- The number of a cause; some operations give its negative as a word of 32 bits. -/
def causeNumber (code : UInt32) : Nat :=
  if code.toNat < Nat.pow 2 31 then code.toNat else Nat.pow 2 32 - code.toNat

/-- The cause that the machine gives for a refusal. -/
def causeOf : IO.Error → IoCause
  | .noFileOrDirectory .. => .notFound
  | .alreadyExists .. => .alreadyExists
  | .inappropriateType _ code _ => if causeNumber code = 20 then .notFolder else .isFolder
  | .invalidArgument file code details =>
    if causeNumber code = 36 then .nameTooLong
    else .other (toString (IO.Error.invalidArgument file code details))
  | error => .other (toString error)

/-- The machine as a host. -/
def machine : Host IO where
  read path := do
    match ← (IO.FS.readBinFile (String.ofList path)).toBaseIO with
    | .error error => return .error (causeOf error)
    | .ok bytes =>
      match Text.ofBytes? bytes with
      | some s => return .ok s
      | none => return .error .notText
  makeFolder path := do
    match ← (IO.FS.createDir (String.ofList path)).toBaseIO with
    | .error error => return .error (causeOf error)
    | .ok () => return .ok ()
  isFolder path := do
    match ← (IO.FS.readBinFile (String.ofList path)).toBaseIO with
    | .error error => return causeOf error = .isFolder
    | .ok _ => return false
  write path s := do
    match ← (IO.FS.writeBinFile (String.ofList path) s.toBytes).toBaseIO with
    | .error error => return .error (causeOf error)
    | .ok () => return .ok ()
  print s := IO.print (String.ofList s)

end Shading

open Shading

def main (args : List String) : IO UInt32 := do
  match CommandLine.parse (args.map String.toList) with
  | .error error =>
    IO.eprintln ("error: " ++ error.message)
    return 2
  | .ok .version =>
    IO.print versionText
    return 0
  | .ok .help =>
    IO.print helpText
    return 0
  | .ok (.request request) =>
    match ← (run machine request).run with
    | .ok () => return 0
    | .error failure =>
      IO.eprintln (programName ++ " error: " ++ failure.message)
      return 1
