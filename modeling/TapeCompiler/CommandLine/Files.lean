import TapeCompiler.Text.Utf8

/-! Files, as far as the command reads and writes them. -/

namespace TapeCompiler.CommandLine

inductive FileFault where
  | notFound
  | notDirectory
  | isDirectory
  | nameTooLong
  | invalidText
  | other (text : String)
deriving DecidableEq, Repr

def FileFault.message : FileFault → String
  | notFound => "No such file or directory (os error 2)"
  | notDirectory => "Not a directory (os error 20)"
  | isDirectory => "Is a directory (os error 21)"
  | nameTooLong => "File name too long (os error 36)"
  | invalidText => "stream did not contain valid UTF-8"
  | other text => text

/-- How to read a file, and whether one can be written. -/
structure Disk where
  read : String → Except FileFault (List UInt8)
  canWrite : String → Except FileFault Unit

def Disk.readText (d : Disk) (path : String) : Except FileFault String :=
  match d.read path with
  | .error e => .error e
  | .ok bytes =>
    match Utf8.decode? bytes with
    | some s => .ok s
    | none => .error .invalidText

end TapeCompiler.CommandLine
