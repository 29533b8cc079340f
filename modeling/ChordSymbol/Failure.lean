import ChordSymbol.Refusal

/-! Why work around the interpreter fails: slash chords, settings and files. -/
namespace ChordSymbol

/-- Why a file cannot be read or made. -/
inductive FileError
  | notFound
  | notDirectory
  | isDirectory
  | denied
  | badName
  | nameTooLong
  | notText
  | other (text : String)
  deriving DecidableEq

def FileError.message : FileError → String
  | notFound => "No such file or directory (os error 2)"
  | notDirectory => "Not a directory (os error 20)"
  | isDirectory => "Is a directory (os error 21)"
  | denied => "Permission denied (os error 13)"
  | badName => "file name contained an unexpected NUL byte"
  | nameTooLong => "File name too long (os error 36)"
  | notText => "stream did not contain valid UTF-8"
  | other text => text

inductive Failure
  | chord (reason : Refusal)
  | invalidBass (symbol bass : String)
  | file (path : String) (cause : FileError)
  | malformedSettings
  deriving DecidableEq

def Failure.message : Failure → String
  | chord reason => reason.message
  | invalidBass symbol bass => s!"Invalid bass note '{bass}' in '{symbol}'"
  | file path cause => s!"Could not read '{path}': {cause.message}"
  | malformedSettings => "Invalid config: malformed document"

/-- A refusal among failures. -/
def Failure.ofRefusal {α : Type} : Except Refusal α → Except Failure α
  | .ok a => .ok a
  | .error e => .error (.chord e)

end ChordSymbol
