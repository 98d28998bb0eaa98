import Otdel.Core.Error

/-!
# Storage errors
-/

namespace Otdel

/-- `std::io::ErrorKind`, as far as the store tells kinds apart. -/
inductive IoError where
  | notFound
  | alreadyExists
  | other
  deriving DecidableEq, Repr

/-- Why an upload stream stopped before the body was fully read. -/
inductive StreamErrorKind where
  | tooLarge
  | unsupportedContent
  | upstream
  deriving DecidableEq, Repr

structure StreamError where
  kind : StreamErrorKind
  message : String
  deriving DecidableEq, Repr

namespace StreamError

def mkTooLarge (message : String) : StreamError := ⟨.tooLarge, message⟩

def mkUpstream (message : String) : StreamError := ⟨.upstream, message⟩

end StreamError

inductive StorageError where
  | invalidKey (message : String)
  | notFound (key : Text)
  | stream (error : StreamError)
  | io (operation : String) (source : IoError)
  | unavailable (message : String)
  deriving DecidableEq, Repr

end Otdel
