import Otdel.Db.Sql
import Otdel.Storage.Error

/-!
# Errors as the client sees them
-/

namespace Otdel

/-- A contract error, optionally with a `Retry-After` hint. -/
structure ApiError where
  inner : AppError
  retryAfter : Option ℕ := none
  deriving DecidableEq, Repr

namespace ApiError

def new (inner : AppError) : ApiError := ⟨inner, none⟩

def unauthorized : ApiError := new (.unauthorized "authentication required")

def notFound (message : String) : ApiError := new (.notFound message)

def ofDbError (error : DbError) : ApiError := new error.toAppError

def ofStorageError : StorageError → ApiError
  | .stream ⟨.tooLarge, message⟩ => new (.new .payloadTooLarge message)
  | .stream ⟨.unsupportedContent, message⟩ => new (.new .unsupportedMediaType message)
  | .stream ⟨.upstream, _⟩ =>
      new (.new .badRequest "the upload was interrupted before the file was fully received")
  | .notFound _ => new (.internal "the stored original is currently unavailable")
  | .invalidKey _ => new (.internal "internal server error")
  | .unavailable _ => new (.unavailable "file storage is not available right now")
  | .io _ _ => new (.unavailable "file storage is not available right now")

end ApiError

end Otdel
