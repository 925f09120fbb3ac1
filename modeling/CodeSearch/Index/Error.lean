import CodeSearch.Path
import CodeSearch.VectorStore.Basic

/-!
# Errors of an index

Why an operation on files, on an index or on a search fails, and what is said about it.
-/

namespace CodeSearch

/-- Why the file system refuses. -/
inductive FileError where
  /-- There is nothing under that path. -/
  | notFound
  /-- The directory must not be looked into. -/
  | denied
  /-- There is something under that path already. -/
  | alreadyExists
  /-- A part of the path is not a directory. -/
  | notDirectory
  /-- A directory stands where a file was asked for. -/
  | isDirectory
  /-- A name is too long. -/
  | nameTooLong
  /-- A symbolic link leads to too many others. -/
  | tooManyLinks
  /-- A path holds the character that ends a path. -/
  | invalidPath
  deriving DecidableEq, Repr

/-- What is said about a refusal of the file system. -/
def FileError.message : FileError → String
  | .notFound => "No such file or directory (os error 2)"
  | .denied => "Permission denied (os error 13)"
  | .alreadyExists => "File exists (os error 17)"
  | .notDirectory => "Not a directory (os error 20)"
  | .isDirectory => "Is a directory (os error 21)"
  | .nameTooLong => "File name too long (os error 36)"
  | .tooManyLinks => "Too many levels of symbolic links (os error 40)"
  | .invalidPath => "file name contained an unexpected NUL byte"

/-- Why nothing can be retrieved for a query. -/
inductive RetrievalError where
  /-- The query cannot be embedded. -/
  | query (cause : EmbeddingFailure)
  /-- The chunks cannot be searched. -/
  | search (cause : StoreError)
  /-- The chunks of a related file cannot be searched. -/
  | related (cause : StoreError)
  deriving DecidableEq, Repr

/-- Why an operation on an index fails. -/
inductive IndexError where
  /-- A file cannot be read. -/
  | file (cause : FileError)
  /-- The store refuses. -/
  | storage (cause : StoreError)
  /-- A text cannot be embedded. -/
  | embedding (cause : EmbeddingFailure)
  /-- A query has no answer. -/
  | retrieval (cause : RetrievalError)
  /-- A chunk has a vector of another length than the first one. -/
  | unequal (chunk : String) (expected actual : Nat)
  /-- A directory was asked for. -/
  | notDirectory (path : Path)
  /-- A file lies outside the directory that is indexed. -/
  | outside (path root : Path)
  deriving DecidableEq, Repr

/-- What is said about a store that refuses. -/
def storageMessage (e : StoreError) : String := "storage error: " ++ e.message

/-- What is said about a retrieval that fails. -/
def RetrievalError.message : RetrievalError → String
  | .query cause => "query embedding failed: " ++ cause.reason
  | .search cause => "chunk search failed: " ++ storageMessage cause
  | .related cause => "related chunk search failed: " ++ storageMessage cause

/-- What is said about an error. -/
def IndexError.message : IndexError → String
  | .file cause => "IO error: " ++ cause.message
  | .storage cause => storageMessage cause
  | .embedding cause => "embedding failed: " ++ cause.reason
  | .retrieval cause => "retrieval failed: " ++ cause.message
  | .unequal chunk expected actual =>
    "chunk " ++ chunk ++ " has " ++ toString actual ++ " dimensions, expected " ++ toString expected
  | .notDirectory path => path.text ++ " is not a directory"
  | .outside path root => path.text ++ " is outside " ++ root.text

end CodeSearch
