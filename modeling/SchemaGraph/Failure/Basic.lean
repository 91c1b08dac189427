import SchemaGraph.Json.Basic

/-! Failures of the service that keeps the data models: as it reports them, and reduced to a few
kinds. -/

namespace SchemaGraph

inductive FailureKind where
  | breakingChange
  | dmlError
  | notAuthenticated
  | notAuthorized
  | notFound
  | serverError
  | unknown
  | validation
  deriving DecidableEq

namespace FailureKind

def tag : FailureKind → String
  | .breakingChange => "BREAKING_CHANGE"
  | .dmlError => "DML_ERROR"
  | .notAuthenticated => "NOT_AUTHENTICATED"
  | .notAuthorized => "NOT_AUTHORIZED"
  | .notFound => "NOT_FOUND"
  | .serverError => "SERVER_ERROR"
  | .unknown => "UNKNOWN"
  | .validation => "VALIDATION"

def all : List FailureKind :=
  [.breakingChange, .dmlError, .notAuthenticated, .notAuthorized, .notFound, .serverError,
    .unknown, .validation]

def ofTag? (s : String) : Option FailureKind := all.find? fun k => k.tag = s

end FailureKind

structure DmlLocation where
  column : Nat
  line : Nat
  deriving DecidableEq

structure DmlError where
  hint : Option String
  kind : String
  location : DmlLocation
  message : String
  deriving DecidableEq

structure Failure where
  dmlErrors : List DmlError
  kind : FailureKind
  message : String
  status : Option Nat
  deriving DecidableEq

namespace Failure

def make (kind : FailureKind) (message : String) : Failure := ⟨[], kind, message, none⟩

def dml (message : String) (errors : List DmlError) : Failure :=
  { make .dmlError message with dmlErrors := errors }

def display (f : Failure) : String := f.kind.tag ++ ": " ++ f.message

end Failure

structure Extensions where
  breakingChangeInfo : Option Json

structure ReportedError where
  extensions : Option Extensions
  message : String

def ReportedError.breakingChangeInfo (e : ReportedError) : Option Json :=
  e.extensions.bind Extensions.breakingChangeInfo

/-- A failed response. A property that is absent has its empty value. -/
structure FailedResponse where
  errorMessage : Option String
  errors : List ReportedError
  message : String
  /-- What the request referred to and does not exist. -/
  missing : Option (List (List (String × Json)))
  status : Nat

def FailedResponse.resolvedMessage (r : FailedResponse) : String :=
  match r.errorMessage with
  | some m => if m.isEmpty then r.message else m
  | none => r.message

end SchemaGraph
