import TreeQuery.Failure
import TreeQuery.Query.Parse

/-!
# Error codes

Every failure of a command has a code that scripts can rely on, and some have a suggestion of what
to do next.
-/

namespace TreeQuery.Command

inductive ErrorCode where
  | configInvalid
  | queryNotFound
  | queryInvalid
  | mutationUnsupported
  | relationNotFound
  | relationAmbiguous
  | tableNotFound
  | databaseError
  | fileReadError
  | fileWriteError
  | invalidInput
  | missingArgument
  deriving DecidableEq, Repr

namespace ErrorCode

def text : ErrorCode → String
  | .configInvalid => "CONFIG_INVALID"
  | .queryNotFound => "QUERY_NOT_FOUND"
  | .queryInvalid => "QUERY_INVALID"
  | .mutationUnsupported => "MUTATION_UNSUPPORTED"
  | .relationNotFound => "RELATION_NOT_FOUND"
  | .relationAmbiguous => "RELATION_AMBIGUOUS"
  | .tableNotFound => "TABLE_NOT_FOUND"
  | .databaseError => "DATABASE_ERROR"
  | .fileReadError => "FILE_READ_ERROR"
  | .fileWriteError => "FILE_WRITE_ERROR"
  | .invalidInput => "INVALID_INPUT"
  | .missingArgument => "MISSING_ARGUMENT"

def ofQueries : List ErrorCode :=
  [.queryInvalid, .relationNotFound, .relationAmbiguous, .mutationUnsupported, .databaseError]

/-- What to do after a query failed, empty when there is nothing to say. -/
def suggestion : ErrorCode → String
  | .queryInvalid => "Run 'sgq parse' to inspect how the query is read"
  | .relationNotFound => "Run 'sgq schema <table>' to list the foreign keys of a table"
  | .relationAmbiguous => "Several foreign keys join these tables; query the join column directly"
  | .mutationUnsupported => "Mutations need a database with RETURNING (sqlite or postgres)"
  | _ => ""

def suggestionFor (code : String) : String :=
  match ofQueries.find? fun c => c.text == code with
  | some c => c.suggestion
  | none => ""

def ofFailure : Failure → ErrorCode
  | .relation (.notFound _ _) => .relationNotFound
  | .relation (.ambiguous _ _ _) => .relationAmbiguous
  | .noAttributes _ => .queryInvalid
  | .returningUnsupported _ => .mutationUnsupported
  | .store _ => .databaseError
  | .undecodable _ => .databaseError

def ofQueryError : Query.QueryError → ErrorCode
  | .parse _ => .queryInvalid
  | .template _ => .databaseError

end ErrorCode

end TreeQuery.Command
