import WideColumn.Expr.Print
import WideColumn.Expr.Token
import WideColumn.Expr.Column
import WideColumn.Operation
import WideColumn.Options.Describe

/-!
# Errors

A service refuses a request with a code and a message. Everything else that can go wrong is the
caller's: options, filters and names that do not fit, which are found before anything is sent, and
an answer of another kind than the operation calls for.
-/

namespace WideColumn

/-! ### Refusals of a service -/

/-- Why a service refuses a request. -/
inductive ErrorCode where
  /-- A parameter is invalid. -/
  | parameterInvalid
  /-- A write condition is not met. -/
  | conditionCheckFail
  /-- A table or index does not exist. -/
  | objectNotExist
  /-- A table exists already. -/
  | objectAlreadyExist
  /-- The server is busy. -/
  | serverBusy
  /-- The server took too long. -/
  | timeout
  /-- A partition is not available. -/
  | partitionUnavailable
  /-- A quota is exhausted. -/
  | quotaExhausted
  /-- Another write of the row was in the way. -/
  | rowOperationConflict
  /-- A transaction does not exist. -/
  | sessionNotExist
  /-- The caller is not who it claims to be. -/
  | authFailed
  /-- The server failed. -/
  | internalServerError
  /-- The server was not reached. -/
  | connectionError
deriving DecidableEq

instance : Inhabited ErrorCode := ⟨.parameterInvalid⟩

instance : Enumeration ErrorCode where
  members := [.parameterInvalid, .conditionCheckFail, .objectNotExist, .objectAlreadyExist,
    .serverBusy, .timeout, .partitionUnavailable, .quotaExhausted, .rowOperationConflict,
    .sessionNotExist, .authFailed, .internalServerError, .connectionError]
  name
    | .parameterInvalid => "OTSParameterInvalid"
    | .conditionCheckFail => "OTSConditionCheckFail"
    | .objectNotExist => "OTSObjectNotExist"
    | .objectAlreadyExist => "OTSObjectAlreadyExist"
    | .serverBusy => "OTSServerBusy"
    | .timeout => "OTSTimeout"
    | .partitionUnavailable => "OTSPartitionUnavailable"
    | .quotaExhausted => "OTSQuotaExhausted"
    | .rowOperationConflict => "OTSRowOperationConflict"
    | .sessionNotExist => "OTSSessionNotExist"
    | .authFailed => "OTSAuthFailed"
    | .internalServerError => "OTSInternalServerError"
    | .connectionError => "ConnectionError"

/-- The name of a code. -/
def ErrorCode.name (c : ErrorCode) : String := Enumeration.name c

/-- Whether the same request may succeed later. -/
def ErrorCode.isRetryable : ErrorCode → Bool
  | serverBusy | timeout | partitionUnavailable | quotaExhausted | rowOperationConflict
  | internalServerError | connectionError => true
  | _ => false

/-- A refusal. -/
structure ServiceError where
  /-- Why. -/
  code : ErrorCode
  /-- In words. -/
  message : String
  /-- What caused it, in words. -/
  cause : Option String := none
deriving DecidableEq, Inhabited

namespace ServiceError

/-- A refusal whose message is the name of its code. -/
def ofCode (code : ErrorCode) : ServiceError := ⟨code, code.name, none⟩

/-- An invalid parameter. -/
def parameterInvalid (message : String) : ServiceError := ⟨.parameterInvalid, message, none⟩

/-- A condition that is not met. -/
def conditionCheckFailed (message : String) : ServiceError := ⟨.conditionCheckFail, message, none⟩

/-- A missing table or index. -/
def objectNotExist (message : String) : ServiceError := ⟨.objectNotExist, message, none⟩

/-- A table that exists already. -/
def objectAlreadyExist (message : String) : ServiceError := ⟨.objectAlreadyExist, message, none⟩

/-- A failure of the server. -/
def internalError (message : String) : ServiceError := ⟨.internalServerError, message, none⟩

/-- A missing transaction. -/
def noTransaction (id : String) : ServiceError :=
  ⟨.sessionNotExist, s!"transaction {id} does not exist", none⟩

/-- A missing table. -/
def noTable (name : String) : ServiceError := objectNotExist s!"table {name} does not exist"

/-- The refusal with what caused it. -/
def withCause (e : ServiceError) (cause : String) : ServiceError := { e with cause := some cause }

/-- Whether the same request may succeed later. -/
def isRetryable (e : ServiceError) : Bool := e.code.isRetryable

/-- The refusal as shown in messages. -/
def text (e : ServiceError) : String := s!"TransportError({e.code.name}): {e.message}"

end ServiceError

/-! ### All errors -/

/-- What can go wrong with a call. -/
inductive Error where
  /-- A word that says nothing about the existence of a row. -/
  | invalidExistence (word : String)
  /-- A column token that cannot be read. -/
  | invalidColumn (token : String) (fault : ColumnFault)
  /-- A variable without a value. -/
  | unboundVariable (name : String) (comparison : Comparison)
  /-- A filter text that cannot be read. -/
  | invalidExpression (fault : SyntaxFault)
  /-- A value that is no return type. -/
  | invalidReturnType (value : OptionValue)
  /-- A value that is no direction. -/
  | invalidDirection (value : OptionValue)
  /-- A word that is no kind of write. -/
  | invalidOperationKind (word : String)
  /-- A value that is no time range. -/
  | invalidTimeRange (value : OptionValue)
  /-- A value that does not fit its option. -/
  | invalidOption (key : String) (value : OptionValue)
  /-- An instance that is not registered. -/
  | unknownInstance (name : String)
  /-- An answer of another kind than the operation calls for. -/
  | unexpectedResponse (operation : Operation) (received : String)
  /-- A refusal of the service. -/
  | service (e : ServiceError)
deriving Inhabited

namespace Error

/-- Whether the error is the caller's. -/
def isCaller : Error → Bool
  | service _ => false
  | _ => true

/-- The error as shown in messages. -/
def text : Error → String
  | invalidExistence word => s!"Invalid row existence: {word}"
  | invalidColumn token fault => s!"Invalid filter expression: {fault.text} in column '{token}'"
  | unboundVariable name comparison =>
    s!"Unbound variable '{name}' in expression: {Expr.comparisonText comparison}"
  | invalidExpression fault => s!"Invalid expression: {fault.text}"
  | invalidReturnType value => s!"Invalid return type: {Describe.wordOrValue value}"
  | invalidDirection value => s!"Invalid direction: {Describe.wordOrValue value}"
  | invalidOperationKind word => s!"Invalid operation kind: {word}"
  | invalidTimeRange value => s!"Invalid time range: {Describe.wordOrValue value}"
  | invalidOption key value => s!"Invalid value for option '{key}': {Describe.kindAndValue value}"
  | unknownInstance name => s!"Unknown instance: {name}"
  | unexpectedResponse operation received =>
    s!"Unexpected response for {operation.name}: got {received}"
  | service e => e.text

end Error

end WideColumn
