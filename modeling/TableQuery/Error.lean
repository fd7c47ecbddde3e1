import TableQuery.Json.Fault

/-! # Errors

An error is a cause with the contexts that were added on its way out, innermost first. Its kind and
wording are functions of the cause. A sequence of steps that may fail succeeds if each of its parts
does. -/

namespace TableQuery

inductive ErrorKind where
  | emptyParameterName
  | missingColumn
  | invalidIdentifier
  | duplicateColumn
  | missingArgument
  | unexpectedArgument
  | io
  | json
deriving DecidableEq, Repr

def ErrorKind.describe : ErrorKind → String
  | .emptyParameterName => "empty parameter name"
  | .missingColumn => "missing column"
  | .invalidIdentifier => "invalid identifier"
  | .duplicateColumn => "duplicate column"
  | .missingArgument => "missing argument"
  | .unexpectedArgument => "unexpected argument"
  | .io => "I/O"
  | .json => "JSON"

inductive Bearer where
  | table
  | column (table : String)
deriving DecidableEq, Repr

inductive KeyClause where
  | primary
  | foreign
deriving DecidableEq, Repr

def KeyClause.describe : KeyClause → String
  | .primary => "PRIMARY KEY"
  | .foreign => "FOREIGN KEY"

inductive ErrorCause where
  | emptyParameterName (offset : Nat) (query : String)
  | missingArgument (parameter : String)
  | unexpectedArgument (argument query : String)
  /-- A name that is no identifier, and what it was to name if that is known. -/
  | invalidIdentifier (name : String) (bearer : Option Bearer)
  | duplicateColumn (column table : String)
  | undeclaredKey (clause : KeyClause) (column table : String)
  | undeclaredColumn (column table : String)
  | noColumns (table : String)
  | io (text : String)
  /-- A text that is not what was to be read; `located` says whether the way to the fault is told. -/
  | json (complaint : Json.Complaint) (located : Bool)
  /-- An error that a caller states by itself. -/
  | stated (kind : ErrorKind) (text : String)
deriving DecidableEq, Repr

def identifierFormat : String := "^[_a-zA-Z][_a-zA-Z0-9]*$"

namespace ErrorCause

def kind : ErrorCause → ErrorKind
  | .emptyParameterName .. => .emptyParameterName
  | .missingArgument .. => .missingArgument
  | .unexpectedArgument .. => .unexpectedArgument
  | .invalidIdentifier .. => .invalidIdentifier
  | .duplicateColumn .. => .duplicateColumn
  | .undeclaredKey .. => .missingColumn
  | .undeclaredColumn .. => .missingColumn
  | .noColumns .. => .missingColumn
  | .io .. => .io
  | .json .. => .json
  | .stated kind _ => kind

def message : ErrorCause → String
  | .emptyParameterName offset query =>
    "Parameter sigil $ at byte " ++ toString offset ++ " is not followed by a name in query " ++ query
  | .missingArgument parameter => "No argument for parameter $" ++ parameter
  | .unexpectedArgument argument query =>
    "Argument " ++ argument ++ " does not match any parameter of query " ++ query
  | .invalidIdentifier name bearer =>
    (match bearer with
      | none => ""
      | some .table => "Table " ++ name ++ " is invalid, "
      | some (.column table) => "Column " ++ name ++ " of table " ++ table ++ " is invalid, ") ++
    "Identifier " ++ Text.quoted name ++ " does not satisfy the format " ++ identifierFormat
  | .duplicateColumn column table => "Column " ++ column ++ " is declared twice in table " ++ table
  | .undeclaredKey clause column table =>
    clause.describe ++ " column " ++ column ++ " is not declared in the schema of table " ++ table
  | .undeclaredColumn column table => "Column " ++ column ++ " is not declared in table " ++ table
  | .noColumns table => "No columns given for a grouped reference to table " ++ table
  | .io text => "I/O error, " ++ text
  | .json complaint false => "JSON formatting error " ++ complaint.message
  | .json complaint true => "JSON deserialization error " ++ complaint.messageWithPath
  | .stated _ text => text

end ErrorCause

structure Error where
  cause : ErrorCause
  contexts : List String := []
deriving DecidableEq, Repr

namespace Error

def kind (e : Error) : ErrorKind := e.cause.kind

/-- The wording of the cause, then each context after a comma. -/
def message (e : Error) : String :=
  e.cause.message ++ String.join (e.contexts.map (", " ++ ·))

def inContext (e : Error) (context : String) : Error := { e with contexts := e.contexts ++ [context] }

def render (e : Error) : String := "Error (" ++ e.kind.describe ++ "), " ++ e.message

@[simp] theorem kind_inContext (e : Error) (context : String) : (e.inContext context).kind = e.kind :=
  rfl

theorem message_inContext (e : Error) (context : String) :
    (e.inContext context).message = e.message ++ ", " ++ context := by
  simp [message, inContext, String.join_append, String.append_assoc]

end Error

def inContext {α : Type} (context : String) : Except Error α → Except Error α
  | .ok a => .ok a
  | .error e => .error (e.inContext context)

section
variable {ε α β : Type} {x : Except ε α} {f : α → Except ε β}

theorem bind_eq_ok_iff {b : β} : x >>= f = .ok b ↔ ∃ a, x = .ok a ∧ f a = .ok b := by
  cases x <;> simp [bind, Except.bind]

/-- A check that is passed hands on nothing. -/
theorem check_bind_eq_ok_iff {x : Except ε Unit} {f : Unit → Except ε β} {b : β} :
    x >>= f = .ok b ↔ x = .ok () ∧ f () = .ok b := by
  rw [bind_eq_ok_iff]
  exact ⟨fun ⟨_, hx, h⟩ => ⟨hx, h⟩, fun ⟨hx, h⟩ => ⟨(), hx, h⟩⟩

/-- After a check that is all there is to fail, what is given is settled. -/
theorem check_bind_pure_eq_ok_iff {x : Except ε Unit} {a b : β} :
    (x >>= fun _ => pure a) = .ok b ↔ x = .ok () ∧ b = a := by
  rw [check_bind_eq_ok_iff, eq_comm (a := b)]
  exact and_congr_right fun _ => iff_of_eq (Except.ok.injEq a b)

theorem check_bind_pure_eq_error_iff {x : Except ε Unit} {a : β} {e : ε} :
    (x >>= fun _ => pure a) = .error e ↔ x = .error e := by
  cases x <;> simp [bind, Except.bind, pure, Except.pure]

end

end TableQuery
