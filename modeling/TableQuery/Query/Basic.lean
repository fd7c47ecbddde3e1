import TableQuery.Query.Scan
import TableQuery.Query.Value

/-! # Queries and their arguments

A query is its text with the set of parameters that the text mentions. Arguments fit a query if their
names, with or without the sigil, are exactly its parameters. -/

namespace TableQuery

structure Query where
  text : String
  parameters : NameSet
deriving DecidableEq

namespace Query

def ofText (text : String) : Except Error Query :=
  match scan text.toList with
  | .ok parameters => .ok ⟨text, parameters⟩
  | .error offset => .error ⟨.emptyParameterName offset text, []⟩

/-- A name without its sigil, if it starts with one. -/
def dropSigil (name : String) : String :=
  match name.toList with
  | c :: cs => if c = sigil then String.ofList cs else name
  | [] => name

/-- Checks argument names: the least parameter that is not given comes first, then the least name
that is no parameter. -/
def checkNames (q : Query) (names : List String) : Except Error Unit :=
  let given := NameSet.ofList (names.map dropSigil)
  match q.parameters.firstOutside? given with
  | some parameter => .error ⟨.missingArgument parameter, []⟩
  | none =>
    match given.firstOutside? q.parameters with
    | some name => .error ⟨.unexpectedArgument name q.text, []⟩
    | none => .ok ()

/-- Checks arguments; their values do not matter. -/
def checkArguments (q : Query) (arguments : List (String × Value)) : Except Error Unit :=
  q.checkNames (arguments.map (·.1))

def argumentsOfDocument : Json.Document → Except Error (List (String × Value))
  | .object members =>
    members.mapM fun (name, d) =>
      match Value.ofDocument? d with
      | some v => .ok (name, v)
      | none => .error ⟨.json Value.noSuchValue false, []⟩
  | d => .error ⟨.json ⟨.unexpectedType d.found "a map", none, []⟩ false, []⟩

def describeParameters (q : Query) : String :=
  "Query " ++ q.text ++ " expects parameters \x7b" ++
    String.intercalate ", " (q.parameters.toList.map Text.quoted) ++ "\x7d"

end Query

end TableQuery
