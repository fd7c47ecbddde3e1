import TableQuery.Query.Scan

/-! # The items of a query

A query read as a sequence of items: ordinary characters, quoted literals, and sigils with the names
that follow them. `Divides items query` says that `query` is written by `items`, each as long as it
can be. -/

namespace TableQuery.Query

inductive Item where
  | plain (c : Char)
  /-- A literal without its quotes; only the end of the query leaves one open. -/
  | literal (quote : Char) (body : List Char) (closed : Bool)
  | mention (name : List Char)
deriving DecidableEq, Repr

namespace Item

def chars : Item → List Char
  | .plain c => [c]
  | .literal quote body closed => quote :: body ++ (if closed then [quote] else [])
  | .mention name => sigil :: name

def Formed : Item → Prop
  | .plain c => isQuote c = false ∧ c ≠ sigil
  | .literal quote body _ => isQuote quote = true ∧ quote ∉ body
  | .mention name => ∀ c ∈ name, endsName c = false

/-- What may follow an item: an open literal has nothing after it, and a name goes on up to a
character that ends it. -/
def Stops (rest : List Char) : Item → Prop
  | .literal _ _ false => rest = []
  | .mention _ => ∀ c ∈ rest.head?, endsName c = true
  | _ => True

end Item

/-- `Divides items query`: the query is the items one after the other, each well formed and followed
by what may follow it. -/
inductive Divides : List Item → List Char → Prop where
  | nil : Divides [] []
  | cons {item : Item} {items : List Item} {rest : List Char} (formed : item.Formed)
      (stops : item.Stops rest) (tail : Divides items rest) : Divides (item :: items) (item.chars ++ rest)

end TableQuery.Query
