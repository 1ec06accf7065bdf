/-!
Requests to a server and its responses, as far as a JSON interface looks at them.
-/

namespace MergeConflict.Http

inductive Method where
  | get
  | head
  | post
  | delete
  | options
  | other (name : String)
deriving DecidableEq, Repr

namespace Method

def ofName : String → Method
  | "GET" => get
  | "HEAD" => head
  | "POST" => post
  | "DELETE" => delete
  | "OPTIONS" => options
  | name => other name

end Method

structure Request where
  method : Method
  /-- A path, perhaps with a query and a fragment behind it, or a whole address. -/
  target : String
  /-- The body, where it is declared to be JSON. -/
  json : Option String
deriving DecidableEq, Repr

namespace Request

/-- A path ends where its query or fragment begins. -/
def pathAt (text : List Char) : List Char :=
  text.takeWhile fun c => c ≠ '?' ∧ c ≠ '#'

/-- The path behind the scheme and the host of a whole address. -/
def pathBehindHost : List Char → List Char
  | ':' :: '/' :: '/' :: rest =>
    match pathAt (rest.dropWhile fun c => c ≠ '/' ∧ c ≠ '?' ∧ c ≠ '#') with
    | [] => ['/']
    | path => path
  | _ => []

def isInScheme (c : Char) : Bool :=
  c.isAlphanum || c == '+' || c == '-' || c == '.'

/-- The path that is asked for. A target that neither begins with a slash nor has a scheme is a host
without a path. -/
def path (request : Request) : List Char :=
  match request.target.toList with
  | '/' :: rest => '/' :: pathAt rest
  | text => pathBehindHost (text.dropWhile isInScheme)

end Request

end MergeConflict.Http
