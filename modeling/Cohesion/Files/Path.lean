/-!
Paths as text. A path is an optional head, which is the root or a leading dot, and pieces between
slashes. Empty pieces and further dots do not count as components. The parent of a path is the
longest beginning of its text that lacks the last component and ends in no slash or dot that does
not count.
-/

namespace Cohesion.Path

def splitHead : List Char → List Char × List Char
  | '/' :: rest => (['/'], rest)
  | ['.'] => (['.'], [])
  | '.' :: '/' :: rest => (['.'], '/' :: rest)
  | text => ([], text)

def isVoid (piece : List Char) : Bool := piece = [] || piece = ['.']

/-- The pieces without those at the end that are no component. -/
def trimEnd (list : List (List Char)) : List (List Char) :=
  (list.reverse.dropWhile isVoid).reverse

/-- The path without its last component; a root or an empty path has none. -/
def parent? (path : String) : Option String :=
  let (head, body) := splitHead path.toList
  match (trimEnd (body.splitOn '/')).reverse with
  | _ :: before =>
      some (String.ofList (head ++ List.intercalate ['/'] (trimEnd before.reverse)))
  | [] => if head = ['.'] then some "" else none

/-- The path and its parents, nearest first, at most the given number of them. -/
def ancestors : Nat → String → List String
  | 0, _ => []
  | limit + 1, path =>
      path :: match parent? path with
        | some parent => ancestors limit parent
        | none => []

def join (directory name : String) : String :=
  if directory = "" ∨ directory.toList.getLast? = some '/' then directory ++ name
  else directory ++ "/" ++ name

end Cohesion.Path
