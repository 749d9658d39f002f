import Mathlib.Data.List.DropRight
import Mathlib.Tactic.Common

/-!
# Slash-separated paths

`clean` is the shortest path that names the same file by purely lexical steps: empty and `.`
elements go, an inner `..` takes the element before it away, and a `..` at the root is dropped.
-/

namespace Path

/-- Push one element on the reversed list of elements kept so far. -/
def pushElement (rooted : Bool) (kept : List String) (e : String) : List String :=
  if e = "" ∨ e = "." then kept
  else if e = ".." then
    match kept with
    | [] => if rooted then [] else [".."]
    | top :: rest => if top = ".." then ".." :: kept else rest
  else e :: kept

/-- Whether a path starts at the root. -/
def isAbs (path : String) : Bool := path.toList.head? == some '/'

/-- The elements of a path after cleaning. -/
def elements (path : String) : List String :=
  (((path.toList.splitOn '/').map String.ofList).foldl (pushElement (isAbs path)) []).reverse

def clean (path : String) : String :=
  if isAbs path then "/" ++ "/".intercalate (elements path)
  else if elements path = [] then "." else "/".intercalate (elements path)

/-- The last element. -/
def base (path : String) : String :=
  if path = "" then "."
  else
    let stripped := path.toList.rdropWhile (· = '/')
    if stripped = [] then "/" else String.ofList (stripped.rtakeWhile (· ≠ '/'))

end Path
