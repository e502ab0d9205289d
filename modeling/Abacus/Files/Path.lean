/-!
# Paths

A path is a text in which slashes separate the names of directories; a path that
starts with a slash is absolute.  Joining and taking parents work on the text and do
not look at any file, so `a/..` is a place inside `a` as far as this module goes.

Empty components and components `.` say nothing and are passed over, except for a `.`
at the very start.
-/

namespace Abacus.Path

/-- Whether a path starts at the root. -/
def isAbsolute (p : String) : Bool := p.toList.head? == some '/'

/-- The path `child` as seen from `base`.  An absolute child stays what it is. -/
def join (base child : String) : String :=
  if isAbsolute child || base.isEmpty then child
  else if base.toList.getLast? == some '/' then base ++ child
  else base ++ "/" ++ child

/-- The start of a path that is no name in a directory: the root or a leading `.`. -/
def splitLead : List Char → List Char × List Char
  | '/' :: cs => (['/'], cs)
  | ['.'] => (['.'], [])
  | '.' :: '/' :: cs => (['.'], '/' :: cs)
  | cs => ([], cs)

/-- Takes the last component off a reversed text, with the slash before it. -/
def takeLast (rev : List Char) : List Char × List Char :=
  (rev.takeWhile (· != '/'), (rev.dropWhile (· != '/')).drop 1)

theorem takeLast_length {rev : List Char} (h : rev ≠ []) :
    (takeLast rev).2.length < rev.length := by
  cases rev with
  | nil => exact absurd rfl h
  | cons c cs =>
      have : ∀ l : List Char, (l.dropWhile (· != '/')).length ≤ l.length := fun l =>
        (List.dropWhile_suffix _).length_le
      unfold takeLast
      by_cases hc : (c != '/') = true
      · have := this cs
        simp only [List.dropWhile_cons, hc, if_true, List.length_drop, List.length_cons]
        omega
      · simp [hc]

/-- Drops the components at the end that say nothing. -/
def trimTail : List Char → List Char
  | [] => []
  | c :: rev =>
      match takeLast (c :: rev), takeLast_length (List.cons_ne_nil c rev) with
      | (name, rest), _ => if name = [] ∨ name = ['.'] then trimTail rest else c :: rev
termination_by rev => rev.length
decreasing_by assumption

/-- The path of the directory that holds the last component, if there is a component.
The directory that holds a bare name is the empty path. -/
def parent? (p : String) : Option String :=
  let (lead, body) := splitLead p.toList
  match trimTail body.reverse with
  | [] => if lead = ['.'] then some "" else none
  | rev => some (String.ofList (lead ++ (trimTail (takeLast rev).2).reverse))

/-- A path, its parent, the parent of that, and so on, as far as a number of steps
goes. -/
def ancestorsWithin : Nat → String → List String
  | 0, p => [p]
  | n + 1, p =>
      p :: match parent? p with
        | some q => ancestorsWithin n q
        | none => []

/-- A path and all its ancestors.  Each parent is shorter than its child, so the length
of the path bounds their number. -/
def ancestors (p : String) : List String := ancestorsWithin p.length p

/-- The texts between the slashes. -/
def split : List Char → List (List Char)
  | [] => [[]]
  | c :: cs =>
      if c = '/' then [] :: split cs
      else
        match split cs with
        | [] => [[c]]
        | name :: names => (c :: name) :: names

end Abacus.Path
