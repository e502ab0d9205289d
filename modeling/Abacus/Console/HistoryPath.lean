import Abacus.Text.Blank
import Abacus.Files.Path

/-!
# Where the line history is kept

The history file is `.zappac/repl_history` in the home directory unless the user names
another.  A name that is not absolute is looked up in the home directory, whether it
starts with `~/` or not, and `~` is that directory.  Without a home directory only an
absolute name leads anywhere.
-/

namespace Abacus.Console

/-- The path of the history file, given the home directory and the name chosen by the
user. -/
def historyPath? (home chosen : Option String) : Option String :=
  let name := Text.trim (chosen.getD "")
  if name.isEmpty then home.map fun h => Path.join (Path.join h ".zappac") "repl_history"
  else if name = "~" then home
  else
    match name.toList with
    | '~' :: '/' :: rest => home.map fun h => Path.join h (String.ofList rest)
    | _ => if Path.isAbsolute name then some name else home.map fun h => Path.join h name

end Abacus.Console
