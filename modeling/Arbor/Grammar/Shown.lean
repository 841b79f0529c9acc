import Arbor.Grammar
import Arbor.Text.Quoted

namespace Arbor.Grammar

open Text (quoted)

def shownProduction : Production → String
  | none => "None"
  | some word => quoted word

def shownRule (rule : CodePoint × Production) : String :=
  quoted [rule.1] ++ ": " ++ shownProduction rule.2

def shown (g : Grammar) : String :=
  "LSystemGenerator(rules=\x7b" ++ String.intercalate ", " (g.rules.map shownRule) ++ "\x7d)"

end Arbor.Grammar
