import Descent.Cursor
import Descent.Grammar.Store
import Descent.Text.Quoted

namespace Descent

def Cursor.inspect (c : Cursor) : String :=
  s!"Input \x7b offset: {c.offset}, rest: " ++ String.ofList (Text.Quoted.debug c.after) ++ " \x7d"

def Registry.inspect (g : Registry) : String :=
  let names := g.keys.map fun n => String.ofList (Text.Quoted.debug n.toList)
  "Grammar \x7b rules: [" ++ ", ".intercalate names ++ "] \x7d"

end Descent
