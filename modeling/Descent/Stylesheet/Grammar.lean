import Descent.Rule.Parse
import Descent.Text.Space
import Descent.Value.Inspect

namespace Descent.Stylesheet

def regex (source : String) (h : (Regex.parse? source.toList).isSome = true) : Rule :=
  .token (.ofRegex source h)

def comment : Rule := regex "/\\*[\\s\\S]*?\\*/" (by decide)

/-- White space and comments. -/
def trivia : Rule := .discard (.repeated (.choice [regex "\\s+" (by decide), comment]))

/-- A rule with trivia on both sides. -/
def lexeme (r : Rule) : Rule := .enclosed trivia r trivia

/-- A rule whose text is trimmed. -/
def trimmed (r : Rule) : Rule := .mapped r fun v =>
  .ok (.text (String.ofList (Text.trim (v.asText?.getD "").toList)))

def selector : Rule := trimmed (regex "[^\\s\x7b\x7d,;/][^\x7b\x7d,;/]*" (by decide))

def selectors : Rule := .label (.separated (lexeme selector) .comma false) "selector"

def property : Rule := .label (regex "-?[_a-zA-Z][_a-zA-Z0-9-]*" (by decide)) "property"

def value : Rule := .label (trimmed (regex "(?:[^;\x7b\x7d!/]|/[^*])+" (by decide))) "value"

def important : Rule := regex "!\\s*important" (by decide)

/-- The map of a declaration from its property, colon and value, and the mark of importance if it
has one. -/
def declarationMap (v : Value) : Except String Value :=
  match v.toList with
  | .text property :: _ :: .text value :: marks => .ok (.map [
      ("property", .text (String.ofList (property.toList.map Char.toLower))),
      ("value", .text value),
      ("important", .bool !marks.isEmpty)])
  | parts => .error s!"malformed declaration with {parts.length} parts"

def declaration : Rule := .mapped
  (.sequence [lexeme property, .literal ":", lexeme value, .optional (lexeme important)])
    declarationMap

def declarations : Rule := .mapped
  (.optional (.separated declaration (lexeme (.literal ";")) true)) fun v => .ok (.list v.toList)

def block : Rule :=
  .enclosed (lexeme (.literal "\x7b")) declarations (lexeme (.literal "\x7d"))

/-- The map of a rule from its selectors and declarations. -/
def ruleMap (v : Value) : Except String Value :=
  match v.toList with
  | [.list ss, .list ds] => .ok (.map [("selectors", .list ss), ("declarations", .list ds)])
  | parts => .error ("malformed rule: selectors " ++ Value.inspectOption parts[0]? ++
      ", declarations " ++ Value.inspectOption parts[1]?)

def styleRule : Rule := .mapped (.sequence [selectors, block]) ruleMap

/-- Comments may stand wherever white space may.

    stylesheet   = rule*
    rule         = selector ("," selector)* "{" declarations "}"
    declarations = (declaration (";" declaration)* ";"?)?
    declaration  = property ":" value ("!" "important")?
-/
def stylesheet : Rule := .enclosed trivia (.repeated styleRule) .endOfInput

/-- Parses a complete stylesheet. -/
def parse (text : String) (limits : Limits) : Parsed Value :=
  stylesheet.parseAllWith .empty text limits

end Descent.Stylesheet
