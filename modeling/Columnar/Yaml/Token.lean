import Columnar.Yaml.Mark

/-!
# Tokens

The lexemes of a YAML text, with those that indentation implies: the starts and ends of block
collections. A tag is a handle, if it has one, with the rest behind it.
-/

namespace Columnar.Yaml

/-- An instruction in front of a document. -/
inductive Directive
  | version (major minor : Nat)
  | tag (handle base : String)
  | other
deriving DecidableEq, Repr

/-- What a token is. -/
inductive Lexeme
  | streamEnd
  | directive (d : Directive)
  | documentStart
  | documentEnd
  | blockSequenceStart
  | blockMappingStart
  | blockEnd
  | flowSequenceStart
  | flowSequenceEnd
  | flowMappingStart
  | flowMappingEnd
  | blockEntry
  | flowEntry
  | key
  | value
  | reference (name : String)
  | anchor (name : String)
  | tag (handle : Option String) (suffix : String)
  | scalar (text : String) (plain : Bool)
deriving DecidableEq, Repr

def Lexeme.name : Lexeme → String
  | .streamEnd => "<stream end>"
  | .directive _ => "<directive>"
  | .documentStart => "<document start>"
  | .documentEnd => "<document end>"
  | .blockSequenceStart => "<block sequence start>"
  | .blockMappingStart => "<block mapping start>"
  | .blockEnd => "<block end>"
  | .flowSequenceStart => "["
  | .flowSequenceEnd => "]"
  | .flowMappingStart => "\x7b"
  | .flowMappingEnd => "\x7d"
  | .blockEntry => "-"
  | .flowEntry => ","
  | .key => "?"
  | .value => ":"
  | .reference _ => "<alias>"
  | .anchor _ => "<anchor>"
  | .tag _ _ => "<tag>"
  | .scalar _ _ => "<scalar>"

/-- A lexeme and the position where it starts. -/
structure Token where
  lexeme : Lexeme
  mark : Mark
deriving DecidableEq, Repr

end Columnar.Yaml
