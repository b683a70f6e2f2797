import Columnar.Text.Utf8
import Columnar.Yaml.Mark

/-!
# Why a YAML text is no document stream

A fault of the text has a cause, the position where it shows, and often a context, the construct
that was being read, with the position where that began. Apart from these there are characters
that no text may contain, collections that contain themselves, and constructs that are refused:
they are well-formed, but no document is made of them and no recovery passes over them.
-/

namespace Columnar.Yaml

/-- What was being read when a fault showed. -/
inductive Context
  | simpleKey
  | nextToken
  | directive
  | directiveUri
  | anchor
  | reference
  | tag
  | tagUri
  | blockScalar
  | escape
  | quotedScalar
  | node
  | blockNode
  | flowNode
  | blockCollection
  | blockMapping
  | flowSequence
  | flowMapping
  | firstAnchor (name : String)
  | singleDocument
deriving DecidableEq, Repr

def Context.text : Context → String
  | .simpleKey => "while scanning a simple key"
  | .nextToken => "while scanning for the next token"
  | .directive => "while scanning a directive"
  | .directiveUri => "while parsing a directive"
  | .anchor => "while scanning an anchor"
  | .reference => "while scanning an alias"
  | .tag => "while scanning a tag"
  | .tagUri => "while parsing a tag"
  | .blockScalar => "while scanning a block scalar"
  | .escape => "while scanning a double-quoted scalar"
  | .quotedScalar => "while scanning a quoted scalar"
  | .node => "while parsing a node"
  | .blockNode => "while parsing a block node"
  | .flowNode => "while parsing a flow node"
  | .blockCollection => "while parsing a block collection"
  | .blockMapping => "while parsing a block mapping"
  | .flowSequence => "while parsing a flow sequence"
  | .flowMapping => "while parsing a flow mapping"
  | .firstAnchor name => "found duplicate anchor " ++ Text.quoted name ++ "; first occurrence"
  | .singleDocument => "expected a single document in the stream"

/-- What a lexeme should have gone on with. -/
inductive Wanted
  | wordCharacter
  | digit
  | digitOrPoint
  | digitOrSpace
  | space
  | tagEnd
  | exclamation
  | uri
  | uriEscape
  | escapeDigits (count : Nat)
  | lineEnd
  | blockIndicator
deriving DecidableEq, Repr

/-- What was wanted, in words. -/
def Wanted.text : Wanted → String
  | .wordCharacter => "alphabetic or numeric character"
  | .digit => "a digit"
  | .digitOrPoint => "a digit or '.'"
  | .digitOrSpace => "a digit or ' '"
  | .space => "' '"
  | .tagEnd => "'>'"
  | .exclamation => "'!'"
  | .uri => "URI"
  | .uriEscape => "URI escape sequence of 2 hexadecimal numbers"
  | .escapeDigits count => "escape sequence of " ++ toString count ++ " hexadecimal numbers"
  | .lineEnd => "a comment or a line break"
  | .blockIndicator => "chomping or indentation indicators"

/-- The part of the reading that meets a fault: cutting the text into tokens, arranging these by
the grammar, or joining nodes into a document. -/
inductive Stage
  | tokens
  | grammar
  | composition
deriving DecidableEq, Repr

/-- What is wrong at a position. Tokens are given by their names. -/
inductive Problem
  | keyWithoutColon
  | cannotStart (c : Char)
  | entryNotAllowed
  | keyNotAllowed
  | valueNotAllowed
  | expected (wanted : Wanted) (found : Char)
  | zeroIndentation
  | unknownEscape (c : Char)
  | endOfText
  | documentSeparator
  | uriNotText (fault : Text.Utf8Fault)
  | expectedDocumentStart (found : String)
  | duplicateVersion
  | incompatibleVersion
  | duplicateHandle (handle : String)
  | undefinedHandle (handle : String)
  | expectedContent (found : String)
  | expectedBlockEnd (found : String)
  | expectedSequenceEnd (found : String)
  | expectedMappingEnd (found : String)
  | undefinedReference (name : String)
  | secondAnchor
  | anotherDocument
deriving DecidableEq, Repr

namespace Problem

def stage : Problem → Stage
  | .expectedDocumentStart _ | .duplicateVersion | .incompatibleVersion | .duplicateHandle _
  | .undefinedHandle _ | .expectedContent _ | .expectedBlockEnd _ | .expectedSequenceEnd _
  | .expectedMappingEnd _ => .grammar
  | .undefinedReference _ | .secondAnchor | .anotherDocument => .composition
  | _ => .tokens

def text : Problem → String
  | .keyWithoutColon => "could not find expected ':'"
  | .cannotStart c => "found character " ++ Text.quotedChar c ++ " that cannot start any token"
  | .entryNotAllowed => "sequence entries are not allowed here"
  | .keyNotAllowed => "mapping keys are not allowed here"
  | .valueNotAllowed => "mapping values are not allowed here"
  | .expected wanted found => "expected " ++ wanted.text ++ ", but found " ++ Text.quotedChar found
  | .zeroIndentation => "expected indentation indicator in the range 1-9, but found 0"
  | .unknownEscape c => "found unknown escape character " ++ Text.quotedChar c
  | .endOfText => "found unexpected end of stream"
  | .documentSeparator => "found unexpected document separator"
  | .uriNotText fault => fault.message
  | .expectedDocumentStart found => "expected '<document start>', but found " ++ Text.quoted found
  | .duplicateVersion => "found duplicate YAML directive"
  | .incompatibleVersion => "found incompatible YAML document (version 1.* is required)"
  | .duplicateHandle handle => "duplicate tag handle " ++ Text.quoted handle
  | .undefinedHandle handle => "found undefined tag handle " ++ Text.quoted handle
  | .expectedContent found => "expected the node content, but found " ++ Text.quoted found
  | .expectedBlockEnd found => "expected <block end>, but found " ++ Text.quoted found
  | .expectedSequenceEnd found => "expected ',' or ']', but got " ++ Text.quoted found
  | .expectedMappingEnd found => "expected ',' or '\x7d', but got " ++ Text.quoted found
  | .undefinedReference name => "found undefined alias " ++ Text.quoted name
  | .secondAnchor => "second occurrence"
  | .anotherDocument => "but found another document"

end Problem

/-- A construct that no document is made of. -/
inductive Refusal
  /-- A collection as the key of a mapping. -/
  | collectionKey
  /-- An escape for a code point beyond the last character. -/
  | codePoint
  /-- An escape for a number of 32 bits. -/
  | wideCodePoint
  /-- A version number with more digits than are read. -/
  | longNumber (digits : Nat)
deriving DecidableEq, Repr

def Refusal.message : Refusal → String
  | .collectionKey => "serialize_all() got an unexpected keyword argument 'default_flow_style'"
  | .codePoint => "chr() arg not in range(0x110000)"
  | .wideCodePoint => "Python int too large to convert to C int"
  | .longNumber digits =>
    "Exceeds the limit (4300 digits) for integer string conversion: value has " ++ toString digits
      ++ " digits; use sys.set_int_max_str_digits() to increase the limit"

/-- Why a text is no document stream. -/
inductive Fault
  /-- A character that no text may contain. -/
  | unacceptable (c : Char) (position : Nat)
  /-- A problem at a position, perhaps inside a construct that began before it. -/
  | marked (context : Option Context) (began : Option Mark) (problem : Problem) (place : Mark)
  /-- A collection that contains itself. -/
  | recursive (began : Mark)
  | refused (refusal : Refusal)
deriving DecidableEq, Repr

namespace Fault

def within (context : Context) (began : Mark) (problem : Problem) (place : Mark) : Fault :=
  .marked (some context) (some began) problem place

/-- A problem without a context. -/
def plain (problem : Problem) (place : Mark) : Fault := .marked none none problem place

/-- The fault in words. The position of the context is left out where it is the line and column of
the problem. -/
def describe (source : List Char) : Fault → String
  | .unacceptable c position =>
    "unacceptable character #x" ++ String.ofList (Text.hex 4 c.toNat) ++
      ": special characters are not allowed\n  in \"" ++ Mark.sourceName ++ "\", position " ++
      toString position
  | .marked context began problem place =>
    let shownBegan := began.filter fun m => m.line ≠ place.line ∨ m.column ≠ place.column
    String.intercalate "\n" ((context.map Context.text).toList ++
      (shownBegan.map fun m => m.describe source).toList ++
      [problem.text, place.describe source])
  | .recursive began => "Recursive alias at " ++ began.describe source
  | .refused refusal => refusal.message

end Fault

end Columnar.Yaml
