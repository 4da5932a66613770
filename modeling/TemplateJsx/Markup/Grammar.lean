import TemplateJsx.Markup.Rule
import TemplateJsx.Peg.Pattern

/-!
# The grammar of component markup

A template is a run of nodes: control-flow blocks, other blocks, comments,
elements, expression tags and text.  White space counts everywhere, so every gap
is written out.

Expressions are not understood, only delimited: they run as far as their
brackets balance, and string and template literals are taken whole so that
brackets inside them never count.
-/

namespace TemplateJsx.Markup

open Peg (Pattern Grammar)
open Peg.Pattern

abbrev Pat := Pattern Rule

def lit (word : String) : Pat := .literal word.toList

/-- The characters of a word, its letters in either case. -/
def anyCase (word : String) : Pat := .caseless word.toList

def anything : Pat := .one fun _ => true

def oneOf (chars : String) : Pat := .one fun c => chars.toList.contains c

/-- Any character, unless one of the patterns matches where it stands. -/
def anythingBut (stops : List Pat) : Pat :=
  .sequence (.unless (firstOf stops)) anything

/-! ## Characters -/

/-- The white space that may separate the parts of a tag.  It is less than the
white space that trimming knows. -/
def blank : Pat := oneOf " \t\r\n"

def blanks : Pat := .many blank

def gap : Pat := many1 blank

def letter : Pat := .one Char.isAlpha

def nameChar : Pat := .one fun c => c.isAlphanum || "-:._".toList.contains c

def identifierChar : Pat := .one fun c => c.isAlphanum || c == '_' || c == '$'

def identifier : Pat :=
  .sequence (.one fun c => c.isAlpha || c == '_' || c == '$')
    (.many identifierChar)

/-! ## Expressions -/

/-- A character after a backslash, or any character but the closing quote and a
line break. -/
def quotedChar (quote : String) : Pat :=
  .choice (.sequence (lit "\\") anything)
    (anythingBut [lit quote, lit "\n", lit "\r"])

/-- A string literal in single or double quotes, which may not run over the end
of its line. -/
def stringLiteral : Pat :=
  firstOf
    [seq [lit "\"", .many (quotedChar "\""), lit "\""],
      seq [lit "'", .many (quotedChar "'"), lit "'"]]

/-- A run of balanced stretches between two brackets. -/
def bracketed (opening closing : String) : Pat :=
  seq [lit opening, .many (.rule .balanced), lit closing]

/-- A template literal.  What it interpolates has to balance by itself; brackets
in its text do not count. -/
def templateLiteral : Pat :=
  seq
    [lit "`",
      .many (firstOf
        [.sequence (lit "\\") anything, bracketed "$\x7b" "\x7d",
          anythingBut [lit "`"]]),
      lit "`"]

/-- One balanced stretch: a literal, a bracketed run or a character that is no
bracket.  An expression is a row of them. -/
def balanced : Pat :=
  firstOf [stringLiteral, templateLiteral, bracketed "\x7b" "\x7d",
    bracketed "(" ")", bracketed "[" "]", anythingBut [oneOf "\x7b\x7d()[]"]]

/-- Balanced stretches up to the first one that begins where `stop` matches.  A
stop inside brackets or a literal is passed over. -/
def balancedUntil (stop : Pat) : Pat :=
  many1 (.sequence (.unless stop) (.rule .balanced))

/-- A binding: a destructuring pattern or an identifier. -/
def binding : Pat :=
  firstOf [bracketed "\x7b" "\x7d", bracketed "[" "]", identifier]

/-- An expression tag, perhaps an empty one.  The characters that begin tags of
blocks may not follow its brace. -/
def mustache : Pat :=
  seq [lit "\x7b", .unless (oneOf "#:/"),
    .optional (.rule .expression), lit "\x7d"]

/-! ## Elements -/

def attributes : Pat := .many (.sequence gap (.rule .attr))

/-- An attribute: an expression tag, or a name that may have a value. -/
def attr : Pat :=
  .choice (.rule .mustache)
    (.sequence (.rule .attributeName)
      (.optional (seq [blanks, lit "=", blanks, .rule .attributeValue])))

def attributeName : Pat := many1 (anythingBut [blank, oneOf "=>/\x7b\x7d\"'"])

def attributeValue : Pat :=
  firstOf [.rule .doubleQuotedValue, .rule .singleQuotedValue, .rule .mustache,
    .rule .unquotedValue]

/-- A quoted value, in which expression tags may stand. -/
def quotedValue (quote : String) (plain : Rule) : Pat :=
  seq [lit quote, .many (.choice (.rule .mustache) (.rule plain)), lit quote]

def quotedText (quote : String) : Pat :=
  many1 (anythingBut [lit quote, lit "\x7b"])

def unquotedValue : Pat :=
  many1 (anythingBut [blank, lit ">", lit "/>", oneOf "\"'=`\x7b"])

/-- The end of an element or block, which has to name what it closes. -/
def closing (opening stop : String) : Pat :=
  seq [lit opening, .pop, blanks, lit stop]

/-- An element whose content is not markup but runs up to the first end tag of
its name. -/
def rawElement : Pat :=
  seq [lit "<", .push (.rule .rawName), attributes, blanks, lit ">",
    .rule .rawText, closing "</" ">"]

/-- The names of elements whose content is not markup, in any case. -/
def rawName : Pat :=
  .sequence (firstOf [anyCase "script", anyCase "style"]) (.unless nameChar)

/-- Everything up to the end tag of the remembered name. -/
def rawText : Pat := .many (anythingBut [.sequence (lit "</") .peek])

/-- An element that has no content and no end tag. -/
def voidElement : Pat :=
  seq [lit "<", .rule .voidName, attributes, blanks,
    .optional (lit "/"), lit ">"]

/-- The names of elements without content, in any case.  A capital letter before
a small one is refused, since that is how names of components begin. -/
def voidName : Pat :=
  seq [.unless (.sequence (.one Char.isUpper) (.one Char.isLower)),
    firstOf (["!doctype", "area", "base", "br", "col", "embed", "hr", "img",
        "input", "link", "meta", "param", "source", "track", "wbr"].map
      anyCase), .unless nameChar]

/-- An element with content, or one closed by itself.  Its name is remembered,
so that the end tag has to repeat it exactly. -/
def element : Pat :=
  seq [lit "<", .push (.rule .tagName), attributes, blanks,
    .choice (.sequence (lit "/>") .drop)
      (seq [lit ">", .rule .fragment, closing "</" ">"])]

def tagName : Pat := .sequence letter (.many nameChar)

/-! ## Text -/

/-- Text runs up to a tag, a comment or a brace.  A `<` that begins none of
these is text. -/
def text : Pat :=
  many1 (anythingBut
    [.sequence (lit "<") (.choice letter (oneOf "/!")), lit "\x7b"])

def comment : Pat :=
  seq [lit "<!--", .many (anythingBut [lit "-->"]), lit "-->"]

/-! ## Blocks -/

/-- A tag of one word, such as a closing tag. -/
def wordTag (opening : String) : Pat := seq [lit opening, blanks, lit "\x7d"]

/-- A tag of one word and an expression, with white space between them. -/
def expressionTag (opening : List Pat) : Pat :=
  seq (opening ++ [gap, .rule .expression, blanks, lit "\x7d"])

/-- A tag of one word that may introduce a binding. -/
def bindingTag (opening : String) : Pat :=
  seq [lit opening, .optional (.sequence gap (.rule .binding)),
    blanks, lit "\x7d"]

/-- What may follow a body of a conditional: a further condition or a last
clause. -/
def alternate : Pat := .choice (.rule .elseIf) (.rule .elseClause)

def ifBlock : Pat :=
  seq [.rule .ifOpen, .rule .fragment, .optional alternate, .rule .ifClose]

/-- A further condition, its body and what follows them. -/
def elseIf : Pat :=
  seq [.rule .elseIfOpen, .rule .fragment, .optional alternate]

def eachBlock : Pat :=
  seq [.rule .eachOpen, .rule .fragment, .optional (.rule .elseClause),
    .rule .eachClose]

/-- The word `as` standing alone.  An expression may hold it inside brackets and
literals. -/
def asWord : Pat := seq [gap, lit "as", gap]

/-- The opening tag of an iteration: expression, binding, and perhaps an index
and a key. -/
def eachOpen : Pat :=
  seq
    [lit "\x7b#each", gap, .rule .eachExpression, asWord, .rule .binding,
      .optional (seq [blanks, lit ",", blanks, .rule .eachIndex]),
      .optional (seq [blanks, lit "(", .rule .eachKey, lit ")"]),
      blanks, lit "\x7d"]

/-- An await block.  The short form is tried first; it names the value in the
opening tag and has no `then` clause. -/
def awaitBlock : Pat :=
  .choice (seq [.rule .awaitShortOpen, .rule .fragment,
        .optional (.rule .catchClause), .rule .awaitClose])
    (seq [.rule .awaitOpen, .rule .fragment, .rule .thenClause,
        .optional (.rule .catchClause), .rule .awaitClose])

/-- The opening tag of the short form, which names the value at once. -/
def awaitShortOpen : Pat :=
  seq
    [lit "\x7b#await", gap, .rule .awaitExpression, gap, .rule .thenKeyword,
      .optional (.sequence gap (.rule .binding)), blanks, lit "\x7d"]

/-- The words that open blocks with a rule of their own.  A longer word that
merely begins with one of them is another name. -/
def blockKeyword : Pat :=
  .sequence (firstOf [lit "if", lit "each", lit "await"])
    (.unless identifierChar)

/-- A block of any other name, which its end tag has to repeat. -/
def otherBlock : Pat :=
  seq [lit "\x7b#", .unless blockKeyword, .push (.rule .blockName),
    .optional (.sequence gap (.rule .expression)), blanks, lit "\x7d",
    .rule .fragment, closing "\x7b/" "\x7d"]

/-- One node, tried from the most specific kind to plain text.  The order
decides: an element of a known name is one of its kind before it is any
element. -/
def node : Pat :=
  firstOf ([Rule.ifBlock, .eachBlock, .awaitBlock, .otherBlock, .comment,
    .rawElement, .voidElement, .element, .mustache, .text].map .rule)

/-- The pattern of each rule.  The rules in between only give a part of a
pattern a name, under which it is captured and reported. -/
def ruleBody : Rule → Pat
  | .endOfInput => .atEnd
  | .document => seq [.atStart, .rule .fragment, .rule .endOfInput]
  | .fragment => .many node
  | .text => text
  | .comment => comment
  | .rawElement => rawElement
  | .rawName => rawName
  | .rawText => rawText
  | .voidElement => voidElement
  | .voidName => voidName
  | .element => element
  | .tagName => tagName
  | .attr => attr
  | .attributeName => attributeName
  | .attributeValue => attributeValue
  | .doubleQuotedValue => quotedValue "\"" .doubleQuotedText
  | .doubleQuotedText => quotedText "\""
  | .singleQuotedValue => quotedValue "'" .singleQuotedText
  | .singleQuotedText => quotedText "'"
  | .unquotedValue => unquotedValue
  | .mustache => mustache
  | .expression => many1 (.rule .balanced)
  | .balanced => balanced
  | .binding => binding
  | .ifBlock => ifBlock
  | .ifOpen => expressionTag [lit "\x7b#if"]
  | .elseIf => elseIf
  | .elseIfOpen => expressionTag [lit "\x7b:else", gap, lit "if"]
  | .elseClause => seq [.rule .elseTag, .rule .fragment]
  | .elseTag => wordTag "\x7b:else"
  | .ifClose => wordTag "\x7b/if"
  | .eachBlock => eachBlock
  | .eachOpen => eachOpen
  | .eachExpression => balancedUntil asWord
  | .eachIndex => identifier
  | .eachKey => many1 (.rule .balanced)
  | .eachClose => wordTag "\x7b/each"
  | .awaitBlock => awaitBlock
  | .awaitOpen => expressionTag [lit "\x7b#await"]
  | .awaitShortOpen => awaitShortOpen
  | .awaitExpression =>
    balancedUntil (seq [gap, lit "then", .unless identifierChar])
  | .thenKeyword => lit "then"
  | .thenClause => seq [.rule .thenTag, .rule .fragment]
  | .thenTag => bindingTag "\x7b:then"
  | .catchClause => seq [.rule .catchTag, .rule .fragment]
  | .catchTag => bindingTag "\x7b:catch"
  | .awaitClose => wordTag "\x7b/await"
  | .otherBlock => otherBlock
  | .blockName => many1 letter

/-- The grammar of component markup.  Balanced stretches are not named: they
would leave a capture for every character of an expression. -/
def grammar : Grammar Rule where
  body := ruleBody
  isNamed r := r != .balanced

end TemplateJsx.Markup
