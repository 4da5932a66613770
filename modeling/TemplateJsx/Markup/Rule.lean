/-!
# The rules of component markup

The rules that a template can be said to lack.  `Rule.all` lists them in the
order in which a message names them, and `Rule.label` is the wording.
-/

namespace TemplateJsx.Markup

/-- A rule of the grammar.  Its pattern is `ruleBody`, and what it contributes
to the tree is `assemble`. -/
inductive Rule where
  | endOfInput
  | document
  | fragment
  | text
  | comment
  | rawElement
  | rawName
  | rawText
  | voidElement
  | voidName
  | element
  | tagName
  | attr
  | attributeName
  | attributeValue
  | doubleQuotedValue
  | doubleQuotedText
  | singleQuotedValue
  | singleQuotedText
  | unquotedValue
  | mustache
  | expression
  /-- A balanced stretch of an expression; an abbreviation, never part of a
  message. -/
  | balanced
  | binding
  | ifBlock
  | ifOpen
  | elseIf
  | elseIfOpen
  | elseClause
  | elseTag
  | ifClose
  | eachBlock
  | eachOpen
  | eachExpression
  | eachIndex
  | eachKey
  | eachClose
  | awaitBlock
  | awaitOpen
  | awaitShortOpen
  | awaitExpression
  | thenKeyword
  | thenClause
  | thenTag
  | catchClause
  | catchTag
  | awaitClose
  | otherBlock
  | blockName
  deriving DecidableEq, Repr

namespace Rule

/-- Every rule, in the order in which messages name them. -/
def all : List Rule :=
  [endOfInput, document, fragment, text, comment, rawElement, rawName, rawText,
    voidElement, voidName, element, tagName, attr, attributeName,
    attributeValue, doubleQuotedValue, doubleQuotedText, singleQuotedValue,
    singleQuotedText, unquotedValue, mustache, expression, balanced, binding,
    ifBlock, ifOpen, elseIf,
    elseIfOpen, elseClause, elseTag, ifClose, eachBlock, eachOpen,
      eachExpression, eachIndex, eachKey, eachClose,
    awaitBlock, awaitOpen, awaitShortOpen, awaitExpression, thenKeyword,
      thenClause, thenTag, catchClause,
    catchTag, awaitClose, otherBlock, blockName]

/-- How a message names a rule.  Rules whose tag has a fixed form go by that
form, in backquotes. -/
def label : Rule → String
  | endOfInput => "end of input"
  | document => "document"
  | fragment => "markup"
  | text => "text"
  | comment => "comment"
  | rawElement => "raw_element"
  | rawName => "raw_name"
  | rawText => "raw_text"
  | voidElement => "void_element"
  | voidName => "void_name"
  | element => "element"
  | tagName => "tag_name"
  | attr => "attribute"
  | attributeName => "attribute_name"
  | attributeValue => "attribute_value"
  | doubleQuotedValue => "dq_value"
  | doubleQuotedText => "dq_text"
  | singleQuotedValue => "sq_value"
  | singleQuotedText => "sq_text"
  | unquotedValue => "unquoted_value"
  | mustache => "expression tag"
  | expression | eachExpression | awaitExpression => "expression"
  | balanced => "balanced"
  | binding => "binding"
  | ifBlock => "if_block"
  | ifOpen => "`\x7b#if ...\x7d`"
  | elseIf | elseIfOpen => "`\x7b:else if ...\x7d`"
  | elseClause | elseTag => "`\x7b:else\x7d`"
  | ifClose => "`\x7b/if\x7d`"
  | eachBlock => "each_block"
  | eachOpen => "`\x7b#each ... as ...\x7d`"
  | eachIndex => "index name"
  | eachKey => "key expression"
  | eachClose => "`\x7b/each\x7d`"
  | awaitBlock => "await_block"
  | awaitOpen | awaitShortOpen => "`\x7b#await ...\x7d`"
  | thenKeyword => "then_keyword"
  | thenClause | thenTag => "`\x7b:then ...\x7d`"
  | catchClause | catchTag => "`\x7b:catch ...\x7d`"
  | awaitClose => "`\x7b/await\x7d`"
  | otherBlock => "other_block"
  | blockName => "block_name"

/-- A list of alternatives in words: `A`, `A or B`, `A, B, or C`. -/
def enumerate : List String → String
  | [] => ""
  | [a] => a
  | [a, b] => a ++ " or " ++ b
  | items =>
    String.intercalate ", " items.dropLast ++ ", or " ++ items.getLastD ""

end Rule

end TemplateJsx.Markup
