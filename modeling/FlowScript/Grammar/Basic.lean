import FlowScript.Grammar.Rule
import FlowScript.Grammar.Trivia
import FlowScript.Unicode.Identifier

/-!
# The script grammar

A subset of the scripting language of browser automation, with optional type syntax. The rules stand in the order
tokens, statements, declarations of types, modules, patterns, expressions, types. Type syntax is read only to be left
out of the tree, so the types' rules are shallow.

A keyword matches only where no identifier character follows, and an identifier is never a reserved word.
-/

namespace FlowScript.Grammar
open FlowScript.Peg (ofString parts oneOf plus anyChar)
open Rule hiding all name label

/-- What a rule of the script grammar matches. -/
abbrev Body := Peg Rule

instance : Coe String Body := ⟨ofString⟩

instance : Coe Rule Body := ⟨.call⟩

/-- The token of a keyword. -/
def kw (word : Keyword) : Body := .call (.keyword word)

/-! ## Tokens -/

def identStart : Body := .char fun c => FlowScript.Unicode.Identifier.isStart c || c == '_' || c == '$'

def identChar : Body := .char fun c => FlowScript.Unicode.Identifier.isContinue c || c == '$'

/-- No identifier character comes next. -/
def wordEnd : Body := .notAhead identChar

/-- The words that are no identifiers; none stands before a longer word that begins with it. -/
def reservedWords : List String :=
  ["break", "case", "catch", "const", "continue", "default", "delete", "do", "else", "enum", "export", "false",
    "finally", "for", "function", "if", "import", "instanceof", "in", "let", "new", "null", "return", "switch",
    "this", "throw", "true", "try", "typeof", "var", "void", "while"]

def reserved : Body := .seq (oneOf (reservedWords.map ofString)) wordEnd

def isDigit (c : Char) : Bool := c.isDigit || c == '_'

def isOctal (c : Char) : Bool := ('0' ≤ c && c ≤ '7') || c == '_'

def isBinary (c : Char) : Bool := c == '0' || c == '1' || c == '_'

def isHex (c : Char) : Bool := c.isDigit || ('a' ≤ c && c ≤ 'f') || ('A' ≤ c && c ≤ 'F') || c == '_'

def decimalDigits : Body := .seq (.char Char.isDigit) (.star (.char isDigit))

def exponent : Body := parts [oneOf ["e", "E"], .opt (oneOf ["+", "-"]), decimalDigits]

def numberBody : Body :=
  oneOf [
    parts [oneOf ["0x", "0X"], plus (.char isHex), .opt "n"],
    parts [oneOf ["0b", "0B"], plus (.char isBinary), .opt "n"],
    parts [oneOf ["0o", "0O"], plus (.char isOctal), .opt "n"],
    parts [decimalDigits, .opt (.seq "." (.opt decimalDigits)), .opt exponent, .opt "n"],
    parts [".", decimalDigits, .opt exponent]]

/-- A backslash and the character it escapes. -/
def escaped : Body := .seq "\\" anyChar

/-- A string literal between two `quote`s. -/
def quoted (quote : Char) : Body :=
  parts [.text [quote], .star (.alt escaped (.char fun c => c != quote && c != '\\' && c != '\n')), .text [quote]]

def templateChunkBody : Body :=
  plus (oneOf [escaped, .seq "$" (.notAhead "\x7b"), .char fun c => c != '\x60' && c != '\\' && c != '$'])

def regexClass : Body :=
  parts ["[", .star (.alt escaped (.char fun c => c != ']' && c != '\\' && c != '\n')), "]"]

def regexBody : Body :=
  plus (oneOf [regexClass, escaped, .char fun c => c != '/' && c != '\\' && c != '[' && c != '\n'])

/-- An operator that none of the given texts may extend. -/
def operatorText (symbol : String) (extensions : List String) : Body :=
  match extensions with
  | [] => symbol
  | _ => .seq symbol (.notAhead (oneOf (extensions.map ofString)))

def operatorBody : BinaryOp → Body
  | .nullish => operatorText "??" ["="]
  | .or => operatorText "||" ["="]
  | .and => operatorText "&&" ["="]
  | .bitOr => operatorText "|" ["|", "="]
  | .bitXor => operatorText "^" ["="]
  | .bitAnd => operatorText "&" ["&", "="]
  | .strictEq => operatorText "===" []
  | .strictNe => operatorText "!==" []
  | .eq => operatorText "==" ["="]
  | .ne => operatorText "!=" ["="]
  | .lte => operatorText "<=" []
  | .gte => operatorText ">=" []
  | .lt => operatorText "<" ["<", "="]
  | .gt => operatorText ">" [">", "="]
  | .instanceOf => .seq "instanceof" wordEnd
  | .inside => .seq "in" wordEnd
  | .shl => operatorText "<<" ["="]
  | .ushr => operatorText ">>>" ["="]
  | .shr => operatorText ">>" [">", "="]
  | .add => operatorText "+" ["+", "="]
  | .sub => operatorText "-" ["-", "="]
  | .mul => operatorText "*" ["*", "="]
  | .div => operatorText "/" ["/", "*", "="]
  | .mod => operatorText "%" ["="]
  | .exp => operatorText "**" ["="]

/-! ## Shared parts -/

/-- The sign before a default or an initial value. -/
def assignEq : Body := .seq "=" (.notAhead (oneOf ["=", ">"]))

/-- A default or an initial value, if there is one. -/
def initial : Body := .opt (.seq assignEq assignExpr)

/-- Items with commas between them. -/
def commaSeparated (item : Body) : Body := .seq item (.star (.seq "," item))

/-- Items with commas between them and perhaps one after the last. -/
def commaTerminated (item : Body) : Body := .seq (commaSeparated item) (.opt ",")

/-- A list in braces, perhaps empty. -/
def braced (item : Body) : Body := parts ["\x7b", .opt (commaTerminated item), "\x7d"]

/-- The end of a statement. -/
def terminator : Body := .opt ";"

/-- Parameters in parentheses and the type of the result. -/
def signature : Body := parts [.opt tsTypeParams, "(", .opt params, ")", .opt returnType]

def bindingTarget : Body := oneOf [identifier, objectPattern, arrayPattern]

/-- A condition in parentheses, perhaps left empty. -/
def condition : Body := parts ["(", .opt expression, ")"]

/-- A call's arguments, after type arguments if there are any. -/
def arguments : Body := parts [.opt (.seq tsTypeArgs (.ahead "(")), "(", .opt argList, ")"]

/-! ## Statements -/

def statementBody : Body :=
  oneOf [block, emptyStmt, varStmt, functionDecl, functionSig, interfaceDecl, typeAliasDecl, enumDecl, ambientDecl,
    ifStmt, forInOfStmt, forStmt, whileStmt, doWhileStmt, tryStmt, switchStmt, returnStmt, throwStmt, breakStmt,
    continueStmt, exprStmt]

def functionHead : Body := parts [.opt (kw .asyncWord), kw .functionWord, identifier, signature]

/-! ## Expressions -/

/-- What the operators of a level stand between. -/
def Level.operand : Level → Rule
  | nullish => .level logicalOr
  | logicalOr => .level logicalAnd
  | logicalAnd => .level bitOr
  | bitOr => .level bitXor
  | bitXor => .level bitAnd
  | bitAnd => .level equality
  | equality => .level relational
  | relational => .level shift
  | shift => .level additive
  | additive => .level multiplicative
  | multiplicative => exponentExpr

/-- The operators of a level, in the order in which they are tried. -/
def Level.operators : Level → List BinaryOp
  | nullish => [.nullish]
  | logicalOr => [.or]
  | logicalAnd => [.and]
  | bitOr => [.bitOr]
  | bitXor => [.bitXor]
  | bitAnd => [.bitAnd]
  | equality => [.strictEq, .strictNe, .eq, .ne]
  | relational => [.lte, .gte, .lt, .gt, .instanceOf, .inside]
  | shift => [.shl, .ushr, .shr]
  | additive => [.add, .sub]
  | multiplicative => [.mul, .div, .mod]

/-- An operator of the level and the operand after it. -/
def Level.round (tier : Level) : Body :=
  .seq (oneOf (tier.operators.map fun op => .call (operator op))) tier.operand

/-- Operands with operators of the level between them; on the level of comparisons a type may be stated after an
    operand. -/
def Level.body : Level → Body
  | relational => .seq relational.operand (.star (.alt relational.round tsAsSuffix))
  | tier => .seq tier.operand (.star tier.round)

def assignOpBody : Body :=
  oneOf [">>>=", "<<=", ">>=", "**=", "&&=", "||=", "??=", "+=", "-=", "*=", "/=", "%=", "&=", "|=", "^=",
    operatorText "=" ["=", ">"]]

def unaryOpBody : Body :=
  oneOf ["!", "~", operatorText "+" ["+"], operatorText "-" ["-"], .seq (oneOf ["typeof", "void", "delete"]) wordEnd]

def callPostfix : Body :=
  oneOf [callArgs, optionalCall, optionalIndex, optionalMember, indexAccess, memberAccess, nonNull, taggedTemplate]

def primary : Body :=
  oneOf [parenExpr, functionExpr, template, regex, number, string, boolean, nullLit, arrayLit, objectLit, thisExpr,
    identifier]

def propertyNameRef : Body := .alt privateName identifierName

/-! ## Types -/

def tsPrimaryType : Body := oneOf [tsParenType, tsObjectType, tsTupleType, tsTypeofType, tsLiteralType, tsTypeRef]

def tsMember : Body := oneOf [tsIndexSig, tsMappedSig, tsCallSig, tsMethodSig, tsPropSig]

/-- A type after a colon, if there is one. -/
def tsOptionalType : Body := .opt (.seq ":" tsType)

/-- Names with dots between them. -/
def tsQualifiedName : Body := .seq identifierName (.star (.seq "." identifierName))

/-! ## The rules -/

/-- The body of each rule. -/
def ruleBody : Rule → Body
  | endOfInput => .inputEnd
  | program => parts [.text [], .star (oneOf [importDecl, exportDecl, statement]), endOfInput]
  -- tokens
  | keyword word => .seq word.text wordEnd
  | operator op => operatorBody op
  | identifier => parts [.notAhead reserved, identStart, .star identChar]
  | identifierName => .seq identStart (.star identChar)
  | privateName => parts ["#", identStart, .star identChar]
  | number => numberBody
  | string => .alt (quoted '\x22') (quoted '\x27')
  | template => parts ["\x60", .star (.alt templateChunk templateSubst), "\x60"]
  | templateChunk => templateChunkBody
  | templateSubst => parts ["$\x7b", expression, "\x7d"]
  | regex => parts ["/", .notAhead (oneOf ["/", "*"]), regexBody, "/", .star identChar]
  | boolean => .seq (oneOf ["true", "false"]) wordEnd
  | nullLit => .seq "null" wordEnd
  | thisExpr => .seq "this" wordEnd
  -- statements
  | statement => statementBody
  | block => parts ["\x7b", .star statement, "\x7d"]
  | emptyStmt => ";"
  | varStmt => .seq varDecl terminator
  | varDecl => .seq varKind (commaSeparated declarator)
  | varKind => .seq (oneOf ["const", "let", "var"]) wordEnd
  | declarator => parts [bindingTarget, .opt definiteMark, .opt statedType, initial]
  | definiteMark => "!"
  | functionDecl => .seq functionHead block
  | functionSig => .seq functionHead terminator
  | params => commaTerminated param
  | param => .alt restParam (parts [bindingTarget, .opt optionalMark, .opt statedType, initial])
  | restParam => parts ["...", bindingTarget, .opt statedType]
  | optionalMark => "?"
  | statedType | returnType => .seq ":" tsType
  | ifStmt => parts [kw .ifWord, condition, statement, .opt elseClause]
  | elseClause => .seq (kw .elseWord) statement
  | forStmt => parts [kw .forWord, "(", .opt forInit, ";", .opt forTest, ";", .opt forUpdate, ")", statement]
  | forInit => .alt varDecl expression
  | forTest | forUpdate => expression
  | forInOfStmt => parts [kw .forWord, .opt (kw .awaitWord), "(", forLeft, forKind, expression, ")", statement]
  | forLeft => .alt (.seq varKind bindingTarget) callExpr
  | forKind => .seq (oneOf ["of", "in"]) wordEnd
  | whileStmt => parts [kw .whileWord, condition, statement]
  | doWhileStmt => parts [kw .doWord, statement, kw .whileWord, condition, terminator]
  | tryStmt => parts [kw .tryWord, block, .opt catchClause, .opt finallyClause]
  | catchClause => parts [kw .catchWord, .opt (parts ["(", bindingTarget, .opt statedType, ")"]), block]
  | finallyClause => .seq (kw .finallyWord) block
  | switchStmt => parts [kw .switchWord, "(", expression, ")", "\x7b", .star switchCase, "\x7d"]
  | switchCase => parts [.alt caseTest (kw .defaultWord), ":", .star statement]
  | caseTest => .seq (kw .caseWord) expression
  | returnStmt => parts [kw .returnWord, .opt expression, terminator]
  | throwStmt => parts [kw .throwWord, expression, terminator]
  | breakStmt => .seq (kw .breakWord) terminator
  | continueStmt => .seq (kw .continueWord) terminator
  | exprStmt => .seq expression terminator
  -- declarations of types
  | interfaceDecl =>
    parts [kw .interfaceWord, identifier, .opt tsTypeParams,
      .opt (.seq (kw .extendsWord) (commaSeparated tsTypeRef)), tsObjectType]
  | typeAliasDecl => parts [kw .typeWord, identifier, .opt tsTypeParams, "=", tsType, terminator]
  | enumDecl => parts [.opt (kw .constWord), kw .enumWord, identifier, braced enumMember]
  | enumMember => .seq propertyKey initial
  | ambientDecl =>
    .seq (kw .declareWord)
      (oneOf [.seq varDecl terminator, functionSig, interfaceDecl, typeAliasDecl, enumDecl])
  -- modules
  | importDecl =>
    parts [kw .importWord, .alt (parts [.opt (kw .typeWord), importClause, kw .fromWord, string]) string, terminator]
  | importClause =>
    oneOf [.seq importDefault (.opt (.seq "," (.alt importNamespace importNamed))), importNamespace, importNamed]
  | importDefault => identifier
  | importNamespace => parts ["*", kw .asWord, identifier]
  | importNamed => braced importSpec
  | importSpec => parts [.opt (kw .typeWord), identifierName, .opt (.seq (kw .asWord) identifier)]
  | exportDecl =>
    .seq (kw .exportWord) (oneOf [exportTypeList, exportDefault, exportList, exportAll, statement])
  | exportTypeList =>
    parts [kw .typeWord, braced exportSpec, .opt (.seq (kw .fromWord) string), terminator]
  | exportList => parts [braced exportSpec, .opt (.seq (kw .fromWord) string), terminator]
  | exportSpec => parts [.opt (kw .typeWord), identifierName, .opt (.seq (kw .asWord) identifierName)]
  | exportAll => parts ["*", .opt (.seq (kw .asWord) identifierName), kw .fromWord, string, terminator]
  | exportDefault => .seq (kw .defaultWord) (.alt functionDecl (.seq assignExpr terminator))
  -- patterns
  | objectPattern => braced (oneOf [restPattern, patternPair, patternShorthand])
  | patternPair => parts [propertyKey, ":", bindingElement]
  | patternShorthand => .seq identifier initial
  | bindingElement => .seq bindingTarget initial
  | restPattern => .seq "..." bindingTarget
  | arrayPattern =>
    parts ["[", .opt (commaSeparated (oneOf [patternHole, restPattern, bindingElement])), "]"]
  | patternHole | arrayHole => .ahead (oneOf [",", "]"])
  -- expressions
  | expression => commaSeparated assignExpr
  | assignExpr => .alt arrowFn (.seq conditionalExpr (.opt (.seq assignOp assignExpr)))
  | assignOp => assignOpBody
  | arrowFn =>
    parts [.opt (kw .asyncWord), .opt tsTypeParams, arrowParams, .opt returnType, "=>", arrowBody]
  | arrowParams => .alt identifier (parts ["(", .opt params, ")"])
  | arrowBody => .alt block assignExpr
  | conditionalExpr => .seq (level .nullish) (.opt (parts ["?", assignExpr, ":", assignExpr]))
  | level tier => tier.body
  | exponentExpr => .seq unaryExpr (.opt (.seq (operator .exp) exponentExpr))
  | tsAsSuffix => .seq tsAsKw tsType
  | tsAsKw => .seq (oneOf ["as", "satisfies"]) wordEnd
  | unaryExpr => oneOf [.seq unaryOp unaryExpr, .seq updateOp unaryExpr, awaitExpr, postfixExpr]
  | unaryOp => unaryOpBody
  | updateOp => oneOf ["++", "--"]
  | awaitExpr => .seq (kw .awaitWord) unaryExpr
  | postfixExpr => .seq callExpr (.opt updateOp)
  | callExpr => .seq (.alt newExpr primary) (.star callPostfix)
  | callArgs | newArgs => arguments
  | optionalCall => .seq "?." arguments
  | optionalIndex => parts ["?.", "[", expression, "]"]
  | optionalMember => .seq "?." propertyNameRef
  | indexAccess => parts ["[", expression, "]"]
  | memberAccess => .seq "." propertyNameRef
  | nonNull => .seq "!" (.notAhead "=")
  | taggedTemplate => template
  | argList => commaTerminated (.alt spreadElem assignExpr)
  | spreadElem => .seq "..." assignExpr
  | newExpr => parts [kw .newWord, newCallee, .opt newArgs]
  | newCallee => .seq (.alt newExpr primary) (.star (.alt memberAccess indexAccess))
  | parenExpr => parts ["(", expression, ")"]
  | functionExpr => parts [.opt (kw .asyncWord), kw .functionWord, .opt identifier, signature, block]
  | arrayLit => parts ["[", .opt (commaSeparated (oneOf [arrayHole, spreadElem, assignExpr])), "]"]
  | objectLit => braced (oneOf [spreadElem, objectMethod, objectPair, objectShorthand])
  | objectPair => parts [propertyKey, ":", assignExpr]
  | objectMethod => parts [.opt (kw .asyncWord), propertyKey, signature, block]
  | objectShorthand => .seq identifier initial
  | propertyKey => oneOf [identifierName, string, number, computedKey]
  | computedKey => parts ["[", assignExpr, "]"]
  -- types
  | tsType => .alt tsFunctionType tsUnion
  | tsUnion => parts [.opt "|", tsIntersection, .star (.seq "|" tsIntersection)]
  | tsIntersection => parts [.opt "&", tsOperatorType, .star (.seq "&" tsOperatorType)]
  | tsOperatorType => .seq (.star tsTypeOperator) tsPostfixType
  | tsTypeOperator => .seq (oneOf ["keyof", "unique", "readonly"]) wordEnd
  | tsPostfixType => .seq tsPrimaryType (.star tsArraySuffix)
  | tsArraySuffix => parts ["[", .opt tsType, "]"]
  | tsParenType => parts ["(", tsType, ")"]
  | tsTupleType => parts ["[", .opt (commaTerminated tsTupleElem), "]"]
  | tsTupleElem => parts [.opt "...", .opt (parts [identifierName, .opt "?", ":"]), tsType, .opt "?"]
  | tsTypeofType => .seq (kw .typeofWord) tsQualifiedName
  | tsLiteralType => oneOf [string, number, .seq "-" number, template]
  | tsTypeRef => .seq tsQualifiedName (.opt tsTypeArgs)
  | tsTypeArgs => parts ["<", commaTerminated tsType, ">"]
  | tsFunctionType =>
    parts [.opt (kw .newWord), .opt tsTypeParams, "(", .opt tsFnParams, ")", "=>", tsType]
  | tsFnParams => commaTerminated tsFnParam
  | tsFnParam =>
    parts [.opt "...", oneOf [identifierName, objectPattern, arrayPattern], .opt "?", tsOptionalType]
  | tsTypeParams => parts ["<", commaTerminated tsTypeParam, ">"]
  | tsTypeParam =>
    parts [.opt (kw .constWord), identifier, .opt (.seq (kw .extendsWord) tsType), .opt (.seq "=" tsType)]
  | tsObjectType => parts ["\x7b", .star (.seq tsMember (.opt (oneOf [";", ","]))), "\x7d"]
  | tsIndexSig => parts [.opt tsModifier, "[", identifierName, ":", tsType, "]", ":", tsType]
  | tsMappedSig =>
    parts [.opt tsModifier, "[", identifierName, kw .inWord, tsType, "]", .opt "?", ":", tsType]
  | tsCallSig => parts [.opt tsTypeParams, "(", .opt tsFnParams, ")", ":", tsType]
  | tsMethodSig =>
    parts [propertyKey, .opt "?", .opt tsTypeParams, "(", .opt tsFnParams, ")", tsOptionalType]
  | tsPropSig => parts [.opt (.seq tsModifier (.ahead propertyKey)), propertyKey, .opt "?", tsOptionalType]
  | tsModifier => .seq "readonly" wordEnd

/-- How each rule treats trivia. -/
def ruleKind : Rule → FlowScript.Peg.RuleKind
  | keyword _ | operator _ | identifier | identifierName | privateName | number | string | templateChunk | regex
  | boolean | nullLit | thisExpr | varKind | forKind | assignOp | tsAsKw | unaryOp | updateOp | tsTypeOperator
  | tsModifier => .token
  | template => .compound
  | templateSubst => .loose
  | _ => .plain

end FlowScript.Grammar

namespace FlowScript

/-- The grammar of workflow scripts. -/
def grammar : FlowScript.Peg.Grammar Grammar.Rule where
  body := Grammar.ruleBody
  kind := Grammar.ruleKind
  skip := Grammar.Trivia.skip

end FlowScript
