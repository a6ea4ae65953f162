import FlowScript.Ast.Operator

/-!
# The rules of the script grammar

The rules that leave a node in the syntax tree, with the names that error messages call them by. Rules that only
shorten others have no place here; they are plain definitions beside the rule bodies.
-/

namespace FlowScript.Grammar

/-- The keywords that are tokens of their own. -/
inductive Keyword
  | asWord | asyncWord | awaitWord | breakWord | caseWord | catchWord | constWord | continueWord | declareWord
  | defaultWord | doWord | elseWord | enumWord | exportWord | extendsWord | finallyWord | forWord | fromWord
  | functionWord | ifWord | importWord | inWord | interfaceWord | newWord | returnWord | switchWord | throwWord
  | tryWord | typeWord | typeofWord | whileWord
deriving DecidableEq

/-- The levels of left-associative operators, loosest first. -/
inductive Level
  | nullish | logicalOr | logicalAnd | bitOr | bitXor | bitAnd | equality | relational | shift | additive
  | multiplicative
deriving DecidableEq

/-- A rule of the grammar. -/
inductive Rule
  /-- The end of the input. -/
  | endOfInput
  | keyword (word : Keyword)
  | level (tier : Level)
  | operator (op : BinaryOp)
  | program | identifier | identifierName | privateName | number | string | template | templateChunk | templateSubst
  | regex | boolean | nullLit | thisExpr | statement | block | emptyStmt | varStmt | varDecl | varKind | declarator
  | definiteMark | functionDecl | functionSig | params | param | restParam | optionalMark | statedType
  | returnType | ifStmt | elseClause | forStmt | forInit | forTest | forUpdate | forInOfStmt | forLeft | forKind
  | whileStmt | doWhileStmt | tryStmt | catchClause | finallyClause | switchStmt | switchCase | caseTest | returnStmt
  | throwStmt | breakStmt | continueStmt | exprStmt | interfaceDecl | typeAliasDecl | enumDecl | enumMember
  | ambientDecl | importDecl | importClause | importDefault | importNamespace | importNamed | importSpec | exportDecl
  | exportTypeList | exportList | exportSpec | exportAll | exportDefault | objectPattern | patternPair
  | patternShorthand | bindingElement | restPattern | arrayPattern | patternHole | expression | assignExpr | assignOp
  | arrowFn | arrowParams | arrowBody | conditionalExpr | exponentExpr | tsAsSuffix | tsAsKw | unaryExpr | unaryOp
  | updateOp | awaitExpr | postfixExpr | callExpr | callArgs | optionalCall | optionalIndex | optionalMember
  | indexAccess | memberAccess | nonNull | taggedTemplate | argList | spreadElem | newExpr | newCallee | newArgs
  | parenExpr | functionExpr | arrayLit | arrayHole | objectLit | objectPair | objectMethod | objectShorthand
  | propertyKey | computedKey | tsType | tsUnion | tsIntersection | tsOperatorType | tsTypeOperator | tsPostfixType
  | tsArraySuffix | tsParenType | tsTupleType | tsTupleElem | tsTypeofType | tsLiteralType | tsTypeRef | tsTypeArgs
  | tsFunctionType | tsFnParams | tsFnParam | tsTypeParams | tsTypeParam | tsObjectType | tsIndexSig | tsMappedSig
  | tsCallSig | tsMethodSig | tsPropSig | tsModifier
deriving DecidableEq

/-- The keyword as written. -/
def Keyword.text : Keyword → String
  | .asWord => "as"
  | .asyncWord => "async"
  | .awaitWord => "await"
  | .breakWord => "break"
  | .caseWord => "case"
  | .catchWord => "catch"
  | .constWord => "const"
  | .continueWord => "continue"
  | .declareWord => "declare"
  | .defaultWord => "default"
  | .doWord => "do"
  | .elseWord => "else"
  | .enumWord => "enum"
  | .exportWord => "export"
  | .extendsWord => "extends"
  | .finallyWord => "finally"
  | .forWord => "for"
  | .fromWord => "from"
  | .functionWord => "function"
  | .ifWord => "if"
  | .importWord => "import"
  | .inWord => "in"
  | .interfaceWord => "interface"
  | .newWord => "new"
  | .returnWord => "return"
  | .switchWord => "switch"
  | .throwWord => "throw"
  | .tryWord => "try"
  | .typeWord => "type"
  | .typeofWord => "typeof"
  | .whileWord => "while"

/-- The name of the level's rule. -/
def Level.name : Level → String
  | .nullish => "nullish_expr"
  | .logicalOr => "logical_or_expr"
  | .logicalAnd => "logical_and_expr"
  | .bitOr => "bit_or_expr"
  | .bitXor => "bit_xor_expr"
  | .bitAnd => "bit_and_expr"
  | .equality => "equality_expr"
  | .relational => "relational_expr"
  | .shift => "shift_expr"
  | .additive => "additive_expr"
  | .multiplicative => "multiplicative_expr"

/-- The name of the operator's rule. -/
def operatorName : BinaryOp → String
  | .nullish => "op_nullish"
  | .or => "op_or"
  | .and => "op_and"
  | .bitOr => "op_bit_or"
  | .bitXor => "op_bit_xor"
  | .bitAnd => "op_bit_and"
  | .strictEq => "op_strict_eq"
  | .strictNe => "op_strict_ne"
  | .eq => "op_eq"
  | .ne => "op_ne"
  | .lte => "op_lte"
  | .gte => "op_gte"
  | .lt => "op_lt"
  | .gt => "op_gt"
  | .instanceOf => "op_instanceof"
  | .inside => "op_in"
  | .shl => "op_shl"
  | .ushr => "op_ushr"
  | .shr => "op_shr"
  | .add => "op_add"
  | .sub => "op_sub"
  | .mul => "op_mul"
  | .div => "op_div"
  | .mod => "op_mod"
  | .exp => "op_exp"

namespace Rule

/-- The name of the rule in the grammar. -/
def name : Rule → String
  | endOfInput => "EOI"
  | keyword word => "kw_" ++ word.text
  | level tier => tier.name
  | operator op => operatorName op
  | program => "program"
  | identifier => "identifier"
  | identifierName => "identifier_name"
  | privateName => "private_name"
  | number => "number"
  | string => "string"
  | template => "template"
  | templateChunk => "template_chunk"
  | templateSubst => "template_subst"
  | regex => "regex"
  | boolean => "boolean"
  | nullLit => "null_lit"
  | thisExpr => "this_expr"
  | statement => "statement"
  | block => "block"
  | emptyStmt => "empty_stmt"
  | varStmt => "var_stmt"
  | varDecl => "var_decl"
  | varKind => "var_kind"
  | declarator => "declarator"
  | definiteMark => "definite_mark"
  | functionDecl => "function_decl"
  | functionSig => "function_sig"
  | params => "params"
  | param => "param"
  | restParam => "rest_param"
  | optionalMark => "optional_mark"
  | statedType => "type_annotation"
  | returnType => "return_type"
  | ifStmt => "if_stmt"
  | elseClause => "else_clause"
  | forStmt => "for_stmt"
  | forInit => "for_init"
  | forTest => "for_test"
  | forUpdate => "for_update"
  | forInOfStmt => "for_in_of_stmt"
  | forLeft => "for_left"
  | forKind => "for_kind"
  | whileStmt => "while_stmt"
  | doWhileStmt => "do_while_stmt"
  | tryStmt => "try_stmt"
  | catchClause => "catch_clause"
  | finallyClause => "finally_clause"
  | switchStmt => "switch_stmt"
  | switchCase => "switch_case"
  | caseTest => "case_test"
  | returnStmt => "return_stmt"
  | throwStmt => "throw_stmt"
  | breakStmt => "break_stmt"
  | continueStmt => "continue_stmt"
  | exprStmt => "expr_stmt"
  | interfaceDecl => "interface_decl"
  | typeAliasDecl => "type_alias_decl"
  | enumDecl => "enum_decl"
  | enumMember => "enum_member"
  | ambientDecl => "ambient_decl"
  | importDecl => "import_decl"
  | importClause => "import_clause"
  | importDefault => "import_default"
  | importNamespace => "import_namespace"
  | importNamed => "import_named"
  | importSpec => "import_spec"
  | exportDecl => "export_decl"
  | exportTypeList => "export_type_list"
  | exportList => "export_list"
  | exportSpec => "export_spec"
  | exportAll => "export_all"
  | exportDefault => "export_default"
  | objectPattern => "object_pattern"
  | patternPair => "pattern_pair"
  | patternShorthand => "pattern_shorthand"
  | bindingElement => "binding_element"
  | restPattern => "rest_pattern"
  | arrayPattern => "array_pattern"
  | patternHole => "pattern_hole"
  | expression => "expression"
  | assignExpr => "assign_expr"
  | assignOp => "assign_op"
  | arrowFn => "arrow_fn"
  | arrowParams => "arrow_params"
  | arrowBody => "arrow_body"
  | conditionalExpr => "conditional_expr"
  | exponentExpr => "exponent_expr"
  | tsAsSuffix => "ts_as_suffix"
  | tsAsKw => "ts_as_kw"
  | unaryExpr => "unary_expr"
  | unaryOp => "unary_op"
  | updateOp => "update_op"
  | awaitExpr => "await_expr"
  | postfixExpr => "postfix_expr"
  | callExpr => "call_expr"
  | callArgs => "call_args"
  | optionalCall => "optional_call"
  | optionalIndex => "optional_index"
  | optionalMember => "optional_member"
  | indexAccess => "index_access"
  | memberAccess => "member_access"
  | nonNull => "non_null"
  | taggedTemplate => "tagged_template"
  | argList => "arg_list"
  | spreadElem => "spread_elem"
  | newExpr => "new_expr"
  | newCallee => "new_callee"
  | newArgs => "new_args"
  | parenExpr => "paren_expr"
  | functionExpr => "function_expr"
  | arrayLit => "array_lit"
  | arrayHole => "array_hole"
  | objectLit => "object_lit"
  | objectPair => "object_pair"
  | objectMethod => "object_method"
  | objectShorthand => "object_shorthand"
  | propertyKey => "property_key"
  | computedKey => "computed_key"
  | tsType => "ts_type"
  | tsUnion => "ts_union"
  | tsIntersection => "ts_intersection"
  | tsOperatorType => "ts_operator_type"
  | tsTypeOperator => "ts_type_operator"
  | tsPostfixType => "ts_postfix_type"
  | tsArraySuffix => "ts_array_suffix"
  | tsParenType => "ts_paren_type"
  | tsTupleType => "ts_tuple_type"
  | tsTupleElem => "ts_tuple_elem"
  | tsTypeofType => "ts_typeof_type"
  | tsLiteralType => "ts_literal_type"
  | tsTypeRef => "ts_type_ref"
  | tsTypeArgs => "ts_type_args"
  | tsFunctionType => "ts_function_type"
  | tsFnParams => "ts_fn_params"
  | tsFnParam => "ts_fn_param"
  | tsTypeParams => "ts_type_params"
  | tsTypeParam => "ts_type_param"
  | tsObjectType => "ts_object_type"
  | tsIndexSig => "ts_index_sig"
  | tsMappedSig => "ts_mapped_sig"
  | tsCallSig => "ts_call_sig"
  | tsMethodSig => "ts_method_sig"
  | tsPropSig => "ts_prop_sig"
  | tsModifier => "ts_modifier"

/-- Every rule, in the order of the grammar. -/
def all : List Rule :=
  [endOfInput, program, identifier, identifierName, privateName, keyword .asWord, keyword .asyncWord,
    keyword .awaitWord, keyword .breakWord, keyword .caseWord, keyword .catchWord, keyword .constWord,
    keyword .continueWord, keyword .declareWord, keyword .defaultWord, keyword .doWord, keyword .elseWord,
    keyword .enumWord, keyword .exportWord, keyword .extendsWord, keyword .finallyWord, keyword .forWord,
    keyword .fromWord, keyword .functionWord, keyword .ifWord, keyword .importWord, keyword .inWord,
    keyword .interfaceWord, keyword .newWord, keyword .returnWord, keyword .switchWord, keyword .throwWord,
    keyword .tryWord, keyword .typeWord, keyword .typeofWord, keyword .whileWord, number, string, template,
    templateChunk, templateSubst, regex, boolean, nullLit, thisExpr, statement, block, emptyStmt, varStmt, varDecl,
    varKind, declarator, definiteMark, functionDecl, functionSig, params, param, restParam, optionalMark,
    statedType, returnType, ifStmt, elseClause, forStmt, forInit, forTest, forUpdate, forInOfStmt, forLeft,
    forKind, whileStmt, doWhileStmt, tryStmt, catchClause, finallyClause, switchStmt, switchCase, caseTest,
    returnStmt, throwStmt, breakStmt, continueStmt, exprStmt, interfaceDecl, typeAliasDecl, enumDecl, enumMember,
    ambientDecl, importDecl, importClause, importDefault, importNamespace, importNamed, importSpec, exportDecl,
    exportTypeList, exportList, exportSpec, exportAll, exportDefault, objectPattern, patternPair, patternShorthand,
    bindingElement, restPattern, arrayPattern, patternHole, expression, assignExpr, assignOp, arrowFn, arrowParams,
    arrowBody, conditionalExpr, level .nullish, level .logicalOr, level .logicalAnd, level .bitOr, level .bitXor,
    level .bitAnd, level .equality, level .relational, level .shift, level .additive, level .multiplicative,
    exponentExpr, operator .nullish, operator .or, operator .and, operator .bitOr, operator .bitXor, operator .bitAnd,
    operator .strictEq, operator .strictNe, operator .eq, operator .ne, operator .lte, operator .gte, operator .lt,
    operator .gt, operator .instanceOf, operator .inside, operator .shl, operator .ushr, operator .shr, operator .add,
    operator .sub, operator .mul, operator .div, operator .mod, operator .exp, tsAsSuffix, tsAsKw, unaryExpr, unaryOp,
    updateOp, awaitExpr, postfixExpr, callExpr, callArgs, optionalCall, optionalIndex, optionalMember, indexAccess,
    memberAccess, nonNull, taggedTemplate, argList, spreadElem, newExpr, newCallee, newArgs, parenExpr, functionExpr,
    arrayLit, arrayHole, objectLit, objectPair, objectMethod, objectShorthand, propertyKey, computedKey, tsType,
    tsUnion, tsIntersection, tsOperatorType, tsTypeOperator, tsPostfixType, tsArraySuffix, tsParenType, tsTupleType,
    tsTupleElem, tsTypeofType, tsLiteralType, tsTypeRef, tsTypeArgs, tsFunctionType, tsFnParams, tsFnParam,
    tsTypeParams, tsTypeParam, tsObjectType, tsIndexSig, tsMappedSig, tsCallSig, tsMethodSig, tsPropSig, tsModifier]

/-- What an error message calls the rule. -/
def label : Rule → String
  | endOfInput => "end of input"
  | identifier | identifierName => "identifier"
  | expression | assignExpr => "expression"
  | tsType => "type"
  | assignOp => "\x60=\x60"
  | rule => rule.name

end Rule
end FlowScript.Grammar
