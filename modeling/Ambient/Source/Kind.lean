/-!
# Kinds of source constructs

Every node of a source tree has a kind.  The named kinds are the constructs of the language; every
other token (a keyword, an operator, a bracket) has the kind of its own text.
-/

namespace Ambient

/-- What a node of a source tree is. -/
inductive Kind where
  | program
  | comment
  | htmlComment
  | hashBangLine
  | exportStatement
  | namespaceExport
  | exportClause
  | exportSpecifier
  | importStatement
  | importClause
  | namespaceImport
  | namedImports
  | importSpecifier
  | importAttribute
  | debuggerStatement
  | expressionStatement
  | functionDeclaration
  | generatorFunctionDeclaration
  | classDeclaration
  | lexicalDeclaration
  | variableDeclaration
  | usingDeclaration
  | variableDeclarator
  | statementBlock
  | ifStatement
  | elseClause
  | switchStatement
  | switchBody
  | switchCase
  | switchDefault
  | forStatement
  | forInStatement
  | whileStatement
  | doStatement
  | tryStatement
  | catchClause
  | finallyClause
  | withStatement
  | breakStatement
  | continueStatement
  | returnStatement
  | throwStatement
  | emptyStatement
  | labeledStatement
  | statementIdentifier
  | sequenceExpression
  | parenthesizedExpression
  | identifier
  | thisValue
  | superValue
  | number
  | string
  | stringFragment
  | escapeSequence
  | templateString
  | templateSubstitution
  | regex
  | regexPattern
  | regexFlags
  | trueValue
  | falseValue
  | nullValue
  | undefinedValue
  | object
  | pair
  | spreadElement
  | methodDefinition
  | shorthandPropertyIdentifier
  | propertyIdentifier
  | privatePropertyIdentifier
  | computedPropertyName
  | array
  | functionExpression
  | arrowFunction
  | generatorFunction
  | classExpression
  | classBody
  | classHeritage
  | fieldDefinition
  | classStaticBlock
  | decorator
  | metaProperty
  | callExpression
  | arguments
  | optionalChain
  | memberExpression
  | subscriptExpression
  | newExpression
  | awaitExpression
  | yieldExpression
  | unaryExpression
  | updateExpression
  | binaryExpression
  | ternaryExpression
  | assignmentExpression
  | augmentedAssignmentExpression
  | importValue
  | objectPattern
  | arrayPattern
  | assignmentPattern
  | objectAssignmentPattern
  | pairPattern
  | restPattern
  | shorthandPropertyIdentifierPattern
  | formalParameters
  | jsxElement
  | jsxSelfClosingElement
  | jsxOpeningElement
  | jsxClosingElement
  | jsxText
  | jsxExpression
  | jsxAttribute
  | jsxNamespaceName
  | htmlCharacterReference
  /-- A token that is not a construct of its own. -/
  | token (text : String)
  deriving DecidableEq, Repr, Inhabited

namespace Kind

/-- The name of a kind, as messages show it. -/
def name : Kind → String
  | program => "program"
  | comment => "comment"
  | htmlComment => "html_comment"
  | hashBangLine => "hash_bang_line"
  | exportStatement => "export_statement"
  | namespaceExport => "namespace_export"
  | exportClause => "export_clause"
  | exportSpecifier => "export_specifier"
  | importStatement => "import_statement"
  | importClause => "import_clause"
  | namespaceImport => "namespace_import"
  | namedImports => "named_imports"
  | importSpecifier => "import_specifier"
  | importAttribute => "import_attribute"
  | debuggerStatement => "debugger_statement"
  | expressionStatement => "expression_statement"
  | functionDeclaration => "function_declaration"
  | generatorFunctionDeclaration => "generator_function_declaration"
  | classDeclaration => "class_declaration"
  | lexicalDeclaration => "lexical_declaration"
  | variableDeclaration => "variable_declaration"
  | usingDeclaration => "using_declaration"
  | variableDeclarator => "variable_declarator"
  | statementBlock => "statement_block"
  | ifStatement => "if_statement"
  | elseClause => "else_clause"
  | switchStatement => "switch_statement"
  | switchBody => "switch_body"
  | switchCase => "switch_case"
  | switchDefault => "switch_default"
  | forStatement => "for_statement"
  | forInStatement => "for_in_statement"
  | whileStatement => "while_statement"
  | doStatement => "do_statement"
  | tryStatement => "try_statement"
  | catchClause => "catch_clause"
  | finallyClause => "finally_clause"
  | withStatement => "with_statement"
  | breakStatement => "break_statement"
  | continueStatement => "continue_statement"
  | returnStatement => "return_statement"
  | throwStatement => "throw_statement"
  | emptyStatement => "empty_statement"
  | labeledStatement => "labeled_statement"
  | statementIdentifier => "statement_identifier"
  | sequenceExpression => "sequence_expression"
  | parenthesizedExpression => "parenthesized_expression"
  | identifier => "identifier"
  | thisValue => "this"
  | superValue => "super"
  | number => "number"
  | string => "string"
  | stringFragment => "string_fragment"
  | escapeSequence => "escape_sequence"
  | templateString => "template_string"
  | templateSubstitution => "template_substitution"
  | regex => "regex"
  | regexPattern => "regex_pattern"
  | regexFlags => "regex_flags"
  | trueValue => "true"
  | falseValue => "false"
  | nullValue => "null"
  | undefinedValue => "undefined"
  | object => "object"
  | pair => "pair"
  | spreadElement => "spread_element"
  | methodDefinition => "method_definition"
  | shorthandPropertyIdentifier => "shorthand_property_identifier"
  | propertyIdentifier => "property_identifier"
  | privatePropertyIdentifier => "private_property_identifier"
  | computedPropertyName => "computed_property_name"
  | array => "array"
  | functionExpression => "function_expression"
  | arrowFunction => "arrow_function"
  | generatorFunction => "generator_function"
  | classExpression => "class"
  | classBody => "class_body"
  | classHeritage => "class_heritage"
  | fieldDefinition => "field_definition"
  | classStaticBlock => "class_static_block"
  | decorator => "decorator"
  | metaProperty => "meta_property"
  | callExpression => "call_expression"
  | arguments => "arguments"
  | optionalChain => "optional_chain"
  | memberExpression => "member_expression"
  | subscriptExpression => "subscript_expression"
  | newExpression => "new_expression"
  | awaitExpression => "await_expression"
  | yieldExpression => "yield_expression"
  | unaryExpression => "unary_expression"
  | updateExpression => "update_expression"
  | binaryExpression => "binary_expression"
  | ternaryExpression => "ternary_expression"
  | assignmentExpression => "assignment_expression"
  | augmentedAssignmentExpression => "augmented_assignment_expression"
  | importValue => "import"
  | objectPattern => "object_pattern"
  | arrayPattern => "array_pattern"
  | assignmentPattern => "assignment_pattern"
  | objectAssignmentPattern => "object_assignment_pattern"
  | pairPattern => "pair_pattern"
  | restPattern => "rest_pattern"
  | shorthandPropertyIdentifierPattern => "shorthand_property_identifier_pattern"
  | formalParameters => "formal_parameters"
  | jsxElement => "jsx_element"
  | jsxSelfClosingElement => "jsx_self_closing_element"
  | jsxOpeningElement => "jsx_opening_element"
  | jsxClosingElement => "jsx_closing_element"
  | jsxText => "jsx_text"
  | jsxExpression => "jsx_expression"
  | jsxAttribute => "jsx_attribute"
  | jsxNamespaceName => "jsx_namespace_name"
  | htmlCharacterReference => "html_character_reference"
  | token text => text

/-- Constructs are named, other tokens are not. -/
def isNamed : Kind → Bool
  | token _ => false
  | _ => true

end Kind

/-- The role that a node plays in the construct it belongs to. -/
inductive Role where
  | name
  | value
  | left
  | right
  | callee
  | arguments
  | body
  | parameters
  | parameter
  | property
  | receiver
  | key
  | declaration
  | source
  | renamed
  | constructor
  | operator
  | operand
  | index
  deriving DecidableEq, Repr

end Ambient
