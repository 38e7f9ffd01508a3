/-
ModuleLint/Tree/Kind.lean

The kinds of nodes in the tree of a module.
-/
namespace ModuleLint

/-- What a node of the tree stands for. -/
inductive NodeKind where
  | module
  | varDeclaration | procedure | function | parameterList | parameter | directive
  | codeBlock
  | ifStatement | ifBranch | elsIfBranch | elseBranch
  | whileStatement | forStatement | forEachStatement
  | tryStatement | exceptBranch
  | returnStatement | raiseStatement | executeStatement | gotoStatement | label
  | breakStatement | continueStatement | addHandlerStatement | removeHandlerStatement
  | assignmentStatement | callStatement
  | newExpression | typeName | argumentList
  | binaryExpression | unaryExpression | ternaryExpression
  | memberAccess | indexAccess | callExpression
  | identifier | literal | parenExpression
  deriving DecidableEq, Repr, Inhabited

namespace NodeKind

/-- All kinds, in the order of their declaration. -/
def all : List NodeKind :=
  [.module, .varDeclaration, .procedure, .function, .parameterList, .parameter, .directive,
   .codeBlock, .ifStatement, .ifBranch, .elsIfBranch, .elseBranch, .whileStatement,
   .forStatement, .forEachStatement, .tryStatement, .exceptBranch, .returnStatement,
   .raiseStatement, .executeStatement, .gotoStatement, .label, .breakStatement,
   .continueStatement, .addHandlerStatement, .removeHandlerStatement, .assignmentStatement,
   .callStatement, .newExpression, .typeName, .argumentList, .binaryExpression,
   .unaryExpression, .ternaryExpression, .memberAccess, .indexAccess, .callExpression,
   .identifier, .literal, .parenExpression]

/-- The name of a kind in reports about trees. -/
def name : NodeKind → String
  | .module => "Module"
  | .varDeclaration => "VarDeclaration"
  | .procedure => "Procedure"
  | .function => "Function"
  | .parameterList => "ParameterList"
  | .parameter => "Parameter"
  | .directive => "Annotation"
  | .codeBlock => "CodeBlock"
  | .ifStatement => "IfStatement"
  | .ifBranch => "IfBranch"
  | .elsIfBranch => "ElsIfBranch"
  | .elseBranch => "ElseBranch"
  | .whileStatement => "WhileStatement"
  | .forStatement => "ForStatement"
  | .forEachStatement => "ForEachStatement"
  | .tryStatement => "TryStatement"
  | .exceptBranch => "ExceptBranch"
  | .returnStatement => "ReturnStatement"
  | .raiseStatement => "RaiseStatement"
  | .executeStatement => "ExecuteStatement"
  | .gotoStatement => "GotoStatement"
  | .label => "Label"
  | .breakStatement => "BreakStatement"
  | .continueStatement => "ContinueStatement"
  | .addHandlerStatement => "AddHandlerStatement"
  | .removeHandlerStatement => "RemoveHandlerStatement"
  | .assignmentStatement => "AssignmentStatement"
  | .callStatement => "CallStatement"
  | .newExpression => "NewExpression"
  | .typeName => "TypeName"
  | .argumentList => "ArgumentList"
  | .binaryExpression => "BinaryExpression"
  | .unaryExpression => "UnaryExpression"
  | .ternaryExpression => "TernaryExpression"
  | .memberAccess => "MemberAccess"
  | .indexAccess => "IndexAccess"
  | .callExpression => "CallExpression"
  | .identifier => "Identifier"
  | .literal => "Literal"
  | .parenExpression => "ParenExpression"

/-- The kind of a given name. -/
def ofName? (s : String) : Option NodeKind :=
  all.find? fun kind => kind.name == s

/-- The leading branch of an `If`.  Its `ElsIf` and `Else` branches are its siblings,
so code in those lies in no conditional branch. -/
def isConditionalBranch (kind : NodeKind) : Bool :=
  kind == .ifBranch

/-- A declaration of a procedure or a function. -/
def isMethod (kind : NodeKind) : Bool :=
  kind == .procedure || kind == .function

end NodeKind

end ModuleLint
