import TickScript.Text.Columns

/-!
# Causes of failure

Everything that can go wrong between a script and its last tick has one cause in this list. A cause
belongs to a stage, and its published name is the stage's stem followed by its number within the
stage, so a cause added at the end of a stage renames nothing. The order of the list is also the
order in which causes are numbered on the wire.
-/

namespace TickScript

/-- The stage at which a cause arises. Internal causes speak of a damaged program or a host that
breaks the rules of the machine; no compiled program meets them. -/
inductive Stage where
  | lexical
  | syntactic
  | static
  | runtime
  | internal
deriving Repr, DecidableEq

/-- Why a script was refused or a program stopped. -/
inductive Cause where
  | invalidToken
  | unclosedText
  | secondPoint
  | numberOutOfRange
  | callOfExpression
  | invalidMember
  | missingComma
  | emptyParentheses
  | missingMemberName
  | missingMemberEquals
  | missingValue
  | missingOpenBrace
  | missingCloseBrace
  | missingVariableName
  | missingVariableEquals
  | missingFunctionName
  | missingParameterList
  | missingParameterName
  | missingCloseBracket
  | nestedTooDeep
  | featureUnsupported
  | unknownVariable
  | unknownFunction
  | tooFewArguments
  | tooManyArguments
  | returnOutsideFunction
  | loopControlOutsideLoop
  | nestedFunction
  | notAssignable
  | duplicateFunction
  | budgetSpent
  | divisionByZero
  | raisedByProgram
  | tupleIndexOutOfBounds
  | noSuchMember
  | arrayIndexOutOfBounds
  | notNumbers
  | notInteger
  | notTuple
  | notObject
  | notArray
  | notText
  | callDepthExceeded
  | tupleTooBig
  | arrayTooBig
  | memoryExceeded
  | missingOperand
  | malformedProgram
  | badLocal
  | badGlobal
  | badFunction
  | badBuiltin
  | badString
  | badShape
  | noCallPending
  | callPending
deriving Repr, DecidableEq

namespace Cause

/-- All causes in their published order. -/
def all : List Cause :=
  [invalidToken, unclosedText, secondPoint, numberOutOfRange,
    callOfExpression, invalidMember, missingComma, emptyParentheses, missingMemberName,
    missingMemberEquals, missingValue, missingOpenBrace, missingCloseBrace, missingVariableName,
    missingVariableEquals, missingFunctionName, missingParameterList, missingParameterName,
    missingCloseBracket, nestedTooDeep,
    featureUnsupported, unknownVariable, unknownFunction, tooFewArguments, tooManyArguments,
    returnOutsideFunction, loopControlOutsideLoop, nestedFunction, notAssignable, duplicateFunction,
    budgetSpent, divisionByZero, raisedByProgram, tupleIndexOutOfBounds, noSuchMember,
    arrayIndexOutOfBounds, notNumbers, notInteger, notTuple, notObject, notArray, notText,
    callDepthExceeded, tupleTooBig, arrayTooBig, memoryExceeded,
    missingOperand, malformedProgram, badLocal, badGlobal, badFunction, badBuiltin, badString,
    badShape, noCallPending, callPending]

/-- The place of a cause in the published order. -/
def index (c : Cause) : Nat := all.idxOf c

/-- The cause at a place of the published order. -/
def ofIndex? (n : Nat) : Option Cause := all[n]?

/-- A cause is found again by its index. -/
theorem ofIndex?_index (c : Cause) : ofIndex? c.index = some c := by
  cases c <;> rfl

/-- The stage at which a cause arises. -/
def stage : Cause → Stage
  | invalidToken | unclosedText | secondPoint | numberOutOfRange => .lexical
  | callOfExpression | invalidMember | missingComma | emptyParentheses | missingMemberName
  | missingMemberEquals | missingValue | missingOpenBrace | missingCloseBrace
  | missingVariableName | missingVariableEquals | missingFunctionName | missingParameterList
  | missingParameterName | missingCloseBracket | nestedTooDeep => .syntactic
  | featureUnsupported | unknownVariable | unknownFunction | tooFewArguments | tooManyArguments
  | returnOutsideFunction | loopControlOutsideLoop | nestedFunction | notAssignable
  | duplicateFunction => .static
  | budgetSpent | divisionByZero | raisedByProgram | tupleIndexOutOfBounds | noSuchMember
  | arrayIndexOutOfBounds | notNumbers | notInteger | notTuple | notObject | notArray | notText
  | callDepthExceeded | tupleTooBig | arrayTooBig | memoryExceeded => .runtime
  | missingOperand | malformedProgram | badLocal | badGlobal | badFunction | badBuiltin | badString
  | badShape | noCallPending | callPending => .internal

end Cause

/-- What the published names of a stage's causes start with. -/
def Stage.stem : Stage → String
  | .lexical => "TK"
  | .syntactic => "PA"
  | .static => "SC"
  | .runtime => "RT"
  | .internal => "RT-INTERNAL"

namespace Cause

/-- The number of a cause within its stage, from one. -/
def number (c : Cause) : Nat := (all.filter (fun d => d.stage = c.stage)).idxOf c + 1

/-- The published name of a cause. -/
def id (c : Cause) : String := c.stage.stem ++ Text.zeroPadded 3 c.number

/-- Whether no compiled program meets this cause. -/
def isInternal (c : Cause) : Bool := c.stage = .internal

/-- The cause in words. -/
def message : Cause → String
  | invalidToken => "Invalid token"
  | unclosedText => "Unclosed string literal"
  | secondPoint => "Numeric literal contains more than one dot"
  | numberOutOfRange => "Numeric literal is out of range"
  | callOfExpression => "Only functions may be called, not arbitrary expressions"
  | invalidMember => "Expected a member name or tuple index after '.'"
  | missingComma => "Expected ','"
  | emptyParentheses => "Parentheses must contain at least one expression"
  | missingMemberName => "Expected an object member name"
  | missingMemberEquals => "Expected '=' after the object member name"
  | missingValue => "Expected a value or unary operator"
  | missingOpenBrace => "Expected '\x7b'"
  | missingCloseBrace => "Expected '\x7d'"
  | missingVariableName => "Expected a variable name after 'var'"
  | missingVariableEquals => "Expected '=' after the variable name"
  | missingFunctionName => "Expected a function name after 'fun'"
  | missingParameterList => "Expected '(' after the function name"
  | missingParameterName => "Expected an argument name"
  | missingCloseBracket => "Expected ']'"
  | nestedTooDeep => "Expressions or blocks are nested too deeply"
  | featureUnsupported => "This feature is not supported by the processor"
  | unknownVariable => "Unknown variable"
  | unknownFunction => "Unknown function"
  | tooFewArguments => "Too few arguments for function call"
  | tooManyArguments => "Too many arguments for function call"
  | returnOutsideFunction => "'return' may only be used inside a function"
  | loopControlOutsideLoop => "'break' and 'continue' may only be used inside a loop"
  | nestedFunction => "Functions may only be declared at the top level"
  | notAssignable => "The left side of an assignment must be a variable or member"
  | duplicateFunction => "A function with this name is already declared"
  | budgetSpent => "Exceeded the instruction limit for this tick"
  | divisionByZero => "Integer division by zero"
  | raisedByProgram => "Error raised by the program"
  | tupleIndexOutOfBounds => "Tuple member index out of bounds"
  | noSuchMember => "Object does not have this member"
  | arrayIndexOutOfBounds => "Array index out of bounds"
  | notNumbers => "Operands must both be integers or both be floats"
  | notInteger => "Operand must be an integer"
  | notTuple => "Operand must be a tuple"
  | notObject => "Operand must be an object"
  | notArray => "Operand must be an array"
  | notText => "Operand must be a string"
  | callDepthExceeded => "Exceeded the maximum call depth"
  | tupleTooBig => "Tuple exceeds the maximum tuple size"
  | arrayTooBig => "Array exceeds the maximum array size"
  | memoryExceeded => "Exceeded the memory limit"
  | missingOperand => "Operand stack is empty"
  | malformedProgram => "Program binary is malformed"
  | badLocal => "Local variable slot out of bounds"
  | badGlobal => "Invalid global variable reference"
  | badFunction => "Invalid function reference"
  | badBuiltin => "Invalid builtin function reference"
  | badString => "Invalid string table reference"
  | badShape => "Invalid shape table reference"
  | noCallPending => "Result pushed while no builtin call is pending"
  | callPending => "Execution resumed while a builtin call is pending"

/-- The cause in words, with its published name. -/
def text (c : Cause) : String := c.message ++ " [" ++ c.id ++ "]"

end Cause

end TickScript
