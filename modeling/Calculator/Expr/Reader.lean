import Calculator.Binary64.Text
import Calculator.Nesting
import Calculator.Token

/-!
# From tokens to expressions

Expressions are read token by token, from left to right, without looking
ahead. The state of reading is a stack of *frames*, each an operation that
still waits for its last operand or a parenthesis that is still open, and a
*focus* that says what has just been read.

Precedence is how far down a lexeme reduces the stack. A power sign reduces
nothing: what it finds is its base. The sign of a product reduces powers,
unary signs and products; the sign of a sum, and the end of a group, reduce
all operations. Operations of one level thereby group to the left, and powers,
which wait on the stack with whatever stands before them, to the right. Unary
signs bind weaker than powers on their right side and may follow any operation.

A token is refused at once if nothing that could follow would make the tokens
read so far into an expression. This is why a constant is a focus of its own:
an opening parenthesis behind it is refused as a call, and not just as a
parenthesis out of place.

## Main definitions

* `Reader.Frame`, `Reader.Focus`, `Reader.State`: The state of reading.
* `Reader.reduce`: Completing the operations at the top of the stack.
* `Reader.step`: Reading one token.
* `Reader.finish`: The expression, once all tokens have been read.
* `Expr.ofTokens`: The expression that a list of tokens forms.
-/

namespace Calculator

namespace Reader

/-- What waits on the stack for an operand that is still being read. -/
inductive Frame
  /-- A unary sign. -/
  | sign (negative : Bool)
  /-- An operation with its left operand. -/
  | binary (op : BinaryOp) (left : Expr)
  /-- An open parenthesis. -/
  | group
  /-- A callee with its open parenthesis. -/
  | call (callee : Callee)
deriving DecidableEq, Repr

/-- What has just been read. -/
inductive Focus
  /-- Nothing yet, or something that an operand must follow. -/
  | operand
  /-- A callee, which an opening parenthesis must follow. -/
  | callee (callee : Callee)
  /-- A constant. -/
  | constant (name : Constant)
  /-- Any other complete operand. -/
  | complete (value : Expr)
deriving DecidableEq, Repr

/-- The state of reading: the frames, innermost first, and the focus. -/
structure State where
  /-- What waits, innermost first. -/
  frames : List Frame
  /-- What has just been read. -/
  focus : Focus
deriving DecidableEq, Repr

/-- How tightly the sign of an operation binds. -/
def level : BinaryOp → Nat
  | .add | .sub => 1
  | .mul | .div => 2
  | .pow => 3

namespace Frame

/-- How tightly a frame holds the operand it waits for; an open parenthesis
    does not hold it at all. -/
def level : Frame → Nat
  | sign _ => 3
  | binary op _ => Reader.level op
  | group | call _ => 0

/-- The expression that a frame makes with the operand it waited for. -/
def plug : Frame → Expr → Expr
  | sign negative, value => if negative then .negate value else value
  | binary op left, value => .binary op left value
  | group, value => value
  | call callee, value => callee.node value

/-- How many levels of nesting a frame counts for. -/
def weight : Frame → Nat
  | sign _ => 1
  | binary .pow _ => 2
  | binary _ _ => 0
  | group => 5
  | call _ => 6

end Frame

-- The empty sum is the zero of the core library, whatever else is imported.
attribute [local instance (high)] Zero.ofOfNat0

/-- How deeply a state is nested. -/
def State.depth (state : State) : Nat :=
  (state.frames.map Frame.weight).sum

/-- Complete the frames at the top of the stack that bind at least as tightly
    as a level. -/
def reduce (bound : Nat) : List Frame → Expr → List Frame × Expr
  | [], value => ([], value)
  | frame :: frames, value =>
    if bound ≤ frame.level then reduce bound frames (frame.plug value)
    else (frame :: frames, value)

/-- The state after the sign of an operation behind an operand. Only a power
    takes the operand as it is; other signs first complete what binds at least
    as tightly as they do. -/
def operate (op : BinaryOp) (frames : List Frame) (value : Expr) : State :=
  match op with
  | .pow => ⟨.binary .pow value :: frames, .operand⟩
  | op =>
    let (rest, left) := reduce (level op) frames value
    ⟨.binary op left :: rest, .operand⟩

/-- The state after a token behind a complete operand. -/
def afterOperand (frames : List Frame) (value : Expr) (token : Token) : Except Failure State :=
  match token.lexeme with
  | .operator op => .ok (operate op frames value)
  | lexeme =>
    -- All operations are complete now; what is left on top is open.
    match (reduce 1 frames value), lexeme with
    | (frame :: rest, inner), .rightParen => .ok ⟨rest, .complete (frame.plug inner)⟩
    | (_ :: _, _), _ => .error (.unclosed (some token.position))
    -- With nothing open, not even a closing parenthesis can stand here.
    | ([], _), _ => .error (.unexpected lexeme.text token.position)

/-- The state after a word where an operand must stand. -/
def readWord (frames : List Frame) (word : List Char) (position : Nat) : Except Failure State :=
  match Constant.ofName? word with
  | some constant => .ok ⟨frames, .constant constant⟩
  | none =>
    match Callee.ofName? word with
    | some callee => .ok ⟨frames, .callee callee⟩
    | none => .error (.unknownWord word position)

/-- The state after a token where an operand must stand. -/
def readOperand (frames : List Frame) (token : Token) : Except Failure State :=
  match token.lexeme with
  | .operator .sub => .ok ⟨.sign true :: frames, .operand⟩
  | .operator .add => .ok ⟨.sign false :: frames, .operand⟩
  | .number numeral =>
    -- The doubles bound the literals of every arithmetic.
    if (Binary64.ofNumeral numeral).isFinite then .ok ⟨frames, .complete (.number numeral)⟩
    else .error (.outOfRange numeral token.position)
  | .leftParen => .ok ⟨.group :: frames, .operand⟩
  | .word word => readWord frames word token.position
  | lexeme => .error (.unexpected lexeme.text token.position)

/-- The state after one more token. -/
def step (state : State) (token : Token) : Except Failure State :=
  match state.focus with
  | .operand => readOperand state.frames token
  | .callee callee =>
    if token.lexeme = .leftParen then .ok ⟨.call callee :: state.frames, .operand⟩
    else .error (.uncalled callee (some token.position))
  | .constant name =>
    if token.lexeme = .leftParen then .error (.notCallable name token.position)
    else afterOperand state.frames (.constant name) token
  | .complete value => afterOperand state.frames value token

/-- The state after one more token, if it is not nested too deeply. -/
def stepWithin (limit : NestingLimit) (state : State) (token : Token) : Except Failure State :=
  match step state token with
  | .ok next => if limit.admits next.depth then .ok next else .error .tooDeep
  | .error failure => .error failure

/-- The expression that has been read when a complete operand ends the
    tokens. -/
def close (frames : List Frame) (value : Expr) : Except Failure Expr :=
  match reduce 1 frames value with
  | ([], whole) => .ok whole
  | (_ :: _, _) => .error (.unclosed none)

/-- The expression that has been read when the tokens end. -/
def finish (state : State) : Except Failure Expr :=
  match state.focus with
  | .operand => .error .incomplete
  | .callee callee => .error (.uncalled callee none)
  | .constant name => close state.frames (.constant name)
  | .complete value => close state.frames value

/-- The state before any token. -/
def start : State :=
  ⟨[], .operand⟩

/-- The state after reading tokens one by one. -/
def run (limit : NestingLimit) (state : State) (tokens : List Token) : Except Failure State :=
  tokens.foldlM (stepWithin limit) state

end Reader

namespace Expr

/-- The expression that a list of tokens forms, if it forms one and is not
    nested too deeply. -/
def ofTokens (limit : NestingLimit) (tokens : List Token) : Except Failure Expr :=
  if tokens.isEmpty then .error .empty
  else do
    let state ← Reader.run limit Reader.start tokens
    Reader.finish state

end Expr

end Calculator
