import Pipewright.Text.Whole

/-!
# Arithmetic of the shell

The shell calculates with whole numbers of sixty-four bits.  An expression may look at variables
and set them.

* `BinaryOperator`, `Expression`: the expressions.
* `Expression.parse`: the expression of a text.
* `Expression.eval`: its value, with the variables that it sets.
-/

namespace Pipewright.Shell

/-- An operator between two numbers. -/
inductive BinaryOperator where
  | times | quotient | remainder
  | plus | minus
  | left | right
  | less | lessOrEqual | greater | greaterOrEqual
  | equal | unequal
  | bitAnd | bitXor | bitOr
  | and | or
deriving DecidableEq, Repr

/-- An operator in front of a number. -/
inductive UnaryOperator where
  | plus | minus | not | complement
deriving DecidableEq, Repr

/-- An arithmetic expression. -/
inductive Expression where
  | number (n : Int)
  | named (name : String)
  | unary (op : UnaryOperator) (operand : Expression)
  | binary (op : BinaryOperator) (left right : Expression)
  | choice (condition yes no : Expression)
  /-- A variable gets a value, or what an operator makes of its own value and another one. -/
  | setting (name : String) (op : Option BinaryOperator) (value : Expression)
deriving DecidableEq, Repr, Inhabited

/-- What can be wrong with an expression. -/
inductive ArithmeticFault where
  /-- No operand stands where one should. -/
  | noOperand
  /-- The text goes on after the expression. -/
  | notAtEnd
  | noBracket
  | noColon
  | zeroDivisor
  /-- A variable holds no number. -/
  | noNumber (text : String)
deriving DecidableEq, Repr

/-- The wording of what is wrong with the expression of a text. -/
def ArithmeticFault.message (text : String) : ArithmeticFault → String
  | noOperand => within "expecting primary"
  | notAtEnd => within "expecting EOF"
  | noBracket => within "expecting ')'"
  | noColon => within "expecting ':'"
  | zeroDivisor => within "division by zero"
  | noNumber value => "Illegal number: " ++ value
where
  within (what : String) : String :=
    "arithmetic expression: " ++ what ++ ": \"" ++ text ++ "\""

namespace Expression

/-! ## Tokens -/

/-- A token of an expression. -/
inductive Symbol where
  | number (n : Nat)
  | name (s : String)
  | sign (s : String)
deriving DecidableEq, Repr

/-- The signs, the longer ones before the shorter ones that they start with. -/
def signs : List String :=
  ["<<=", ">>=", "<<", ">>", "<=", ">=", "==", "!=", "&&", "||", "*=", "/=", "%=", "+=", "-=",
    "&=", "^=", "|=", "*", "/", "%", "+", "-", "<", ">", "&", "^", "|", "=", "!", "~", "?", ":",
    "(", ")"]

/-- The sign that starts here, and what follows it. -/
def signAt (cs : List Char) : Option (String × List Char) :=
  (signs.find? fun s => s.toList.isPrefixOf cs).map fun s => (s, cs.drop s.length)

/-- The tokens of a text.  A character that starts none is a sign of its own.  The fuel is the
number of characters at hand. -/
def symbolsFrom : Nat → List Char → List Symbol
  | 0, _ => []
  | _, [] => []
  | n + 1, c :: cs =>
    if c.isWhitespace then symbolsFrom n cs
    else if c.isDigit then
      match Text.literalAt? (c :: cs) with
      | some (value, rest) => .number value :: symbolsFrom n rest
      | none => .sign (String.singleton c) :: symbolsFrom n cs
    else
      match (c :: cs).span fun d => d.isAlphanum || d = '_' with
      | ([], _) =>
        match signAt (c :: cs) with
        | some (s, rest) => .sign s :: symbolsFrom n rest
        | none => .sign (String.singleton c) :: symbolsFrom n cs
      | (name, rest) => .name (String.ofList name) :: symbolsFrom n rest

/-- The tokens of a text. -/
def symbols (text : String) : List Symbol :=
  symbolsFrom text.toList.length text.toList

/-! ## Grammar -/

/-- The operators between two numbers, with their signs and how tightly they bind. -/
def operators : List (String × BinaryOperator × Nat) :=
  [("*", .times, 10), ("/", .quotient, 10), ("%", .remainder, 10), ("+", .plus, 9),
    ("-", .minus, 9), ("<<", .left, 8), (">>", .right, 8), ("<", .less, 7),
    ("<=", .lessOrEqual, 7), (">", .greater, 7), (">=", .greaterOrEqual, 7), ("==", .equal, 6),
    ("!=", .unequal, 6), ("&", .bitAnd, 5), ("^", .bitXor, 4), ("|", .bitOr, 3), ("&&", .and, 2),
    ("||", .or, 1)]

/-- The operators of settings, with their signs. -/
def settings : List (String × Option BinaryOperator) :=
  [("=", none), ("*=", some .times), ("/=", some .quotient), ("%=", some .remainder),
    ("+=", some .plus), ("-=", some .minus), ("<<=", some .left), (">>=", some .right),
    ("&=", some .bitAnd), ("^=", some .bitXor), ("|=", some .bitOr)]

/-- The operators in front of a number, with their signs. -/
def unaryOperators : List (String × UnaryOperator) :=
  [("+", .plus), ("-", .minus), ("!", .not), ("~", .complement)]

/-- A reader of expressions. -/
abbrev Parser := StateT (List Symbol) (Except ArithmeticFault)

/-- Steps over a sign. -/
def expectSign (s : String) (fault : ArithmeticFault) : Parser Unit := do
  match ← get with
  | .sign t :: rest => if s = t then set rest else throw fault
  | _ => throw fault

mutual

/-- A setting, or an expression without one.  Here as in what follows the fuel bounds the depth of
the search. -/
def parseSetting : Nat → Parser Expression
  | 0 => throw .noOperand
  | n + 1 => do
    match ← get with
    | .name x :: .sign s :: rest =>
      match settings.lookup s with
      | some op =>
        set rest
        return .setting x op (← parseSetting n)
      | none => parseChoice n
    | _ => parseChoice n

/-- A choice by a condition, or an expression without one. -/
def parseChoice : Nat → Parser Expression
  | 0 => throw .noOperand
  | n + 1 => do
    let condition ← parseOperand n
    let condition ← parseOperators n 1 condition
    match ← get with
    | .sign "?" :: rest =>
      set rest
      let yes ← parseSetting n
      expectSign ":" .noColon
      return .choice condition yes (← parseChoice n)
    | _ => return condition

/-- What follows a left operand, as far as the operators bind so tightly. -/
def parseOperators : Nat → Nat → Expression → Parser Expression
  | 0, _, _ => throw .noOperand
  | n + 1, least, first => do
    match ← get with
    | .sign s :: rest =>
      match operators.lookup s with
      | some (op, level) =>
        if least ≤ level then
          set rest
          let second ← parseOperand n
          let second ← parseOperators n (level + 1) second
          parseOperators n least (.binary op first second)
        else return first
      | none => return first
    | _ => return first

/-- An operand with the signs in front of it. -/
def parseOperand : Nat → Parser Expression
  | 0 => throw .noOperand
  | n + 1 => do
    match ← get with
    | .number value :: rest =>
      set rest
      return .number (Text.clamp64 value)
    | .name x :: rest =>
      set rest
      return .named x
    | .sign "(" :: rest =>
      set rest
      let inner ← parseSetting n
      expectSign ")" .noBracket
      return inner
    | .sign s :: rest =>
      match unaryOperators.lookup s with
      | some op =>
        set rest
        return .unary op (← parseOperand n)
      | none => throw .noOperand
    | [] => throw .noOperand

end

/-- The expression of a text. -/
def parse (text : String) : Except ArithmeticFault Expression :=
  let ss := symbols text
  match (parseSetting (4 * ss.length + 4)).run ss with
  | .ok (e, []) => .ok e
  | .ok (_, _ :: _) => .error .notAtEnd
  | .error fault => .error fault

end Expression

/-! ## Values -/

/-- One for what is true, and zero for what is not. -/
def truthValue (b : Bool) : Int := if b then 1 else 0

/-- What an operator in front of a number makes of it. -/
def UnaryOperator.apply (op : UnaryOperator) (n : Int) : Int :=
  match op with
  | plus => n
  | minus => Text.signed64 (-n)
  | not => truthValue (n = 0)
  | complement => -n - 1

/-- What an operation on bits makes of two numbers. -/
def onBits (f : Nat → Nat → Nat) (a b : Int) : Int :=
  Text.signed64 (f (Text.unsigned64 a) (Text.unsigned64 b))

/-- How far a shift by a number goes. -/
def shiftCount (n : Int) : Nat := Text.unsigned64 n % 64

/-- What an operator makes of two numbers. -/
def BinaryOperator.apply (op : BinaryOperator) (a b : Int) : Except ArithmeticFault Int :=
  match op with
  | times => .ok (Text.signed64 (a * b))
  | quotient => if b = 0 then .error .zeroDivisor else .ok (Text.signed64 (a.tdiv b))
  | remainder => if b = 0 then .error .zeroDivisor else .ok (a.tmod b)
  | plus => .ok (Text.signed64 (a + b))
  | minus => .ok (Text.signed64 (a - b))
  | left => .ok (Text.signed64 (a <<< shiftCount b))
  | right => .ok (a >>> shiftCount b)
  | less => .ok (truthValue (a < b))
  | lessOrEqual => .ok (truthValue (a ≤ b))
  | greater => .ok (truthValue (b < a))
  | greaterOrEqual => .ok (truthValue (b ≤ a))
  | equal => .ok (truthValue (a = b))
  | unequal => .ok (truthValue (a ≠ b))
  | bitAnd => .ok (onBits (· &&& ·) a b)
  | bitXor => .ok (onBits (· ^^^ ·) a b)
  | bitOr => .ok (onBits (· ||| ·) a b)
  | and => .ok (truthValue (a ≠ 0 && b ≠ 0))
  | or => .ok (truthValue (a ≠ 0 || b ≠ 0))

/-- The number that the value of a variable stands for.  A blank value is zero. -/
def numberOf (value : String) : Except ArithmeticFault Int :=
  if value.toList.all (·.isWhitespace) then .ok 0
  else
    match Text.integerAt? value.toList with
    | some (n, rest) =>
      if rest.all (·.isWhitespace) then .ok (Text.clamp64 n) else .error (.noNumber value)
    | none => .error (.noNumber value)

/-- A calculation that sets variables, the last one first. -/
abbrev Calculation := StateT (List (String × Int)) (Except ArithmeticFault)

/-- The number that a variable holds.  A variable that is not set holds zero. -/
def numberIn (value? : String → Option String) (name : String) : Calculation Int := do
  match (← get).lookup name with
  | some n => return n
  | none => numberOf ((value? name).getD "")

/-- The value of an expression.  What need not be known is not worked out. -/
def Expression.eval (value? : String → Option String) : Expression → Calculation Int
  | number n => return n
  | named name => numberIn value? name
  | unary op operand => return op.apply (← eval value? operand)
  | binary .and first second => do
    if (← eval value? first) = 0 then return 0
    return truthValue ((← eval value? second) ≠ 0)
  | binary .or first second => do
    if (← eval value? first) ≠ 0 then return 1
    return truthValue ((← eval value? second) ≠ 0)
  | binary op first second => do
    let a ← eval value? first
    let b ← eval value? second
    op.apply a b
  | choice condition yes no => do
    if (← eval value? condition) ≠ 0 then eval value? yes else eval value? no
  | setting name op value => do
    let result ← match op with
      | none => eval value? value
      | some op => do
        let before ← numberIn value? name
        let operand ← eval value? value
        op.apply before operand
    modify fun set => (name, result) :: set
    return result

/-- The value of the expression that a text is, and the variables that it sets, the first one
first. -/
def calculate (value? : String → Option String) (text : String) :
    Except ArithmeticFault (Int × List (String × Int)) := do
  let e ← Expression.parse text
  let (n, set) ← (e.eval value?).run []
  return (n, set.reverse)

end Pipewright.Shell
