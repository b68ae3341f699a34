import WideColumn.Expr.Token

/-!
# Reading filter text

The grammar, in which keywords may be written in any case:

```text
disjunction := conjunction ("or" conjunction)*
conjunction := negation ("and" negation)*
negation    := "not" negation | "(" disjunction ")" | comparison
comparison  := column operator value
column      := (name | string) block?
value       := string | integer | double | "true" | "false" | name
```

A chain of operands becomes one combination with all of them; a single operand stays as it is.
Each function takes its part from the front of the tokens and gives back the rest.
-/

namespace WideColumn.Expr

/-- Fail because something else was asked for at the front of the tokens. -/
def unexpected {α : Type} (expected : Expected) (ts : List Token) : Except SyntaxFault α :=
  .error (.unexpected expected ts.head?)

/-- A chain of operands as one expression. -/
def ofChain (op : Connective) (first : Expr) : List Expr → Expr
  | [] => first
  | rest => .combine op (first :: rest)

/-- Read a column name and the option block behind it, which stays part of the column token. -/
def column : List Token → Except SyntaxFault (String × List Token)
  | .identifier s :: .block b :: ts => .ok (s!"{s}[{b}]", ts)
  | .string s :: .block b :: ts => .ok (s!"{s}[{b}]", ts)
  | .identifier s :: ts => .ok (s, ts)
  | .string s :: ts => .ok (s, ts)
  | ts => unexpected .column ts

/-- Read a comparison operator. -/
def comparator : List Token → Except SyntaxFault (Comparator × List Token)
  | .comparator op :: ts => .ok (op, ts)
  | ts => unexpected .comparator ts

/-- Read a value; a name is a variable. -/
def operand : List Token → Except SyntaxFault (Operand × List Token)
  | .string s :: ts => .ok (.literal (.string s), ts)
  | .integer n :: ts => .ok (.literal (.integer n), ts)
  | .double x :: ts => .ok (.literal (.double x), ts)
  | .boolean b :: ts => .ok (.literal (.boolean b), ts)
  | .identifier s :: ts => .ok (.binding s, ts)
  | ts => unexpected .value ts

/-- Read a comparison. -/
def comparison (ts : List Token) : Except SyntaxFault (Expr × List Token) := do
  let (c, ts) ← column ts
  let (op, ts) ← comparator ts
  let (v, ts) ← operand ts
  return (.compare ⟨op, c, v⟩, ts)

/-- Read a closing parenthesis. -/
def rightParen : List Token → Except SyntaxFault (List Token)
  | .rightParen :: ts => .ok ts
  | ts => unexpected .rightParen ts

mutual
/-- Read a disjunction. The number bounds the depth of calls. -/
def disjunction : Nat → List Token → Except SyntaxFault (Expr × List Token)
  | 0, ts => unexpected .value ts
  | n + 1, ts => do
    let (e, ts) ← conjunction n ts
    let (es, ts) ← moreDisjuncts n ts
    return (ofChain .or e es, ts)

/-- Read the operands behind the first of a disjunction. -/
def moreDisjuncts : Nat → List Token → Except SyntaxFault (List Expr × List Token)
  | n + 1, .or :: ts => do
    let (e, ts) ← conjunction n ts
    let (es, ts) ← moreDisjuncts n ts
    return (e :: es, ts)
  | 0, .or :: ts => unexpected .value ts
  | _, ts => .ok ([], ts)

/-- Read a conjunction. -/
def conjunction : Nat → List Token → Except SyntaxFault (Expr × List Token)
  | 0, ts => unexpected .value ts
  | n + 1, ts => do
    let (e, ts) ← negation n ts
    let (es, ts) ← moreConjuncts n ts
    return (ofChain .and e es, ts)

/-- Read the operands behind the first of a conjunction. -/
def moreConjuncts : Nat → List Token → Except SyntaxFault (List Expr × List Token)
  | n + 1, .and :: ts => do
    let (e, ts) ← negation n ts
    let (es, ts) ← moreConjuncts n ts
    return (e :: es, ts)
  | 0, .and :: ts => unexpected .value ts
  | _, ts => .ok ([], ts)

/-- Read a negation, a group in parentheses or a comparison. -/
def negation : Nat → List Token → Except SyntaxFault (Expr × List Token)
  | n + 1, .not :: ts => do
    let (e, ts) ← negation n ts
    return (notAll [e], ts)
  | n + 1, .leftParen :: ts => do
    let (e, ts) ← disjunction n ts
    let ts ← rightParen ts
    return (e, ts)
  | 0, ts => unexpected .value ts
  | _, ts => comparison ts
end

/-- The expression of a sequence of tokens. Between two tokens that are taken lie at most three
calls, so the bound is never reached. -/
def ofTokens (ts : List Token) : Except SyntaxFault Expr :=
  if ts.isEmpty then .error .empty
  else do
    let (e, rest) ← disjunction (4 * ts.length + 4) ts
    if rest.isEmpty then return e else throw (.unexpected .finish rest.head?)

/-- The expression of a filter text. -/
def parse (text : String) : Except SyntaxFault Expr := do
  ofTokens (← Token.scan text.toList)

end WideColumn.Expr
