import Mathlib.Algebra.Group.Nat.Defs
import Memoark.Filter.Schema

/-! From the parsed CEL expression to the condition tree (`parser.go`). The expressions are
those of the CEL protobuf AST; the CEL parser and type checker are not part of the model. -/
namespace Memoark.Filter

/-- `Constant.ConstantKind`. `unsupported` stands for bytes, durations and timestamps. -/
inductive Constant where
  | null
  | bool (value : Bool)
  | int64 (value : Int)
  | uint64 (value : Nat)
  | double (value : Double)
  | string (value : String)
  | unsupported (type : String)
  deriving DecidableEq, Repr

/-- `Expr.ExprKind`. Selections and messages are never read: they are `other`. -/
inductive Expr where
  | const (value : Constant)
  | ident (name : String)
  | call (target : Option Expr) (function : String) (args : List Expr)
  | list (elements : List Expr)
  | comprehension (iterVar : String) (iterRange accuInit loopStep : Expr)
  | other

/-- Go's conversion to `int64` of an integer of any size. -/
def wrapInt64 (n : Int) : Int := n.bmod (2 ^ 64)

def getIdentName : Expr → Except String String
  | .ident name => .ok name
  | _ => .error "expression is not an identifier"

def getConstValue : Expr → Except String Literal
  | .const (.string value) => .ok (.string value)
  | .const (.int64 value) => .ok (.int64 value)
  | .const (.uint64 value) => .ok (.int64 (wrapInt64 value))
  | .const (.double value) => .ok (.float64 value)
  | .const (.bool value) => .ok (.bool value)
  | .const .null => .ok .null
  | .const (.unsupported type) => .error ("unsupported constant " ++ type)
  | _ => .error "expression is not a literal"

/-- `none` when the expression is not a boolean literal or a negation of one. -/
@[grind =] def evaluateBoolExpr : Expr → Except String (Option Bool)
  | .const value =>
    match getConstValue (.const value) with
    | .ok (.bool b) => .ok (some b)
    | _ => .ok none
  | .call _ "!_" [arg] => do
    match ← evaluateBoolExpr arg with
    | some b => .ok (some (!b))
    | none => .ok none
  | .call _ "!_" _ => .error "NOT expects exactly one argument"
  | _ => .ok none

def arithmetic : String → Option (Int → Int → Int)
  | "_+_" => some fun a b => wrapInt64 (a + b)
  | "_-_" => some fun a b => wrapInt64 (a - b)
  | "_*_" => some fun a b => wrapInt64 (a * b)
  | _ => none

def evaluateNumeric (timeNowUnix : Int) : Expr → Except String (Option Int)
  | .const value =>
    match getConstValue (.const value) with
    | .ok (.int64 v) => .ok (some v)
    | .ok (.float64 v) => .ok (some v.toInt64)
    | _ => .ok none
  | .call _ "now" _ => .ok (some timeNowUnix)
  | .call _ function [a, b] => do
    match arithmetic function with
    | none => .ok none
    | some op =>
      match ← evaluateNumeric timeNowUnix a with
      | none => .ok none
      | some left =>
        match ← evaluateNumeric timeNowUnix b with
        | none => .ok none
        | some right => .ok (some (op left right))
  | .call _ function _ =>
    match arithmetic function with
    | none => .ok none
    | some _ => .error "arithmetic requires two arguments"
  | _ => .ok none

def buildValueExpr (timeNowUnix : Int) (schema : Schema) : Expr → Except String ValueExpr
  | .ident name =>
    match schema.field name with
    | some _ => .ok (.fieldRef name)
    | none => .error ("unknown identifier " ++ name.quote)
  | expr =>
    match getConstValue expr with
    | .ok literal => .ok (.literal literal)
    | .error _ => do
      match ← evaluateNumeric timeNowUnix expr with
      | some value => .ok (.literal (.int64 value))
      | none =>
        match ← evaluateBoolExpr expr with
        | some value => .ok (.literal (.bool value))
        | none =>
          match expr with
          | .call _ "size" [arg] => do
            .ok (.function "size" [← buildValueExpr timeNowUnix schema arg])
          | .call _ "size" _ => .error "size() expects one argument"
          | _ => .error "unsupported value expression"

def toComparisonOperator : String → Option ComparisonOperator
  | "_==_" => some .eq
  | "_!=_" => some .neq
  | "_<_" => some .lt
  | "_>_" => some .gt
  | "_<=_" => some .lte
  | "_>=_" => some .gte
  | _ => none

def checkComparisonOp (schema : Schema) (op : ComparisonOperator) :
    ValueExpr → Except String Unit
  | .fieldRef name =>
    match schema.field name with
    | none => .error ("unknown identifier " ++ name.quote)
    | some _ =>
      match schema.resolveAlias name with
      | none => .error ("invalid alias " ++ name.quote)
      | some f =>
        match f.allowedComparisonOps with
        | none => .ok ()
        | some ops =>
          if op ∈ ops then .ok ()
          else .error ("operator " ++ op.text ++ " not allowed for field " ++ name.quote)
  | _ => .ok ()

def buildComparisonCondition (timeNowUnix : Int) (schema : Schema) (function : String) :
    List Expr → Except String Condition
  | [leftExpr, rightExpr] => do
    match toComparisonOperator function with
    | none => .error ("unsupported comparison operator " ++ function.quote)
    | some op =>
      let left ← buildValueExpr timeNowUnix schema leftExpr
      let right ← buildValueExpr timeNowUnix schema rightExpr
      checkComparisonOp schema op left
      return .comparison left op right
  | _ => .error "comparison expects two arguments"

def checkInIdent (schema : Schema) (name : String) : Except String Unit :=
  match schema.field name with
  | none => .error ("unknown identifier " ++ name.quote)
  | some f =>
    match f.kind, schema.resolveAlias name with
    | .virtualAlias, none => .error ("invalid alias " ++ name.quote)
    | _, _ => .ok ()

def buildElementIn (timeNowUnix : Int) (schema : Schema) (left right : Expr) :
    Except String Condition :=
  match right with
  | .ident name =>
    match schema.field name with
    | none => .error ("unknown identifier " ++ name.quote)
    | some _ => do
      return .elementIn (← buildValueExpr timeNowUnix schema left) name
  | _ => .error "invalid use of in operator"

def buildInCondition (timeNowUnix : Int) (schema : Schema) : List Expr → Except String Condition
  | [left, right] => do
    match left, right with
    | .ident name, .list elements =>
      checkInIdent schema name
      return .inList (.fieldRef name) (← elements.mapM (buildValueExpr timeNowUnix schema))
    | .ident name, right =>
      checkInIdent schema name
      buildElementIn timeNowUnix schema (.ident name) right
    | left, right => buildElementIn timeNowUnix schema left right
  | _ => .error "in operator expects two arguments"

def buildContainsCondition (schema : Schema) (target : Option Expr) (args : List Expr) :
    Except String Condition := do
  match target with
  | none => .error "contains requires a target"
  | some target =>
    let name ← getIdentName target
    match schema.field name with
    | none => .error ("unknown identifier " ++ name.quote)
    | some f =>
      if !f.supportsContains then
        .error ("identifier " ++ name.quote ++ " does not support contains()")
      else
        match args with
        | [arg] =>
          match getConstValue arg with
          | .error err => .error ("contains only supports literal arguments: " ++ err)
          | .ok (.string value) => return .contains name value
          | .ok _ => .error "contains argument must be a string"
        | _ => .error "contains expects exactly one argument"

/-- Only `exists()` is supported: an accumulator that starts false and a step by `||`. -/
def detectComprehensionKind (accuInit loopStep : Expr) : Except String ComprehensionKind :=
  match accuInit, loopStep with
  | .const value, .call _ function _ =>
    let start := value matches .bool true
    if !start && function == "_||_" then .ok .exists
    else if start && function == "_&&_" then
      .error "all() comprehension is not supported; use exists() instead"
    else .error "unsupported comprehension type; only exists() is supported"
  | .const _, _ => .error "unsupported comprehension type; only exists() is supported"
  | _, _ => .error "comprehension accumulator must be initialized with a constant"

def isIterVarExpr (iterVar : String) : Expr → Bool
  | .ident name => name == iterVar
  | _ => false

def predicateArgument (name : String) (expr : Expr) : Except String String :=
  match getConstValue expr with
  | .error err => .error (name ++ " argument must be a constant string: " ++ err)
  | .ok (.string value) => .ok value
  | .ok _ => .error (name ++ " argument must be a string")

def buildEqualsPredicate (iterVar : String) : List Expr → Except String PredicateExpr
  | [a, b] =>
    if isIterVarExpr iterVar a then do return .equals (← predicateArgument "equality" b)
    else if isIterVarExpr iterVar b then do return .equals (← predicateArgument "equality" a)
    else .error ("equality predicate must compare against the iteration variable " ++ iterVar.quote)
  | _ => .error "equality predicate expects exactly two arguments"

def buildMethodPredicate (function : String) (build : String → PredicateExpr) (iterVar : String)
    (target : Option Expr) (args : List Expr) : Except String PredicateExpr :=
  if !(target.any (isIterVarExpr iterVar)) then
    .error (function ++ " target must be the iteration variable " ++ iterVar.quote)
  else
    match args with
    | [arg] => do return build (← predicateArgument function arg)
    | _ => .error (function ++ " expects exactly one argument")

def extractPredicate (iterVar : String) : Expr → Except String PredicateExpr
  | .call _ _ [_, .call target function args] =>
    match function with
    | "_==_" => buildEqualsPredicate iterVar args
    | "startsWith" => buildMethodPredicate "startsWith" .startsWith iterVar target args
    | "endsWith" => buildMethodPredicate "endsWith" .endsWith iterVar target args
    | "contains" => buildMethodPredicate "contains" .contains iterVar target args
    | _ => .error ("unsupported predicate function " ++ function.quote ++
        " in comprehension (supported: ==, startsWith, endsWith, contains)")
  | .call _ _ [_, _] => .error "comprehension predicate must be a function call"
  | .call _ _ _ => .error "comprehension loop step must have two arguments"
  | _ => .error "comprehension loop step must be a call expression"

def buildComprehensionCondition (schema : Schema) (iterVar : String)
    (iterRange accuInit loopStep : Expr) : Except String Condition := do
  let kind ← detectComprehensionKind accuInit loopStep
  match iterRange with
  | .ident name =>
    match schema.field name with
    | none => .error ("unknown field " ++ name.quote ++ " in comprehension")
    | some f =>
      if f.kind ≠ .jsonList then
        .error ("field " ++ name.quote ++ " does not support comprehension (must be a list)")
      else return .listComprehension kind name iterVar (← extractPredicate iterVar loopStep)
  | _ => .error "comprehension range must be a field identifier"

def buildConstantCall (expr : Expr) (function : String) : Except String Condition := do
  match ← evaluateBoolExpr expr with
  | some value => return .constant value
  | none => .error ("unsupported call expression " ++ function.quote)

def buildLeafCall (timeNowUnix : Int) (schema : Schema) (target : Option Expr)
    (function : String) (args : List Expr) : Except String Condition :=
  match function with
  | "_==_" | "_!=_" | "_<_" | "_>_" | "_<=_" | "_>=_" =>
    buildComparisonCondition timeNowUnix schema function args
  | "@in" => buildInCondition timeNowUnix schema args
  | "contains" => buildContainsCondition schema target args
  | _ => buildConstantCall (.call target function args) function

def buildCondition (timeNowUnix : Int) (schema : Schema) : Expr → Except String Condition
  | .call _ "_&&_" [left, right] => do
    return .logical .and (← buildCondition timeNowUnix schema left)
      (← buildCondition timeNowUnix schema right)
  | .call _ "_&&_" _ => .error "logical AND expects two arguments"
  | .call _ "_||_" [left, right] => do
    return .logical .or (← buildCondition timeNowUnix schema left)
      (← buildCondition timeNowUnix schema right)
  | .call _ "_||_" _ => .error "logical OR expects two arguments"
  | .call _ "!_" [arg] => do return .not (← buildCondition timeNowUnix schema arg)
  | .call _ "!_" _ => .error "logical NOT expects one argument"
  | .call target function args => buildLeafCall timeNowUnix schema target function args
  | .const value => do
    match ← getConstValue (.const value) with
    | .bool b => return .constant b
    | _ => .error "filter must evaluate to a boolean value"
  | .ident name =>
    match schema.field name with
    | none => .error ("unknown identifier " ++ name.quote)
    | some f =>
      if f.type = .bool then .ok (.fieldPredicate name)
      else .error ("identifier " ++ name.quote ++ " is not boolean")
  | .comprehension iterVar iterRange accuInit loopStep =>
    buildComprehensionCondition schema iterVar iterRange accuInit loopStep
  | _ => .error "unsupported top-level expression"

end Memoark.Filter
