import Memoark.Filter.Parser
import Memoark.Syntax.Cut
import Memoark.Syntax.Lexer

/-! The upper levels of the CEL grammar: an expression is alternatives between `||`, each of them
relations between `&&`. The lexer and the parser of a relation belong to the CEL library; they
are parameters, with what the language definition says of them. -/
namespace Memoark.Cel

open Memoark.Filter (Expr)
open Syntax (Brackets glue)

inductive Token where
  | word (text : String)
  | string (value : String)
  | number (text : String)
  | symbol (text : String)
  | and
  | or
  | question
  | opening (bracket : Char)
  | closing (bracket : Char)
  deriving DecidableEq, Repr

def brackets : Brackets Token where
  depth
    | d, .opening _ => d + 1
    | d, .closing _ => d - 1
    | d, _ => d

theorem flat_and : brackets.Flat .and := fun _ => rfl
theorem flat_or : brackets.Flat .or := fun _ => rfl
theorem flat_question : brackets.Flat .question := fun _ => rfl

/-- The CEL library: the tokens of a text and whether it ends in a comment, the expression of a
relation and of a conditional, the tree of a chain of operands, and the size that a text may
have. -/
structure Library where
  lex : String → Option (List Token × Bool)
  relation : List Token → Option Expr
  conditional : List Token → Option Expr
  chain : String → List Expr → Expr
  sizeLimit : Nat

namespace Library

variable (C : Library)

def alternatives (ts : List Token) : Option (List (List Expr)) :=
  ((brackets.cut .or 0 ts).map (brackets.cut .and 0)).mapM fun alternative =>
    alternative.mapM C.relation

def tree (alternatives : List (List Expr)) : Expr :=
  C.chain "_||_" (alternatives.map (C.chain "_&&_"))

def expression (ts : List Token) : Option Expr :=
  match brackets.cut .question 0 ts with
  | [_] => (C.alternatives ts).map C.tree
  | _ => C.conditional ts

def parse (text : String) : Option Expr :=
  if text.length ≤ C.sizeLimit then (C.lex text).bind fun out => C.expression out.1 else none

end Library

def keywords : List String :=
  ["in", "true", "false", "null", "as", "break", "const", "continue", "else", "for", "function",
    "if", "import", "let", "loop", "package", "namespace", "return", "var", "void", "while"]

def Identifier (text : String) : Prop := Syntax.Word text ∧ text ∉ keywords

instance (text : String) : Decidable (Identifier text) := inferInstanceAs (Decidable (_ ∧ _))

def punctuation : List (String × Token) :=
  [("(", .opening '('), (")", .closing ')'), ("[", .opening '['), ("]", .closing ']'),
    (",", .symbol ",")]

def symbols : List String := ["==", ">=", "<", "in"]

def escapeValue : Char → Option Char
  | 'a' => some (Char.ofNat 7)
  | 'b' => some (Char.ofNat 8)
  | 'f' => some (Char.ofNat 12)
  | 'n' => some '\n'
  | 'r' => some '\r'
  | 't' => some '\t'
  | 'v' => some (Char.ofNat 11)
  | '\\' => some '\\'
  | '?' => some '?'
  | '"' => some '"'
  | '\'' => some '\''
  | '`' => some '`'
  | _ => none

def hexDigit (c : Char) : Option Nat :=
  if '0' ≤ c ∧ c ≤ '9' then some (c.toNat - '0'.toNat)
  else if 'a' ≤ c ∧ c ≤ 'f' then some (c.toNat - 'a'.toNat + 10)
  else if 'A' ≤ c ∧ c ≤ 'F' then some (c.toNat - 'A'.toNat + 10)
  else none

def hexValue (cs : List Char) : Option Nat :=
  cs.foldlM (fun n c => (hexDigit c).map (16 * n + ·)) 0

/-- The text of one character inside a string literal between double quotes. -/
inductive Piece : List Char → Char → Prop
  | plain {c : Char} (h : c ∉ ['"', '\\', '\n', '\r']) : Piece [c] c
  | escape {c v : Char} (h : escapeValue c = some v) : Piece ['\\', c] v
  | unicode {cs : List Char} {n : Nat} (hlength : cs.length = 4) (h : hexValue cs = some n)
      (hn : n.isValidChar) : Piece ('\\' :: 'u' :: cs) (Char.ofNat n)

inductive Literal : List Char → List Char → Prop
  | nil : Literal [] []
  | cons {piece text value : List Char} {v : Char} (hp : Piece piece v) (h : Literal text value) :
      Literal (piece ++ text) (v :: value)

/-- A decimal number without a sign; a whole one fits in 64 bits. -/
def Numeral (text : String) : Prop :=
  (Syntax.Digits text ∧ text.length ≤ 18) ∨ ∃ whole fraction, Syntax.Digits whole ∧
    Syntax.Digits fraction ∧ text = whole ++ "." ++ fraction

structure Lexis (lex : String → Option (List Token × Bool)) : Prop where
  /-- White space separates tokens. -/
  blank : ∀ {s t : String} {ts us : List Token} {b : Bool}, lex s = some (ts, false) →
    lex t = some (us, b) → lex (s ++ " " ++ t) = some (ts ++ us, b)
  /-- Brackets and commas are tokens wherever they stand. -/
  punctuation : ∀ {p : String} {tok : Token}, (p, tok) ∈ punctuation → ∀ {s t : String}
    {ts us : List Token} {b : Bool}, lex s = some (ts, false) → lex t = some (us, b) →
      lex (s ++ p ++ t) = some (ts ++ tok :: us, b)
  /-- A comment goes on to the end of its line. -/
  comment : ∀ {s t : String} {ts : List Token}, lex s = some (ts, true) → '\n' ∉ t.toList →
    lex (s ++ t) = some (ts, true)
  empty : lex "" = some ([], false)
  word : ∀ {w : String}, Identifier w → lex w = some ([.word w], false)
  selection : ∀ {w m : String}, Identifier w → Identifier m →
    lex (w ++ "." ++ m) = some ([.word w, .symbol ".", .word m], false)
  symbol : ∀ {s : String}, s ∈ symbols → lex s = some ([.symbol s], false)
  conjunction : lex "&&" = some ([.and], false)
  literal : ∀ {text value : List Char}, Literal text value →
    lex ("\"" ++ String.ofList text ++ "\"") = some ([.string (String.ofList value)], false)
  numeral : ∀ {t : String}, Numeral t → lex t = some ([.number t], false)
  negative : ∀ {t : String}, Numeral t → lex ("-" ++ t) = some ([.symbol "-", .number t], false)

inductive Tree (operator : String) : List Expr → Expr → Prop
  | leaf (e : Expr) : Tree operator [e] e
  | call {es fs : List Expr} {a b : Expr} (ha : Tree operator es a) (hb : Tree operator fs b) :
      Tree operator (es ++ fs) (.call none operator [a, b])

def stringList : List String → List Token
  | [] => []
  | [s] => [.string s]
  | s :: t :: rest => .string s :: .symbol "," :: stringList (t :: rest)

theorem mem_stringList {ss : List String} {t : Token} (h : t ∈ stringList ss) :
    (∃ s, t = .string s) ∨ t = .symbol "," := by
  induction ss with
  | nil => cases h
  | cons s ss ih =>
    cases ss with
    | nil => exact .inl ⟨s, by simpa [stringList] using h⟩
    | cons s' ss =>
      rw [stringList, List.mem_cons, List.mem_cons] at h
      rcases h with h | h | h
      · exact .inl ⟨s, h⟩
      · exact .inr h
      · exact ih h

inductive Operand : List Token → Prop
  | number {t : String} (h : Numeral t) : Operand [.number t]
  | negative {t : String} (h : Numeral t) : Operand [.symbol "-", .number t]
  | variable {x : String} (h : Identifier x) : Operand [.word x]

structure Productions (C : Library) : Prop where
  closed : ∀ {ts : List Token} {e : Expr}, C.relation ts = some e → brackets.Closed ts
  conditional : ∀ {ts : List Token} {e : Expr}, C.conditional ts = some e →
    ∃ args, e = .call none "_?_:_" args
  chain : ∀ (operator : String) {es : List Expr}, es ≠ [] → Tree operator es (C.chain operator es)
  identifier : ∀ {x : String}, Identifier x → C.relation [.word x] = some (.ident x)
  equality : ∀ {x : String}, Identifier x → ∀ s,
    C.relation [.word x, .symbol "==", .string s] =
      some (.call none "_==_" [.ident x, .const (.string s)])
  contains : ∀ {x : String}, Identifier x → ∀ s,
    C.relation [.word x, .symbol ".", .word "contains", .opening '(', .string s, .closing ')'] =
      some (.call (some (.ident x)) "contains" [.const (.string s)])
  membership : ∀ {x : String}, Identifier x → ∀ ss,
    C.relation (.word x :: .symbol "in" :: .opening '[' :: (stringList ss ++ [.closing ']'])) =
      some (.call none "@in" [.ident x, .list (ss.map fun s => .const (.string s))])
  comparison : ∀ {x : String}, Identifier x → ∀ {operator : String}, operator ∈ [">=", "<"] →
    ∀ {ts : List Token}, Operand ts →
      ∃ e, C.relation (.word x :: .symbol operator :: ts) = some e

/-- What the language definition says of the library. -/
structure Library.Documented (C : Library) : Prop where
  lexis : Lexis C.lex
  productions : Productions C

inductive Mentions (s : String) : Expr → Prop
  | const : Mentions s (.const (.string s))
  | target {e : Expr} {function : String} {args : List Expr} (h : Mentions s e) :
      Mentions s (.call (some e) function args)
  | arg {target : Option Expr} {function : String} {args : List Expr} {e : Expr} (he : e ∈ args)
      (h : Mentions s e) : Mentions s (.call target function args)
  | element {es : List Expr} {e : Expr} (he : e ∈ es) (h : Mentions s e) : Mentions s (.list es)
  | part {iterVar : String} {iterRange accuInit loopStep e : Expr}
      (he : e ∈ [iterRange, accuInit, loopStep]) (h : Mentions s e) :
      Mentions s (.comprehension iterVar iterRange accuInit loopStep)

/-- Characters that stand for themselves in a literal between double quotes. -/
def Plain (text : String) : Prop := ∀ c ∈ text.toList, c ∉ ['"', '\\', '\n', '\r']

instance (text : String) : Decidable (Plain text) :=
  decidable_of_iff ((text.toList.all fun c => decide (c ∉ ['"', '\\', '\n', '\r'])) = true)
    (by simp [Plain])

/-- What the language definition says of string literals in a text that is read. -/
structure Quoting (C : Library) : Prop where
  /-- A quote behind a bracket begins a literal. It ends with a quote, and what is between has the
  length of the value only if nothing in it is escaped. Three quotes begin a literal as well. -/
  literal : ∀ {s u : String} {us ts : List Token} {b : Bool}, C.lex (s ++ "(") = some (us, false) →
    C.lex (s ++ "(\"" ++ u) = some (ts, b) → ∃ body value rest vs, u = body ++ "\"" ++ rest ∧
      value.length ≤ body.length ∧ (value.length = body.length → Plain body) ∧
        C.lex rest = some (vs, b) ∧ ts = us ++ .string value :: vs
  /-- A literal has its quotes beside its value. -/
  bound : ∀ {text v : String} {ts : List Token} {b : Bool}, C.lex text = some (ts, b) →
    .string v ∈ ts → v.length + 2 ≤ text.length
  constants : ∀ {ts : List Token} {e : Expr} {s : String}, C.relation ts = some e →
    Mentions s e → .string s ∈ ts

end Memoark.Cel
