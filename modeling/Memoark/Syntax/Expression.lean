import Memoark.Syntax.Lexer

/-! Well-formed SQL expressions: a recogniser that reads lexemes from left to right, with the
brackets that are open. It checks that operands and operators alternate, that brackets balance,
and that no bracket but that of a call is empty; the precedence of the operators is of no
importance for that. -/
namespace Memoark.Syntax

/-- The brackets: around an expression, around the arguments of a call, and around the list of
an IN. -/
inductive Bracket where
  | group
  | call
  | list
  deriving DecidableEq, Repr

/-- What may come next. After a name a bracket is that of a call. -/
inductive Expects where
  | operand
  | arguments
  | operator (afterName : Bool)
  | truth
  | negatedTruth
  | list
  | member
  | type
  deriving DecidableEq, Repr

structure Position where
  expects : Expects
  brackets : List Bracket
  deriving DecidableEq, Repr

def keywords : List String := ["AND", "OR", "NOT", "IS", "IN", "LIKE", "ILIKE", "AS"]

def constants : List String := ["NULL", "TRUE", "FALSE"]

def operators : List String :=
  ["=", "!=", "<>", "<", "<=", ">", ">=", "||", "->", "->>", "@>", "+", "-", "*", "/"]

def operandStep (brackets : List Bracket) : Lexeme → Option Position
  | .word text =>
    if text = "NOT" then some ⟨.operand, brackets⟩
    else if text ∈ keywords then none
    else if text ∈ constants then some ⟨.operator false, brackets⟩
    else some ⟨.operator true, brackets⟩
  | .name | .string | .number | .placeholder => some ⟨.operator false, brackets⟩
  | .lparen => some ⟨.operand, .group :: brackets⟩
  | .operator _ | .dot | .comma | .rparen => none

def operatorStep (afterName : Bool) (brackets : List Bracket) : Lexeme → Option Position
  | .word text =>
    if text ∈ ["AND", "OR", "LIKE", "ILIKE"] then some ⟨.operand, brackets⟩
    else if text = "IS" then some ⟨.truth, brackets⟩
    else if text = "IN" then some ⟨.list, brackets⟩
    else if text = "AS" then some ⟨.type, brackets⟩
    else none
  | .operator text =>
    if text = "::" then some ⟨.type, brackets⟩
    else if text ∈ operators then some ⟨.operand, brackets⟩
    else none
  | .dot => some ⟨.member, brackets⟩
  | .comma =>
    match brackets with
    | .call :: _ | .list :: _ => some ⟨.operand, brackets⟩
    | _ => none
  | .lparen => if afterName then some ⟨.arguments, .call :: brackets⟩ else none
  | .rparen =>
    match brackets with
    | _ :: brackets => some ⟨.operator false, brackets⟩
    | [] => none
  | .name | .string | .number | .placeholder => none

def Position.next : Position → Lexeme → Option Position
  | ⟨.operand, brackets⟩, l => operandStep brackets l
  | ⟨.arguments, brackets⟩, .rparen => some ⟨.operator false, brackets.tail⟩
  | ⟨.arguments, brackets⟩, l => operandStep brackets l
  | ⟨.operator afterName, brackets⟩, l => operatorStep afterName brackets l
  | ⟨.truth, brackets⟩, .word text =>
    if text = "NOT" then some ⟨.negatedTruth, brackets⟩
    else if text ∈ constants then some ⟨.operator false, brackets⟩
    else none
  | ⟨.negatedTruth, brackets⟩, .word text =>
    if text ∈ constants then some ⟨.operator false, brackets⟩ else none
  | ⟨.list, brackets⟩, .lparen => some ⟨.operand, .list :: brackets⟩
  | ⟨.member, brackets⟩, .name => some ⟨.operator false, brackets⟩
  | ⟨.member, brackets⟩, .word _ => some ⟨.operator true, brackets⟩
  | ⟨.type, brackets⟩, .word _ => some ⟨.operator false, brackets⟩
  | _, _ => none

def Position.run (p : Position) (ls : List Lexeme) : Option Position := ls.foldlM Position.next p

def wellFormed (text : String) : Bool :=
  match (lex text).bind (Position.run ⟨.operand, []⟩) with
  | some ⟨.operator _, []⟩ => true
  | _ => false

@[simp] theorem Position.run_nil (p : Position) : p.run [] = some p := rfl

@[simp] theorem Position.run_cons (p : Position) (l : Lexeme) (ls : List Lexeme) :
    p.run (l :: ls) = (p.next l).bind fun p => p.run ls := rfl

theorem Position.next_operand (brackets : List Bracket) (l : Lexeme) :
    Position.next ⟨.operand, brackets⟩ l = operandStep brackets l := rfl

theorem Position.next_operator (afterName : Bool) (brackets : List Bracket) (l : Lexeme) :
    Position.next ⟨.operator afterName, brackets⟩ l = operatorStep afterName brackets l := rfl

theorem operandStep_lparen (brackets : List Bracket) :
    operandStep brackets .lparen = some ⟨.operand, .group :: brackets⟩ := rfl

theorem operandStep_not (brackets : List Bracket) :
    operandStep brackets (.word "NOT") = some ⟨.operand, brackets⟩ := rfl

theorem Position.run_append (p : Position) (ls ms : List Lexeme) :
    p.run (ls ++ ms) = (p.run ls).bind fun p => p.run ms := List.foldlM_append

def Phrase (ls : List Lexeme) : Prop :=
  ∀ brackets, ∃ afterName,
    Position.run ⟨.operand, brackets⟩ ls = some ⟨.operator afterName, brackets⟩

/-- The lexemes end in an error wherever an operand is expected. -/
def Malformed (ls : List Lexeme) : Prop :=
  ∀ brackets, Position.run ⟨.operand, brackets⟩ ls = none

namespace Phrase

variable {ls ms : List Lexeme}

theorem constant {l : Lexeme} (h : ∀ brackets, operandStep brackets l =
    some ⟨.operator false, brackets⟩) : Phrase [l] := by
  intro brackets
  refine ⟨false, ?_⟩
  rw [Position.run_cons, Position.next_operand, h]
  rfl

theorem binary {l : Lexeme} (hs : Phrase ls) (ht : Phrase ms)
    (h : ∀ afterName brackets, operatorStep afterName brackets l = some ⟨.operand, brackets⟩) :
    Phrase (ls ++ l :: ms) := by
  intro brackets
  obtain ⟨a, hleft⟩ := hs brackets
  obtain ⟨b, hright⟩ := ht brackets
  refine ⟨b, ?_⟩
  rw [Position.run_append, hleft, Option.bind_some, Position.run_cons,
    Position.next_operator, h, Option.bind_some, hright]

theorem test {tail : List Lexeme} (hs : Phrase ls)
    (h : ∀ afterName brackets, Position.run ⟨.operator afterName, brackets⟩ tail =
      some ⟨.operator false, brackets⟩) : Phrase (ls ++ tail) := by
  intro brackets
  obtain ⟨a, hleft⟩ := hs brackets
  refine ⟨false, ?_⟩
  rw [Position.run_append, hleft, Option.bind_some, h]

theorem group (h : Phrase ls) : Phrase (.lparen :: (ls ++ [.rparen])) := by
  intro brackets
  obtain ⟨a, hinner⟩ := h (.group :: brackets)
  refine ⟨false, ?_⟩
  rw [Position.run_cons, Position.next_operand, operandStep_lparen, Option.bind_some,
    Position.run_append, hinner]
  rfl

theorem not (h : Phrase ls) : Phrase (.word "NOT" :: ls) := by
  intro brackets
  obtain ⟨a, hinner⟩ := h brackets
  refine ⟨a, ?_⟩
  rw [Position.run_cons, Position.next_operand, operandStep_not, Option.bind_some, hinner]

end Phrase

def separated : List (List Lexeme) → List Lexeme
  | [] => []
  | [ls] => ls
  | ls :: ms :: rest => ls ++ .comma :: separated (ms :: rest)

theorem separated_cons (ls ms : List Lexeme) (rest : List (List Lexeme)) :
    separated (ls :: ms :: rest) = ls ++ .comma :: separated (ms :: rest) := rfl

theorem run_separated {b : Bracket} (hb : b = .call ∨ b = .list) {operands : List (List Lexeme)}
    (hne : operands ≠ []) (h : ∀ ls ∈ operands, Phrase ls) (brackets : List Bracket) :
    ∃ afterName, Position.run ⟨.operand, b :: brackets⟩ (separated operands) =
      some ⟨.operator afterName, b :: brackets⟩ := by
  induction operands with
  | nil => exact absurd rfl hne
  | cons ls rest ih =>
    obtain ⟨a, hfirst⟩ := h ls (by simp) (b :: brackets)
    cases rest with
    | nil => exact ⟨a, hfirst⟩
    | cons ms rest =>
      obtain ⟨a', hrest⟩ := ih (List.cons_ne_nil ms rest) fun us hu => h us (List.mem_cons_of_mem ls hu)
      have hcomma : operatorStep a (b :: brackets) .comma = some ⟨.operand, b :: brackets⟩ := by
        rcases hb with rfl | rfl <;> rfl
      refine ⟨a', ?_⟩
      rw [separated_cons, Position.run_append, hfirst, Option.bind_some, Position.run_cons,
        Position.next_operator, hcomma, Option.bind_some, hrest]

theorem run_arguments {brackets : List Bracket} {ls : List Lexeme} (hne : ls ≠ []) {p : Position}
    (h : Position.run ⟨.operand, brackets⟩ ls = some p) :
    Position.run ⟨.arguments, brackets⟩ ls = some p := by
  cases ls with
  | nil => exact absurd rfl hne
  | cons l rest =>
    have hnext : Position.next ⟨.arguments, brackets⟩ l = Position.next ⟨.operand, brackets⟩ l := by
      cases l with
      | rparen => cases h
      | _ => rfl
    rw [Position.run_cons, hnext]
    exact h

theorem separated_ne_nil {operands : List (List Lexeme)} (hne : operands ≠ [])
    (h : ∀ ls ∈ operands, Phrase ls) : separated operands ≠ [] := by
  cases operands with
  | nil => exact absurd rfl hne
  | cons ls rest =>
    have hls : ls ≠ [] := by
      rintro rfl
      obtain ⟨a, ha⟩ := h [] (by simp) []
      simp at ha
    cases rest with
    | nil => exact hls
    | cons ms rest => simp [separated_cons]

/-- A word that can name a function or a column. -/
def Identifier (text : String) : Prop := text ∉ keywords ∧ text ∉ constants

instance (text : String) : Decidable (Identifier text) := inferInstanceAs (Decidable (_ ∧ _))

theorem Identifier.operandStep {text : String} (h : Identifier text) (brackets : List Bracket) :
    operandStep brackets (.word text) = some ⟨.operator true, brackets⟩ := by
  have hnot : text ≠ "NOT" := by
    rintro rfl
    exact absurd h.1 (by decide)
  change (if text = "NOT" then _ else if text ∈ keywords then _ else
    if text ∈ constants then _ else _) = _
  rw [if_neg hnot, if_neg h.1, if_neg h.2]

theorem Phrase.identifier {text : String} (h : Identifier text) : Phrase [.word text] := by
  intro brackets
  refine ⟨true, ?_⟩
  rw [Position.run_cons, Position.next_operand, h.operandStep]
  rfl

theorem Phrase.call {f : String} (hf : Identifier f) {operands : List (List Lexeme)}
    (h : ∀ ls ∈ operands, Phrase ls) :
    Phrase (.word f :: .lparen :: (separated operands ++ [.rparen])) := by
  intro brackets
  refine ⟨false, ?_⟩
  have hopen : Position.next ⟨.operator true, brackets⟩ .lparen =
      some ⟨.arguments, .call :: brackets⟩ := rfl
  rw [Position.run_cons, Position.next_operand, hf.operandStep, Option.bind_some,
    Position.run_cons, hopen, Option.bind_some, Position.run_append]
  by_cases hne : operands = []
  · rw [hne]
    rfl
  · obtain ⟨a, hrun⟩ := run_separated (.inl rfl) hne h brackets
    rw [run_arguments (separated_ne_nil hne h) hrun]
    rfl

theorem Phrase.inList {ls : List Lexeme} (hs : Phrase ls) {operands : List (List Lexeme)}
    (hne : operands ≠ []) (h : ∀ ls ∈ operands, Phrase ls) :
    Phrase (ls ++ .word "IN" :: .lparen :: (separated operands ++ [.rparen])) := by
  refine hs.test fun a brackets => ?_
  obtain ⟨b, hrun⟩ := run_separated (.inr rfl) hne h brackets
  have hin : Position.next ⟨.operator a, brackets⟩ (.word "IN") = some ⟨.list, brackets⟩ := rfl
  have hopen : Position.next ⟨.list, brackets⟩ .lparen = some ⟨.operand, .list :: brackets⟩ := rfl
  rw [Position.run_cons, hin, Option.bind_some, Position.run_cons, hopen, Option.bind_some,
    Position.run_append, hrun]
  rfl

theorem Malformed.inList {ls : List Lexeme} (hs : Phrase ls) :
    Malformed (ls ++ [.word "IN", .lparen, .rparen]) := by
  intro brackets
  obtain ⟨a, hrun⟩ := hs brackets
  rw [Position.run_append, hrun]
  rfl

theorem Malformed.emptyGroup : Malformed [.lparen, .rparen] := fun _ => rfl

theorem Malformed.group {ls : List Lexeme} (h : Malformed ls) :
    Malformed (.lparen :: (ls ++ [.rparen])) := by
  intro brackets
  rw [Position.run_cons, Position.next_operand, operandStep_lparen, Option.bind_some,
    Position.run_append, h]
  rfl

theorem Malformed.not {ls : List Lexeme} (h : Malformed ls) : Malformed (.word "NOT" :: ls) := by
  intro brackets
  rw [Position.run_cons, Position.next_operand, operandStep_not, Option.bind_some, h]

theorem Malformed.append {ls : List Lexeme} (h : Malformed ls) (ms : List Lexeme) :
    Malformed (ls ++ ms) := by
  intro brackets
  rw [Position.run_append, h]
  rfl

theorem Malformed.binary {l : Lexeme} {ls ms : List Lexeme} (hs : Phrase ls) (ht : Malformed ms)
    (h : ∀ afterName brackets, operatorStep afterName brackets l = some ⟨.operand, brackets⟩) :
    Malformed (ls ++ l :: ms) := by
  intro brackets
  obtain ⟨a, hrun⟩ := hs brackets
  rw [Position.run_append, hrun, Option.bind_some, Position.run_cons, Position.next_operator, h,
    Option.bind_some, ht]

theorem Phrase.wellFormed {text : String} {ls : List Lexeme} (hl : Lexes text ls) (h : Phrase ls) :
    wellFormed text = true := by
  obtain ⟨a, hrun⟩ := h []
  simp [Syntax.wellFormed, hl.lex, hrun]

theorem Malformed.wellFormed {text : String} {ls : List Lexeme} (hl : Lexes text ls)
    (h : Malformed ls) : wellFormed text = false := by
  have hrun := h []
  simp [Syntax.wellFormed, hl.lex, hrun]

end Memoark.Syntax
