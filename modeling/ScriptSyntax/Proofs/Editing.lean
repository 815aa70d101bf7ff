import ScriptSyntax.Proofs.Completeness

/-!
Productions in place. A production says what it adds to a node. `edit` hands it the node instead,
as an `Editing`, which could do anything to the children that are there, and which can take the
last one back. The grammar is written once more for it, as programs that push and pop the children
of a node.

Main statement: these programs do what the productions do. Steps of productions are steps in
place, so for most phrases this is read off their steps. Only expressions do more in place: an
operation takes back the operand in front of its operator, which was read just before.
-/

namespace ScriptSyntax

namespace Node

/-- Takes the last child off the node, if it is a node. -/
def popNode (node : Node) : Option Node × Node :=
  match node.children.getLast? with
  | some (.node kind children) =>
      (some ⟨kind, children⟩, { node with children := node.children.dropLast })
  | some (.leaf _) | none => (none, node)

theorem popNode_push (node child : Node) :
    (node.push child.toTree).popNode = (some child, node) := by
  simp [popNode, push, toTree]

theorem append_nil (node : Node) : node.append [] = node := by simp [append]

theorem append_append (node : Node) (trees more : List Tree) :
    node.append (trees ++ more) = (node.append trees).append more := by simp [append]

theorem append_singleton (node : Node) (tree : Tree) : node.append [tree] = node.push tree := rfl

end Node

/-- What running a production in place does: the node as it leaves it, the lexemes left, and a
value or the fault. -/
structure Draft (α : Type) where
  node : Node
  rest : List Lexeme
  result : Except Fault α

/-- A production that is handed the node it stands in. -/
def Editing (α : Type) : Type := Node → Cursor → Draft α

namespace Editing

variable {α β : Type}

protected def pure (a : α) : Editing α := fun node c => ⟨node, c.rest, .ok a⟩

protected def bind (p : Editing α) (f : α → Editing β) : Editing β := fun node c =>
  let first := p node c
  match first.result with
  | .error fault => ⟨first.node, first.rest, .error fault⟩
  | .ok a => f a first.node { c with rest := first.rest }

instance : Monad Editing where
  pure := Editing.pure
  bind := Editing.bind

def push (tree : Tree) : Editing Unit := fun node c => ⟨node.push tree, c.rest, .ok ()⟩

def popNode : Editing (Option Node) := fun node c =>
  ⟨node.popNode.2, c.rest, .ok node.popNode.1⟩

def peek : Editing (Option Token) := fun node c =>
  ⟨node, c.rest, .ok (c.rest.findSome? Lexeme.significant?)⟩

/-- Reads up to and including the next significant token, and pushes one lexeme after the other
of the trivia in front of it. -/
def nextToken : Editing Token := fun node c => read c.eof node c.rest
where
  read (eof : Position) (node : Node) : List Lexeme → Draft Token
    | [] => ⟨node.push (.fault (.atEnd eof)), [], .error (.atEnd eof)⟩
    | lexeme :: rest =>
        match lexeme.significant? with
        | some token => ⟨node, rest, .ok token⟩
        | none => read eof (node.push (.lexeme lexeme)) rest

/-- Builds a node from nothing, and pushes it even if the building fails. -/
def within (kind : NodeKind) (build : Editing α) : Editing α := fun node c =>
  let inner := build ⟨kind, []⟩ c
  ⟨node.push inner.node.toTree, inner.rest, inner.result⟩

/-- Pushes the fault of a token. -/
def failAt (token : Token) (cause : Cause) : Editing α := fun node c =>
  ⟨node.push (.fault (.raise cause (some token))), c.rest, .error (.raise cause (some token))⟩

/-- Pushes the next token, which must be of this kind and text. -/
def expect (kind : TokenKind) (value : String) : Editing Unit := do
  let token ← nextToken
  if token.kind != kind then
    failAt token (.unexpectedToken (Token.describe kind value) token.value)
  else if token.value != value then
    failAt token (.unexpectedValue value token.value)
  else
    push (.token token)

def keyword (word : String) : Editing Unit := expect .keyword word

def operator (sign : String) : Editing Unit := expect .operator sign

/-! The grammar in place. -/

def lhsRule : Editing Unit :=
  within .lhs do
    let token ← nextToken
    if token.kind = .identifier then
      push (.token token)
    else
      failAt token (.unexpectedToken "identifier" token.value)

/-- The operand that begins with this token. -/
def operandRule (expr : Editing Unit) (token : Token) : Editing Unit :=
  if token.is .operator "(" then
    within .expr do
      push (.token token)
      expr
      operator ")"
  else
    match token.kind with
    | .number | .string | .identifier => within .expr (push (.token token))
    | _ => failAt token (.unexpectedToken "number, string, identifier or `(`" token.value)

/-- In front of a binary operator, the last node becomes the operand of an operation. -/
def operationRule (expr : Editing Unit) : Editing Unit := do
  if (← peek).any Token.isBinaryOperator then
    let operand? ← popNode
    within .expr do
      if let some operand := operand? then
        push operand.toTree
      let operator ← nextToken
      push (.token operator)
      expr

def exprRule (expr : Editing Unit) : Editing Unit :=
  within .expr do
    let token ← nextToken
    operandRule expr token
    operationRule expr

def callRule (expr : Editing Unit) : Editing Unit :=
  within .call do
    lhsRule
    operator "("
    expr
    operator ")"

def forRule (expr statements : Editing Unit) : Editing Unit :=
  within .forLoop do
    keyword "for"
    lhsRule
    operator "="
    expr
    operator ","
    expr
    operator ","
    expr
    keyword "do"
    within .body statements
    keyword "end"

def elseIfRule (expr statements : Editing Unit) : Editing Unit :=
  within .elseIf do
    keyword "elseif"
    expr
    keyword "then"
    within .body statements

def elseRule (statements : Editing Unit) : Editing Unit :=
  within .otherwise do
    keyword "else"
    within .body statements

def elseIfsRule (expr statements elseIfs : Editing Unit) : Editing Unit := do
  if (← peek).any (·.isKeyword ["elseif"]) then
    elseIfRule expr statements
    elseIfs

def elseOptional (statements : Editing Unit) : Editing Unit := do
  if (← peek).any (·.isKeyword ["else"]) then
    elseRule statements

def ifRule (expr statements elseIfs : Editing Unit) : Editing Unit :=
  within .conditional do
    keyword "if"
    expr
    keyword "then"
    within .body statements
    elseIfs
    elseOptional statements
    keyword "end"

def statementRule (expr statements elseIfs : Editing Unit) (token : Token) : Editing Unit :=
  if token.isKeyword ["for"] then forRule expr statements
  else if token.isKeyword ["if"] then ifRule expr statements elseIfs
  else if token.kind = .identifier then callRule expr
  else failAt token (.unknownToken token.value)

def statementsRule (expr statements elseIfs : Editing Unit) : Editing Unit := do
  match ← peek with
  | none => return
  | some token =>
      if token.isKeyword ["end", "elseif", "else"] then
        return
      else
        statementRule expr statements elseIfs token
        statements

def rule (parse : Phrase → Editing Unit) : Phrase → Editing Unit
  | .expr => exprRule (parse .expr)
  | .statements => statementsRule (parse .expr) (parse .statements) (parse .elseIfs)
  | .elseIfs => elseIfsRule (parse .expr) (parse .statements) (parse .elseIfs)

/-- A phrase in place, with the phrases inside followed to a depth. -/
def unfold : Nat → Phrase → Editing Unit
  | 0, _ => pure ()
  | depth + 1, phrase => rule (unfold depth) phrase

/-- A phrase in place. There are no more phrases, one inside the other, than lexemes. -/
def parse (phrase : Phrase) : Editing Unit := fun node c => unfold (c.rest.length + 1) phrase node c

def expr : Editing Unit := parse .expr

def lhs : Editing Unit := lhsRule

def call : Editing Unit := callRule expr

def statements : Editing Unit := parse .statements

def block : Editing Unit := within .body statements

def forLoop : Editing Unit := forRule expr statements

def conditional : Editing Unit := ifRule expr statements (parse .elseIfs)

theorem bind_of_ok {p : Editing α} {f : α → Editing β} {node : Node} {c : Cursor} {a : α}
    (h : (p node c).result = .ok a) :
    (p >>= f) node c = f a (p node c).node { c with rest := (p node c).rest } := by
  change Editing.bind p f node c = _
  simp only [Editing.bind, h]

theorem bind_of_error {p : Editing α} {f : α → Editing β} {node : Node} {c : Cursor}
    {fault : Fault} (h : (p node c).result = .error fault) :
    (p >>= f) node c = ⟨(p node c).node, (p node c).rest, .error fault⟩ := by
  change Editing.bind p f node c = _
  simp only [Editing.bind, h]

theorem peek_bind (f : Option Token → Editing α) (node : Node) (c : Cursor) :
    (peek >>= f) node c = f (significantTokens c.rest).head? node c :=
  bind_of_ok (Production.peek_result c)

end Editing

namespace Production

variable {α β : Type}

/-- The production in place. -/
def edit (p : Production α) : Editing α := fun node c =>
  ⟨node.append (p c).appended, (p c).rest, (p c).result⟩

/-! Steps of productions are steps in place. -/

theorem edit_pure (a : α) : (pure a : Production α).edit = pure a := by
  funext node c
  exact congrArg (Draft.mk · c.rest (.ok a)) node.append_nil

theorem edit_bind (p : Production α) (f : α → Production β) :
    (p >>= f).edit = p.edit >>= fun a => (f a).edit := by
  funext node c
  cases hresult : (p c).result with
  | error fault =>
      rw [Editing.bind_of_error (show (p.edit node c).result = _ from hresult), edit,
        bind_of_error hresult]
      rfl
  | ok a =>
      rw [Editing.bind_of_ok (show (p.edit node c).result = _ from hresult), edit,
        bind_of_ok hresult, Node.append_append]
      rfl

theorem edit_attach (tree : Tree) : (attach tree).edit = Editing.push tree := rfl

theorem edit_peek : peek.edit = Editing.peek := by
  funext node c
  exact congrArg (Draft.mk · c.rest (peek c).result) node.append_nil

theorem edit_nextToken : nextToken.edit = Editing.nextToken := by
  funext node c
  change Draft.mk (node.append (nextToken.read c.eof c.rest).appended)
    (nextToken.read c.eof c.rest).rest (nextToken.read c.eof c.rest).result =
      Editing.nextToken.read c.eof node c.rest
  induction c.rest generalizing node with
  | nil => rfl
  | cons lexeme rest ih =>
      unfold nextToken.read Editing.nextToken.read
      cases hlexeme : lexeme.significant? with
      | some token => simp only [Node.append_nil]
      | none =>
          rw [← ih]
          simp [Node.append, Node.push]

theorem edit_within (kind : NodeKind) (build : Production α) :
    (within kind build).edit = Editing.within kind build.edit := rfl

theorem edit_failAt (token : Token) (cause : Cause) :
    (failAt token cause : Production α).edit = Editing.failAt token cause := rfl

theorem edit_ite (P : Prop) [Decidable P] (p q : Production α) :
    (if P then p else q).edit = if P then p.edit else q.edit := apply_ite edit P p q

theorem edit_expect (kind : TokenKind) (value : String) :
    (discard (expect kind value)).edit = Editing.expect kind value := by
  simp only [discard_expect, Editing.expect, edit_bind, edit_nextToken, edit_ite, edit_failAt,
    edit_attach]

theorem edit_keyword (word : String) : (keyword word).edit = Editing.keyword word :=
  edit_expect .keyword word

theorem edit_operator (sign : String) : (operator sign).edit = Editing.operator sign :=
  edit_expect .operator sign

theorem edit_node_of_singleton {p : Production α} {c : Cursor} {tree : Tree}
    (h : (p c).appended = [tree]) (node : Node) : (p.edit node c).node = node.push tree := by
  rw [edit, h, Node.append_singleton]

/-! Expressions. -/

/-- An operand that is read is one node. -/
theorem exists_operand {expr : Production Unit} {token : Token} {c : Cursor}
    (h : (Phrase.operandRule expr token c).result = .ok ()) :
    ∃ operand : Node, operand.kind = .expr ∧
      (Phrase.operandRule expr token c).appended = [operand.toTree] := by
  revert h
  unfold Phrase.operandRule
  split
  · exact fun _ => ⟨⟨.expr, _⟩, rfl, rfl⟩
  · cases token.kind with
    | number | string | identifier => exact fun _ => ⟨⟨.expr, _⟩, rfl, rfl⟩
    | keyword | operator | comment => exact nofun

theorem edit_operandRule (expr : Production Unit) (token : Token) :
    (Phrase.operandRule expr token).edit = Editing.operandRule expr.edit token := by
  unfold Phrase.operandRule Editing.operandRule
  split
  · simp only [edit_within, edit_bind, edit_attach, edit_operator]
  · cases token.kind <;> rfl

/-- In front of no binary operator, nothing is done. -/
theorem operationRule_of_not {expr : Editing Unit} {node : Node} {c : Cursor}
    (h : ¬ (significantTokens c.rest).head?.any Token.isBinaryOperator) :
    Editing.operationRule expr node c = ⟨node, c.rest, .ok ()⟩ := by
  rw [Editing.operationRule, Editing.peek_bind, if_neg h]
  rfl

/-- In front of one, the node that was pushed last goes into the operation. -/
theorem operationRule_of_operator {expr : Production Unit} {node operand : Node} {c : Cursor}
    (h : (significantTokens c.rest).head?.any Token.isBinaryOperator) :
    Editing.operationRule expr.edit (node.push operand.toTree) c =
      (within .expr (attach operand.toTree >>= fun _ => nextToken >>= fun operator =>
        attach (.token operator) >>= fun _ => expr)).edit node c := by
  have hpop : Editing.popNode (node.push operand.toTree) c =
      ⟨node, c.rest, .ok (some operand)⟩ := by
    rw [Editing.popNode, Node.popNode_push]
  have htaken : (Editing.popNode (node.push operand.toTree) c).result = .ok (some operand) := by
    rw [hpop]
  rw [Editing.operationRule, Editing.peek_bind, if_pos h]
  simp only [edit_within, edit_bind, edit_attach, edit_nextToken]
  rw [Editing.bind_of_ok htaken, hpop]

/-- To hold the operand back until the operator is seen is to take it back then. -/
theorem edit_exprFrom (expr : Production Unit) (token : Token) :
    (Phrase.exprFrom expr token).edit =
      (Phrase.operandRule expr token).edit >>= fun _ => Editing.operationRule expr.edit := by
  funext node c
  change (joined (Phrase.operandRule expr token) Token.isBinaryOperator .expr fun operator =>
    attach (.token operator) >>= fun _ => expr).edit node c = _
  cases hresult : (Phrase.operandRule expr token c).result with
  | error fault =>
      rw [Editing.bind_of_error hresult, edit, joined_of_error hresult, ← hresult]
      rfl
  | ok _ =>
      obtain ⟨operand, -, happended⟩ := exists_operand hresult
      rw [Editing.bind_of_ok hresult, edit_node_of_singleton happended]
      by_cases htest :
        (significantTokens (Phrase.operandRule expr token c).rest).head?.any Token.isBinaryOperator
      · rw [operationRule_of_operator htest, edit, edit, joined_of_test hresult htest]
        simp only [within, bind_of_ok hresult, happended]
        rfl
      · rw [operationRule_of_not htest, edit, joined_of_not_test hresult htest, happended, hresult]
        rfl

/-- An expression in place: its operand is pushed, and taken back by the operation. -/
theorem edit_exprRule (expr : Production Unit) :
    (Phrase.exprRule expr).edit = Editing.exprRule expr.edit := by
  simp only [Phrase.exprRule, Editing.exprRule, edit_within, edit_bind, edit_nextToken,
    edit_exprFrom, edit_operandRule]

/-! The other phrases. -/

section Rules

variable (expr statements elseIfs : Production Unit)

theorem edit_lhsRule : Phrase.lhsRule.edit = Editing.lhsRule := by
  simp only [Phrase.lhsRule, Editing.lhsRule, edit_within, edit_bind, edit_nextToken, edit_ite,
    edit_attach, edit_failAt]

theorem edit_callRule : (Phrase.callRule expr).edit = Editing.callRule expr.edit := by
  simp only [Phrase.callRule, Editing.callRule, edit_within, edit_bind, edit_lhsRule,
    edit_operator]

theorem edit_forRule :
    (Phrase.forRule expr statements).edit = Editing.forRule expr.edit statements.edit := by
  simp only [Phrase.forRule, Editing.forRule, edit_within, edit_bind, edit_lhsRule, edit_keyword,
    edit_operator]

theorem edit_elseIfRule :
    (Phrase.elseIfRule expr statements).edit = Editing.elseIfRule expr.edit statements.edit := by
  simp only [Phrase.elseIfRule, Editing.elseIfRule, edit_within, edit_bind, edit_keyword]

theorem edit_elseIfsRule :
    (Phrase.elseIfsRule expr statements elseIfs).edit =
      Editing.elseIfsRule expr.edit statements.edit elseIfs.edit := by
  simp only [Phrase.elseIfsRule, Editing.elseIfsRule, edit_bind, edit_peek, edit_ite, edit_pure,
    edit_elseIfRule]

theorem edit_elseOptional :
    (Phrase.elseOptional statements).edit = Editing.elseOptional statements.edit := by
  simp only [Phrase.elseOptional, Editing.elseOptional, Phrase.elseRule, Editing.elseRule,
    edit_within, edit_bind, edit_peek, edit_ite, edit_pure, edit_keyword]

theorem edit_ifRule :
    (Phrase.ifRule expr statements elseIfs).edit =
      Editing.ifRule expr.edit statements.edit elseIfs.edit := by
  simp only [Phrase.ifRule, Editing.ifRule, edit_within, edit_bind, edit_keyword,
    edit_elseOptional]

theorem edit_statementRule (token : Token) :
    (Phrase.statementRule expr statements elseIfs token).edit =
      Editing.statementRule expr.edit statements.edit elseIfs.edit token := by
  simp only [Phrase.statementRule, Editing.statementRule, edit_ite, edit_forRule, edit_ifRule,
    edit_callRule, edit_failAt]

theorem edit_statementsRule :
    (Phrase.statementsRule expr statements elseIfs).edit =
      Editing.statementsRule expr.edit statements.edit elseIfs.edit := by
  rw [Phrase.statementsRule, Editing.statementsRule, edit_bind, edit_peek]
  congr
  funext next
  cases next with
  | none => exact edit_pure ()
  | some token => simp only [edit_ite, edit_pure, edit_bind, edit_statementRule]

end Rules

theorem edit_rule (parse : Phrase → Production Unit) (phrase : Phrase) :
    (Phrase.rule parse phrase).edit = Editing.rule (fun inner => (parse inner).edit) phrase := by
  cases phrase with
  | expr => exact edit_exprRule _
  | statements => exact edit_statementsRule _ _ _
  | elseIfs => exact edit_elseIfsRule _ _ _

theorem edit_unfold (depth : Nat) (phrase : Phrase) :
    (unfold Phrase.rule depth phrase).edit = Editing.unfold depth phrase := by
  induction depth generalizing phrase with
  | zero => exact edit_pure ()
  | succ depth ih =>
      have hinner : (fun inner => (unfold Phrase.rule depth inner).edit) = Editing.unfold depth :=
        funext ih
      rw [Editing.unfold, ← hinner]
      exact edit_rule _ _

/-- The grammar in place does what the productions do. -/
theorem edit_parse (phrase : Phrase) : phrase.parse.edit = Editing.parse phrase := by
  funext node c
  exact congrFun (congrFun (edit_unfold (c.rest.length + 1) phrase) node) c

theorem edit_expr : expr.edit = Editing.expr := edit_parse .expr

theorem edit_statements : statements.edit = Editing.statements := edit_parse .statements

theorem edit_call : call.edit = Editing.call := by
  rw [call, edit_callRule, edit_expr, Editing.call]

theorem edit_forLoop : forLoop.edit = Editing.forLoop := by
  rw [forLoop, edit_forRule, edit_expr, edit_statements, Editing.forLoop]

theorem edit_conditional : conditional.edit = Editing.conditional := by
  rw [conditional, edit_ifRule, edit_expr, edit_statements, edit_parse, Editing.conditional]

theorem edit_block : block.edit = Editing.block := by
  rw [block, edit_within, edit_statements, Editing.block]

end Production

/-- No depth shows in what the grammar does in place. -/
theorem Editing.parse_eq (phrase : Phrase) : parse phrase = rule parse phrase := by
  have hparse : (fun inner : Phrase => inner.parse.edit) = Editing.parse :=
    funext Production.edit_parse
  rw [← Production.edit_parse, Phrase.parse_eq, Production.edit_rule, hparse]

end ScriptSyntax
