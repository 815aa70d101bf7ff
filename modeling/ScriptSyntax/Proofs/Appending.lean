import ScriptSyntax.Proofs.Editing
import ScriptSyntax.Proofs.Failure
import ScriptSyntax.Proofs.Loops

/-!
All productions keep the children that they find. Each of those with a node of its own adds this
one node, whatever it comes to, and a list of statements adds one node for each, and a fault of
its own only at a token that begins no statement (`Refuses`). In place this says that a child is
never lost: the one that an operation takes back is the operand pushed just before.
-/

namespace ScriptSyntax

open ScriptSyntax.Tree

/-- The fault of a token that begins no statement. -/
def Fault.unknown (t : Token) : Fault := .raise (.unknownToken t.value) (some t)

namespace Production

/-- Behind statements that are read, the next token neither closes the block nor begins a
statement. -/
inductive Refuses : Cursor → Token → Prop where
  | here {c : Cursor} {t : Token} (hahead : (significantTokens c.rest).head? = some t)
      (hcloses : ¬ t.isKeyword ["end", "elseif", "else"])
      (hbegins : ¬ Phrase.BeginsStatement t) : Refuses c t
  | later {c : Cursor} {u t : Token} (hahead : (significantTokens c.rest).head? = some u)
      (hcloses : ¬ u.isKeyword ["end", "elseif", "else"])
      (hok : (statement u c).result = .ok ()) (h : Refuses ⟨(statement u c).rest, c.eof⟩ t) :
      Refuses c t

/-- The node of a statement. -/
def IsStatement (tree : Tree) : Prop :=
  ∃ kind ∈ [NodeKind.call, .forLoop, .conditional], ∃ below, tree = .node kind below

/-- Nodes of statements, and behind them a fault exactly if a token is refused here. Any other
fault is in the last node. -/
def ListsStatements (c : Cursor) (o : Outcome Unit) : Prop :=
  ∃ nodes, (∀ tree ∈ nodes, IsStatement tree) ∧
    ((∃ t, Refuses c t ∧ o.appended = nodes ++ [.fault (.unknown t)] ∧
        o.result = .error (.unknown t)) ∨
      (∀ t, ¬ Refuses c t) ∧ o.appended = nodes ∧
        ∀ fault, o.result = .error fault →
          ∃ front kind below, nodes = front ++ [.node kind below] ∧ EndsWith fault below)

section Statements

variable {c : Cursor} {t u : Token} {fault : Fault}

theorem exists_statement_node (h : Phrase.BeginsStatement u) (c : Cursor) :
    ∃ kind ∈ [NodeKind.call, .forLoop, .conditional], ∃ below,
      (statement u c).appended = [.node kind below] := by
  unfold statement Phrase.statementRule
  split
  · exact ⟨.forLoop, by decide, _, rfl⟩
  · next hfor =>
      split
      · exact ⟨.conditional, by decide, _, rfl⟩
      · next hif =>
          have hkind : u.kind = .identifier := (h.resolve_left hfor).resolve_left hif
          rw [if_pos hkind]
          exact ⟨.call, by decide, _, rfl⟩

theorem statement_of_not_begins (h : ¬ Phrase.BeginsStatement t) (c : Cursor) :
    statement t c = ⟨[.fault (.unknown t)], c.rest, .error (.unknown t)⟩ := by
  rw [statement, Phrase.statementRule_of_not_begins h]
  rfl

theorem begins_of_ok (h : (statement u c).result = .ok ()) : Phrase.BeginsStatement u := by
  by_contra hnot
  rw [statement_of_not_begins hnot] at h
  cases h

theorem statement_endsWith (h : Phrase.BeginsStatement u)
    (hfault : (statement u c).result = .error fault) : EndsWith fault (statement u c).appended :=
  ((Phrase.composed_statementRule h).run Phrase.run_parse c).endsWith hfault

theorem nextStatement_eq_some {next : Option Token} {body : Production Unit}
    (h : nextStatement next = some body) :
    ∃ u, next = some u ∧ ¬ u.isKeyword ["end", "elseif", "else"] ∧ body = statement u := by
  cases next with
  | none => cases h
  | some u =>
      rw [nextStatement] at h
      split at h
      · cases h
      · next hcloses => exact ⟨u, rfl, hcloses, (Option.some.inj h).symm⟩

theorem not_refuses_of_ends (h : nextStatement (significantTokens c.rest).head? = none) :
    ¬ Refuses c t := by
  intro hrefuses
  obtain ⟨u, hahead, hcloses⟩ : ∃ u, (significantTokens c.rest).head? = some u ∧
      ¬ u.isKeyword ["end", "elseif", "else"] := by
    cases hrefuses with
    | here hahead hcloses | later hahead hcloses => exact ⟨_, hahead, hcloses⟩
  rw [hahead, nextStatement, if_neg hcloses] at h
  cases h

/-- Behind a statement that is read, what is refused is refused later. -/
theorem refuses_iff_of_ok (hahead : (significantTokens c.rest).head? = some u)
    (hcloses : ¬ u.isKeyword ["end", "elseif", "else"]) (hok : (statement u c).result = .ok ()) :
    Refuses c t ↔ Refuses ⟨(statement u c).rest, c.eof⟩ t := by
  constructor
  · intro h
    cases h with
    | here hahead' _ hbegins =>
        cases hahead.symm.trans hahead'
        exact absurd (begins_of_ok hok) hbegins
    | later hahead' _ _ h =>
        cases hahead.symm.trans hahead'
        exact h
  · exact .later hahead hcloses hok

theorem not_refuses_of_error (hahead : (significantTokens c.rest).head? = some u)
    (hbegins : Phrase.BeginsStatement u) (hfault : (statement u c).result = .error fault) :
    ¬ Refuses c t := by
  intro h
  cases h with
  | here hahead' _ hnot =>
      cases hahead.symm.trans hahead'
      exact hnot hbegins
  | later hahead' _ hok =>
      cases hahead.symm.trans hahead'
      cases hok.symm.trans hfault

/-- A turn that fails: the statement has the fault, or the token is refused here. -/
theorem listsStatements_of_error (hahead : (significantTokens c.rest).head? = some u)
    (hcloses : ¬ u.isKeyword ["end", "elseif", "else"])
    (hfault : (statement u c).result = .error fault) : ListsStatements c (statement u c) := by
  by_cases hbegins : Phrase.BeginsStatement u
  · obtain ⟨kind, hkind, below, happended⟩ := exists_statement_node hbegins c
    refine ⟨[.node kind below], by simpa using ⟨kind, hkind, below, rfl⟩, .inr ⟨?_, happended, ?_⟩⟩
    · exact fun _ => not_refuses_of_error hahead hbegins hfault
    · intro other hother
      have hends := statement_endsWith hbegins hother
      rw [happended] at hends
      exact ⟨[], kind, below, rfl, hends.of_node⟩
  · rw [statement_of_not_begins hbegins]
    exact ⟨[], nofun, .inl ⟨u, .here hahead hcloses hbegins, rfl, rfl⟩⟩

/-- A turn that goes on puts the node of its statement in front. -/
theorem ListsStatements.behind {o : Outcome Unit}
    (hahead : (significantTokens c.rest).head? = some u)
    (hcloses : ¬ u.isKeyword ["end", "elseif", "else"]) (hok : (statement u c).result = .ok ())
    (h : ListsStatements ⟨(statement u c).rest, c.eof⟩ o) :
    ListsStatements c (o.behind (statement u c).appended) := by
  obtain ⟨kind, hkind, below, happended⟩ := exists_statement_node (begins_of_ok hok) c
  obtain ⟨nodes, hnodes, hlists⟩ := h
  have hfirst : IsStatement (.node kind below) := ⟨kind, hkind, below, rfl⟩
  refine ⟨.node kind below :: nodes, List.forall_mem_cons.mpr ⟨hfirst, hnodes⟩, ?_⟩
  simp only [refuses_iff_of_ok hahead hcloses hok, happended]
  rcases hlists with ⟨t, ht, htrees, hresult⟩ | ⟨hnot, htrees, hfaults⟩
  · exact .inl ⟨t, ht, congrArg _ htrees, hresult⟩
  · refine .inr ⟨hnot, congrArg _ htrees, ?_⟩
    intro fault hfault
    obtain ⟨front, last, inner, rfl, hends⟩ := hfaults fault hfault
    exact ⟨.node kind below :: front, last, inner, rfl, hends⟩

theorem listsStatements (c : Cursor) : ListsStatements c (statements c) := by
  refine loop_induction turn_statements ?_ ?_ ?_ c
  · intro c hends
    exact ⟨[], nofun, .inr ⟨fun _ => not_refuses_of_ends hends, rfl, nofun⟩⟩
  · intro c body fault hnext hfault
    obtain ⟨u, hahead, hcloses, rfl⟩ := nextStatement_eq_some hnext
    exact listsStatements_of_error hahead hcloses hfault
  · intro c body o hnext hok hbehind
    obtain ⟨u, hahead, hcloses, rfl⟩ := nextStatement_eq_some hnext
    exact hbehind.behind hahead hcloses hok

end Statements

/-- Each production with a node of its own adds this node, whatever it comes to. -/
theorem exists_appended (c : Cursor) :
    ∀ pair ∈ [(expr, NodeKind.expr), (lhs, .lhs), (call, .call), (forLoop, .forLoop),
        (conditional, .conditional), (block, .body)],
      ∃ below, (pair.1 c).appended = [.node pair.2 below] := by
  simp only [List.forall_mem_cons]
  exact ⟨Phrase.exists_appended_expr c, ⟨_, rfl⟩, ⟨_, rfl⟩, ⟨_, rfl⟩, ⟨_, rfl⟩, ⟨_, rfl⟩,
    List.forall_mem_nil _⟩

end Production

/-- Productions only append. In place, at any cursor and in a node with any children, those with a
node of their own push this node and nothing else, whether they succeed or fail. A list of
statements pushes nodes of statements, and a fault behind them exactly if it refuses a token
itself; any other fault is in the last of its nodes. This is so of the grammar in place, which
could do anything to the children that are there, since it does what the productions do. It takes
a child back in expressions only, in front of a binary operator: this child is always there, and
is the operand that was pushed just before. -/
theorem productions_append (node : Node) (c : Cursor) :
    (∀ pair ∈ [(Production.expr, NodeKind.expr), (Production.lhs, .lhs), (Production.call, .call),
        (Production.forLoop, .forLoop), (Production.conditional, .conditional),
        (Production.block, .body)],
      ∃ below, (pair.1.edit node c).node = node.push (.node pair.2 below)) ∧
    (∃ nodes, (∀ tree ∈ nodes, ∃ kind ∈ [NodeKind.call, .forLoop, .conditional],
        ∃ below, tree = .node kind below) ∧
      ((∃ t, Production.Refuses c t ∧
          (Production.statements.edit node c).node =
            (node.append nodes).push (.fault (.unknown t)) ∧
          (Production.statements c).result = .error (.unknown t)) ∨
        (∀ t, ¬ Production.Refuses c t) ∧
          (Production.statements.edit node c).node = node.append nodes ∧
          ∀ fault, (Production.statements c).result = .error fault →
            ∃ front kind below, nodes = front ++ [.node kind below] ∧ EndsWith fault below)) ∧
    Production.expr.edit = Editing.expr ∧ Editing.expr = Editing.exprRule Editing.expr ∧
    (∀ pair ∈ [(Production.lhs, Editing.lhs), (Production.call, Editing.call),
        (Production.forLoop, Editing.forLoop), (Production.conditional, Editing.conditional),
        (Production.block, Editing.block), (Production.statements, Editing.statements)],
      pair.1.edit = pair.2) ∧
    (∀ phrase, Editing.parse phrase = Editing.rule Editing.parse phrase) ∧
    ∀ token, (Editing.operandRule Editing.expr token node c).result = .ok () →
      ∃ operand : Node, operand.kind = .expr ∧
        (Editing.operandRule Editing.expr token node c).node = node.push operand.toTree ∧
        (Editing.operandRule Editing.expr token node c).node.popNode = (some operand, node) := by
  refine ⟨?_, ?_, Production.edit_expr, Editing.parse_eq .expr, ?_, Editing.parse_eq, ?_⟩
  · intro pair hpair
    obtain ⟨below, happended⟩ := Production.exists_appended c pair hpair
    exact ⟨below, Production.edit_node_of_singleton happended node⟩
  · obtain ⟨nodes, hnodes, hlists⟩ := Production.listsStatements c
    refine ⟨nodes, hnodes, ?_⟩
    rcases hlists with ⟨t, ht, happended, hresult⟩ | ⟨hnot, happended, hfaults⟩
    · refine .inl ⟨t, ht, ?_, hresult⟩
      rw [Production.edit, happended, Node.append_append, Node.append_singleton]
    · exact .inr ⟨hnot, by rw [Production.edit, happended], hfaults⟩
  · simp only [List.forall_mem_cons]
    exact ⟨Production.edit_lhsRule, Production.edit_call, Production.edit_forLoop,
      Production.edit_conditional, Production.edit_block, Production.edit_statements,
      List.forall_mem_nil _⟩
  · intro token
    rw [← Production.edit_expr, ← Production.edit_operandRule]
    intro hok
    obtain ⟨operand, hkind, happended⟩ := Production.exists_operand hok
    have hnode := Production.edit_node_of_singleton happended node
    exact ⟨operand, hkind, hnode, by rw [hnode, Node.popNode_push]⟩

/-- In a node with a fault and a node in it: the operation in `f(1 == 2) 3` takes its operand and
not that node, and the statements refuse the last token. -/
theorem productions_append_operation :
    let node : Node := ⟨.body, [.fault (.atEnd .null), .node .call []]⟩
    let ls := scan "f(1 == 2) 3" none
    let one : Token := ⟨.number, "1", .between defaultFile 2 3⟩
    let three : Token := ⟨.number, "3", .between defaultFile 10 11⟩
    (∃ below, (Production.expr.edit node ⟨ls.drop 2, .null⟩).node =
      node.push (.node .expr below)) ∧
    (∃ operand : Node, operand.kind = .expr ∧
      (Editing.operandRule Editing.expr one node ⟨ls.drop 3, .null⟩).node.popNode =
        (some operand, node)) ∧
    ∃ nodes, (Production.statements.edit node ⟨ls, .null⟩).node =
      (node.append nodes).push (.fault (.unknown three)) := by
  intro node ls one three
  obtain ⟨honce, -⟩ := productions_append node ⟨ls.drop 2, .null⟩
  obtain ⟨-, -, -, -, -, -, hpop⟩ := productions_append node ⟨ls.drop 3, .null⟩
  obtain ⟨operand, hkind, -, htaken⟩ := hpop one rfl
  refine ⟨honce (Production.expr, .expr) (by simp), ⟨operand, hkind, htaken⟩, ?_⟩
  let call : Token := ⟨.identifier, "f", .between defaultFile 0 1⟩
  have hthree : (significantTokens (Production.statement call ⟨ls, .null⟩).rest).head? =
      some three := by decide +kernel
  have hrefuses : Production.Refuses ⟨ls, .null⟩ three := by
    refine .later (u := call) (by decide +kernel) (by decide) (by decide +kernel) ?_
    exact .here hthree (by decide) (by simp [Phrase.BeginsStatement, Token.isKeyword, three])
  obtain ⟨-, ⟨nodes, -, hlists⟩, -⟩ := productions_append node ⟨ls, .null⟩
  rcases hlists with ⟨t, -, hnode, hresult⟩ | ⟨hnot, -⟩
  · have hlast : (Production.statements ⟨ls, .null⟩).result = .error (.unknown three) := by
      decide +kernel
    obtain rfl : t = three := Option.some.inj <|
      congrArg Fault.token (Except.error.inj (hresult.symm.trans hlast))
    exact ⟨nodes, hnode⟩
  · exact absurd hrefuses (hnot three)

end ScriptSyntax
