import ScriptSyntax.Program

/-!
Sessions: productions run one by one on a node, in any order. A session goes on
after a fault with the cursor where the fault left it. Actions inside a new
node are different: the first fault among them ends that node.
-/

namespace ScriptSyntax

inductive Action where
  | peek
  | next
  | expect (kind : TokenKind) (value : String)
  | fail (fault : Fault)
  | expr
  | lhs
  | call
  | forLoop
  | conditional
  | block
  | statements
  | within (kind : NodeKind) (actions : List Action)

/-- What an action did, and what the actions inside it did. -/
structure Reply where
  outcome : Outcome (Option Token)
  inner : List Reply

namespace Action

/-- A production with no token to show. -/
def silent (p : Production Unit) : Production (Option Token) := do
  p
  return none

mutual
/-- What the action runs. Its value is the token it shows, if any. -/
def production : Action → Production (Option Token)
  | peek => Production.peek
  | next => some <$> Production.nextToken
  | expect kind value => some <$> Production.expect kind value
  | fail fault => Production.fail fault
  | expr => silent Production.expr
  | lhs => silent Production.lhs
  | call => silent Production.call
  | forLoop => silent Production.forLoop
  | conditional => silent Production.conditional
  | block => silent Production.block
  | statements => silent Production.statements
  | within kind actions => silent (Production.within kind (sequence actions))

def sequence : List Action → Production Unit
  | [] => return
  | action :: actions => do
      discard action.production
      sequence actions
end

mutual
def innerReplies (cursor : Cursor) : Action → List Reply
  | within _ actions => repliesUntilFault cursor actions
  | _ => []

/-- The replies of the actions that ran. -/
def repliesUntilFault (cursor : Cursor) : List Action → List Reply
  | [] => []
  | action :: actions =>
      let reply : Reply := ⟨action.production cursor, action.innerReplies cursor⟩
      match reply.outcome.result with
      | .error _ => [reply]
      | .ok _ => reply :: repliesUntilFault { cursor with rest := reply.outcome.rest } actions
end

def reply (cursor : Cursor) (action : Action) : Reply :=
  ⟨action.production cursor, action.innerReplies cursor⟩

end Action

structure Session where
  cursor : Cursor
  node : Node

namespace Session

/-- An empty node and all the lexemes. -/
def start (kind : NodeKind) (lexemes : List Lexeme) : Session :=
  ⟨.ofLexemes lexemes, ⟨kind, []⟩⟩

/-- Where an action leaves the session, whether it fails or not. -/
def act (session : Session) (action : Action) : Session :=
  let outcome := action.production session.cursor
  { cursor := { session.cursor with rest := outcome.rest }
    node := session.node.append outcome.appended }

def run (session : Session) (actions : List Action) : Session :=
  actions.foldl act session

/-- The replies to the actions, one for each. -/
def replies (session : Session) : List Action → List Reply
  | [] => []
  | action :: actions =>
      action.reply session.cursor :: (session.act action).replies actions

end Session

end ScriptSyntax
