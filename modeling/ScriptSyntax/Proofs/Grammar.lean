import ScriptSyntax.Lexeme

/-!
The grammar as a relation on lists of tokens. It says which lists are programs
and nothing about how one is read:

    Block     := Statement*
    Statement := Identifier '(' Expr ')'
               | 'for' Identifier '=' Expr ',' Expr ',' Expr 'do' Block 'end'
               | 'if' Expr 'then' Block ElseIf* Else? 'end'
    ElseIf    := 'elseif' Expr 'then' Block
    Else      := 'else' Block
    Expr      := Operand (BinaryOperator Expr)?
    Operand   := '(' Expr ')' | Number | String | Identifier

Quoted words are keywords or operators of that spelling. A program is a block.
-/

namespace ScriptSyntax

namespace Token

def Keyword (token : Token) (word : String) : Prop :=
  token.kind = .keyword ∧ token.value = word

def Operator (token : Token) (sign : String) : Prop :=
  token.kind = .operator ∧ token.value = sign

/-- Any operator but the three that delimit, whatever it is spelled like. -/
def Binary (token : Token) : Prop :=
  token.kind = .operator ∧ token.value ≠ "(" ∧ token.value ≠ ")" ∧ token.value ≠ ","

/-- A token that is an operand by itself. -/
def Atom (token : Token) : Prop :=
  token.kind = .number ∨ token.kind = .string ∨ token.kind = .identifier

theorem isBinaryOperator_iff {token : Token} : token.isBinaryOperator ↔ token.Binary := by
  simp [isBinaryOperator, Binary]

theorem isKeyword_iff {token : Token} {words : List String} :
    token.isKeyword words ↔ ∃ word ∈ words, token.Keyword word := by
  simp only [isKeyword, Keyword, Bool.and_eq_true, beq_iff_eq, List.contains_iff_mem]
  constructor
  · rintro ⟨hkind, hvalue⟩
    exact ⟨token.value, hvalue, hkind, rfl⟩
  · rintro ⟨word, hword, hkind, rfl⟩
    exact ⟨hkind, hword⟩

theorem isSignificant_of_kind {token : Token} (h : token.kind ≠ .comment) :
    token.isSignificant := by
  simpa [isSignificant] using h

theorem Keyword.isSignificant {token : Token} {word : String} (h : token.Keyword word) :
    token.isSignificant :=
  isSignificant_of_kind (by simp [h.1])

theorem Operator.isSignificant {token : Token} {sign : String} (h : token.Operator sign) :
    token.isSignificant :=
  isSignificant_of_kind (by simp [h.1])

theorem Binary.isSignificant {token : Token} (h : token.Binary) : token.isSignificant :=
  isSignificant_of_kind (by simp [h.1])

theorem Atom.isSignificant {token : Token} (h : token.Atom) : token.isSignificant := by
  apply isSignificant_of_kind
  rcases h with h | h | h <;> simp [h]

theorem isSignificant_of_identifier {token : Token} (h : token.kind = .identifier) :
    token.isSignificant :=
  isSignificant_of_kind (by simp [h])

end Token

/-- What a list of tokens can be. -/
inductive Symbol where
  | operand
  | expr
  | statement
  | block
  | elseIf
  | otherwise
  deriving DecidableEq, Repr

/-- One constructor for each alternative of the grammar. -/
inductive Derives : Symbol → List Token → Prop where
  | atom {t : Token} (ht : t.Atom) : Derives .operand [t]
  | group {l r : Token} {e : List Token} (hl : l.Operator "(") (he : Derives .expr e)
      (hr : r.Operator ")") : Derives .operand (l :: e ++ [r])
  | single {o : List Token} (ho : Derives .operand o) : Derives .expr o
  | operation {b : Token} {o e : List Token} (ho : Derives .operand o) (hb : b.Binary)
      (he : Derives .expr e) : Derives .expr (o ++ b :: e)
  | call {f l r : Token} {e : List Token} (hf : f.kind = .identifier) (hl : l.Operator "(")
      (he : Derives .expr e) (hr : r.Operator ")") : Derives .statement (f :: l :: e ++ [r])
  | forLoop {w x q m n d z : Token} {first limit step body : List Token}
      (hw : w.Keyword "for") (hx : x.kind = .identifier) (hq : q.Operator "=")
      (hfirst : Derives .expr first) (hm : m.Operator ",")
      (hlimit : Derives .expr limit) (hn : n.Operator ",")
      (hstep : Derives .expr step) (hd : d.Keyword "do")
      (hbody : Derives .block body) (hz : z.Keyword "end") :
      Derives .statement
        (w :: x :: q :: first ++ m :: limit ++ n :: step ++ d :: body ++ [z])
  | conditional {w t z : Token} {test body : List Token} {branches : List (List Token)}
      {last : Option (List Token)} (hw : w.Keyword "if") (htest : Derives .expr test)
      (ht : t.Keyword "then") (hbody : Derives .block body)
      (hbranches : ∀ branch ∈ branches, Derives .elseIf branch)
      (hlast : ∀ branch ∈ last, Derives .otherwise branch) (hz : z.Keyword "end") :
      Derives .statement
        (w :: test ++ t :: body ++ branches.flatten ++ last.getD [] ++ [z])
  | elseIf {w t : Token} {test body : List Token} (hw : w.Keyword "elseif")
      (htest : Derives .expr test) (ht : t.Keyword "then") (hbody : Derives .block body) :
      Derives .elseIf (w :: test ++ t :: body)
  | otherwise {w : Token} {body : List Token} (hw : w.Keyword "else")
      (hbody : Derives .block body) : Derives .otherwise (w :: body)
  | block {statements : List (List Token)}
      (hstatements : ∀ statement ∈ statements, Derives .statement statement) :
      Derives .block statements.flatten

end ScriptSyntax
