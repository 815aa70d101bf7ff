import ScriptSyntax.Phrase
import ScriptSyntax.Production.Recursion

/-!
The productions of the grammar satisfy their rules: every phrase inside another
stands behind a token of that other one, so the rules are guarded.
-/

namespace ScriptSyntax.Phrase

open Production

section Forward

variable {expr statements elseIfs : Production Unit}

theorem forward_lhsRule : Forward lhsRule := by
  refine .within _ (forward_nextToken.bind fun token => ?_)
  split
  · exact forward_attach _
  · exact forward_failAt _ _

theorem forward_operandRule (hexpr : Forward expr) (token : Token) :
    Forward (operandRule expr token) := by
  unfold operandRule
  split
  · exact .within _ <| (forward_attach _).bind fun _ => hexpr.bind fun _ => forward_operator _
  · split
    all_goals first | exact .within _ (forward_attach _) | exact forward_failAt _ _

theorem forward_operationRule (hexpr : Forward expr) (operand : List Tree) :
    Forward (operationRule expr operand) :=
  .within _ <| (forward_attachAll _).bind fun _ => forward_nextToken.bind fun _ =>
    (forward_attach _).bind fun _ => hexpr

theorem forward_exprFrom (hexpr : Forward expr) (token : Token) :
    Forward (exprFrom expr token) := by
  refine (forward_operandRule hexpr token).hold.bind fun operand => forward_peek.bind fun next => ?_
  split
  · exact forward_operationRule hexpr operand
  · exact forward_attachAll _

theorem forward_exprRule (hexpr : Forward expr) : Forward (exprRule expr) :=
  .within _ <| forward_nextToken.bind fun token => forward_exprFrom hexpr token

theorem forward_callRule (hexpr : Forward expr) : Forward (callRule expr) :=
  .within _ <| forward_lhsRule.bind fun _ => (forward_operator _).bind fun _ =>
    hexpr.bind fun _ => forward_operator _

theorem forward_forRule (hexpr : Forward expr) (hstatements : Forward statements) :
    Forward (forRule expr statements) :=
  .within _ <| (forward_keyword _).bind fun _ => forward_lhsRule.bind fun _ =>
    (forward_operator _).bind fun _ => hexpr.bind fun _ =>
    (forward_operator _).bind fun _ => hexpr.bind fun _ =>
    (forward_operator _).bind fun _ => hexpr.bind fun _ =>
    (forward_keyword _).bind fun _ => (hstatements.within _).bind fun _ => forward_keyword _

theorem forward_elseIfRule (hexpr : Forward expr) (hstatements : Forward statements) :
    Forward (elseIfRule expr statements) :=
  .within _ <| (forward_keyword _).bind fun _ => hexpr.bind fun _ =>
    (forward_keyword _).bind fun _ => hstatements.within _

theorem forward_elseOptional (hstatements : Forward statements) :
    Forward (elseOptional statements) := by
  refine forward_peek.bind fun next => ?_
  split
  · exact .within _ <| (forward_keyword _).bind fun _ => hstatements.within _
  · exact forward_pure _

theorem forward_elseIfsRule (hexpr : Forward expr) (hstatements : Forward statements)
    (helseIfs : Forward elseIfs) : Forward (elseIfsRule expr statements elseIfs) := by
  refine forward_peek.bind fun next => ?_
  split
  · exact (forward_elseIfRule hexpr hstatements).bind fun _ => helseIfs
  · exact forward_pure _

theorem forward_ifRule (hexpr : Forward expr) (hstatements : Forward statements)
    (helseIfs : Forward elseIfs) : Forward (ifRule expr statements elseIfs) :=
  .within _ <| (forward_keyword _).bind fun _ => hexpr.bind fun _ =>
    (forward_keyword _).bind fun _ => (hstatements.within _).bind fun _ =>
    helseIfs.bind fun _ => (forward_elseOptional hstatements).bind fun _ => forward_keyword _

theorem forward_statementRule (hexpr : Forward expr) (hstatements : Forward statements)
    (helseIfs : Forward elseIfs) (token : Token) :
    Forward (statementRule expr statements elseIfs token) := by
  unfold statementRule
  split
  · exact forward_forRule hexpr hstatements
  · split
    · exact forward_ifRule hexpr hstatements helseIfs
    · split
      · exact forward_callRule hexpr
      · exact forward_failAt _ _

theorem forward_statementsRule (hexpr : Forward expr) (hstatements : Forward statements)
    (helseIfs : Forward elseIfs) : Forward (statementsRule expr statements elseIfs) := by
  refine forward_peek.bind fun next => ?_
  split
  · exact forward_pure _
  · split
    · exact forward_pure _
    · exact (forward_statementRule hexpr hstatements helseIfs _).bind fun _ => hstatements

end Forward

section Advances

variable {expr statements elseIfs : Production Unit}

theorem advances_lhsRule : Advances lhsRule := by
  refine .within _ (advances_nextToken.bind fun token => ?_)
  split
  · exact forward_attach _
  · exact forward_failAt _ _

theorem advances_callRule (hexpr : Forward expr) : Advances (callRule expr) :=
  .within _ <| advances_lhsRule.bind fun _ => (forward_operator _).bind fun _ =>
    hexpr.bind fun _ => forward_operator _

theorem advances_forRule (hexpr : Forward expr) (hstatements : Forward statements) :
    Advances (forRule expr statements) :=
  .within _ <| (advances_keyword _).bind fun _ => forward_lhsRule.bind fun _ =>
    (forward_operator _).bind fun _ => hexpr.bind fun _ =>
    (forward_operator _).bind fun _ => hexpr.bind fun _ =>
    (forward_operator _).bind fun _ => hexpr.bind fun _ =>
    (forward_keyword _).bind fun _ => (hstatements.within _).bind fun _ => forward_keyword _

theorem advances_elseIfRule (hexpr : Forward expr) (hstatements : Forward statements) :
    Advances (elseIfRule expr statements) :=
  .within _ <| (advances_keyword _).bind fun _ => hexpr.bind fun _ =>
    (forward_keyword _).bind fun _ => hstatements.within _

theorem advances_ifRule (hexpr : Forward expr) (hstatements : Forward statements)
    (helseIfs : Forward elseIfs) : Advances (ifRule expr statements elseIfs) :=
  .within _ <| (advances_keyword _).bind fun _ => hexpr.bind fun _ =>
    (forward_keyword _).bind fun _ => (hstatements.within _).bind fun _ =>
    helseIfs.bind fun _ => (forward_elseOptional hstatements).bind fun _ => forward_keyword _

theorem advances_failAt (token : Token) (cause : Cause) :
    Advances (failAt token cause : Production Unit) := fun _ _ h => by cases h

theorem advances_statementRule (hexpr : Forward expr) (hstatements : Forward statements)
    (helseIfs : Forward elseIfs) (token : Token) :
    Advances (statementRule expr statements elseIfs token) := by
  unfold statementRule
  split
  · exact advances_forRule hexpr hstatements
  · split
    · exact advances_ifRule hexpr hstatements helseIfs
    · split
      · exact advances_callRule hexpr
      · exact advances_failAt _ _

end Advances

section Agree

variable {n : Nat} {expr statements elseIfs expr₂ statements₂ elseIfs₂ : Production Unit}

theorem agree_operandRule (hexpr : AgreeBelow n expr expr₂) (hf : Forward expr₂) (token : Token) :
    AgreeBelow n (operandRule expr token) (operandRule expr₂ token) := by
  unfold operandRule
  split
  · exact .within _ <| .after (forward_attach _) fun _ =>
      .bind hexpr hf fun _ => .rfl
  · exact .rfl

theorem agree_exprFrom (hexpr : AgreeBelow n expr expr₂) (hf : Forward expr₂) (token : Token) :
    AgreeBelow n (exprFrom expr token) (exprFrom expr₂ token) := by
  refine .bind (agree_operandRule hexpr hf token).hold (forward_operandRule hf token).hold
    fun operand => .after forward_peek fun next => ?_
  split
  · exact .within _ <| .after (forward_attachAll _) fun _ =>
      .after forward_nextToken fun _ => .after (forward_attach _) fun _ => hexpr
  · exact .rfl

theorem agree_exprRule (hexpr : AgreeBelow n expr expr₂) (hf : Forward expr₂) :
    AgreeBelow (n + 1) (exprRule expr) (exprRule expr₂) :=
  .within _ <| .bind_behind advances_nextToken fun token => agree_exprFrom hexpr hf token

theorem agree_callRule (hexpr : AgreeBelow n expr expr₂) (hf : Forward expr₂) :
    AgreeBelow (n + 1) (callRule expr) (callRule expr₂) :=
  .within _ <| .bind_behind advances_lhsRule fun _ =>
    .after (forward_operator _) fun _ => .bind hexpr hf fun _ => .rfl

theorem agree_forRule (hexpr : AgreeBelow n expr expr₂) (hf : Forward expr₂)
    (hstatements : AgreeBelow n statements statements₂) (hg : Forward statements₂) :
    AgreeBelow (n + 1) (forRule expr statements) (forRule expr₂ statements₂) :=
  .within _ <| .bind_behind (advances_keyword _) fun _ =>
    .after forward_lhsRule fun _ =>
    .after (forward_operator _) fun _ => .bind hexpr hf fun _ =>
    .after (forward_operator _) fun _ => .bind hexpr hf fun _ =>
    .after (forward_operator _) fun _ => .bind hexpr hf fun _ =>
    .after (forward_keyword _) fun _ =>
    .bind (hstatements.within _) (hg.within _) fun _ => .rfl

theorem agree_elseIfRule (hexpr : AgreeBelow n expr expr₂) (hf : Forward expr₂)
    (hstatements : AgreeBelow n statements statements₂) :
    AgreeBelow (n + 1) (elseIfRule expr statements) (elseIfRule expr₂ statements₂) :=
  .within _ <| .bind_behind (advances_keyword _) fun _ => .bind hexpr hf fun _ =>
    .after (forward_keyword _) fun _ => hstatements.within _

theorem agree_elseOptional (hstatements : AgreeBelow n statements statements₂) :
    AgreeBelow n (elseOptional statements) (elseOptional statements₂) := by
  refine .after forward_peek fun next => ?_
  split
  · exact .within _ <| .after (forward_keyword _) fun _ => hstatements.within _
  · exact .rfl

/-- The branches behind the first one stand behind its `elseif`. -/
theorem agree_elseIfsRule (hexpr : AgreeBelow n expr expr₂) (hf : Forward expr₂)
    (hstatements : AgreeBelow n statements statements₂) (hg : Forward statements₂)
    (helseIfs : AgreeBelow n elseIfs elseIfs₂) :
    AgreeBelow (n + 1) (elseIfsRule expr statements elseIfs)
      (elseIfsRule expr₂ statements₂ elseIfs₂) := by
  refine .after forward_peek fun next => ?_
  split
  · exact .then_behind (agree_elseIfRule hexpr hf hstatements) (advances_elseIfRule hf hg)
      fun _ => helseIfs
  · exact .rfl

theorem agree_ifRule (hexpr : AgreeBelow n expr expr₂) (hf : Forward expr₂)
    (hstatements : AgreeBelow n statements statements₂) (hg : Forward statements₂)
    (helseIfs : AgreeBelow n elseIfs elseIfs₂) (hl : Forward elseIfs₂) :
    AgreeBelow (n + 1) (ifRule expr statements elseIfs) (ifRule expr₂ statements₂ elseIfs₂) :=
  .within _ <| .bind_behind (advances_keyword _) fun _ => .bind hexpr hf fun _ =>
    .after (forward_keyword _) fun _ =>
    .bind (hstatements.within _) (hg.within _) fun _ => .bind helseIfs hl fun _ =>
    .bind (agree_elseOptional hstatements) (forward_elseOptional hg) fun _ => .rfl

theorem agree_statementRule (hexpr : AgreeBelow n expr expr₂) (hf : Forward expr₂)
    (hstatements : AgreeBelow n statements statements₂) (hg : Forward statements₂)
    (helseIfs : AgreeBelow n elseIfs elseIfs₂) (hl : Forward elseIfs₂) (token : Token) :
    AgreeBelow (n + 1) (statementRule expr statements elseIfs token)
      (statementRule expr₂ statements₂ elseIfs₂ token) := by
  unfold statementRule
  split
  · exact agree_forRule hexpr hf hstatements hg
  · split
    · exact agree_ifRule hexpr hf hstatements hg helseIfs hl
    · split
      · exact agree_callRule hexpr hf
      · exact .rfl

theorem agree_statementsRule (hexpr : AgreeBelow n expr expr₂) (hf : Forward expr₂)
    (hstatements : AgreeBelow n statements statements₂) (hg : Forward statements₂)
    (helseIfs : AgreeBelow n elseIfs elseIfs₂) (hl : Forward elseIfs₂) :
    AgreeBelow (n + 1) (statementsRule expr statements elseIfs)
      (statementsRule expr₂ statements₂ elseIfs₂) := by
  refine .after forward_peek fun next => ?_
  split
  · exact .rfl
  · split
    · exact .rfl
    · exact .then_behind (agree_statementRule hexpr hf hstatements hg helseIfs hl _)
        (advances_statementRule hf hg hl _) fun _ => hstatements

end Agree

theorem guarded_rule : Guarded rule where
  forward h
    | expr => forward_exprRule (h expr)
    | statements => forward_statementsRule (h expr) (h statements) (h elseIfs)
    | elseIfs => forward_elseIfsRule (h expr) (h statements) (h elseIfs)
  agree h hfg
    | expr => agree_exprRule (hfg expr) (h expr)
    | statements =>
        agree_statementsRule (hfg expr) (h expr) (hfg statements) (h statements) (hfg elseIfs)
          (h elseIfs)
    | elseIfs =>
        agree_elseIfsRule (hfg expr) (h expr) (hfg statements) (h statements) (hfg elseIfs)

theorem forward_parse (phrase : Phrase) : Forward phrase.parse :=
  guarded_rule.forward_recursive phrase

/-- Every phrase is read by its rule, with the phrases inside read by theirs. -/
theorem parse_eq (phrase : Phrase) : phrase.parse = rule parse phrase :=
  guarded_rule.recursive_eq phrase

end ScriptSyntax.Phrase
