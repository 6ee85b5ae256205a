import WebAudit.Proofs.ExpressionBounds

/-!
The calls of a script start inside its text. Declarations and statements stay in
the text like expressions, so by induction on the depth of nesting all rules of
a language do. Whatever a script is parsed to, each of its calls and
constructions starts before the end of the text.
-/

set_option mvcgen.warning false

namespace WebAudit.Script

namespace Grammar

open Std.Do Reader

variable {g : Grammar} {all : Extent}

section Declarations

@[spec]
theorem letDeclares_peeks (s : Place) : g.letDeclares.Peeks s := wouldRead_peeks s _

@[spec]
theorem seesFunctionDeclaration_peeks (s : Place) : g.seesFunctionDeclaration.Peeks s :=
  wouldRead_peeks s _

@[spec]
theorem seesClassDeclaration_peeks (s : Place) : g.seesClassDeclaration.Peeks s :=
  wouldRead_peeks s _

@[spec]
theorem importDeclares_peeks (s : Place) : g.importDeclares.Peeks s := wouldRead_peeks s _

@[spec]
theorem namespaceName_stays : namespaceName.Stays all := by
  mvcgen [namespaceName]
  all_goals grind

@[spec]
theorem moduleName_stays : moduleName.Stays all := by
  mvcgen [moduleName]
  all_goals grind

@[spec]
theorem source_stays : source.Stays all := by
  mvcgen [source]
  all_goals grind

@[spec]
theorem specifier_stays : g.specifier.Stays all := by
  mvcgen [specifier]
  all_goals grind

@[spec]
theorem specifiers_stays : g.specifiers.Stays all := by
  mvcgen [specifiers]
  all_goals grind

@[spec]
theorem importClause_stays : g.importClause.Stays all := by
  mvcgen [importClause]
  all_goals grind

variable (hg : g.Stays all)
include hg

@[spec]
theorem declarator_stays : g.declarator.Stays all := by
  mvcgen [declarator]
  all_goals grind

@[spec]
theorem declarators_stays (s : Nat) : (g.declarators s).Stays all := by
  mvcgen [declarators]
  all_goals grind

@[spec]
theorem variableDeclaration_stays : g.variableDeclaration.Stays all := by
  mvcgen [variableDeclaration]
  all_goals grind

@[spec]
theorem functionDeclaration_stays : g.functionDeclaration.Stays all := by
  mvcgen [functionDeclaration]
  all_goals grind

@[spec]
theorem classDeclaration_stays (s : Nat) (decorators : List Node)
    (hdecorators : ∀ n ∈ decorators, n.CallsIn all) :
    (g.classDeclaration s decorators).Stays all := by
  mvcgen [classDeclaration]
  all_goals grind

@[spec]
theorem typeAlias_stays : g.typeAlias.Stays all := by
  mvcgen [typeAlias]
  all_goals grind

@[spec]
theorem interface_stays : g.interface.Stays all := by
  mvcgen [interface]
  all_goals grind

@[spec]
theorem enumeration_stays : g.enumeration.Stays all := by
  mvcgen [enumeration]
  all_goals grind

@[spec]
theorem namespaceDeclaration_stays : g.namespaceDeclaration.Stays all := by
  mvcgen [namespaceDeclaration]
  all_goals grind

@[spec]
theorem importAttributes_stays : g.importAttributes.Stays all := by
  mvcgen [importAttributes]
  all_goals grind

@[spec]
theorem importDeclaration_stays : g.importDeclaration.Stays all := by
  mvcgen [importDeclaration]
  all_goals grind

@[spec]
theorem ambient_stays {declaration : Reader Node} (hdeclaration : declaration.Stays all) :
    (g.ambient declaration).Stays all := by
  mvcgen [ambient, hdeclaration]
  all_goals grind

@[spec]
theorem declarationFrom_stays (s : Nat) (decorators : List Node) (fuel : Nat)
    (hdecorators : ∀ n ∈ decorators, n.CallsIn all) :
    (g.declarationFrom s decorators fuel).Stays all := by
  induction fuel generalizing decorators with
  | zero => exact failure_stays
  | succ fuel ih =>
      -- what is declared as ambient is a declaration again, with less fuel
      unfold declarationFrom
      mvcgen [ih]
      all_goals grind

@[spec]
theorem declaration_stays (s : Nat) (decorators : List Node)
    (hdecorators : ∀ n ∈ decorators, n.CallsIn all) :
    (g.declaration s decorators).Stays all := by
  mvcgen [declaration]
  all_goals grind

@[spec]
theorem defaultExport_stays (s : Nat) (decorators : List Node)
    (hdecorators : ∀ n ∈ decorators, n.CallsIn all) :
    (g.defaultExport s decorators).Stays all := by
  mvcgen [defaultExport]
  all_goals grind

@[spec]
theorem exportDeclaration_stays (s : Nat) (decorators : List Node)
    (hdecorators : ∀ n ∈ decorators, n.CallsIn all) :
    (g.exportDeclaration s decorators).Stays all := by
  mvcgen [exportDeclaration]
  all_goals grind

end Declarations

section Statements

@[spec]
theorem preferLonger_stays {complete longer : Reader Node} (hcomplete : complete.Stays all)
    (hlonger : longer.Stays all) : (preferLonger complete longer).Stays all := by
  unfold preferLonger
  mvcgen [hcomplete, hlonger]
  all_goals grind

variable (hg : g.Stays all)
include hg

@[spec]
theorem block_stays : g.block.Stays all := by
  mvcgen [block]
  all_goals grind

@[spec]
theorem expressionStatement_stays : g.expressionStatement.Stays all := by
  mvcgen [expressionStatement]
  all_goals grind

@[spec]
theorem bracedStatement_stays : g.bracedStatement.Stays all := by
  mvcgen [bracedStatement]
  all_goals grind

@[spec]
theorem ifStatement_stays : g.ifStatement.Stays all := by
  mvcgen [ifStatement]
  all_goals grind

@[spec]
theorem whileStatement_stays : g.whileStatement.Stays all := by
  mvcgen [whileStatement]
  all_goals grind

@[spec]
theorem doStatement_stays : g.doStatement.Stays all := by
  mvcgen [doStatement]
  all_goals grind

@[spec]
theorem loopTarget_stays : g.loopTarget.Stays all := by
  mvcgen [loopTarget]
  all_goals grind

@[spec]
theorem itemsHead_stays : g.itemsHead.Stays all := by
  mvcgen [itemsHead]
  all_goals grind

@[spec]
theorem optionalClause_stays : g.optionalClause.Stays all := by
  mvcgen [optionalClause]
  all_goals grind

@[spec]
theorem stepsHead_stays : g.stepsHead.Stays all := by
  mvcgen [stepsHead]
  all_goals grind

@[spec]
theorem forStatement_stays : g.forStatement.Stays all := by
  mvcgen [forStatement]
  all_goals grind

@[spec]
theorem switchCase_stays : g.switchCase.Stays all := by
  mvcgen [switchCase]
  all_goals grind

@[spec]
theorem switchStatement_stays : g.switchStatement.Stays all := by
  mvcgen [switchStatement]
  all_goals grind

@[spec]
theorem tryStatement_stays : g.tryStatement.Stays all := by
  mvcgen [tryStatement]
  all_goals grind

@[spec]
theorem withStatement_stays : g.withStatement.Stays all := by
  mvcgen [withStatement]
  all_goals grind

@[spec]
theorem returnStatement_stays : g.returnStatement.Stays all := by
  mvcgen [returnStatement]
  all_goals grind

omit hg in
@[spec]
theorem jumpStatement_stays : g.jumpStatement.Stays all := by
  mvcgen [jumpStatement]
  all_goals grind

@[spec]
theorem throwStatement_stays : g.throwStatement.Stays all := by
  mvcgen [throwStatement]
  all_goals grind

@[spec]
theorem labelled_stays : g.labelled.Stays all := by
  mvcgen [labelled]
  all_goals grind

@[spec]
theorem decoratedStatement_stays : g.decoratedStatement.Stays all := by
  mvcgen [decoratedStatement]
  all_goals grind

@[spec]
theorem plainWordStatement_stays (s : Nat) (w : String) : (g.plainWordStatement s w).Stays all := by
  mvcgen [plainWordStatement]
  all_goals grind

@[spec]
theorem wordStatement_stays (s : Nat) (w : String) : (g.wordStatement s w).Stays all := by
  mvcgen [wordStatement]
  all_goals grind

@[spec]
theorem statement_stays : g.statement.Stays all := by
  mvcgen [statement]
  all_goals grind

end Statements

end Grammar

open Std.Do Reader

theorem parseRule_stays (all : Extent) (language : Language) (fuel : Nat) (rule : Rule) :
    (parseRule language fuel rule).Stays all := by
  induction fuel generalizing rule with
  | zero => exact failure_stays
  | succ fuel ih =>
      have hg : Grammar.Stays all ⟨language, parseRule language fuel⟩ := ih
      cases rule with
      | expression mode => exact Grammar.expressionBody_stays hg mode
      | statement => exact Grammar.statement_stays hg
      | type ends => exact Grammar.type_stays hg ends
      | literal => exact Grammar.literal_stays hg
      | parameters => exact Grammar.parameters_stays hg
      | arguments => exact Grammar.arguments_stays hg
      | element => exact Grammar.element_stays hg
      | block => exact Grammar.block_stays hg

theorem program_stays {all : Extent} {statement : Reader Node} (hstatement : statement.Stays all) :
    (program statement).Stays all := by
  mvcgen [program, hstatement]
  all_goals grind

/-- In a script that is parsed, no call and no construction starts at the end of
the text. -/
theorem start_lt_of_parse? {language : Language} {text : List Char} {root n : Node}
    (hparse : parse? language text = some root) (hn : n ∈ root.preorder)
    (hkind : n.kind = .call ∨ n.kind = .construct) : n.start < text.length := by
  obtain ⟨⟨_, t⟩, hrun, rfl⟩ := Option.map_eq_some_iff.mp hparse
  have hstays := program_stays (parseRule_stays ⟨text⟩ language (nesting text) .statement)
  obtain ⟨-, hcalls⟩ := triple_iff.mp hstays (.start text) rfl _ t hrun
  exact hcalls n hn hkind

end WebAudit.Script
