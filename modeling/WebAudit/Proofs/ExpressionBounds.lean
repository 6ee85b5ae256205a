import WebAudit.Proofs.ReaderBounds

/-!
The calls of an expression start inside the text. Each construct of the grammar,
from literals to expressions, is gone through once: if the rules that it refers
to stay in the text, so does the construct. Only a few constructs build a call.
They either need the start of the call to be inside the text, as everything
behind an operand does, or they read a token right where the call starts.
-/

set_option mvcgen.warning false

namespace WebAudit.Script.Grammar

open Std.Do Reader

def Stays (all : Extent) (g : Grammar) : Prop := ∀ rule, (g.rule rule).Stays all

variable {g : Grammar} {all : Extent}

section Signatures

@[spec]
theorem endsHere_peeks (operator body : Bool) (s : Place) : (g.endsHere operator body).Peeks s := by
  mvcgen [endsHere]
  all_goals grind

@[spec]
theorem semicolon_stays (operator : Bool) : (g.semicolon operator).Stays all := by
  mvcgen [semicolon]
  all_goals grind

@[spec]
theorem seesPropertyName_peeks (s : Place) : seesPropertyName.Peeks s := by
  mvcgen [seesPropertyName]
  all_goals grind

@[spec]
theorem modifiers_stays (fields : Bool) (words : List String) :
    (g.modifiers fields words).Stays all := by
  mvcgen [modifiers]
  all_goals grind

@[spec]
theorem seesParameter_peeks (s : Place) : seesParameter.Peeks s := by
  mvcgen [seesParameter]
  all_goals grind

@[spec]
theorem foldlM_stays {f : Node → Node → Reader Node}
    (hf : ∀ a b, a.CallsIn all → b.CallsIn all → (f a b).Stays all) {first : Node}
    {names : List Node} (hfirst : first.CallsIn all) (hnames : ∀ n ∈ names, n.CallsIn all) :
    (names.foldlM f first).Stays all := by
  induction names generalizing first with
  | nil =>
      exact triple_iff.mpr fun s hs a t hrun => by
        cases hrun
        exact ⟨hs, hfirst⟩
  | cons name names ih =>
      rw [List.foldlM_cons]
      -- the general rule for folds would ask for an invariant at each use
      have hname := hf first name hfirst (hnames name List.mem_cons_self)
      mvcgen [-Spec.foldlM_list, hname, ih]
      all_goals grind

variable (hg : g.Stays all)
include hg

@[spec]
theorem rule_stays (rule : Rule) : (g.rule rule).Stays all := hg rule

@[spec]
theorem expression_stays (mode : Mode) : (g.expression mode).Stays all := hg (.expression mode)

@[spec]
theorem sequence_stays (mode : Mode) : (g.sequence mode).Stays all := by
  mvcgen [sequence]
  all_goals grind

@[spec]
theorem initializer_stays (mode : Mode) : (g.initializer mode).Stays all := by
  mvcgen [initializer]
  all_goals grind

@[spec]
theorem declaredType_stays (ends : Bool) : (g.declaredType ends).Stays all := by
  mvcgen [declaredType]
  all_goals grind

@[spec]
theorem templateLiteral_stays : g.templateLiteral.Stays all := by
  mvcgen [templateLiteral]
  all_goals grind

@[spec]
theorem propertyName_stays : g.propertyName.Stays all := by
  mvcgen [propertyName]
  all_goals grind

@[spec]
theorem literalPattern_stays : g.literalPattern.Stays all := by
  mvcgen [literalPattern]
  all_goals grind

@[spec]
theorem binding_stays : g.binding.Stays all := by
  mvcgen [binding]
  all_goals grind

@[spec]
theorem parameterPattern_stays : g.parameterPattern.Stays all := by
  mvcgen [parameterPattern]
  all_goals grind

@[spec]
theorem decorator_stays : g.decorator.Stays all := by
  mvcgen [decorator, -Spec.foldlM_list]
  all_goals grind

@[spec]
theorem parameter_stays : g.parameter.Stays all := by
  mvcgen [parameter]
  all_goals grind

@[spec]
theorem parameters_stays : g.parameters.Stays all := by
  mvcgen [parameters]
  all_goals grind

@[spec]
theorem returnType_stays (ends : Bool) : (g.returnType ends).Stays all := by
  mvcgen [returnType]
  all_goals grind

@[spec]
theorem typeParameter_stays : g.typeParameter.Stays all := by
  mvcgen [typeParameter]
  all_goals grind

@[spec]
theorem typeParameters_stays : g.typeParameters.Stays all := by
  mvcgen [typeParameters]
  all_goals grind

@[spec]
theorem signature_stays (ends : Bool) : (g.signature ends).Stays all := by
  mvcgen [signature]
  all_goals grind

end Signatures

section Types

@[spec]
theorem indexMark_stays : indexMark.Stays all := by
  mvcgen [indexMark]
  all_goals grind

@[spec]
theorem seesTypeOperator_peeks (s : Place) : seesTypeOperator.Peeks s := by
  mvcgen [seesTypeOperator]
  all_goals grind

@[spec]
theorem advanceOperator_stays : type.advanceOperator.Stays all := by
  mvcgen [type.advanceOperator]
  all_goals grind

theorem valueName_stays : valueName.Stays all := by
  mvcgen [valueName]
  all_goals grind

@[spec]
theorem valueName_takes (s : Place) : valueName.Takes (fun _ => True) s :=
  takes_of_stays (fun _ _ => valueName_stays) (fun _ => rfl) s

variable (hg : g.Stays all)
include hg

@[spec]
theorem typeArguments_stays : g.typeArguments.Stays all := by
  mvcgen [typeArguments]
  all_goals grind

@[spec]
theorem indexSignature_stays : g.indexSignature.Stays all := by
  mvcgen [indexSignature]
  all_goals grind

@[spec]
theorem typeMember_stays : g.typeMember.Stays all := by
  mvcgen [typeMember]
  all_goals grind

@[spec]
theorem objectType_stays : g.objectType.Stays all := by
  mvcgen [objectType]
  all_goals grind

@[spec]
theorem tupleMember_stays : g.tupleMember.Stays all := by
  mvcgen [tupleMember]
  all_goals grind

@[spec]
theorem importType_stays : g.importType.Stays all := by
  mvcgen [importType]
  all_goals grind

@[spec]
theorem namedType_stays (ends : Bool) : (g.namedType ends).Stays all := by
  mvcgen [namedType]
  all_goals grind

@[spec]
theorem typeQuery_stays (ends : Bool) : (g.typeQuery ends).Stays all := by
  mvcgen [typeQuery]
  all_goals grind

@[spec]
theorem functionType_stays (ends : Bool) : (g.functionType ends).Stays all := by
  mvcgen [functionType]
  all_goals grind

@[spec]
theorem typeAtom_stays (ends : Bool) : (g.typeAtom ends).Stays all := by
  mvcgen [typeAtom]
  all_goals grind

@[spec]
theorem typeOperand_stays (ends : Bool) : (g.typeOperand ends).Stays all := by
  mvcgen [typeOperand]
  all_goals grind

@[spec]
theorem type_stays (ends : Bool) : (g.type ends).Stays all := by
  mvcgen [type]
  all_goals grind

end Types

section Members

@[spec]
theorem seesSignature_peeks (s : Place) : g.seesSignature.Peeks s := by
  mvcgen [seesSignature]
  all_goals grind

@[spec]
theorem memberEnd_stays (operator body : Bool) : (g.memberEnd operator body).Stays all := by
  mvcgen [memberEnd]
  all_goals grind

variable (hg : g.Stays all)
include hg

@[spec]
theorem spread_stays (mode : Mode) : (g.spread mode).Stays all := by
  mvcgen [spread]
  all_goals grind

@[spec]
theorem arguments_stays : g.arguments.Stays all := by
  mvcgen [arguments]
  all_goals grind

@[spec]
theorem array_stays : g.array.Stays all := by
  mvcgen [array]
  all_goals grind

@[spec]
theorem methodRest_stays (s : Nat) (before : List Node) (name : Node) (bodiless : Bool)
    (hbefore : ∀ n ∈ before, n.CallsIn all) (hname : name.CallsIn all) :
    (g.methodRest s before name bodiless).Stays all := by
  mvcgen [methodRest]
  all_goals grind

@[spec]
theorem objectMember_stays : g.objectMember.Stays all := by
  mvcgen [objectMember]
  all_goals grind

@[spec]
theorem object_stays : g.object.Stays all := by
  mvcgen [object]
  all_goals grind

@[spec]
theorem literal_stays : g.literal.Stays all := by
  mvcgen [literal]
  all_goals grind

@[spec]
theorem field_stays (s : Nat) (before : List Node) (name : Node)
    (hbefore : ∀ n ∈ before, n.CallsIn all) (hname : name.CallsIn all) :
    (g.field s before name).Stays all := by
  mvcgen [field]
  all_goals grind

@[spec]
theorem namedMember_stays (s : Nat) (decorators : List Node)
    (hdecorators : ∀ n ∈ decorators, n.CallsIn all) :
    (g.namedMember s decorators).Stays all := by
  mvcgen [namedMember]
  all_goals grind

@[spec]
theorem classMember_stays : g.classMember.Stays all := by
  mvcgen [classMember]
  all_goals grind

@[spec]
theorem classBody_stays : g.classBody.Stays all := by
  mvcgen [classBody]
  all_goals grind

@[spec]
theorem heritage_stays : g.heritage.Stays all := by
  mvcgen [heritage]
  all_goals grind

@[spec]
theorem classRest_stays (s : Nat) (before : List Node) (anonymous : Bool)
    (hbefore : ∀ n ∈ before, n.CallsIn all) :
    (g.classRest s before anonymous).Stays all := by
  mvcgen [classRest]
  all_goals grind

end Members

section Elements

@[spec]
theorem markupWord_stays : markupWord.Stays all := by
  mvcgen [markupWord]
  all_goals grind

@[spec]
theorem elementName_stays : elementName.Stays all := by
  mvcgen [elementName]
  all_goals grind

@[spec]
theorem attributeString_stays : attributeString.Stays all := by
  mvcgen [attributeString]
  all_goals grind

@[spec]
theorem closingTag_stays : closingTag.Stays all := by
  mvcgen [closingTag]
  all_goals grind

variable (hg : g.Stays all)
include hg

@[spec]
theorem embedded_stays : g.embedded.Stays all := by
  mvcgen [embedded]
  all_goals grind

@[spec]
theorem elementAttribute_stays : g.elementAttribute.Stays all := by
  mvcgen [elementAttribute]
  all_goals grind

@[spec]
theorem elementChild_stays : g.elementChild.Stays all := by
  mvcgen [elementChild]
  all_goals grind

@[spec]
theorem element_stays : g.element.Stays all := by
  mvcgen [element]
  all_goals grind

end Elements

section Operands

@[spec]
theorem seesArrow_peeks (s : Place) : seesArrow.Peeks s := sees_peeks s _

@[spec]
theorem seesChain_peeks (s : Place) : g.seesChain.Peeks s := by
  mvcgen [seesChain]
  all_goals grind

@[spec]
theorem endsInstantiation_peeks (mode : Mode) (s : Place) : (g.endsInstantiation mode).Peeks s := by
  unfold endsInstantiation
  mvcgen
  all_goals grind

@[spec]
theorem mustRead_peeks (calls : Bool) (n : Node) (s : Place) : (mustRead calls n).Peeks s := by
  mvcgen [mustRead]
  all_goals grind

@[spec]
theorem firstSeen_peeks (texts : List String) (s : Place) : (firstSeen texts).Peeks s := by
  mvcgen [firstSeen]
  all_goals grind

@[spec]
theorem seesOperator_peeks (mode : Mode) (s : Place) : (g.seesOperator mode).Peeks s := by
  mvcgen [seesOperator]
  all_goals grind

@[spec]
theorem seesCondition_peeks (s : Place) : g.seesCondition.Peeks s := by
  mvcgen [seesCondition]
  all_goals grind

@[spec]
theorem requireNoBlock_stays : g.requireNoBlock.Stays all := by
  mvcgen [requireNoBlock]
  all_goals grind

@[spec]
theorem memberOf_stays (s : Nat) (object : Node) (hobject : object.CallsIn all) :
    (memberOf s object).Stays all := by
  mvcgen [memberOf]
  all_goals grind

variable (hg : g.Stays all)
include hg

@[spec]
theorem objectInsteadOfBlock_stays : g.objectInsteadOfBlock.Stays all := by
  mvcgen [objectInsteadOfBlock]
  all_goals grind

@[spec]
theorem arrowBody_stays (mode : Mode) : (g.arrowBody mode).Stays all := by
  mvcgen [arrowBody]
  all_goals grind

@[spec]
theorem arrowRest_stays (s : Nat) (mode : Mode) : (g.arrowRest s mode).Stays all := by
  mvcgen [arrowRest]
  all_goals grind

@[spec]
theorem arrowOfName_stays (s : Nat) (mode : Mode) : (g.arrowOfName s mode).Stays all := by
  mvcgen [arrowOfName]
  all_goals grind

@[spec]
theorem parenthesized_stays : g.parenthesized.Stays all := by
  mvcgen [parenthesized]
  all_goals grind

@[spec]
theorem parenthesis_stays (mode : Mode) : (g.parenthesis mode).Stays all := by
  mvcgen [parenthesis]
  all_goals grind

@[spec]
theorem functionExpression_stays : g.functionExpression.Stays all := by
  mvcgen [functionExpression]
  all_goals grind

@[spec]
theorem asyncOperand_stays (mode : Mode) : (g.asyncOperand mode).Stays all := by
  mvcgen [asyncOperand]
  all_goals grind

@[spec]
theorem angleOperand_stays (mode : Mode) : (g.angleOperand mode).Stays all := by
  mvcgen [angleOperand]
  all_goals grind

@[spec]
theorem subscriptOf_stays (s : Nat) (object : Node)
    (hobject : object.CallsIn all) :
    (g.subscriptOf s object).Stays all := by
  mvcgen [subscriptOf]
  all_goals grind

@[spec]
theorem callOf_stays (s : Nat) (callee : Node) (generics : List Node)
    (hs : s < all.text.length) (hcallee : callee.CallsIn all)
    (hgenerics : ∀ n ∈ generics, n.CallsIn all) :
    (g.callOf s callee generics).Stays all := by
  mvcgen [callOf]
  all_goals grind

@[spec]
theorem templateCallOf_stays (s : Nat) (callee : Node)
    (hs : s < all.text.length) (hcallee : callee.CallsIn all) :
    (g.templateCallOf s callee).Stays all := by
  mvcgen [templateCallOf]
  all_goals grind

@[spec]
theorem genericSuffix_stays (mode : Mode) (s : Nat) (n : Node)
    (hs : s < all.text.length) (hn : n.CallsIn all) :
    (g.genericSuffix mode s n).Stays all := by
  mvcgen [genericSuffix]
  all_goals grind

@[spec]
theorem suffix_stays (mode : Mode) (calls : Bool) (s : Nat) (n : Node)
    (hs : s < all.text.length) (hn : n.CallsIn all) :
    (g.suffix mode calls s n).Stays all := by
  mvcgen [suffix]
  all_goals grind

@[spec]
theorem suffixes_stays (mode : Mode) (calls : Bool) (s : Nat) (fuel : Nat) (n : Node)
    (hs : s < all.text.length) (hn : n.CallsIn all) :
    (g.suffixes mode calls s fuel n).Stays all := by
  induction fuel generalizing n with
  | zero =>
      unfold suffixes
      mvcgen
  | succ fuel ih =>
      unfold suffixes
      mvcgen [ih]
      all_goals grind

@[spec]
theorem withSuffixes_stays (mode : Mode) (calls : Bool) (s : Nat) (n : Node)
    (hs : s < all.text.length) (hn : n.CallsIn all) :
    (g.withSuffixes mode calls s n).Stays all := by
  mvcgen [withSuffixes]
  all_goals grind

@[spec]
theorem classOperand_stays : g.classOperand.Stays all := by
  mvcgen [classOperand]
  all_goals grind

@[spec]
theorem literalOperand_stays (mode : Mode) : (g.literalOperand mode).Stays all := by
  mvcgen [literalOperand]
  all_goals grind

@[spec]
theorem wordAtom_stays (mode : Mode) (s : Nat) (w : String) : (g.wordAtom mode s w).Stays all := by
  mvcgen [wordAtom]
  all_goals grind

theorem atom_stays (mode : Mode) : (g.atom mode).Stays all := by
  mvcgen [atom]
  all_goals grind

end Operands

section Expressions

@[spec]
theorem atom_takes (mode : Mode) (s : Place) : (g.atom mode).Takes (fun all => g.Stays all) s :=
  takes_of_stays (fun _ hg => atom_stays hg mode) (fun _ => rfl) s

theorem construct_stays {constructRule : Reader Node} (hg : g.Stays all)
    (hrule : ∀ s, constructRule.Takes (fun all => g.Stays all) s) :
    (g.construct constructRule).Stays all := by
  -- what is constructed may have suffixes, so it has to start in the text too
  mvcgen [construct, hrule]
  all_goals grind

@[spec]
theorem constructs_takes (fuel : Nat) (s : Place) :
    (g.constructs fuel).Takes (fun all => g.Stays all) s := by
  induction fuel generalizing s with
  | zero => exact takes_of_stays (fun _ _ => failure_stays) (fun _ => rfl) s
  | succ fuel ih => exact takes_of_stays (fun _ hg => construct_stays hg ih) (fun _ => rfl) s

variable (hg : g.Stays all)
include hg

@[spec]
theorem assignmentTo_stays (mode : Mode) (s : Nat) (n : Node)
    (hn : n.CallsIn all) :
    (g.assignmentTo mode s n).Stays all := by
  mvcgen [assignmentTo]
  all_goals grind

@[spec]
theorem operandFrom_stays (mode : Mode) (fuel : Nat) : (g.operandFrom mode fuel).Stays all := by
  induction fuel generalizing mode with
  | zero => exact failure_stays
  | succ fuel ih =>
      unfold operandFrom
      mvcgen [ih]
      all_goals grind

@[spec]
theorem operand_stays (mode : Mode) : (g.operand mode).Stays all := by
  mvcgen [operand]
  all_goals grind

@[spec]
theorem operation_stays (mode : Mode) : (g.operation mode).Stays all := by
  mvcgen [operation]
  all_goals grind

@[spec]
theorem branches_stays (mode : Mode) : (g.branches mode).Stays all := by
  mvcgen [branches]
  all_goals grind

@[spec]
theorem expressionBody_stays (mode : Mode) : (g.expressionBody mode).Stays all := by
  mvcgen [expressionBody]
  all_goals grind

end Expressions

end WebAudit.Script.Grammar
