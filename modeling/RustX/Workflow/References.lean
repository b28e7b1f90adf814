import RustX.Workflow.Definition

/-!
The reference paths a node reads when it runs, with those of the bodies nested
in it. Literal data and schemas read nothing.
-/
namespace RustX

mutual

/-- `references::value`. -/
def WorkflowValue.reads : WorkflowValue → List (List String)
  | .reference path => [path]
  | .literal _ => []
  | .object fields => readsOfFields fields
  | .array items => readsOfItems items
  | .template parts => readsOfItems parts

def readsOfFields : List (String × WorkflowValue) → List (List String)
  | [] => []
  | (_, value) :: fields => value.reads ++ readsOfFields fields

def readsOfItems : List WorkflowValue → List (List String)
  | [] => []
  | item :: items => item.reads ++ readsOfItems items

end

mutual

/-- `references::predicate`. -/
def WorkflowPredicate.reads : WorkflowPredicate → List (List String)
  | .boolean value | .empty value | .notEmpty value => value.reads
  | .binary _ left right => left.reads ++ right.reads
  | .not predicate => predicate.reads
  | .and predicates | .or predicates => readsOfPredicates predicates

def readsOfPredicates : List WorkflowPredicate → List (List String)
  | [] => []
  | predicate :: predicates => predicate.reads ++ readsOfPredicates predicates

end

/-- The comparison value of a filter, unless its operator takes none. -/
def ListFilter.reads (filter : ListFilter) : List (List String) :=
  match filter.operator with
  | .empty | .notEmpty => []
  | _ => filter.value.reads

def listReads (input : WorkflowValue) (filter : Option ListFilter) (extract : Option WorkflowValue) :
    List (List String) :=
  input.reads ++ (filter.elim [] ListFilter.reads) ++ (extract.elim [] WorkflowValue.reads)

mutual

/-- `references::node`. -/
def NodeDefinition.reads : NodeDefinition → List (List String)
  | .start | .loopEnd => []
  | .template vars _ | .code _ vars _ _ _ _ => readsOfFields vars
  | .list input filter _ _ extract => listReads input filter extract
  | .classifier _ input instruction classes =>
    input.reads ++ readsOfItems (instruction ++ classes.flatMap ClassifierClass.description)
  | .aggregate grouped groups => (activeGroups groups grouped).flatMap AggregateGroup.vars
  | .model _ messages _ _ _ => messages.flatMap fun message => readsOfItems message.content
  | .agent _ task _ _ _ | .review task _ _ => readsOfItems task
  | .tool _ arguments _ _ _ => arguments.reads
  | .branch cases => cases.flatMap fun case => case.condition.reads
  | .assigner items => items.flatMap fun item => item.value.elim [] WorkflowValue.reads
  | .returns outputs => outputs.map ReturnOutput.valueSelector
  | .loop vars breakCondition _ body =>
    (vars.flatMap fun var => var.value.reads) ++
      breakCondition.elim [] WorkflowPredicate.reads ++ readsOfBody body
  | .iteration iterator output _ _ _ _ body => iterator.reads ++ output.reads ++ readsOfBody body

def readsOfBody : BlockOf NodeDefinition → List (List String)
  | ⟨_, nodes, _⟩ => readsOfNodes nodes

def readsOfNodes : List (String × NodeDefinition) → List (List String)
  | [] => []
  | (_, node) :: nodes => node.reads ++ readsOfNodes nodes

end

end RustX
