import WireContract.Schema.Boxing
import WireContract.Schema.Document
import WireContract.Schema.ModuleGraph
import WireContract.Schema.WellFormed

/-!
# Contracts

A contract is a document that keeps all rules, with the facts that emission needs: the registry,
the dependencies between modules, the declarations with ordered values and the boxed slots.
-/

namespace WireContract.Schema

/-- A well-formed document with what was found out about it. -/
structure Contract where
  version : Nat
  registry : Registry
  graph : ModuleGraph
  orderable : List QualifiedName
  boxed : List Slot
deriving Repr

namespace Contract

/-- The contract of a document that keeps all rules. -/
def ofDocument (doc : Document) : Except SchemaError Contract := do
  doc.check.mapError .violation
  let registry ← Registry.ofDeclarations doc.declarations
  let orderable := registry.orderable
  registry.check orderable
  let graph := ModuleGraph.ofRegistry registry
  graph.rejectCycle.mapError .moduleCycle
  return ⟨doc.version, registry, graph, orderable, registry.boxedSlots⟩

/-- The contract of a document text. -/
def load (text : String) : Except SchemaError Contract := do
  ofDocument (← Document.parse text)

/-- Whether the values of a declaration have a total order. -/
def isOrderable (c : Contract) (name : QualifiedName) : Bool :=
  c.orderable.contains name

/-- Whether a slot needs a box. -/
def isBoxed (c : Contract) (owner : QualifiedName) (member : String) : Bool :=
  c.boxed.contains (owner, member)

end Contract

end WireContract.Schema
