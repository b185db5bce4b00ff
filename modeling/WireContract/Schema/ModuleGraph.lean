import WireContract.Graph.Reach
import WireContract.Schema.Registry

/-!
# Dependencies between modules

A module depends on another when one of its declarations mentions one of the other's.  The graph
numbers the modules in the order in which they come up.  Between two modules there is one edge for
all mentions from one to the other, and it keeps the mentions themselves, so that a cycle can be
reported by the references that close it.  Mentions within one module do not count.
-/

namespace WireContract.Schema

/-- Order of mentions: by the name that mentions, then by the mentioned one. -/
def mentionLe (a b : QualifiedName × QualifiedName) : Bool :=
  if a.1 == b.1 then a.2.le b.2 else a.1.le b.1

/-- Adds a mention to mentions in order, unless it is there. -/
def insertMention (p : QualifiedName × QualifiedName) :
    List (QualifiedName × QualifiedName) → List (QualifiedName × QualifiedName)
  | [] => [p]
  | q :: qs =>
    if p = q then q :: qs
    else if mentionLe p q then p :: q :: qs
    else q :: insertMention p qs

/-- A dependency of a module on another, both by their numbers, with the mentions behind it in
order. -/
structure ModuleEdge where
  source : Nat
  target : Nat
  mentions : List (QualifiedName × QualifiedName)
deriving DecidableEq, Repr

/-- Whether the edge leads from one module to another. -/
def ModuleEdge.joins (e : ModuleEdge) (source target : Nat) : Bool :=
  e.source == source && e.target == target

/-- The modules by their numbers, the numbers by the names of the modules, and the edges. -/
structure ModuleGraph where
  modules : List String
  numbers : List (String × Nat)
  edges : List ModuleEdge
deriving DecidableEq, Repr, Inhabited

namespace ModuleGraph

/-- No modules. -/
def empty : ModuleGraph := ⟨[], [], []⟩

/-- The number of a module, in order of first mention. -/
def index? (g : ModuleGraph) (module : String) : Option Nat :=
  g.numbers.lookup module

/-- The graph with a module, and the number of the module: the one it has, or else the next. -/
def addModule (g : ModuleGraph) (module : String) : ModuleGraph × Nat :=
  match g.index? module with
  | some number => (g, number)
  | none =>
    let number := g.modules.length
    (⟨g.modules ++ [module], (module, number) :: g.numbers, g.edges⟩, number)

/-- Adds a module, unless it is there. -/
def insertModule (g : ModuleGraph) (module : String) : ModuleGraph :=
  (g.addModule module).1

/-- Adds a mention to the edge from one module to another, which is made if there is none. -/
def recordMention (source target : Nat) (p : QualifiedName × QualifiedName) :
    List ModuleEdge → List ModuleEdge
  | [] => [⟨source, target, [p]⟩]
  | e :: es =>
    if e.joins source target then { e with mentions := insertMention p e.mentions } :: es
    else e :: recordMention source target p es

/-- Records that one declaration mentions another. -/
def addMention (g : ModuleGraph) (source target : QualifiedName) : ModuleGraph :=
  if source.module == target.module then g
  else
    let (g, i) := g.addModule source.module
    let (g, j) := g.addModule target.module
    { g with edges := recordMention i j (source, target) g.edges }

/-- The graph of all mentions in a registry. -/
def ofRegistry (reg : Registry) : ModuleGraph :=
  let mentions := reg.declarations.flatMap fun d => d.mentions.map (d.name, ·)
  mentions.foldl (fun g (source, target) => g.addMention source target)
    (reg.modules.foldl insertModule empty)

/-- The modules that a module depends on, in order. -/
def dependencies (g : ModuleGraph) (module : String) : List String :=
  match g.index? module with
  | some i =>
    ((g.edges.filter (·.source == i)).filterMap fun e => g.modules[e.target]?).mergeSort
      fun a b => decide (a ≤ b)
  | none => []

/-- Whether one module depends on another, directly or through others. -/
def dependsOn (g : ModuleGraph) (a b : String) : Bool :=
  Graph.reaches g.dependencies g.modules.length a b

/-- The mentions behind a dependency. -/
def mentionsBetween (g : ModuleGraph) (a b : String) : List (QualifiedName × QualifiedName) :=
  match g.index? a, g.index? b with
  | some i, some j => ((g.edges.find? (·.joins i j)).map (·.mentions)).getD []
  | _, _ => []

/-- The least mention behind a dependency. -/
def leastMention? (g : ModuleGraph) (a b : String) : Option (QualifiedName × QualifiedName) :=
  (g.mentionsBetween a b).head?

/-- The modules that depend on a module and on which it depends, in order. -/
def component (g : ModuleGraph) (module : String) : List String :=
  (g.modules.filter fun other => g.dependsOn module other && g.dependsOn other module).mergeSort
    fun a b => decide (a ≤ b)

/-- The modules among some that a module depends on, in order. -/
def dependenciesWithin (g : ModuleGraph) (members : List String) (module : String) : List String :=
  (g.dependencies module).filter members.contains

/-- The cycle of a component: a shortest walk from its first module back, by least mentions. -/
def describe (g : ModuleGraph) (members : List String) : ModuleCycle :=
  let start := members.headD ""
  let walk := (Graph.closingWalk? (g.dependenciesWithin members) members.length start).getD []
  ⟨members, (walk.zip (walk.drop 1)).filterMap fun step => g.leastMention? step.1 step.2⟩

/-- Every group of modules that depend on one another, ordered by their modules. -/
def cycles (g : ModuleGraph) : List ModuleCycle :=
  let sorted := g.modules.mergeSort fun a b => decide (a ≤ b)
  let components := sorted.filterMap fun m =>
    let members := g.component m
    if members.head? == some m then some members else none
  components.map g.describe

/-- Refuses a graph with a cycle, by the first. -/
def rejectCycle (g : ModuleGraph) : Except ModuleCycle Unit :=
  match g.cycles with
  | [] => .ok ()
  | cycle :: _ => .error cycle

end ModuleGraph

end WireContract.Schema
