/-!
# Reachability in finite graphs

A graph is given by the successors of each node.  `reach` collects what can be reached in one or
more steps, `closingWalk?` finds a shortest walk from a node back to itself.  Both take a bound on
the number of nodes; with at least as many as there are, they are complete.
-/

namespace WireContract.Graph

variable {α : Type} [BEq α]

/-- The elements not yet seen, each once. -/
def fresh (seen : List α) : List α → List α
  | [] => []
  | a :: rest => if seen.contains a then fresh seen rest else a :: fresh (a :: seen) rest

/-- Adds successors until nothing new appears, in at most `bound` rounds. -/
def closure (next : α → List α) : (bound : Nat) → List α → List α
  | 0, seen => seen
  | bound + 1, seen =>
    let more := fresh seen (seen.flatMap next)
    if more.isEmpty then seen else closure next bound (seen ++ more)

/-- The nodes reached from `a` in one or more steps. -/
def reach (next : α → List α) (bound : Nat) (a : α) : List α :=
  closure next bound (fresh [] (next a))

/-- Whether `b` is reached from `a` in one or more steps. -/
def reaches (next : α → List α) (bound : Nat) (a b : α) : Bool :=
  (reach next bound a).contains b

/-- Takes nodes from a queue, the oldest first, until one can step back to `start`.  A node is
queued once, and `origins` remembers the node it was found from.  Gives the node that can step back,
with the origins; nothing if the queue is empty before or the bound is used up. -/
def closingNode? (next : α → List α) (start : α) :
    (bound : Nat) → (queue : List α) → (origins : List (α × α)) → Option (α × List (α × α))
  | 0, _, _ => none
  | _ + 1, [], _ => none
  | bound + 1, node :: queue, origins =>
    let successors := next node
    if successors.contains start then some (node, origins)
    else
      let more := fresh (start :: origins.map (·.1)) successors
      closingNode? next start bound (queue ++ more) (origins ++ more.map (·, node))

/-- The nodes from `node` back to `start`, each followed by the one it was found from; nothing if a
node has no origin or the bound is used up. -/
def walkBack? (origins : List (α × α)) (start : α) : (bound : Nat) → (node : α) → Option (List α)
  | 0, _ => none
  | bound + 1, node =>
    if node == start then some [node]
    else
      match origins.lookup node with
      | none => none
      | some origin => (walkBack? origins start bound origin).map (node :: ·)

/-- A shortest walk of one or more steps from `start` back to it, first and last node included;
nothing if there is none.  Of several the one that the order of the successors prefers. -/
def closingWalk? (next : α → List α) (bound : Nat) (start : α) : Option (List α) := do
  let (last, origins) ← closingNode? next start (bound + 1) [start] []
  let back ← walkBack? origins start (bound + 1) last
  return (start :: back).reverse

end WireContract.Graph
