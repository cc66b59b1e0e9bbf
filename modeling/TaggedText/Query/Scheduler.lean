/-
# Schedulers

A scheduler brings a plan to its end.  Beside the plan it keeps a list of the leaves that wait: an
entry is the estimate of a leaf with its number, the nodes being numbered from the root down and from
left to right.  The list is kept in order, the least estimate first and of equal ones the first leaf
in the tree.

An update visits the nodes that are not done.  A leaf gets a new estimate, and **its old entry is
taken out before the new one is put in**; as an entry can only be found by what it says, the leaf has
to remember the estimate that it was entered with.  A node whose parts are all done is done too, and
folded into its parent.

A step takes the first entry and evaluates the leaf that it names.
-/
import TaggedText.Query.Plan

namespace TaggedText.Query

/-! ## 1. Leaves that wait -/

/-- A leaf that waits: its estimate and its number. -/
abbrev Pending := Nat × Nat

/-- The entry comes before another one: it has the smaller estimate, or of equal ones the smaller
number. -/
def Pending.Precedes (a b : Pending) : Prop := a.1 < b.1 ∨ a.1 = b.1 ∧ a.2 < b.2

instance (a b : Pending) : Decidable (a.Precedes b) := inferInstanceAs (Decidable (_ ∨ _))

/-- The entries with one more, in its place; an entry that is there already is not put in twice. -/
def enter (a : Pending) : List Pending → List Pending
  | [] => [a]
  | b :: rest => if a.Precedes b then a :: b :: rest else if a = b then b :: rest else b :: enter a rest

/-- The entries with a new estimate of a leaf in place of the one that it had. -/
def reenter (number : Nat) (previous : Option Nat) (estimate : Nat) (pending : List Pending) :
    List Pending :=
  match previous with
  | none => enter (estimate, number) pending
  | some e => enter (estimate, number) (pending.erase (e, number))

/-- A plan, and the leaves that wait. -/
structure Scheduler where
  plan : Plan
  pending : List Pending := []

namespace Scheduler

/-- The scheduler of a tree of which nothing has been computed: nothing waits before the first
update. -/
def ofTree (t : Tree) : Scheduler := { plan := .ofTree t }

/-! ## 2. Updates -/

mutual

/-- A visit to a plan whose root has the given number: the plan with new estimates, the tables of the
node if it has just been finished, and what waits afterwards.  A node that binds its parts binds each
of them by what it holds when that part is reached. -/
def visit (columns : List (List Span)) (bound : Option (List Table)) (number : Nat)
    (pending : List Pending) : Plan → Except Fault (Plan × Option (List Table) × List Pending)
  | .leaf l previous none =>
    let estimate := l.estimate columns bound
    .ok (.leaf l (some estimate) none, none, reenter number previous estimate pending)
  | .leaf l estimate (some own) => .ok (.leaf l estimate (some own), none, pending)
  | .node connective true held parts => .ok (.node connective true held parts, none, pending)
  | .node connective false held parts => do
    let (held, parts, pending) ← visitParts columns (connective = .conjunction ∧ !held.isEmpty) bound
      connective held (number + 1) pending parts
    if parts.all Plan.isDone then return (.node connective true held parts, some held, pending)
    else return (.node connective false held parts, none, pending)

/-- A visit to the parts of a node, which are folded into it when they are finished. -/
def visitParts (columns : List (List Span)) (binds : Bool) (bound : Option (List Table))
    (connective : Connective) (held : List Table) (number : Nat) (pending : List Pending) :
    List Plan → Except Fault (List Table × List Plan × List Pending)
  | [] => .ok (held, [], pending)
  | p :: rest => do
    let (q, found, pending) ← visit columns (if binds then some held else bound) number pending p
    let held ← Plan.absorbed connective held found
    let (held, rest, pending) ←
      visitParts columns binds bound connective held (number + p.tree.size) pending rest
    return (held, q :: rest, pending)

end

/-- The scheduler after a visit to the root. -/
def update (columns : List (List Span)) (s : Scheduler) : Except Fault Scheduler := do
  let (plan, _, pending) ← visit columns none 0 s.pending s.plan
  return ⟨plan, pending⟩

/-! ## 3. Steps -/

section Evaluation

variable {m : Type → Type} [Monad m]

/-- The scheduler with the first of the leaves that wait evaluated. -/
def step (judge : Judge m) (columns : List (List Span)) (s : Scheduler) :
    ExceptT Fault m Scheduler :=
  match s.pending with
  | [] => throw .noLeafWaits
  | (_, number) :: rest => do
    let (plan, _) ← s.plan.evaluateAt judge columns number none 0
    return ⟨plan, rest⟩

/-- A step and an update. -/
def round (judge : Judge m) (columns : List (List Span)) (s : Scheduler) :
    ExceptT Fault m Scheduler := do
  let s ← s.step judge columns
  liftFault (s.update columns)

/-- Rounds until the plan is done, at most `fuel` of them; a plan takes one for each leaf. -/
def finish (judge : Judge m) (columns : List (List Span)) : Nat → Scheduler →
    ExceptT Fault m Scheduler
  | 0, s => if s.plan.isDone then pure s else throw .noLeafWaits
  | fuel + 1, s =>
    if s.plan.isDone then pure s
    else do
      let s ← s.round judge columns
      s.finish judge columns fuel

/-- The tables that a tree's plan ends with. -/
def run (judge : Judge m) (columns : List (List Span)) (t : Tree) :
    ExceptT Fault m (List Table) := do
  let s ← liftFault ((ofTree t).update columns)
  let s ← s.finish judge columns s.plan.leafCount
  return s.plan.held

end Evaluation

end Scheduler

/-! ## 4. Courses -/

namespace Plan

/-- A course of rounds: the listings, the plan at the end and the failure if there was one. -/
structure Course where
  listings : List String
  plan : Plan
  failure : Option Fault

section Course

variable {m : Type → Type} [Monad m]

/-- Up to `fuel` rounds with a listing after each, until the plan is done or a round fails. -/
def follow (judge : Judge m) (columns : List (List Span)) : Nat → Scheduler → m Course
  | 0, s => pure ⟨[], s.plan, none⟩
  | fuel + 1, s =>
    if s.plan.isDone then pure ⟨[], s.plan, none⟩
    else do
      match ← s.step judge columns with
      | .error e => return ⟨[s.plan.text], s.plan, some e⟩
      | .ok s =>
        match s.update columns with
        | .error e => return ⟨[s.plan.text], s.plan, some e⟩
        | .ok s =>
          let course ← follow judge columns fuel s
          return { course with listings := s.plan.text :: course.listings }

/-- The course of a tree's plan, brought up to date before the first round if that is asked for,
with at most so many rounds.  No plan takes more rounds than it has leaves, and one more may
fail. -/
def course (judge : Judge m) (columns : List (List Span)) (t : Tree) (updated : Bool)
    (rounds : Option Nat) : m Course := do
  let s := Scheduler.ofTree t
  let fuel := min (rounds.getD (s.plan.leafCount + 1)) (s.plan.leafCount + 1)
  if updated then
    match s.update columns with
    | .error e => return ⟨[], s.plan, some e⟩
    | .ok s =>
      let course ← follow judge columns fuel s
      return { course with listings := s.plan.text :: course.listings }
  else follow judge columns fuel s

end Course

end Plan

end TaggedText.Query
