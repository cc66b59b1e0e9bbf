/-
# Evaluating formulas

A formula is evaluated for a row of spans, in a memory that lasts.  Its answer is the first value
that it answers with, `nil` if it answers with none or ends without an answer.  What was done before
something goes wrong stays done.

Of a list of terms the last may stand for any number of values; a list of variables takes as many
values as it has members, and `nil` for those that are missing.
-/
import TaggedText.Formula.Memory
import TaggedText.Formula.Term

namespace TaggedText.Formula

/-- Something that is done in a memory and may go wrong; the memory is kept then. -/
abbrev Action := ExceptT Defect (StateM Memory)

namespace Action

/-- The memory is asked. -/
def ask {α : Type} (f : Memory → Except Defect α) : Action α := do
  match f (← get) with
  | .ok a => return a
  | .error e => throw e

/-- The memory is changed. -/
def change (f : Memory → Except Defect Memory) : Action Unit := do set (← ask f)

/-- A value or a defect that memory has no part in. -/
def lift {α : Type} (r : Except Defect α) : Action α := ask fun _ => r

/-- What is declared meanwhile is forgotten at the end. -/
def inBlock {α : Type} (a : Action α) : Action α := do
  let before := (← get).locals.length
  let r ← a
  modify fun m => { m with locals := m.locals.drop (m.locals.length - before) }
  return r

end Action

/-! ## 1. Terms -/

mutual

/-- The value of a term. -/
def Term.value : Term → Action Value
  | .constant v => pure v
  | .arguments => pure .nil
  | .name n => return (← get).get n
  | .index t k => do
    let holder ← t.value
    let key ← k.value
    Action.ask fun m => m.index holder key
  | .call f ts => do
    let _ ← f.value
    let _ ← Term.values ts
    throw .uncallable
  | .grouped t => t.value
  | .unary operator t => do Action.lift (operator.apply (← t.value))
  | .length t => do
    let v ← t.value
    Action.ask fun m => m.length v
  | .binary operator a b => do
    let x ← a.value
    let y ← b.value
    Action.lift (operator.apply x y)
  | .both a b => do
    let x ← a.value
    if x.isTrue then b.value else return x
  | .either a b => do
    let x ← a.value
    if x.isTrue then return x else b.value
  | .table fs => do
    let (keyed, items) ← Field.entries 1 fs
    let (v, m) := (← get).allocate []
    set m
    (keyed ++ items).forM fun (key, x) => Action.change fun m => m.setIndex v key x
    return v

/-- The values of terms. -/
def Term.values : List Term → Action (List Value)
  | [] => pure []
  | [.arguments] => pure []
  | t :: rest => do
    let v ← t.value
    let vs ← Term.values rest
    return v :: vs

/-- The keys and values of the parts of a new table: of those with a key of their own and of those
that are numbered, from the given number on. -/
def Field.entries (next : Nat) : List Field → Action (Fields × Fields)
  | [] => pure ([], [])
  | [.item .arguments] => pure ([], [])
  | .item t :: rest => do
    let v ← t.value
    let (keyed, items) ← Field.entries (next + 1) rest
    return (keyed, (.ofNat next, v) :: items)
  | .entry k t :: rest => do
    let key ← k.value
    let v ← t.value
    let (keyed, items) ← Field.entries next rest
    return ((key, v) :: keyed, items)

end

/-! ## 2. Statements -/

/-- How a statement ends: the next one follows, the loop is left, or the formula is answered. -/
inductive Flow where
  | next
  | leave
  | answer (v : Value)

/-- The most rounds of a loop. -/
def mostRounds : Nat := 1000000

/-- Rounds of a loop until it ends, is left or answers.  A round gives nothing when the loop ends
before it. -/
def rounds (round : Action (Option Flow)) : Nat → Action Flow
  | 0 => throw .endless
  | fuel + 1 => do
    match ← round with
    | none => return .next
    | some .next => rounds round fuel
    | some .leave => return .next
    | some (.answer v) => return .answer v

/-- Where a value can be put. -/
inductive Target where
  | variable (name : String)
  | field (holder key : Value)

/-- The target that a term names. -/
def Term.target : Term → Action Target
  | .name n => return .variable n
  | .index t k => return .field (← t.value) (← k.value)
  | _ => throw .tableExpected

/-- A value is put into a target. -/
def Target.put (v : Value) : Target → Action Unit
  | .variable n => modify fun m => m.set n v
  | .field holder key => Action.change fun m => m.setIndex holder key v

/-- A counted loop goes on at this number. -/
def countsTo (step last : Value) (i : Value) : Except Defect Bool := do
  let up ← Operator.less.apply (.integer 0) step
  let inside ← if up.isTrue then Operator.atMost.apply i last else Operator.atMost.apply last i
  return inside.isTrue

/-- The numbers that a counted loop is made of; they are all real unless the first and the step are
whole. -/
def countNumbers (first last step : Value) : Except Defect (Value × Value × Value) :=
  match first, last.number?, step with
  | .integer i, some last, .integer k => .ok (.integer i, last, .integer k)
  | _, _, _ =>
    match first.real?, last.real?, step.real? with
    | some i, some last, some k => .ok (.real i, .real last, .real k)
    | _, _, _ => .error .numberExpected

/-- Rounds of a counted loop, each with its number. -/
def counted (last step : Value) (round : Value → Action Flow) : Nat → Value → Action Flow
  | 0, _ => throw .endless
  | fuel + 1, i => do
    if ← Action.lift (countsTo step last i) then
      match ← round i with
      | .next => counted last step round fuel (← Action.lift (Operator.add.apply i step))
      | .leave => return .next
      | .answer v => return .answer v
    else return .next

mutual

/-- What a statement does. -/
def Statement.run : Statement → Action Flow
  | .assign ts vs => do
    let targets ← ts.mapM Term.target
    let values ← Term.values vs
    (targets.zipIdx.reverse).forM fun (t, i) => t.put (values[i]?.getD .nil)
    return .next
  | .declare names vs => do
    let values ← Term.values vs
    modify fun m => names.zipIdx.foldl (fun m (n, i) => m.declare n (values[i]?.getD .nil)) m
    return .next
  | .block body => Action.inBlock (runAll body)
  | .branch test yes no => do
    if (← test.value).isTrue then Action.inBlock (runAll yes) else Action.inBlock (runAll no)
  | .whileTrue test body =>
    rounds (do
      if (← test.value).isTrue then return some (← Action.inBlock (runAll body))
      return none) mostRounds
  | .untilTrue body test =>
    rounds (do
      return some (← Action.inBlock (do
        match ← runAll body with
        | .next => return if (← test.value).isTrue then .leave else .next
        | flow => return flow))) mostRounds
  | .count index first last step body => do
    let a ← first.value
    let b ← last.value
    let c ← step.value
    let (a, b, c) ← Action.lift (countNumbers a b c)
    counted b c (fun i => Action.inBlock (do
      modify fun m => m.declare index i
      runAll body)) mostRounds a
  | .leave => return .leave
  | .answer vs => do
    let values ← Term.values vs
    return .answer (values.head?.getD .nil)
  | .perform t => do
    let _ ← t.value
    return .next

/-- What the statements of a block do. -/
def runAll : List Statement → Action Flow
  | [] => return .next
  | s :: rest => do
    match ← s.run with
    | .next => runAll rest
    | flow => return flow

end

end TaggedText.Formula
