/-
# Matching

A matcher is a pattern with its counted repetitions written out.  It is run from a place in a text
with a continuation, the test that the rest of the search makes of the place it gets to; the first
alternative whose continuation succeeds is the answer.  **So the answer is the preferred one among
all ways to match, and the search never looks at a way less preferred than the one it returns.**

Repeating a pattern that can match without taking a character needs care.  A way to match may not
come to the same branching twice at one place, which is enforced by checkpoints: a checkpoint is
passed at most once between two characters taken.  Checkpoints are put at the branchings inside
such repetitions and at the end of each of their rounds, and nowhere else.
-/
import TaggedText.Pattern.Basic
import TaggedText.Pattern.Engine

namespace TaggedText.Pattern

open Text (isWord)

/-! ## 1. Places -/

namespace Place

/-- There is a word character before the place. -/
def wordBefore (p : Place) : Bool := p.before.any isWord

/-- There is a word character after the place. -/
def wordAfter (p : Place) : Bool := p.after.head?.any isWord

end Place

/-- The anchor's condition is met at a place. -/
def Anchor.holds : Anchor → Place → Bool
  | textStart, p => p.before.isNone
  | textEnd, p => p.after.isEmpty
  | lineStart, p => p.before.all (· == '\n')
  | lineEnd, p => p.after.head?.all (· == '\n')
  | wordBoundary, p => p.wordBefore != p.wordAfter
  | noWordBoundary, p => p.wordBefore == p.wordAfter
  | wordStart, p => !p.wordBefore && p.wordAfter
  | wordEnd, p => p.wordBefore && !p.wordAfter
  | noWordBefore, p => !p.wordBefore
  | noWordAfter, p => !p.wordAfter

/-! ## 2. Matchers -/

/-- A pattern with its repetitions written out. -/
inductive Matcher where
  | empty
  | one (set : CharSet)
  | anchor (a : Anchor)
  | seq (m n : Matcher)
  | choice (m n : Matcher)
  /-- One round or more. -/
  | loop (greedy : Bool) (round : Matcher)
  | group (index : Nat) (m : Matcher)
  /-- Passed at most once between two characters taken. -/
  | checkpoint (id : Nat)

namespace Matcher

/-- The same matcher a number of times. -/
def times (make : Nat → Matcher × Nat) : Nat → Nat → Matcher × Nat
  | 0, next => (empty, next)
  | 1, next => make next
  | n + 1, next =>
    let (m, next) := make next
    let (rest, next) := times make n next
    (seq m rest, next)

/-- A checkpoint in front of a matcher, where one is wanted. -/
def guardedBy (wanted : Bool) (id : Nat) (m : Matcher) : Matcher :=
  if wanted then seq (checkpoint id) m else m

/-- A matcher or nothing, the preferred one first. -/
def optional (greedy : Bool) (m : Matcher) : Matcher :=
  if greedy then choice m empty else choice empty m

/-- Up to `n` rounds, each of which may be the last. -/
def upTo (greedy guarded : Bool) (make : Nat → Matcher × Nat) : Nat → Nat → Matcher × Nat
  | 0, next => (empty, next)
  | 1, next =>
    let (m, after) := make (next + 1)
    (guardedBy guarded next (optional greedy m), after)
  | n + 1, next =>
    let (m, after) := make (next + 1)
    let (rest, after) := upTo greedy guarded make n after
    (guardedBy guarded next (optional greedy (seq m rest)), after)

/-- One round or more; a round that can be without a character ends at a checkpoint. -/
def oneOrMore (greedy marked : Bool) (id : Nat) (round : Matcher) : Matcher :=
  loop greedy (if marked then seq round (checkpoint id) else round)

end Matcher

/-- The matcher of a pattern, with checkpoints numbered from `next` where the pattern is inside the
repetition of one that can match without a character; also the next free number. -/
def matcherFrom (guarded : Bool) : Pattern → Nat → Matcher × Nat
  | empty, next => (.empty, next)
  | one set, next => (.one set, next)
  | anchor a, next => (.anchor a, next)
  | seq p q, next =>
    let (m, next) := matcherFrom guarded p next
    let (n, next) := matcherFrom guarded q next
    (.seq m n, next)
  | choice p q, next =>
    let (m, after) := matcherFrom guarded p (next + 1)
    let (n, after) := matcherFrom guarded q after
    (.guardedBy guarded next (.choice m n), after)
  | group index p, next =>
    let (m, next) := matcherFrom guarded p next
    (.group index m, next)
  | rounds greedy least (some most) p, next =>
    let (front, next) := Matcher.times (matcherFrom guarded p) least next
    let (back, next) := Matcher.upTo greedy guarded (matcherFrom guarded p) (most - least) next
    (if most ≤ least then front else if least = 0 then back else .seq front back, next)
  | rounds greedy 0 none p, next =>
    let inner := guarded || p.nullable
    let (m, after) := matcherFrom inner p (next + 2)
    let last := if p.nullable then next + 1 else next
    (.guardedBy guarded next (.optional greedy (.oneOrMore greedy inner last m)), after)
  | rounds greedy (least + 1) none p, next =>
    let inner := guarded || p.nullable
    let (front, next) := Matcher.times (matcherFrom guarded p) least next
    let (m, after) := matcherFrom inner p (next + 1)
    let back := Matcher.oneOrMore greedy inner next m
    (if least = 0 then back else .seq front back, after)

/-- The matcher of a pattern. -/
def matcher (p : Pattern) : Matcher := (matcherFrom false p 0).1

/-! ## 3. Running a matcher -/

/-- How far a search has got: the place, the bounds of the groups passed, the last one first, and
the checkpoints passed since the last character. -/
structure Progress where
  place : Place
  groups : List (Nat × Nat × Nat)
  passed : List Nat

/-- The test that the rest of a search makes. -/
abbrev Continuation := Progress → Option Progress

/-- Rounds of a loop.  A round that has taken a character may be followed by another one; the
number of rounds to come is bounded by the characters left. -/
def roundsOf (greedy : Bool) (round : Progress → Continuation → Option Progress)
    (k : Continuation) : Nat → Progress → Option Progress
  | 0, _ => none
  | fuel + 1, s =>
    round s fun t =>
      if t.place.after.length < s.place.after.length then
        if greedy then (roundsOf greedy round k fuel t).or (k t)
        else (k t).or (roundsOf greedy round k fuel t)
      else k t

/-- The preferred way to match from here on whose continuation succeeds. -/
def Matcher.run : Matcher → Progress → Continuation → Option Progress
  | empty, s, k => k s
  | one set, s, k =>
    match s.place.after with
    | [] => none
    | c :: rest =>
      if set.contains c then
        k { s with place := ⟨s.place.position + c.utf8Size, some c, rest⟩, passed := [] }
      else none
  | anchor a, s, k => if a.holds s.place then k s else none
  | seq m n, s, k => m.run s fun t => n.run t k
  | choice m n, s, k => (m.run s k).or (n.run s k)
  | loop greedy round, s, k =>
    roundsOf greedy round.run k (s.place.after.length + 1) s
  | group index m, s, k =>
    m.run s fun t =>
      k { t with groups := (index, s.place.position, t.place.position) :: t.groups }
  | checkpoint id, s, k =>
    if s.passed.contains id then none else k { s with passed := id :: s.passed }

/-! ## 4. Matches -/

/-- The preferred match that starts at a place. -/
def Matcher.matchAt? (m : Matcher) (p : Place) : Option Match :=
  (m.run ⟨p, [], []⟩ some).map fun s => ⟨p, s.place, s.groups⟩

end TaggedText.Pattern
