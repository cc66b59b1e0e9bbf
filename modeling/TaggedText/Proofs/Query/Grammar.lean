/-
# The grammar of queries

What a list of tokens has to look like to be read as a query:

    query        =  alternative, { "or", alternative }
    alternative  =  operand, { "and", operand }
    operand      =  "(", query, ")"  |  head, "(", column, { ",", column }, ")"
    head         =  name  |  distance

A derivation by these rules is a `Phrase`.  The grammar is unambiguous: **tokens have at most one
derivation** (`Phrase.tokens_append_inj`).  And tokens are read exactly if they have one that the
names and columns of the query allow, **as the tree of that derivation**, in which "and" binds
tighter and both associate to the left: `read_iff_derived`.

The frames of the reading are met in two inductions only: over a phrase, that its tokens are read
(`Phrase.reads`), and over the tokens, that what has been read is made of phrases
(`Reading.Spelled`).
-/
import TaggedText.Proofs.Outcome

namespace TaggedText.Query

/-! ## 1. Phrases -/

/-- The token of a connective. -/
def Connective.token : Connective → Token
  | .conjunction => .conjunction
  | .disjunction => .disjunction

/-- The kinds of phrases: chains of one connective, and what is joined in the end. -/
inductive Rank where
  | chain (c : Connective)
  | operand

/-- The parts of a chain: "or" joins chains of "and", and "and" joins operands. -/
def Connective.part : Connective → Rank
  | .disjunction => .chain .conjunction
  | .conjunction => .operand

/-- What stands in front of the columns of a predicate. -/
inductive Head where
  | name (word : String)
  | distance (comparison : Comparison) (n : Nat)

/-- The token of a head. -/
def Head.token : Head → Token
  | name word => .name word
  | distance comparison n => .distance comparison n

/-- What a head means; a name that means nothing is left to the user. -/
def Head.predicate (v : Expr.Vocabulary) : Head → Predicate
  | name word => (Predicate.ofName? v.users word).getD (.user word)
  | distance comparison n => .distance comparison n

/-- The head means something. -/
def Head.Known (v : Expr.Vocabulary) (head : Head) : Prop :=
  ∀ word, head = .name word → (Predicate.ofName? v.users word).isSome = true

/-- Derivations.  A chain is a single part, or a chain with one more part behind it, so that it
grows to the right and its tree leans to the left. -/
inductive Phrase : Rank → Type where
  | single {c : Connective} (part : Phrase c.part) : Phrase (.chain c)
  | longer {c : Connective} (chain : Phrase (.chain c)) (part : Phrase c.part) : Phrase (.chain c)
  | group (query : Phrase (.chain .disjunction)) : Phrase .operand
  | application (head : Head) (first : Nat) (others : List Nat) : Phrase .operand

/-- Columns with commas between them. -/
def columnTokens (first : Nat) (others : List Nat) : List Token :=
  .number first :: others.flatMap fun c => [.comma, .number c]

namespace Phrase

/-- The tokens of a phrase. -/
def tokens {r : Rank} : Phrase r → List Token
  | single part => part.tokens
  | longer (c := c) chain part => chain.tokens ++ [c.token] ++ part.tokens
  | group query => [.opening] ++ query.tokens ++ [.closing]
  | application head first others =>
    [head.token, .opening] ++ columnTokens first others ++ [.closing]

/-- The tree of a phrase. -/
def tree (v : Expr.Vocabulary) {r : Rank} : Phrase r → Expr
  | single part => part.tree v
  | longer (c := c) chain part => .node c (chain.tree v) (part.tree v)
  | group query => query.tree v
  | application head first others => .leaf (head.predicate v) (first :: others)

/-- Every predicate of the phrase is allowed: its columns are in range, its name means something,
and a relation of a certain number of spans has as many columns. -/
def Allowed (v : Expr.Vocabulary) {r : Rank} : Phrase r → Prop
  | single part => part.Allowed v
  | longer chain part => chain.Allowed v ∧ part.Allowed v
  | group query => query.Allowed v
  | application head first others =>
    (∀ c ∈ first :: others, c < v.columns) ∧ head.Known v ∧
      ∀ relation, head.predicate v = .relation relation →
        ∀ n ∈ relation.arity?, (first :: others).length = n

end Phrase

/-! ## 2. Only one derivation

Phrases are told apart from their ends: going to the left, a chain stops where its connective does
not stand in front of it, and columns stop at their parenthesis. -/

theorem append_cons_inj_of_notMem_right {α : Type} {x : α} {l l' t t' : List α} (ht : x ∉ t)
    (ht' : x ∉ t') (h : l ++ x :: t = l' ++ x :: t') : l = l' ∧ t = t' := by
  rcases List.append_eq_append_iff.mp h with ⟨between, rfl, hb⟩ | ⟨between, rfl, hb⟩
  · cases between with
    | nil => simpa using hb
    | cons y between =>
      rw [List.cons_append, List.cons.injEq] at hb
      exact absurd (by simp [hb.2]) ht
  · cases between with
    | nil => simpa [eq_comm] using hb
    | cons y between =>
      rw [List.cons_append, List.cons.injEq] at hb
      exact absurd (by simp [hb.2]) ht'

theorem Head.token_injective : Function.Injective Head.token := by
  intro h h' heq
  cases h <;> cases h' <;> simp_all [Head.token]

theorem opening_notMem_columnTokens (first : Nat) (others : List Nat) :
    Token.opening ∉ columnTokens first others := by
  simp [columnTokens]

theorem columnTokens_inj {first first' : Nat} : ∀ {others others' : List Nat},
    columnTokens first others = columnTokens first' others' → first = first' ∧ others = others'
  | [], [], h => by simpa [columnTokens] using h
  | [], c' :: others', h => by simp [columnTokens] at h
  | c :: others, [], h => by simp [columnTokens] at h
  | c :: others, c' :: others', h => by
    have hrest : first = first' ∧ columnTokens c others = columnTokens c' others' := by
      simpa [columnTokens] using h
    obtain ⟨rfl, rfl⟩ := columnTokens_inj hrest.2
    exact ⟨hrest.1, rfl⟩

/-- The connectives that a phrase of a rank may hold outside of parentheses. -/
def Rank.connectives : Rank → List Connective
  | .chain .disjunction => [.disjunction, .conjunction]
  | .chain .conjunction => [.conjunction]
  | .operand => []

/-- A phrase of the rank behind these tokens does not begin further to the left. -/
def Rank.Starts (r : Rank) (front : List Token) : Prop :=
  ∀ c ∈ r.connectives, front.getLast? ≠ some c.token

theorem Rank.Starts.ne {c : Connective} {front : List Token} (h : (Rank.chain c).Starts front) :
    front.getLast? ≠ some c.token :=
  h c (by cases c <;> simp [Rank.connectives])

theorem Rank.Starts.part {c : Connective} {front : List Token} (h : (Rank.chain c).Starts front) :
    c.part.Starts front := by
  intro c' hc'
  refine h c' ?_
  cases c <;> simp_all [Connective.part, Rank.connectives]

theorem Rank.starts_connective (c : Connective) (front : List Token) :
    c.part.Starts (front ++ [c.token]) := by
  intro c' hc'
  cases c <;> simp_all [Connective.part, Rank.connectives, Connective.token]

theorem Rank.starts_opening (r : Rank) (front : List Token) : r.Starts (front ++ [.opening]) := by
  intro c hc
  cases c <;> simp [Connective.token]

namespace Phrase

theorem getLast?_tokens : ∀ {r : Rank} (p : Phrase r), p.tokens.getLast? = some .closing
  | _, single part => part.getLast?_tokens
  | _, longer chain part => by simp [tokens, List.getLast?_cons, part.getLast?_tokens]
  | _, group query => by simp [tokens, List.getLast?_cons]
  | _, application head first others => by simp [tokens, List.getLast?_cons]

/-- An application is told apart from another one by its end. -/
theorem application_append_inj {front front' : List Token} {head head' : Head}
    {first first' : Nat} {others others' : List Nat}
    (h : front ++ (application head first others).tokens =
      front' ++ (application head' first' others').tokens) :
    front = front' ∧ application head first others = application head' first' others' := by
  have hsplit : (front ++ [head.token]) ++ .opening :: (columnTokens first others ++ [.closing]) =
      (front' ++ [head'.token]) ++ .opening :: (columnTokens first' others' ++ [.closing]) := by
    simpa [tokens] using h
  obtain ⟨hfront, hcolumns⟩ := append_cons_inj_of_notMem_right
    (by simp [opening_notMem_columnTokens]) (by simp [opening_notMem_columnTokens]) hsplit
  obtain ⟨rfl, rfl⟩ := columnTokens_inj (List.append_cancel_right hcolumns)
  obtain ⟨rfl, hhead⟩ := List.append_inj' hfront rfl
  obtain rfl := Head.token_injective (List.singleton_inj.mp hhead)
  exact ⟨rfl, rfl⟩

/-- A group does not end as an application does. -/
theorem group_ne_application {front front' : List Token} {query : Phrase (.chain .disjunction)}
    {head : Head} {first : Nat} {others : List Nat} :
    front ++ (group query).tokens ≠ front' ++ (application head first others).tokens := by
  intro h
  have hinner : front ++ [.opening] ++ query.tokens =
      front' ++ [head.token, .opening] ++ columnTokens first others :=
    (List.append_left_inj [Token.closing]).mp (by simpa [tokens] using h)
  have hlast : (front ++ [Token.opening] ++ query.tokens).getLast? = some .closing := by
    simp [List.getLast?_cons, query.getLast?_tokens]
  have hclosing : Token.closing ∈ columnTokens first others := by
    rw [hinner, columnTokens] at hlast
    exact List.mem_of_getLast? (by simpa [columnTokens, List.getLast?_cons] using hlast)
  simp [columnTokens] at hclosing

/-- **Phrases are told apart from their ends.** -/
theorem tokens_append_inj : ∀ {r : Rank} {p q : Phrase r} {front front' : List Token},
    r.Starts front → r.Starts front' → front ++ p.tokens = front' ++ q.tokens →
    front = front' ∧ p = q
  | _, single part, single part', front, front', hs, hs', h => by
    obtain ⟨hfront, rfl⟩ := tokens_append_inj hs.part hs'.part h
    exact ⟨hfront, rfl⟩
  | _, single (c := c) part, longer chain' part', front, front', hs, hs', h => by
    -- the single part would begin behind a connective
    obtain ⟨hfront, -⟩ := tokens_append_inj hs.part
      (Rank.starts_connective c (front' ++ chain'.tokens)) (p := part) (q := part')
      (by simpa [tokens] using h)
    exact absurd (by simp [hfront]) hs.ne
  | _, longer (c := c) chain part, single part', front, front', hs, hs', h => by
    obtain ⟨hfront, -⟩ := tokens_append_inj (Rank.starts_connective c (front ++ chain.tokens))
      hs'.part (p := part) (q := part') (by simpa [tokens] using h)
    exact absurd (by simp [← hfront]) hs'.ne
  | _, longer (c := c) chain part, longer chain' part', front, front', hs, hs', h => by
    obtain ⟨hfront, rfl⟩ := tokens_append_inj (Rank.starts_connective c (front ++ chain.tokens))
      (Rank.starts_connective c (front' ++ chain'.tokens)) (p := part) (q := part')
      (by simpa [tokens] using h)
    obtain ⟨rfl, rfl⟩ := tokens_append_inj hs hs' (List.append_cancel_right hfront)
    exact ⟨rfl, rfl⟩
  | _, group query, group query', front, front', hs, hs', h => by
    obtain ⟨hfront, rfl⟩ := tokens_append_inj (Rank.starts_opening _ front)
      (Rank.starts_opening _ front') (p := query) (q := query')
      ((List.append_left_inj [Token.closing]).mp (by simpa [tokens] using h))
    exact ⟨List.append_cancel_right hfront, rfl⟩
  | _, group query, application head' first' others', front, front', hs, hs', h =>
    absurd h group_ne_application
  | _, application head first others, group query', front, front', hs, hs', h =>
    absurd h.symm group_ne_application
  | _, application head first others, application head' first' others', front, front', hs, hs', h =>
    application_append_inj h

end Phrase

/-! ## 3. Phrases are read -/

section Reading

open TaggedText.Query.Expr

variable {text : String} {v : Vocabulary}

theorem checkArity_eq_ok_iff {p : Predicate} {n : Nat} (hn : n ≠ 0) :
    checkArity p n = .ok () ↔ ∀ relation, p = .relation relation → ∀ k ∈ relation.arity?, n = k := by
  cases p with
  | relation r =>
    simp only [checkArity, Relation.checkArity, Relation.arity?, Predicate.relation.injEq,
      forall_eq']
    cases r.kind <;> simp [hn]
  | distance comparison n => simp [checkArity]
  | user name => simp [checkArity]

theorem readFrom_cons {r r' : Reading} {token : Token} (h : step text v r token = .ok r')
    (rest : List Token) : readFrom text v r (token :: rest) = readFrom text v r' rest := by
  rw [readFrom, h]
  rfl

theorem step_head {outer : List Frame} {frame : Frame} {head : Head} (h : head.Known v) :
    step text v ⟨outer, .operand frame⟩ head.token =
      .ok ⟨outer, .opening frame (head.predicate v)⟩ := by
  cases head with
  | name word =>
    obtain ⟨predicate, hp⟩ := Option.isSome_iff_exists.mp (h word rfl)
    simp [step, Head.token, Head.predicate, hp]
  | distance comparison n => rfl

theorem step_column {outer : List Frame} {frame : Frame} {predicate : Predicate}
    {columns : List Nat} {c : Nat} (hc : c < v.columns) :
    step text v ⟨outer, .column frame predicate columns⟩ (.number c) =
      .ok ⟨outer, .separator frame predicate (columns ++ [c])⟩ := by
  simp [step, hc]

/-- **Columns are read** up to the parenthesis behind them. -/
theorem readFrom_columns (outer : List Frame) (frame : Frame) (predicate : Predicate)
    (rest : List Token) : ∀ (others columns : List Nat) (first : Nat),
    (∀ c ∈ first :: others, c < v.columns) →
    checkArity predicate (columns ++ first :: others).length = .ok () →
    readFrom text v ⟨outer, .column frame predicate columns⟩
        (columnTokens first others ++ .closing :: rest) =
      readFrom text v (.complete outer frame (.leaf predicate (columns ++ first :: others))) rest
  | [], columns, first, hcolumns, harity => by
    have hfirst := hcolumns first List.mem_cons_self
    have hend : step text v ⟨outer, .separator frame predicate (columns ++ [first])⟩ .closing =
        .ok (.complete outer frame (.leaf predicate (columns ++ [first]))) := by
      simp only [step, harity]
      rfl
    exact (readFrom_cons (step_column hfirst) _).trans (readFrom_cons hend rest)
  | c :: others, columns, first, hcolumns, harity => by
    have hfirst := hcolumns first List.mem_cons_self
    have hothers := readFrom_columns outer frame predicate rest others (columns ++ [first]) c
      (fun d hd => hcolumns d (List.mem_cons_of_mem _ hd)) (by simpa using harity)
    have hcomma : step text v ⟨outer, .separator frame predicate (columns ++ [first])⟩ .comma =
        .ok ⟨outer, .column frame predicate (columns ++ [first])⟩ := rfl
    rw [List.append_assoc, List.singleton_append] at hothers
    exact (readFrom_cons (step_column hfirst) _).trans ((readFrom_cons hcomma _).trans hothers)

/-- Where the reading gets with tokens that write an expression as a phrase of a rank, whatever
stands around them.  Behind a query the last alternative is still apart from the others. -/
def Rank.Reads (text : String) (v : Vocabulary) (tokens : List Token) (e : Expr) : Rank → Prop
  | .operand => ∀ outer frame rest,
    readFrom text v ⟨outer, .operand frame⟩ (tokens ++ rest) =
      readFrom text v (.complete outer frame e) rest
  | .chain .conjunction => ∀ outer alternatives rest,
    readFrom text v ⟨outer, .operand ⟨alternatives, none⟩⟩ (tokens ++ rest) =
      readFrom text v ⟨outer, .operator alternatives e⟩ rest
  | .chain .disjunction => ∀ outer rest, ∃ alternatives last,
    joinTo .disjunction alternatives last = e ∧
      readFrom text v ⟨outer, .operand {}⟩ (tokens ++ rest) =
        readFrom text v ⟨outer, .operator alternatives last⟩ rest

/-- **The tokens of an allowed phrase are read as its tree.** -/
theorem Phrase.reads : ∀ {r : Rank} (p : Phrase r), p.Allowed v → r.Reads text v p.tokens (p.tree v)
  | _, single (c := .conjunction) part, h => fun outer alternatives rest =>
    part.reads h outer ⟨alternatives, none⟩ rest
  | _, single (c := .disjunction) part, h => fun outer rest =>
    ⟨none, part.tree v, rfl, part.reads h outer none rest⟩
  | _, longer (c := .conjunction) chain part, h => fun outer alternatives rest => by
    have hchain := chain.reads h.1 outer alternatives
      (.conjunction :: (part.tokens ++ rest))
    have hpart := part.reads h.2 outer ⟨alternatives, some (chain.tree v)⟩ rest
    have hjoin : step text v ⟨outer, .operator alternatives (chain.tree v)⟩ .conjunction =
        .ok ⟨outer, .operand ⟨alternatives, some (chain.tree v)⟩⟩ := rfl
    simp only [tokens, Connective.token, List.append_assoc, List.singleton_append]
    exact hchain.trans ((readFrom_cons hjoin _).trans hpart)
  | _, longer (c := .disjunction) chain part, h => fun outer rest => by
    obtain ⟨alternatives, last, htree, hchain⟩ := chain.reads h.1 outer
      (.disjunction :: (part.tokens ++ rest))
    have hpart := part.reads h.2 outer (some (chain.tree v)) rest
    have hjoin : step text v ⟨outer, .operator alternatives last⟩ .disjunction =
        .ok ⟨outer, .operand ⟨some (chain.tree v), none⟩⟩ := by rw [← htree]; rfl
    refine ⟨some (chain.tree v), part.tree v, rfl, ?_⟩
    simp only [tokens, Connective.token, List.append_assoc, List.singleton_append]
    exact hchain.trans ((readFrom_cons hjoin _).trans hpart)
  | _, group query, h => fun outer frame rest => by
    obtain ⟨alternatives, last, htree, hquery⟩ := query.reads h (frame :: outer)
      (.closing :: rest)
    have hopen : step text v ⟨outer, .operand frame⟩ .opening =
        .ok ⟨frame :: outer, .operand {}⟩ := rfl
    have hclose : step text v ⟨frame :: outer, .operator alternatives last⟩ .closing =
        .ok (.complete outer frame (query.tree v)) := by rw [← htree]; rfl
    simp only [tokens, List.append_assoc, List.singleton_append]
    exact (readFrom_cons hopen _).trans (hquery.trans (readFrom_cons hclose rest))
  | _, application head first others, h => fun outer frame rest => by
    obtain ⟨hcolumns, hknown, harity⟩ := h
    have hopen : step text v ⟨outer, .opening frame (head.predicate v)⟩ .opening =
        .ok ⟨outer, .column frame (head.predicate v) []⟩ := rfl
    simp only [tokens, List.append_assoc, List.cons_append, List.nil_append]
    exact (readFrom_cons (step_head hknown) _).trans ((readFrom_cons hopen _).trans
      (readFrom_columns outer frame _ rest others [] first hcolumns
        ((checkArity_eq_ok_iff (by simp)).mpr harity)))

end Reading

/-! ## 4. What has been read is made of phrases -/

namespace Expr

variable {text : String} {v : Vocabulary}

/-- Some phrase of the rank that is allowed has these tokens and this tree. -/
def Spells (v : Vocabulary) (r : Rank) (tokens : List Token) (e : Expr) : Prop :=
  ∃ p : Phrase r, p.tokens = tokens ∧ p.Allowed v ∧ p.tree v = e

/-- What stands in front of the next part of a chain: nothing, or a chain and its connective. -/
def LeadsIn (v : Vocabulary) (c : Connective) : Option Expr → List Token → Prop
  | none, tokens => tokens = []
  | some e, tokens => ∃ chain, Spells v (.chain c) chain e ∧ tokens = chain ++ [c.token]

/-- **One more part makes the chain longer.** -/
theorem LeadsIn.spells {c : Connective} {left : Option Expr} {front tokens : List Token} {e : Expr}
    (hleft : LeadsIn v c left front) (he : Spells v c.part tokens e) :
    Spells v (.chain c) (front ++ tokens) (joinTo c left e) := by
  obtain ⟨part, rfl, hpart, rfl⟩ := he
  cases left with
  | none =>
    obtain rfl : front = [] := hleft
    exact ⟨.single part, rfl, hpart, rfl⟩
  | some left =>
    obtain ⟨_, ⟨chain, rfl, hchain, rfl⟩, rfl⟩ := hleft
    exact ⟨.longer chain part, rfl, ⟨hchain, hpart⟩, rfl⟩

/-- What has been read of a part in front of its next operand. -/
def Frame.Spelled (v : Vocabulary) (frame : Frame) (tokens : List Token) : Prop :=
  ∃ front back, LeadsIn v .disjunction frame.alternatives front ∧
    LeadsIn v .conjunction frame.conjuncts back ∧ tokens = front ++ back

/-- What has been read of a predicate: its head, and columns in range with a comma behind each. -/
def PredicateSpelled (v : Vocabulary) (predicate : Predicate) (columns : List Nat)
    (tokens : List Token) : Prop :=
  ∃ head : Head, head.Known v ∧ head.predicate v = predicate ∧ (∀ c ∈ columns, c < v.columns) ∧
    tokens = [head.token, .opening] ++ columns.flatMap fun c => [.number c, .comma]

/-- What has been read since the innermost open parenthesis. -/
def Expecting.Spelled (v : Vocabulary) : Expecting → List Token → Prop
  | .operand frame, tokens => frame.Spelled v tokens
  | .operator alternatives conjunction, tokens => ∃ front back,
    LeadsIn v .disjunction alternatives front ∧ Spells v (.chain .conjunction) back conjunction ∧
      tokens = front ++ back
  | .opening frame predicate, tokens => ∃ (front : List Token) (head : Head),
    frame.Spelled v front ∧ head.Known v ∧ head.predicate v = predicate ∧
      tokens = front ++ [head.token]
  | .column frame predicate columns, tokens => ∃ front back,
    frame.Spelled v front ∧ PredicateSpelled v predicate columns back ∧ tokens = front ++ back
  | .separator frame predicate columns, tokens => ∃ front back earlier last,
    frame.Spelled v front ∧ PredicateSpelled v predicate earlier back ∧ last < v.columns ∧
      columns = earlier ++ [last] ∧ tokens = front ++ back ++ [.number last]

/-- What has been read up to the innermost open parenthesis. -/
def OuterSpelled (v : Vocabulary) : List Frame → List Token → Prop
  | [], tokens => tokens = []
  | frame :: outer, tokens => ∃ front back, OuterSpelled v outer front ∧ frame.Spelled v back ∧
    tokens = front ++ back ++ [.opening]

/-- **All that has been read**, from the first token on. -/
def Reading.Spelled (v : Vocabulary) (r : Reading) (tokens : List Token) : Prop :=
  ∃ front back, OuterSpelled v r.outer front ∧ r.expecting.Spelled v back ∧ tokens = front ++ back

theorem Frame.spelled_empty : Frame.Spelled v {} [] := ⟨[], [], rfl, rfl, rfl⟩

theorem Frame.Spelled.operand {frame : Frame} {front tokens : List Token} {e : Expr}
    (hframe : frame.Spelled v front) (he : Spells v .operand tokens e) :
    Expecting.Spelled v (.operator frame.alternatives (joinTo .conjunction frame.conjuncts e))
      (front ++ tokens) := by
  obtain ⟨alternatives, conjuncts, halternatives, hconjuncts, rfl⟩ := hframe
  exact ⟨alternatives, conjuncts ++ tokens, halternatives, hconjuncts.spells he,
    List.append_assoc ..⟩

theorem exists_columnTokens (last : Nat) : ∀ earlier : List Nat, ∃ first others,
    earlier ++ [last] = first :: others ∧
      (earlier.flatMap fun c => [.number c, .comma]) ++ [.number last] = columnTokens first others
  | [] => ⟨last, [], rfl, rfl⟩
  | c :: earlier => by
    obtain ⟨first, others, hcolumns, htokens⟩ := exists_columnTokens last earlier
    refine ⟨c, first :: others, by simp [hcolumns], ?_⟩
    simp [columnTokens, htokens]

/-- **A closing parenthesis makes an application** of a predicate that takes so many columns. -/
theorem PredicateSpelled.spells {predicate : Predicate} {earlier : List Nat} {last : Nat}
    {tokens : List Token} (h : PredicateSpelled v predicate earlier tokens)
    (hlast : last < v.columns) (harity : checkArity predicate (earlier ++ [last]).length = .ok ()) :
    Spells v .operand (tokens ++ [.number last, .closing])
      (.leaf predicate (earlier ++ [last])) := by
  obtain ⟨head, hknown, rfl, hcolumns, rfl⟩ := h
  obtain ⟨first, others, hsplit, htokens⟩ := exists_columnTokens last earlier
  have hrange : ∀ c ∈ first :: others, c < v.columns := by
    rw [← hsplit]
    exact List.forall_mem_append.mpr ⟨hcolumns, by simpa using hlast⟩
  rw [hsplit] at harity ⊢
  refine ⟨.application head first others, ?_, ⟨hrange, hknown, ?_⟩, rfl⟩
  · simp [Phrase.tokens, ← htokens]
  · exact (checkArity_eq_ok_iff (by simp)).mp harity

/-- **A token is put behind what has been read.** -/
theorem spelled_step {r r' : Reading} {tokens : List Token} {token : Token}
    (hr : r.Spelled v tokens) (h : step text v r token = .ok r') :
    r'.Spelled v (tokens ++ [token]) := by
  obtain ⟨outer, expecting⟩ := r
  obtain ⟨front, back, houter, hexpecting, rfl⟩ := hr
  cases expecting with
  | operand frame =>
    cases token with
    | opening =>
      cases h
      exact ⟨front ++ back ++ [.opening], [], ⟨front, back, houter, hexpecting, rfl⟩,
        Frame.spelled_empty, (List.append_nil _).symm⟩
    | name word =>
      simp only [step] at h
      split at h
      · next predicate hp =>
        cases h
        refine ⟨front, back ++ [.name word], houter,
          ⟨back, .name word, hexpecting, ?_, ?_, rfl⟩, List.append_assoc ..⟩
        · rintro _ ⟨⟩
          simp [hp]
        · simp [Head.predicate, hp]
      · cases h
    | distance comparison n =>
      cases h
      exact ⟨front, back ++ [.distance comparison n], houter,
        ⟨back, .distance comparison n, hexpecting, by rintro _ ⟨⟩, rfl, rfl⟩,
        List.append_assoc ..⟩
    | _ => cases h
  | opening frame predicate =>
    cases token with
    | opening =>
      cases h
      obtain ⟨back, head, hframe, hknown, hpredicate, rfl⟩ := hexpecting
      exact ⟨front, _, houter, ⟨back, [head.token, .opening], hframe,
        ⟨head, hknown, hpredicate, by simp, by simp⟩, rfl⟩, by simp⟩
    | _ => cases h
  | column frame predicate columns =>
    cases token with
    | number n =>
      simp only [step] at h
      split at h
      · next hn =>
        cases h
        obtain ⟨before, listed, hframe, hlisted, rfl⟩ := hexpecting
        exact ⟨front, _, houter, ⟨before, listed, columns, n, hframe, hlisted, hn, rfl, rfl⟩,
          by simp⟩
      · cases h
    | _ => cases h
  | separator frame predicate columns =>
    obtain ⟨before, listed, earlier, last, hframe, hlisted, hlast, rfl, rfl⟩ := hexpecting
    cases token with
    | comma =>
      cases h
      obtain ⟨head, hknown, hpredicate, hcolumns, rfl⟩ := hlisted
      refine ⟨front, _, houter, ⟨before, _, hframe,
        ⟨head, hknown, hpredicate, ?_, rfl⟩, rfl⟩, by simp⟩
      exact List.forall_mem_append.mpr ⟨hcolumns, by simpa using hlast⟩
    | closing =>
      simp only [step] at h
      obtain ⟨_, harity, rfl⟩ := exists_of_map_ok h
      exact ⟨front, _, houter, hframe.operand (hlisted.spells hlast harity), by simp⟩
    | _ => cases h
  | operator alternatives conjunction =>
    obtain ⟨before, last, hbefore, hlast, rfl⟩ := hexpecting
    cases token with
    | conjunction =>
      cases h
      exact ⟨front, before ++ (last ++ [.conjunction]), houter,
        ⟨before, _, hbefore, ⟨last, hlast, rfl⟩, rfl⟩, by simp⟩
    | disjunction =>
      cases h
      exact ⟨front, before ++ last ++ [.disjunction], houter,
        ⟨_, [], ⟨before ++ last, hbefore.spells hlast, rfl⟩, rfl, (List.append_nil _).symm⟩,
        by simp⟩
    | closing =>
      cases outer with
      | nil => cases h
      | cons frame outer =>
        cases h
        obtain ⟨around, opened, haround, hframe, rfl⟩ := houter
        obtain ⟨query, hquery, hallowed, htree⟩ := hbefore.spells hlast
        have hgroup : Spells v .operand ([.opening] ++ (before ++ last) ++ [.closing])
            (joinTo .disjunction alternatives conjunction) :=
          ⟨.group query, by simp [Phrase.tokens, hquery], hallowed, htree⟩
        exact ⟨around, _, haround, hframe.operand hgroup, by simp⟩
    | _ => cases outer <;> cases h

/-- **Tokens that are read to the end are a query.** -/
theorem spells_of_readFrom {e : Expr} : ∀ {rest : List Token} {r : Reading} {tokens : List Token},
    r.Spelled v tokens → readFrom text v r rest = .ok e →
    Spells v (.chain .disjunction) (tokens ++ rest) e
  | [], ⟨outer, expecting⟩, tokens, hr, h => by
    obtain ⟨front, back, houter, hexpecting, rfl⟩ := hr
    rw [readFrom, finish.eq_def] at h
    cases expecting with
    | operator alternatives conjunction =>
      cases outer with
      | nil =>
        cases h
        obtain ⟨before, last, hbefore, hlast, rfl⟩ := hexpecting
        obtain rfl : front = [] := houter
        simpa using hbefore.spells hlast
      | cons frame outer => cases h
    | _ => cases h
  | token :: rest, r, tokens, hr, h => by
    rw [readFrom] at h
    obtain ⟨r', hstep, h⟩ := exists_of_bind_ok h
    have hrest := spells_of_readFrom (spelled_step hr hstep) h
    rwa [List.append_assoc, List.singleton_append] at hrest

end Expr

/-! ## 5. Reading -/

theorem Phrase.tokens_ne_nil {r : Rank} (p : Phrase r) : p.tokens ≠ [] := by
  intro h
  have hlast := p.getLast?_tokens
  simp [h] at hlast

open TaggedText.Query.Expr

/-- **Tokens are read as an expression exactly if they are a query by the grammar**, all of them,
whose columns are in range, whose names mean something and whose relations have a number of columns
that they take; and the expression is the tree of the one derivation that there is.  Other tokens
end with a fault. -/
theorem read_iff_derived (text : String) (v : Vocabulary) (tokens : List Token) :
    (∀ e, ofTokens text v tokens = .ok e ↔
      ∃ q : Phrase (.chain .disjunction), q.tokens = tokens ∧ q.Allowed v ∧ q.tree v = e) ∧
    Function.Injective (Phrase.tokens : Phrase (.chain .disjunction) → List Token) ∧
    ((¬∃ q : Phrase (.chain .disjunction), q.tokens = tokens ∧ q.Allowed v) →
      ∃ fault, ofTokens text v tokens = .error fault) := by
  have hiff : ∀ e, ofTokens text v tokens = .ok e ↔ Spells v (.chain .disjunction) tokens e := by
    intro e
    constructor
    · intro h
      rw [ofTokens] at h
      split at h
      · cases h
      · have hnothing : Reading.Spelled v {} [] := ⟨[], [], rfl, Frame.spelled_empty, rfl⟩
        exact spells_of_readFrom hnothing h
    · rintro ⟨q, rfl, hallowed, rfl⟩
      have hreads : (Rank.chain .disjunction).Reads text v q.tokens (q.tree v) := q.reads hallowed
      obtain ⟨alternatives, last, htree, hread⟩ := hreads [] []
      rw [ofTokens, if_neg (by simpa using q.tokens_ne_nil), ← List.append_nil q.tokens, hread,
        ← htree]
      rfl
  refine ⟨hiff, fun p q h => ?_, fun hnone => ?_⟩
  · have hbegin : (Rank.chain .disjunction).Starts [] := by simp [Rank.Starts]
    exact (Phrase.tokens_append_inj hbegin hbegin (show [] ++ p.tokens = [] ++ q.tokens from h)).2
  · cases hread : ofTokens text v tokens with
    | error fault => exact ⟨fault, rfl⟩
    | ok e =>
      obtain ⟨q, hq, hallowed, -⟩ := (hiff e).mp hread
      exact absurd ⟨q, hq, hallowed⟩ hnone

/-- A group under "and" with a predicate of the user in it; and a parenthesis that is never
closed. -/
theorem read_iff_derived_group :
    let v : Vocabulary := ⟨["mine"], 2⟩
    ofTokens "" v [.opening, .name "before", .opening, .number 0, .comma, .number 1, .closing,
        .disjunction, .name "mine", .opening, .number 1, .closing, .closing,
        .conjunction, .distance .less 3, .opening, .number 0, .comma, .number 1, .closing] =
      .ok (.node .conjunction
        (.node .disjunction (.leaf (.relation .before) [0, 1]) (.leaf (.user "mine") [1]))
        (.leaf (.distance .less 3) [0, 1])) ∧
      ∃ fault, ofTokens "" v [.opening] = .error fault := by
  intro v
  refine ⟨((read_iff_derived "" v _).1 _).mpr ⟨.single (.longer (.single (.group (.longer
    (.single (.single (.application (.name "before") 0 [1])))
    (.single (.application (.name "mine") 1 []))))) (.application (.distance .less 3) 0 [1])),
    rfl, ?_, rfl⟩, (read_iff_derived "" v _).2.2 ?_⟩
  · simp [Phrase.Allowed, Head.Known, Head.predicate, Predicate.ofName?, Relation.ofName?,
      Relation.all, Relation.name, v, Relation.arity?, Relation.kind]
  · rintro ⟨q, hq, -⟩
    have hlast := q.getLast?_tokens
    simp [hq] at hlast

end TaggedText.Query
