/-
# Tagged text

A document is a text with tags.  The list of every tag is kept sorted.  Tags are defined by a
pattern, or filled span by span; spans are then related, cut to one another, or used to change the
text.

Positions count bytes.  Spans of one tag may be counted from different offsets, for instance when
they were placed relative to the lines of the text.

What the notation of a pattern means is up to an engine.
-/
import TaggedText.Fault
import TaggedText.Pattern.Engine
import TaggedText.Selection
import TaggedText.Spans.Merge
import TaggedText.Tags
import TaggedText.Text.Units

namespace TaggedText

/-- A tag by its name, or the places where some text occurs. -/
inductive Reference where
  | tag (name : String)
  | literal (text : String)
deriving DecidableEq

/-- A reference in messages. -/
def Reference.text : Reference → String
  | tag name => name
  | literal text => String.ofList (Text.quoted text.toList)

/-- A text with its tags. -/
structure Document where
  text : List Char
  tags : Tags := []

namespace Document

variable [Pattern.Engine]

/-! ## 1. Making and reading -/

/-- A text without tags; ASCII letters may be put in lower case. -/
def ofString (text : String) (lower : Bool) : Document :=
  { text := if lower then text.toList.map Char.toLower else text.toList }

/-- The spans of a tag that has to exist. -/
def defined (d : Document) (tag : String) : Except Fault (List Span) :=
  match d.tags.get? tag with
  | some spans => .ok spans
  | none => .error (.tagMissing tag)

/-- The spans of a reference; a tag that does not exist has none, nor has a text of which the engine
can make nothing. -/
def spansOf (d : Document) (overlapped : Bool) : Reference → List Span
  | .tag name => (d.tags.get? name).getD []
  | .literal text =>
    match Pattern.Engine.literal? text.toList with
    | none => []
    | some f => f.spans 0 overlapped d.text

/-- The text of a span, empty when the span is not one of the text. -/
def textAt (d : Document) (a : Span) : List Char := Text.slice d.text a.bounds.1 a.bounds.2

/-- The texts of spans in the order in which they stand in the text. -/
def textsInOrder (d : Document) (spans : List Span) : List (List Char) :=
  (Span.sort (spans.map Span.absolute)).map d.textAt

/-- The texts of a tag in the order in which they stand in the text. -/
def textsOf (d : Document) (tag : String) : Except Fault (List (List Char)) :=
  (d.defined tag).map d.textsInOrder

/-- The first of some tags that holds exactly the given span. -/
def tagOf? (d : Document) (a : Span) (tags : List String) : Option String :=
  tags.find? fun tag =>
    match d.tags.get? tag with
    | some spans => (Spans.search spans a).isPresent
    | none => false

/-! ## 2. Tagging -/

/-- A new tag for the spans of a group in all matches of a pattern: the document afterwards, and the
number of the spans or why the tag was not made. -/
def tagMatches (d : Document) (tag : String) (pattern : String) (group : Nat)
    (overlapped : Bool) : Document × Except Fault Nat :=
  match d.tags.get? tag with
  | some _ => (d, .error (.tagExists tag))
  | none =>
    match Pattern.Engine.compile? pattern.toList with
    | none => (d, .error .pattern)
    | some f =>
      let spans := Span.sort (f.spans group overlapped d.text)
      ({ d with tags := d.tags.put tag spans }, .ok spans.length)

/-- The document with a new tag for the matches of a pattern, and the number of its spans. -/
def tagPattern (d : Document) (tag : String) (pattern : String) (group : Nat)
    (overlapped : Bool) : Except Fault (Document × Nat) :=
  let (tagged, result) := d.tagMatches tag pattern group overlapped
  result.map fun n => (tagged, n)

/-- The document after tagging spans one by one, how many of them were new, and what there is to be
said about the others. -/
structure Tagging where
  document : Document
  added : Nat := 0
  notices : List Notice := []

/-- One more span is tagged, unless the tag holds it already. -/
def Tagging.add (tag : String) (t : Tagging) (a : Span) : Tagging :=
  let spans := (t.document.tags.get? tag).getD []
  match Spans.search spans a with
  | .present _ =>
    { t with notices := t.notices ++ [.alreadyTagged tag a.bounds.1 a.bounds.2] }
  | .absent i =>
    { t with
      document := { t.document with
        tags := t.document.tags.put tag (spans.insertIdx i a) }
      added := t.added + 1 }

/-- A span is tagged. -/
def tagSpan (d : Document) (tag : String) (a : Span) : Tagging := Tagging.add tag ⟨d, 0, []⟩ a

/-- Spans are tagged; the tag exists afterwards even if there are none. -/
def tagSpans (d : Document) (tag : String) (spans : List Span) : Tagging :=
  let t := spans.foldl (Tagging.add tag) ⟨d, 0, []⟩
  match t.document.tags.get? tag with
  | some _ => t
  | none => { t with document := { t.document with tags := t.document.tags.put tag [] } }

/-- Lists of spans are tagged with a stem and their number. -/
def tagLists (d : Document) (stem : String) (lists : List (List Span)) : Tagging :=
  lists.zipIdx.foldl (fun t (spans, i) =>
    let next := t.document.tagSpans (stem ++ "_" ++ i.repr) spans
    ⟨next.document, t.added + next.added, t.notices ++ next.notices⟩) ⟨d, 0, []⟩

/-- A tag is deleted; the spans it held are returned. -/
def deleteTag (d : Document) (tag : String) : Document × Option (List Span) × List Notice :=
  match d.tags.get? tag with
  | some spans => ({ d with tags := d.tags.erase tag }, some spans, [])
  | none => (d, none, [.unknownTag tag])

/-! ## 3. Relating tags -/

/-- A span counted from the start of another one. -/
def relativeTo (a reference : Span) : Option Span :=
  Span.ofBounds? (a.start - reference.start) (a.stop - reference.start) reference.start

/-- The spans of a tag counted from the start of the first span of another tag that they lie in;
spans that lie in none are left out. -/
def project (d : Document) (tag reference : String) : Except Fault (List Span) := do
  let spans ← d.defined tag
  let references ← d.defined reference
  return Span.sort (spans.filterMap fun a =>
    (references.find? a.within).bind (relativeTo a))

/-- The gaps from the stops of one tag to later starts of another, not empty and at most `distance`
long.  The spans of both tags are sorted, so that for each stop the starts that are too early are
skipped and the first that is too far away ends the search. -/
def between (d : Document) (first second : String) (distance : Nat) : List Span :=
  let firsts := (d.tags.get? first).getD []
  let seconds := (d.tags.get? second).getD []
  firsts.flatMap fun a =>
    ((seconds.dropWhile fun b => b.start ≤ a.stop).takeWhile fun b =>
      b.start - a.stop ≤ distance).filterMap fun b => Span.ofBounds? a.stop b.start 0

/-- The rows of the product of references that a test accepts. -/
def select {m : Type → Type} [Monad m] (d : Document) (test : Row → m Bool)
    (references : List Reference) : m (List Row) :=
  Selection.select test (references.map (d.spansOf false))

/-- What an aggregate makes of the rows of the product of references that a test accepts. -/
def selectWith {m : Type → Type} [Monad m] {α : Type} (d : Document) (test : Row → m Bool)
    (aggregate : Row → m α) (references : List Reference) : m (List α) :=
  Selection.selectWith test aggregate (references.map (d.spansOf false))

/-- Rows extended by a span from each reference. -/
def selectExtending {m : Type → Type} [Monad m] (d : Document) (test : Row → m Bool)
    (rows : List Row) (references : List Reference) (columns : Selection.Columns) :
    ExceptT Clash m (List Nat × List Row) :=
  Selection.extend test rows (references.map (d.spansOf false)) columns

/-- The first span of the row contains the others. -/
def containsOthers : Row → Bool
  | [] => true
  | a :: others => others.all fun b => b.within a

/-- The rows of a tag's spans and spans of references that lie in them. -/
def containing (d : Document) (tag : String) (references : List Reference) : List Row :=
  Id.run (d.select (fun row => pure (containsOthers row)) (.tag tag :: references))

/-! ## 4. Text that is not tagged -/

/-- The part from a point up to a stop, if there is one. -/
def gap (point stop : Nat) : List Span :=
  if h : point < stop then [⟨point, stop, 0, Nat.le_of_lt h⟩] else []

/-- The parts from a point up to a stop that spans leave free; the spans are gone through in
order. -/
def uncovered (stop : Nat) : Nat → List Span → List Span
  | point, [] => gap point stop
  | point, a :: rest =>
    if a.stop ≤ point then uncovered stop point rest
    else if stop ≤ a.start then gap point stop
    else gap point a.start ++ uncovered stop a.stop rest

/-- The parts of the text between two bounds that no span of the references covers; without bounds,
the parts of the whole text. -/
def untagged (d : Document) (references : List Reference) (bounds : Option (Nat × Nat)) :
    Except Fault (List Span) :=
  let (start, stop) := bounds.getD (0, Text.width d.text)
  let covered := references.flatMap fun r => (d.spansOf false r).map Span.absolute
  (Spans.merge false covered).map (uncovered stop start)

/-! ## 5. Changing the text -/

/-- A text in place of that of a span, where the span is one of the text. -/
def replaceAt (new text : List Char) (a : Span) : List Char :=
  (Text.splice? text a.start a.stop new).getD text

/-- The text with every span of a tag replaced.  Spans that intersect are replaced as one; those
that are not spans of the text are left alone.  The last one is replaced first, so that the
positions of the others stay what they are. -/
def replace (d : Document) (tag : String) (new : List Char) : Except Fault (List Char) := do
  let spans ← d.defined tag
  let merged ← Spans.merge false (spans.map Span.absolute)
  return merged.reverse.foldl (replaceAt new) d.text

/-- A label of a given width: the name cut to so many characters, in the middle of tildes. -/
def label (name : List Char) (width : Nat) : List Char :=
  let cut := name.take width
  let fill := width - Text.width cut
  List.replicate (fill / 2) '~' ++ cut ++ List.replicate (fill - fill / 2) '~'

/-- A name painted over a span, if the span is one of the text and the label has its width. -/
def paint (name text : List Char) (a : Span) : List Char :=
  let (start, stop) := a.bounds
  if Text.isBoundary text start && Text.isBoundary text stop then
    let painted := label name (stop - start)
    if Text.width painted == stop - start then (Text.splice? text start stop painted).getD text
    else text
  else text

/-- The text with the spans of some tags painted over by the tags' names. -/
def applyTags (d : Document) (names : List String) : List Char :=
  (d.tags.filter fun entry => names.contains entry.1).foldl
    (fun text (name, spans) => spans.foldl (paint name.toList) text) d.text

end Document

end TaggedText
