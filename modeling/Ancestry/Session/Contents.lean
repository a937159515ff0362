import Ancestry.Session.Statistics
import Ancestry.Session.Table
import Ancestry.Source.Provide

/-!
The contents of files, read on demand and kept until they are dropped: their texts and their provide
calls.

A request notes the mark of its path, which changes whenever the path is dropped. What was read is
kept only if the mark is still the same, so a text that was overtaken by a change is handed on but
not kept.
-/

namespace Ancestry
open Ancestry.Source

/-- The files to read from. A file that cannot be read has no text. -/
abbrev Files := String → Option String

/-- How often everything was dropped, and how often one path was. -/
structure Mark where
  epoch : Nat
  generation : Nat
  deriving DecidableEq, Repr

/-- Whether a request still waits for a read slot, or holds one and what it read. Of a file that
cannot be read there is no text. -/
inductive ReadState where
  | waiting
  | holding (text? : Option String)
  deriving DecidableEq, Repr

/-- A request for the text of a path, with the mark that the path had. -/
structure Read where
  path : String
  mark : Mark
  state : ReadState
  deriving DecidableEq, Repr

structure Contents where
  texts : Table String
  calls : Table (List String)
  epoch : Nat
  generation : String → Nat
  stats : Statistics

namespace Contents

def empty : Contents :=
  ⟨.empty, .empty, 0, fun _ => 0, {}⟩

def markOf (c : Contents) (path : String) : Mark :=
  ⟨c.epoch, c.generation path⟩

/-- The provide calls of a text; one without the word has none. -/
def callsIn (text : String) : List String :=
  if (Text.cut? "provide".toList text.toList).isSome then provideCalls text else []

def countTextHit (c : Contents) : Contents :=
  { c with stats.contentHits := c.stats.contentHits + 1 }

def countCallsHit (c : Contents) : Contents :=
  { c with stats.providesHits := c.stats.providesHits + 1 }

def countCallsMiss (c : Contents) : Contents :=
  { c with stats.providesMisses := c.stats.providesMisses + 1 }

/-- Asks for the text of a path that is not kept. -/
def request (path : String) (c : Contents) : Read × Contents :=
  (⟨path, c.markOf path, .waiting⟩,
    { c with stats.contentMisses := c.stats.contentMisses + 1 })

/-- Counts a read that takes a slot. -/
def countRead (c : Contents) : Contents :=
  { c with stats.fileReads := c.stats.fileReads + 1 }

/-- Counts a read that ends without a text. -/
def countEnd (text? : Option String) (c : Contents) : Contents :=
  match text? with
  | some _ => c
  | none => { c with stats.failedReads := c.stats.failedReads + 1 }

/-- What a read comes to: a file that cannot be read counts as an empty one. -/
def textRead (text? : Option String) : String :=
  text?.getD ""

/-- Keeps a text, unless its path was dropped since the request. -/
def keepText (path : String) (mark : Mark) (text : String) (c : Contents) : Contents :=
  if c.markOf path = mark then { c with texts := c.texts.insert path text } else c

/-- Keeps the calls of a text, unless its path was dropped since the request. -/
def keepCalls (path : String) (mark : Mark) (calls : List String) (c : Contents) : Contents :=
  if c.markOf path = mark then { c with calls := c.calls.insert path calls } else c

/-- The text of a path, read if it is not kept. -/
def text (files : Files) (path : String) (c : Contents) : String × Contents :=
  match c.texts.get? path with
  | some text => (text, c.countTextHit)
  | none =>
    let (r, c) := c.request path
    let text := textRead (files path)
    (text, (c.countRead.countEnd (files path)).keepText path r.mark text)

/-- The provide calls of a path. -/
def provides (files : Files) (path : String) (c : Contents) : List String × Contents :=
  match c.calls.get? path with
  | some calls => (calls, c.countCallsHit)
  | none =>
    let mark := c.markOf path
    let (text, c) := c.countCallsMiss.text files path
    (callsIn text, c.keepCalls path mark (callsIn text))

/-- Drops what is kept of a path. -/
def invalidate (path : String) (c : Contents) : Contents :=
  { c with
    texts := c.texts.erase path
    calls := c.calls.erase path
    generation := fun p => if p = path then c.generation p + 1 else c.generation p }

/-- Drops everything. The counters go on. -/
def clear (c : Contents) : Contents :=
  { c with texts := .empty, calls := .empty, epoch := c.epoch + 1 }

end Contents
end Ancestry
