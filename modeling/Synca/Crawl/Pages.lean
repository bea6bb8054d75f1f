import Mathlib.Data.Fintype.Basic
import Mathlib.Data.Fintype.Sum
import Mathlib.Tactic.DeriveFintype
import Synca.Crawl.LoadContent
import Synca.Transition.Dataflow

/-!
# The crawler

`processing` of `data.cpp` counts the words of a site. Its stages are workers that pass items along
channels, in a cycle: the links of the pages that were loaded go back to the filter of the first
stage. The channels are the queues of the network; each call of `put`, `get` and `close` is a step.
That nothing else is seen of real channels is proved in `Synca.Crawl.Channels`.

The main thread puts the first url, waits until the pool is idle, closes the channel of the urls and
waits again: `closeAndWait`.
-/

namespace Synca

namespace Crawl

open Transition

inductive Chan where
  | url
  | filteredUrl
  | parsedUrl
  | content
  | contentHref
  | contentText
  | contentParagraph
  | text
  | words
  deriving DecidableEq, Repr

instance : Fintype Chan where
  elems := {.url, .filteredUrl, .parsedUrl, .content, .contentHref, .contentText, .contentParagraph,
    .text, .words}
  complete c := by cases c <;> decide

/-- `ChanStrPair` and `ChanStr`. -/
abbrev Chan.Value : Chan → Type
  | .parsedUrl   => Str × Str
  | .content     => Str × Str
  | .contentHref => Str × Str
  | _            => Str

instance : ∀ c : Chan, DecidableEq c.Value
  | .parsedUrl        => inferInstanceAs (DecidableEq (Str × Str))
  | .content          => inferInstanceAs (DecidableEq (Str × Str))
  | .contentHref      => inferInstanceAs (DecidableEq (Str × Str))
  | .url              => inferInstanceAs (DecidableEq Str)
  | .filteredUrl      => inferInstanceAs (DecidableEq Str)
  | .contentText      => inferInstanceAs (DecidableEq Str)
  | .contentParagraph => inferInstanceAs (DecidableEq Str)
  | .text             => inferInstanceAs (DecidableEq Str)
  | .words            => inferInstanceAs (DecidableEq Str)

/-- The journeys of `processing`. -/
inductive Job where
  | filter
  | parse
  | load (i : Fin 50)
  | fork
  | href
  | paragraph
  | tags
  | split
  | count
  deriving DecidableEq, Fintype, Repr

/-- What the searches of Boost find in a text, and `to_lower`. -/
structure Texts where
  eUrl : Str → Option (Str × Str)
  eHref : Str → List Str
  eParagraph : Str → List Str
  /-- Where a tag begins and ends. -/
  eTag : Str → List (ℕ × ℕ)
  eWord : Str → List Str
  toLower : Str → Str

/-! ### The functions of the stages -/

section

variable (rx : Texts)

/-- `UrlFilter`, with the urls it has let pass. -/
def urlFilter (filter : Str) (maxUrls : ℕ) (processed : List Str) (url : Str) : Str × List Str :=
  if find filter url = none then ([], processed)
  else if maxUrls ≤ processed.length then ([], processed)
  else if url ∈ processed then ([], processed)
  else (url, processed ++ [url])

def parseUrl (url : Str) : Str × Str :=
  match rx.eUrl url with
  | none              => ([], [])
  | some (host, path) => (host, if path.isEmpty then text "/" else path)

/-- An empty url throws, and ends the loop. -/
def parseHref (data : Str × Str) : List Str :=
  ((rx.eHref data.2).takeWhile (!·.isEmpty)).map fun url =>
    if url.head? = some 47 then text "http://" ++ data.1 ++ url else url

def parseText (content : Str) : List Str := rx.eParagraph content

/-- What is between the tags, from position `s` on. -/
def between (para : Str) : ℕ → List (ℕ × ℕ) → List Str
  | s, []           => [para.drop s]
  | s, (b, e) :: is => (para.take b).drop s :: between para e is

def excludeTags (para : Str) : List Str := between para 0 (rx.eTag para)

def splitWords (text : Str) : List Str := rx.eWord text

end

/-! ### The stages -/

section

variable {Ω σ : Type}

def piping1toMany (s d : Chan) (f : s.Value → List d.Value) : Node Chan.Value Ω Unit :=
  ⟨s, fun _ m v => ((f v).map (Sigma.mk d), m), [d]⟩

/-- If `f` throws, nothing is put. -/
def piping1to1 {ε : Type} (s d : Chan) (f : Ω → s.Value → Except ε d.Value) :
    Node Chan.Value Ω Unit :=
  ⟨s, fun x m v => ((f x v).toOption.toList.map (Sigma.mk d), m), [d]⟩

def piping1to01 (s d : Chan) (isEmpty : d.Value → Bool) (f : σ → s.Value → d.Value × σ) :
    Node Chan.Value Ω σ :=
  ⟨s, fun _ m v => (([(f m v).1].filter (!isEmpty ·)).map (Sigma.mk d), (f m v).2), [d]⟩

end

abbrev Memory : Job → Type
  | .filter => List Str
  | .count  => Str → ℕ
  | _       => Unit

section

variable {ε E : Type} (lib : Lib) (rx : Texts) (filter : Str) (maxUrls : ℕ)

/-- The network of journeys. A call of `loadContent` learns what the network does. -/
def node : ∀ k, Node Chan.Value (Net ε E) (Memory k)
  | .filter    => piping1to01 .url .filteredUrl List.isEmpty (urlFilter filter maxUrls)
  | .parse     => piping1to01 .filteredUrl .parsedUrl (·.1.isEmpty) fun m url =>
    (parseUrl rx url, m)
  | .load _    => piping1to1 .parsedUrl .content (loadContent lib)
  -- the two closers are destroyed in reverse order
  | .fork      => ⟨.content, fun _ m c => ([⟨.contentHref, c⟩, ⟨.contentText, c.2⟩], m),
    [.contentText, .contentHref]⟩
  | .href      => piping1toMany .contentHref .url (parseHref rx)
  | .paragraph => piping1toMany .contentText .contentParagraph (parseText rx)
  | .tags      => piping1toMany .contentParagraph .text (excludeTags rx)
  | .split     => piping1toMany .text .words (splitWords rx)
  | .count     => ⟨.words, fun _ counted c =>
    ([], Function.update counted (rx.toLower c) (counted (rx.toLower c) + 1)), []⟩

def memory : ∀ k, Memory k
  | .filter    => []
  | .count     => fun _ => 0
  | .parse     => ()
  | .load _    => ()
  | .fork      => ()
  | .href      => ()
  | .paragraph => ()
  | .tags      => ()
  | .split     => ()

abbrev State (ε E : Type) :=
  Dataflow (node lib rx filter maxUrls : ∀ k, Node Chan.Value (Net ε E) (Memory k))

abbrev Action (ε E : Type) := Dataflow.Action Job (Net ε E) Chan.Value

def machine : Machine (State lib rx filter maxUrls ε E) (Action ε E) :=
  Dataflow.machine (node lib rx filter maxUrls) memory

variable {lib rx filter maxUrls}

/-- The channel a journey iterates. -/
def Job.src : Job → Chan
  | .filter    => .url
  | .parse     => .filteredUrl
  | .load _    => .parsedUrl
  | .fork      => .content
  | .href      => .contentHref
  | .paragraph => .contentText
  | .tags      => .contentParagraph
  | .split     => .text
  | .count     => .words

/-- The journeys all wait for an item: the pool has nothing to do. -/
def Idle (s : State lib rx filter maxUrls ε E) : Prop :=
  ∀ k : Job, (s.phase k).waits = true ∧ (s.queue k.src).isEmpty = true

instance (s : State lib rx filter maxUrls ε E) : Decidable (Idle s) :=
  inferInstanceAs (Decidable (∀ _, _))

/-- What the main thread does. -/
def Main (first : Str) (s : State lib rx filter maxUrls ε E) : Action ε E → Prop
  | .feed v => s.feeds = [] ∧ v = ⟨.url, first⟩
  | .shut c => s.feeds ≠ [] ∧ s.closed .url = false ∧ Idle s ∧ c = .url
  | _       => True

instance (first : Str) (s : State lib rx filter maxUrls ε E) (a : Action ε E) :
    Decidable (Main first s a) := by
  induction a using Dataflow.Action.casesOn with
  | feed v => exact inferInstanceAs (Decidable (_ ∧ _))
  | shut c => exact inferInstanceAs (Decidable (_ ∧ _))
  | _ => exact .isTrue trivial

end

end Crawl

end Synca
