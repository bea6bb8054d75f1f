import Mathlib.Data.List.Forall2
import Mathlib.Data.List.ReduceOption
import Synca.Crawl.Pages

/-!
# What the stages make

What each stage has put into its channel is a function of what it has taken. The pages are what the
calls of `loadContent` have returned, each with what the network did in that call. The filter lets
the first `maxUrls` urls pass that match.
-/

namespace Synca

namespace Crawl

open Transition Dataflow

section

variable {ε E : Type} {lib : Lib} {rx : Texts} {filter : Str} {maxUrls : ℕ}

abbrev Runs (lib : Lib) (rx : Texts) (filter : Str) (maxUrls : ℕ) (ε E : Type) :=
  List (Run (node lib rx filter maxUrls : ∀ k, Node Chan.Value (Net ε E) (Memory k)))

abbrev Items := List (Σ c : Chan, c.Value)

/-- Values for a channel. -/
abbrev onto (c : Chan) (xs : List c.Value) : Items := xs.map (Sigma.mk c)

/-- What was taken from a channel and processed. -/
def taken (c : Chan) (rs : Runs lib rx filter maxUrls ε E) : List c.Value := on c (items rs)

/-- What was made for a channel. -/
def given (c : Chan) (rs : Runs lib rx filter maxUrls ε E) : List c.Value := on c (made rs)

variable (ε E lib rx filter maxUrls) in
/-- What a journey makes of an item, with what the network does. -/
inductive Makes (processed : List Str) (net : Net ε E) :
    Job → (Σ c : Chan, c.Value) → Items → Prop where
  | filter (url : Str) : Makes processed net .filter ⟨.url, url⟩
      (onto .filteredUrl ([(urlFilter filter maxUrls processed url).1].filter (!·.isEmpty)))
  | parse (url : Str) : Makes processed net .parse ⟨.filteredUrl, url⟩
      (onto .parsedUrl ([parseUrl rx url].filter (!·.1.isEmpty)))
  | load (i : Fin 50) (url : Str × Str) :
      Makes processed net (.load i) ⟨.parsedUrl, url⟩
        (onto .content (loadContent lib net url).toOption.toList)
  | fork (c : Str × Str) : Makes processed net .fork ⟨.content, c⟩
      [⟨.contentHref, c⟩, ⟨.contentText, c.2⟩]
  | href (c : Str × Str) : Makes processed net .href ⟨.contentHref, c⟩ (onto .url (parseHref rx c))
  | paragraph (c : Str) : Makes processed net .paragraph ⟨.contentText, c⟩
      (onto .contentParagraph (parseText rx c))
  | tags (c : Str) :
    Makes processed net .tags ⟨.contentParagraph, c⟩ (onto .text (excludeTags rx c))
  | split (c : Str) : Makes processed net .split ⟨.text, c⟩ (onto .words (splitWords rx c))
  | count (c : Str) : Makes processed net .count ⟨.words, c⟩ []

lemma makes (μ : ∀ k, Memory k) (k : Job) (x : Net ε E)
    (v : (node lib rx filter maxUrls k : Node Chan.Value (Net ε E) (Memory k)).src.Value) :
    Makes ε E lib rx filter maxUrls (μ .filter) x k ⟨_, v⟩
      ((node lib rx filter maxUrls k).call x (μ k) v).1 := by
  cases k with
  | filter => exact .filter v
  | parse => exact .parse v
  | load i => exact .load i v
  | fork => exact .fork v
  | href => exact .href v
  | paragraph => exact .paragraph v
  | tags => exact .tags v
  | split => exact .split v
  | count => exact .count v

lemma taken_concat (c : Chan) (rs : Runs lib rx filter maxUrls ε E) (r : Run _) :
    taken c (rs ++ [r]) = taken c rs ++ on c [⟨_, r.item⟩] := by
  rw [taken, items, List.map_append, on_append]
  rfl

lemma given_concat (c : Chan) (rs : Runs lib rx filter maxUrls ε E) (r : Run _) :
    given c (rs ++ [r]) = given c rs ++ on c r.outs := by
  rw [given, made, List.flatMap_append, on_append, List.flatMap_singleton]
  rfl

/-! ### The stages without memory -/

/-- A call of `loadContent` that was made: what the network did in it, the url, and what the journey
put, that is the page if one was returned. -/
structure Load (ε E : Type) where
  net : Net ε E
  url : Str × Str
  pages : List (Str × Str)

/-- What a journey took and put, if it called `loadContent`. -/
def load? (net : Net ε E) : (Σ c : Chan, c.Value) → Items → Option (Load ε E)
  | ⟨.parsedUrl, url⟩, outs => some ⟨net, url, on .content outs⟩
  | _,                 _    => none

/-- The calls of `loadContent`, in order. -/
def loads (rs : Runs lib rx filter maxUrls ε E) : List (Load ε E) :=
  rs.filterMap fun r => load? r.learned ⟨_, r.item⟩ r.outs

/-- The pages that were loaded. -/
def loaded (rs : Runs lib rx filter maxUrls ε E) : List (Str × Str) :=
  (loads rs).flatMap Load.pages

/-- The call has put what `loadContent` returns. -/
def Load.Sound (lib : Lib) (l : Load ε E) : Prop :=
  l.pages = (loadContent lib l.net l.url).toOption.toList

structure Stages (rs : Runs lib rx filter maxUrls ε E) : Prop where
  parsedUrl : given .parsedUrl rs =
    ((taken .filteredUrl rs).map (parseUrl rx)).filter (!·.1.isEmpty)
  loads : ∀ l ∈ loads rs, l.Sound lib
  called : (Crawl.loads rs).map Load.url = taken .parsedUrl rs
  content : given .content rs = loaded rs
  contentHref : given .contentHref rs = taken .content rs
  contentText : given .contentText rs = (taken .content rs).map Prod.snd
  url : given .url rs = (taken .contentHref rs).flatMap (parseHref rx)
  contentParagraph : given .contentParagraph rs = (taken .contentText rs).flatMap (parseText rx)
  text : given .text rs = (taken .contentParagraph rs).flatMap (excludeTags rx)
  words : given .words rs = (taken .text rs).flatMap (splitWords rx)

lemma loads_concat (rs : Runs lib rx filter maxUrls ε E) (r : Run _) :
    loads (rs ++ [r]) = loads rs ++ (load? r.learned ⟨_, r.item⟩ r.outs).toList := by
  rw [loads, List.filterMap_append]
  cases h : load? r.learned ⟨_, r.item⟩ r.outs <;> simp [loads, h]

lemma loaded_concat (rs : Runs lib rx filter maxUrls ε E) (r : Run _) :
    loaded (rs ++ [r]) =
      loaded rs ++ (load? r.learned ⟨_, r.item⟩ r.outs).toList.flatMap Load.pages := by
  rw [loaded, loads_concat, List.flatMap_append]
  rfl

lemma Stages.init : Stages ([] : Runs lib rx filter maxUrls ε E) :=
  ⟨rfl, nofun, rfl, rfl, rfl, rfl, rfl, rfl, rfl, rfl⟩

lemma Stages.concat {rs : Runs lib rx filter maxUrls ε E} (h : Stages rs) {processed : List Str}
    {r : Run _}
    (hr : Makes ε E lib rx filter maxUrls processed r.learned r.worker ⟨_, r.item⟩ r.outs) :
    Stages (rs ++ [r]) := by
  refine ⟨?_, ?_, ?_, ?_, ?_, ?_, ?_, ?_, ?_, ?_⟩
  all_goals
    simp only [given_concat, taken_concat, loads_concat, loaded_concat]
    generalize (⟨_, r.item⟩ : Σ c : Chan, c.Value) = item at hr ⊢
    generalize r.outs = outs at hr ⊢
    generalize r.worker = k at hr
  · rw [h.parsedUrl]
    cases hr <;> simp
  · intro l hl
    rcases List.mem_append.mp hl with hl | hl
    · exact h.loads l hl
    cases hr with
    | load i url =>
      obtain rfl := List.mem_singleton.mp hl
      exact on_map_self _
    | _ => cases hl
  · rw [List.map_append, h.called]
    cases hr <;> simp [load?]
  · rw [h.content]
    cases hr <;> simp [load?]
  · rw [h.contentHref]
    cases hr <;> simp
  · rw [h.contentText]
    cases hr <;> simp
  · rw [h.url]
    cases hr <;> simp
  · rw [h.contentParagraph]
    cases hr <;> simp
  · rw [h.text]
    cases hr <;> simp
  · rw [h.words]
    cases hr <;> simp

/-! ### The filter -/

structure Filtered (rs : Runs lib rx filter maxUrls ε E) (processed : List Str) : Prop where
  given : given .filteredUrl rs = processed.filter (!·.isEmpty)
  nodup : processed.Nodup
  length_le : processed.length ≤ maxUrls
  sound : ∀ u ∈ processed, u ∈ taken .url rs ∧ (find filter u).isSome = true
  complete : ∀ u ∈ taken .url rs, (find filter u).isSome = true →
    u ∈ processed ∨ processed.length = maxUrls

lemma urlFilter_cases (filter : Str) (maxUrls : ℕ) (processed : List Str) (url : Str) :
    (urlFilter filter maxUrls processed url = ([], processed) ∧
      ((find filter url).isSome = true → url ∈ processed ∨ maxUrls ≤ processed.length)) ∨
    (urlFilter filter maxUrls processed url = (url, processed ++ [url]) ∧
      (find filter url).isSome = true ∧ url ∉ processed ∧ processed.length < maxUrls) := by
  rw [urlFilter]
  split_ifs with hfind hmax hmem
  · exact .inl ⟨rfl, by simp [hfind]⟩
  · exact .inl ⟨rfl, fun _ => .inr hmax⟩
  · exact .inl ⟨rfl, fun _ => .inl hmem⟩
  · exact .inr ⟨rfl, Option.isSome_iff_ne_none.mpr hfind, hmem, by omega⟩

lemma Filtered.init : Filtered ([] : Runs lib rx filter maxUrls ε E) [] :=
  ⟨rfl, List.nodup_nil, Nat.zero_le _, by simp, fun u hu => by cases hu⟩

lemma Filtered.call {rs : Runs lib rx filter maxUrls ε E} {processed : List Str}
    (h : Filtered rs processed) {r : Run _} {url : Str}
    (hitem : (⟨_, r.item⟩ : Σ c : Chan, c.Value) = ⟨.url, url⟩)
    (houts : r.outs = onto .filteredUrl
      ([(urlFilter filter maxUrls processed url).1].filter (!·.isEmpty))) :
    Filtered (rs ++ [r]) (urlFilter filter maxUrls processed url).2 := by
  have htaken : taken .url (rs ++ [r]) = taken .url rs ++ [url] := by
    rw [taken_concat, hitem, on_cons_self, on_nil]
  have hgiven : Crawl.given .filteredUrl (rs ++ [r]) = processed.filter (!·.isEmpty) ++
      [(urlFilter filter maxUrls processed url).1].filter (!·.isEmpty) := by
    rw [given_concat, houts, on_map_self, h.given]
  rcases urlFilter_cases filter maxUrls processed url with ⟨he, hno⟩ | ⟨he, hfind, hmem, hmax⟩
  · rw [he] at hgiven ⊢
    refine ⟨by simpa using hgiven, h.nodup, h.length_le, fun u hu => ?_, fun u hu hf => ?_⟩
    · obtain ⟨hu, hf⟩ := h.sound u hu
      exact ⟨by rw [htaken]; exact List.mem_append_left _ hu, hf⟩
    · rw [htaken, List.mem_append, List.mem_singleton] at hu
      rcases hu with hu | rfl
      · exact h.complete u hu hf
      · exact (hno hf).imp id fun hle => Nat.le_antisymm h.length_le hle
  · rw [he] at hgiven ⊢
    refine ⟨by rw [hgiven, List.filter_append], ?_, ?_, fun u hu => ?_, fun u hu hf => ?_⟩
    · exact List.nodup_append.mpr ⟨h.nodup, List.nodup_singleton _, fun a ha b hb he => hmem (by
        rwa [← List.mem_singleton.mp hb, ← he])⟩
    · rw [List.length_append, List.length_singleton]
      exact hmax
    · rw [htaken]
      rcases List.mem_append.mp hu with hu | hu
      · exact ⟨List.mem_append_left _ (h.sound u hu).1, (h.sound u hu).2⟩
      · rw [List.mem_singleton.mp hu]
        exact ⟨List.mem_append_right _ (List.mem_singleton_self _), hfind⟩
    · rw [htaken, List.mem_append, List.mem_singleton] at hu
      rcases hu with hu | rfl
      · rcases h.complete u hu hf with hin | hlen
        · exact .inl (List.mem_append_left _ hin)
        · omega
      · exact .inl (List.mem_append_right _ (List.mem_singleton_self _))

/-- The other journeys do not concern the filter. -/
lemma Filtered.other {rs : Runs lib rx filter maxUrls ε E} {processed : List Str}
    (h : Filtered rs processed) {r : Run _}
    (hr : Makes ε E lib rx filter maxUrls processed r.learned r.worker ⟨_, r.item⟩ r.outs)
    (hk : r.worker ≠ .filter) : Filtered (rs ++ [r]) processed := by
  have hsame : on .url [(⟨_, r.item⟩ : Σ c : Chan, c.Value)] = [] ∧
      on .filteredUrl r.outs = [] := by
    generalize (⟨_, r.item⟩ : Σ c : Chan, c.Value) = item at hr
    generalize r.outs = outs at hr
    generalize r.worker = k at hr hk
    cases hr with
    | filter => exact absurd rfl hk
    | _ => simp
  have htaken : taken .url (rs ++ [r]) = taken .url rs := by
    rw [taken_concat, hsame.1, List.append_nil]
  have hgiven : Crawl.given .filteredUrl (rs ++ [r]) = Crawl.given .filteredUrl rs := by
    rw [given_concat, hsame.2, List.append_nil]
  refine ⟨hgiven.trans h.given, h.nodup, h.length_le, ?_, ?_⟩
  · rw [htaken]
    exact h.sound
  · rw [htaken]
    exact h.complete

/-! ### In every state -/

variable {first : Str} {s : State lib rx filter maxUrls ε E}

lemma stages (h : (machine lib rx filter maxUrls).ReachableBy (Main first) s) : Stages s.runs :=
  of_ran (P := fun rs _ => Stages rs) .init (fun _ μ k x v h => h.concat (makes μ k x v)) h

lemma filtered (h : (machine lib rx filter maxUrls).ReachableBy (Main first) s) :
    Filtered s.runs (s.mem .filter) := by
  refine of_ran (P := fun rs μ => Filtered rs (μ .filter)) .init (fun rs μ k x v h => ?_) h
  by_cases hk : k = .filter
  · subst hk
    rw [Function.update_self]
    exact h.call rfl rfl
  · rw [Function.update_of_ne (Ne.symm hk)]
    exact h.other (makes μ k x v) hk

/-- The counter of a word is the number of words that are equal in lower case. -/
lemma counted (h : (machine lib rx filter maxUrls).ReachableBy (Main first) s) (w : Str) :
    s.mem .count w = ((taken .words s.runs).map rx.toLower).count w := by
  refine of_ran (P := fun rs (μ : ∀ k, Memory k) =>
    ∀ w, μ .count w = ((taken .words rs).map rx.toLower).count w)
    (fun _ => rfl) (fun rs μ k x v h w => ?_) h w
  have hr := makes μ k x v
  rw [taken_concat, List.map_append, List.count_append, ← h w]
  by_cases hk : k = .count
  · subst hk
    rw [Function.update_self]
    show Function.update (μ .count) (rx.toLower v) (μ .count (rx.toLower v) + 1) w = _ +
      [rx.toLower v].count w
    rw [Function.update_apply, List.count_singleton]
    by_cases hw : w = rx.toLower v
    · rw [if_pos hw, hw, if_pos (beq_self_eq_true _)]
    · rw [if_neg hw, if_neg (by simpa using Ne.symm hw), Nat.add_zero]
  · rw [Function.update_of_ne (Ne.symm hk)]
    have hsame : on .words [(⟨_, v⟩ : Σ c : Chan, c.Value)] = [] := by
      generalize (⟨_, v⟩ : Σ c : Chan, c.Value) = item at hr
      generalize ((node lib rx filter maxUrls k).call x (μ k) v).1 = outs at hr
      cases hr with
      | count => exact absurd rfl hk
      | _ => simp
    simp [hsame]

end

end Crawl

end Synca
