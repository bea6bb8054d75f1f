import Synca.Crawl.Responses
import Synca.Crawl.Stages
import Synca.Transition.Closing

/-!
# What is counted

In every state the urls that have passed the filter are different, match, and are reached from the
first one by links on pages that were loaded; no page is loaded twice. When the pool is idle, and
from then on, every link that matches has passed unless the filter is full, and the words counted
are those of the pages that were loaded.
-/

namespace Synca

namespace Crawl

open Transition Dataflow

section

variable {ε E : Type} {lib : Lib} {rx : Texts} {filter first : Str} {maxUrls : ℕ}
  {s s' : State lib rx filter maxUrls ε E} {a : Action ε E} {c : Chan}

/-! ### The main thread -/

lemma src_node (k : Job) :
    (node lib rx filter maxUrls k : Node Chan.Value (Net ε E) (Memory k)).src = k.src := by
  cases k <;> rfl

lemma exists_src (c : Chan) : ∃ k : Job, k.src = c := by
  cases c with
  | url => exact ⟨.filter, rfl⟩
  | filteredUrl => exact ⟨.parse, rfl⟩
  | parsedUrl => exact ⟨.load 0, rfl⟩
  | content => exact ⟨.fork, rfl⟩
  | contentHref => exact ⟨.href, rfl⟩
  | contentText => exact ⟨.paragraph, rfl⟩
  | contentParagraph => exact ⟨.tags, rfl⟩
  | text => exact ⟨.split, rfl⟩
  | words => exact ⟨.count, rfl⟩

lemma Idle.drained (h : Idle s) : s.Drained := by
  have hphase : ∀ k, s.phase k = .looping [] := by
    intro k
    have := (h k).1
    cases hk : s.phase k with
    | looping rest =>
      cases rest with
      | nil => rfl
      | cons v rest =>
        rw [hk] at this
        cases this
    | _ =>
      rw [hk] at this
      cases this
  refine ⟨fun c => ?_, fun k => by rw [hphase]; rfl, fun k => by rw [hphase]; rfl⟩
  obtain ⟨k, rfl⟩ := exists_src c
  exact List.isEmpty_iff.mp (h k).2

/-- What the main thread sees to. -/
structure Led (first : Str) (s : State lib rx filter maxUrls ε E) : Prop where
  closing : s.Closing
  closed : ∀ c, s.closed c = true → s.closed .url = true ∧ s.feeds ≠ []
  feeds : s.feeds = [] ∨ s.feeds = [⟨.url, first⟩]

lemma Led.calm (h : Led first s) (hm : Main first s a) : s.Calm a := by
  cases a with
  | feed v =>
    intro c
    by_contra hc
    exact (h.closed c (by simpa using hc)).2 hm.1
  | shut c => exact hm.2.2.1.drained
  | _ => trivial

lemma inductive_led : (machine lib rx filter maxUrls : Machine (State _ _ _ _ ε E) _).Inductive
    (Main first) (Led first) where
  init s hs := by
    refine ⟨(inductive_closing memory).init s hs, ?_, ?_⟩
    · obtain rfl := hs
      intro c hc
      cases hc
    · obtain rfl := hs
      exact .inl rfl
  step s a s' h hm hs := by
    refine ⟨(inductive_closing memory).step s a s' h.closing (h.calm hm) hs, ?_, ?_⟩
    · cases rule_of_step hs with
      | close k c cs hk =>
        have hurl := h.closed _ (h.closing.src k (by rw [hk]; trivial))
        refine fun c' _ => ⟨?_, hurl.2⟩
        show Function.update s.closed c true .url = true
        rw [Function.update_apply]
        split_ifs
        · rfl
        · exact hurl.1
      | feed v =>
        intro c hc
        exact ⟨(h.closed c hc).1, by simp⟩
      | shut c =>
        obtain ⟨hfeeds, -, -, rfl⟩ := hm
        refine fun _ _ => ⟨?_, hfeeds⟩
        show Function.update s.closed .url true .url = true
        exact Function.update_self ..
      | _ => exact h.closed
    · cases rule_of_step hs with
      | feed v =>
        obtain ⟨hnil, rfl⟩ := hm
        right
        show s.feeds ++ _ = _
        rw [hnil]
        rfl
      | _ => exact h.feeds

/-- The main thread feeds and closes as `Calm` asks. -/
lemma along_of_led {as : List (Action ε E)} (h : Led first s)
    (hm : (machine lib rx filter maxUrls).Along (Main first) s as) :
    (machine lib rx filter maxUrls).Along Calm s as := by
  induction as generalizing s with
  | nil => trivial
  | cons a as ih =>
    rw [Machine.along_cons] at hm ⊢
    exact ⟨h.calm hm.1, fun u hu => ih (inductive_led.step s a u h hm.1 hu) (hm.2 u hu)⟩

/-! ### What is taken was given -/

lemma balanced (h : (machine lib rx filter maxUrls).ReachableBy (Main first) s) : s.Balanced :=
  (inductive_balanced memory).holds h.reachable

lemma led (h : (machine lib rx filter maxUrls).ReachableBy (Main first) s) : Led first s :=
  inductive_led.holds h

lemma on_feeds (h : Led first s) (hc : c ≠ .url) : on c s.feeds = [] := by
  rcases h.feeds with hf | hf <;> rw [hf]
  · rfl
  · exact on_cons_ne (T := Chan.Value) (Ne.symm hc) first

/-- What was put into a channel was made by a stage, but for the first url. -/
lemma given_of_put (h : (machine lib rx filter maxUrls).ReachableBy (Main first) s) {v : c.Value}
    (hv : (⟨c, v⟩ : Σ c : Chan, c.Value) ∈ s.puts) :
    v ∈ on c s.feeds ∨ v ∈ given c s.runs := by
  have hmem := Multiset.mem_of_le (balanced h).le.2 hv
  rcases List.mem_append.mp hmem with hv | hv
  · exact .inl (mem_on.mpr hv)
  · exact .inr (mem_on.mpr hv)

lemma put_of_taken (h : (machine lib rx filter maxUrls).ReachableBy (Main first) s) {v : c.Value}
    (hv : v ∈ taken c s.runs) : (⟨c, v⟩ : Σ c : Chan, c.Value) ∈ s.puts :=
  Multiset.mem_of_le (balanced h).le.1 (mem_on.mp hv)

lemma given_of_taken (h : (machine lib rx filter maxUrls).ReachableBy (Main first) s) {v : c.Value}
    (hc : c ≠ .url) (hv : v ∈ taken c s.runs) : v ∈ given c s.runs := by
  refine (given_of_put h (put_of_taken h hv)).resolve_left ?_
  rw [on_feeds (led h) hc]
  exact List.not_mem_nil

/-! ### A site with one page -/

def para : Str := text "<p>Hi</p>"

def front : Net Unit Unit :=
  site [⟨text "HTTP/1.1 200 OK\r\nContent-Length: 9" ++ (EOL ++ EOL ++ para), by decide⟩]

def frontLib : Lib := { searches (some (text "9")) with atoi := fun _ => 9 }

def frontTexts : Texts where
  eUrl _       := some (text "boost.org", [])
  eHref _      := []
  eParagraph t := if t = para then [text "Hi"] else []
  eTag _       := []
  eWord t      := if t = text "Hi" then [t] else []
  toLower t    := if t = text "Hi" then text "hi" else t

abbrev crawler : Machine (State frontLib frontTexts (text "boost.org") 1000 Unit Unit)
    (Action Unit Unit) :=
  machine frontLib frontTexts (text "boost.org") 1000

def start : Str := text "http://boost.org"

/-- The page is loaded, and its word is counted. -/
def visit : List (Action Unit Unit) :=
  [.feed ⟨.url, start⟩, .take .filter, .call .filter front, .emit .filter, .take .parse,
    .call .parse front, .emit .parse, .take (.load 7), .call (.load 7) front, .emit (.load 7),
    .take .fork, .call .fork front, .emit .fork, .emit .fork, .take .paragraph,
    .call .paragraph front, .emit .paragraph, .take .href, .call .href front, .take .tags,
    .call .tags front, .emit .tags, .take .split, .call .split front, .emit .split, .take .count,
    .call .count front]

lemma visit_main : crawler.Along (Main start) { mem := memory } visit := by decide

/-! ### The urls -/

variable (first) in
/-- The urls that are reached from the first one by links on pages that were loaded. -/
inductive Found (rs : Runs lib rx filter maxUrls ε E) : Str → Prop where
  | first : Found rs first
  | link {url u : Str} {l : Load ε E} {page : Str × Str} (h : Found rs url) (hl : l ∈ loads rs)
      (hurl : l.url = parseUrl rx url) (hpage : page ∈ l.pages) (hu : u ∈ parseHref rx page) :
      Found rs u

lemma loads_subset (rs : Runs lib rx filter maxUrls ε E) (r : Run _) :
    loads rs ⊆ loads (rs ++ [r]) := by
  rw [loads_concat]
  exact List.subset_append_left _ _

lemma Found.mono {rs rs' : Runs lib rx filter maxUrls ε E} (hrs : loads rs ⊆ loads rs') {u : Str}
    (h : Found first rs u) : Found first rs' u := by
  induction h with
  | first => exact .first
  | link _ hl hurl hpage hu ih => exact .link ih (hrs hl) hurl hpage hu

/-- The pages to load: what the urls that have passed are parsed to. -/
def wanted (rx : Texts) (processed : List Str) : List (Str × Str) :=
  ((processed.filter (!·.isEmpty)).map (parseUrl rx)).filter (!·.1.isEmpty)

/-- A page is loaded for a url that has passed. -/
lemma exists_processed (h : (machine lib rx filter maxUrls).ReachableBy (Main first) s)
    {l : Load ε E} (hl : l ∈ loads s.runs) : ∃ url ∈ s.mem .filter, l.url = parseUrl rx url := by
  have hS := stages h
  have hparsed : l.url ∈ taken .parsedUrl s.runs := hS.called ▸ List.mem_map_of_mem hl
  have hparsed := given_of_taken h (by simp) hparsed
  rw [hS.parsedUrl] at hparsed
  obtain ⟨url, hurl, he⟩ := List.mem_map.mp (List.mem_of_mem_filter hparsed)
  have hurl := given_of_taken h (by simp) hurl
  rw [(filtered h).given] at hurl
  exact ⟨url, List.mem_of_mem_filter hurl, he.symm⟩

/-- A url that was put is the first one, or was found on a page. -/
lemma found_of_put (h : (machine lib rx filter maxUrls).ReachableBy (Main first) s)
    (hgiven : ∀ u ∈ given .url s.runs, Found first s.runs u) {u : Str}
    (hu : (⟨.url, u⟩ : Σ c : Chan, c.Value) ∈ s.puts) : Found first s.runs u := by
  rcases given_of_put h hu with hf | hg
  · rcases (led h).feeds with hfeeds | hfeeds <;> rw [hfeeds] at hf
    · cases hf
    · rw [on_cons_self (T := Chan.Value), on_nil, List.mem_singleton] at hf
      exact hf ▸ .first
  · exact hgiven u hg

lemma found_of_given (h : (machine lib rx filter maxUrls).ReachableBy (Main first) s) :
    ∀ u ∈ given .url s.runs, Found first s.runs u := by
  induction h with
  | init hs =>
    obtain rfl := hs
    intro u hu
    cases hu
  | @step s s' a h hm hs ih =>
    cases rule_of_step hs with
    | call k x v hk =>
      intro u hu
      rw [show given .url (s.ran k x v _ _).runs = _ from given_concat ..] at hu
      rcases List.mem_append.mp hu with hu | hu
      · exact (ih u hu).mono (loads_subset _ _)
      suffices hf : Found first s.runs u from hf.mono (loads_subset _ _)
      have hput := (balanced h).mem_puts hk
      have hr : Makes ε E lib rx filter maxUrls (s.mem .filter) x k _ _ := makes s.mem k x v
      generalize (⟨_, v⟩ : Σ c : Chan, c.Value) = item at hr hput
      generalize ((node lib rx filter maxUrls k).call x (s.mem k) v).1 = outs at hr hu
      cases hr with
      | href page =>
        rw [on_map_self] at hu
        have hpage : page ∈ loaded s.runs := by
          have hgiven := (given_of_put h hput).resolve_left (by
            rw [on_feeds (led h) (by simp)]
            exact List.not_mem_nil)
          rw [(stages h).contentHref] at hgiven
          exact (stages h).content ▸ given_of_taken h (by simp) hgiven
        obtain ⟨l, hl, hpage⟩ := List.mem_flatMap.mp hpage
        obtain ⟨url, hurl, he⟩ := exists_processed h hl
        have htaken := ((filtered h).sound url hurl).1
        exact .link (found_of_put h ih (put_of_taken h htaken)) hl he hpage hu
      | _ => simp at hu
    | _ => exact ih

/-- The urls that have passed the filter are different, at most `maxUrls`, match, and were found on
pages that were loaded; each page was returned by `loadContent`, and is loaded once at most. -/
theorem processed_found (h : (machine lib rx filter maxUrls).ReachableBy (Main first) s) :
    (s.mem .filter).Nodup ∧ (s.mem .filter).length ≤ maxUrls ∧
    (∀ u ∈ s.mem .filter, (find filter u).isSome = true ∧ Found first s.runs u) ∧
    (∀ l ∈ loads s.runs, l.Sound lib) ∧
    bag ((loads s.runs).map Load.url) ≤ bag (wanted rx (s.mem .filter)) := by
  have hF := filtered h
  have hS := stages h
  have hle : ∀ c, c ≠ .url → bag (taken c s.runs) ≤ bag (given c s.runs) := by
    intro c hc
    have := bag_on_le ((balanced h).le.1.trans (balanced h).le.2) c
    rwa [on_append, on_feeds (led h) hc, List.nil_append] at this
  refine ⟨hF.nodup, hF.length_le, fun u hu => ?_, hS.loads, ?_⟩
  · obtain ⟨htaken, hfind⟩ := hF.sound u hu
    exact ⟨hfind, found_of_put h (found_of_given h) (put_of_taken h htaken)⟩
  · rw [hS.called]
    refine (hle .parsedUrl (by simp)).trans ?_
    rw [hS.parsedUrl, wanted, ← hF.given]
    have hmap : bag ((taken .filteredUrl s.runs).map (parseUrl rx)) ≤
        bag ((given .filteredUrl s.runs).map (parseUrl rx)) :=
      Multiset.map_le_map (hle .filteredUrl (by simp))
    exact Multiset.coe_le.mpr ((Multiset.coe_le.mp hmap).filter _)

theorem processed_found_visit : ∃ s, crawler.exec { mem := memory } visit = some s ∧
    s.mem .filter = [start] ∧ Found start s.runs start ∧
    loaded s.runs = [(text "boost.org", para)] := by
  have he : crawler.exec { mem := memory } visit = some _ := rfl
  have h := (Machine.ReachableBy.init rfl).exec visit_main he
  exact ⟨_, he, by decide, ((processed_found h).2.2.1 start (by decide)).2, by decide⟩

/-! ### The words -/

/-- The words of a page. -/
def wordsOf (rx : Texts) (page : Str × Str) : List Str :=
  (((parseText rx page.2).flatMap (excludeTags rx)).flatMap (splitWords rx)).map rx.toLower

lemma perm_of_drained (h : (machine lib rx filter maxUrls).ReachableBy (Main first) s)
    (hd : s.Drained) (hc : c ≠ .url) : (taken c s.runs).Perm (given c s.runs) := by
  have hbag := bag_on_add ((balanced h).of_drained hd).1 c
  simp only [on_feeds (led h) hc, bag, Multiset.coe_nil, zero_add] at hbag
  exact Multiset.coe_eq_coe.mp hbag

/-- When the pool is idle after the first url was put, and from the closing of the urls on, every
url that has passed was loaded once, every link of the pages loaded that matches has passed unless
the filter is full, and the words of these pages are counted. -/
theorem words_counted (h : (machine lib rx filter maxUrls).ReachableBy (Main first) s)
    (hrest : (Idle s ∧ s.feeds ≠ []) ∨ s.closed .url = true) :
    bag ((loads s.runs).map Load.url) = bag (wanted rx (s.mem .filter)) ∧
      (∀ l ∈ loads s.runs, l.Sound lib) ∧
      (∀ u, (u = first ∨ ∃ page ∈ loaded s.runs, u ∈ parseHref rx page) →
        (find filter u).isSome = true →
        u ∈ s.mem .filter ∨ (s.mem .filter).length = maxUrls) ∧
      ∀ w, s.mem .count w = ((loaded s.runs).flatMap (wordsOf rx)).count w := by
  have hS := stages h
  have hF := filtered h
  have hL := led h
  have hd : s.Drained := hrest.elim (·.1.drained) (hL.closing.drained _)
  have hfeeds : s.feeds = [⟨.url, first⟩] := by
    refine hL.feeds.resolve_left ?_
    rcases hrest with hidle | hclosed
    · exact hidle.2
    · exact (hL.closed _ hclosed).2
  have hperm := fun c (hc : c ≠ Chan.url) => perm_of_drained h hd hc
  have hpages : (taken .content s.runs).Perm (loaded s.runs) := by
    rw [← hS.content]
    exact hperm _ (by simp)
  refine ⟨?_, hS.loads, fun u hu hmatch => hF.complete u ?_ hmatch, fun w => ?_⟩
  · have hparsed := hperm .parsedUrl (by simp)
    rw [hS.parsedUrl] at hparsed
    rw [hS.called]
    refine Multiset.coe_eq_coe.mpr (hparsed.trans ?_)
    rw [wanted, ← hF.given]
    exact ((hperm .filteredUrl (by simp)).map _).filter _
  · -- all urls that were put were taken
    have hurl : bag (taken .url s.runs) = bag [first] + bag (given .url s.runs) := by
      have := bag_on_add ((balanced h).of_drained hd).1 .url
      rwa [hfeeds, on_cons_self (T := Chan.Value)] at this
    have hmem : u ∈ bag (taken .url s.runs) := by
      rw [hurl]
      rcases hu with rfl | ⟨page, hpage, hu⟩
      · exact Multiset.mem_add.mpr (.inl (Multiset.mem_singleton_self _))
      · refine Multiset.mem_add.mpr (.inr ?_)
        have hpage := hpages.mem_iff.mpr hpage
        rw [← hS.contentHref] at hpage
        have hpage := (hperm .contentHref (by simp)).mem_iff.mpr hpage
        show u ∈ given .url s.runs
        rw [hS.url]
        exact List.mem_flatMap.mpr ⟨page, hpage, hu⟩
    exact hmem
  · have htext : (taken .contentText s.runs).Perm ((loaded s.runs).map Prod.snd) := by
      refine (hperm _ (by simp)).trans ?_
      rw [hS.contentText]
      exact hpages.map _
    have hpara := (hperm .contentParagraph (by simp)).trans
      (hS.contentParagraph ▸ htext.flatMap_right (parseText rx))
    have hplain := (hperm .text (by simp)).trans
      (hS.text ▸ hpara.flatMap_right (excludeTags rx))
    have hwords := (hperm .words (by simp)).trans
      (hS.words ▸ hplain.flatMap_right (splitWords rx))
    rw [counted h w, (hwords.map rx.toLower).count_eq]
    congr 1
    have hof : wordsOf rx = fun page => (((parseText rx page.2).flatMap (excludeTags rx)).flatMap
        (splitWords rx)).map rx.toLower := rfl
    rw [hof]
    simp only [List.flatMap_assoc, List.map_flatMap, List.flatMap_map]

theorem words_counted_visit : ∃ s, crawler.exec { mem := memory } visit = some s ∧
    s.mem .count (text "hi") = 1 ∧ loaded s.runs = [(text "boost.org", para)] ∧
    s.mem .count (text "hi") =
      ((loaded s.runs).flatMap (wordsOf frontTexts)).count (text "hi") := by
  have he : crawler.exec { mem := memory } visit = some _ := rfl
  have h := (Machine.ReachableBy.init rfl).exec visit_main he
  obtain ⟨-, -, -, hcount⟩ := words_counted h (.inl ⟨by decide, by decide⟩)
  exact ⟨_, he, by decide, by decide, hcount (text "hi")⟩

end

end Crawl

end Synca
