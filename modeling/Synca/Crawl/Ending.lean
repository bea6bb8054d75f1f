import Synca.Crawl.Words

/-!
# The crawler ends

A run can always go on until every journey has left, and it is not longer than a bound that depends
on the number of urls the filter lets pass. What is found in a text is part of it, and a page is not
larger than `loadContent` allows.
-/

namespace Synca

namespace Crawl

open Transition Dataflow

section

variable {ε E : Type} {lib : Lib} {rx : Texts} {filter first : Str} {maxUrls : ℕ}
  {s s' : State lib rx filter maxUrls ε E} {a : Action ε E} {c : Chan}

/-! ### Nobody is left waiting -/

lemma downstream (k : Job) : Downstream
    (node lib rx filter maxUrls : ∀ k, Node Chan.Value (Net ε E) (Memory k)) .url k := by
  have hfilter : Downstream
    (node lib rx filter maxUrls : ∀ k, Node Chan.Value (Net ε E) (Memory k)) .url .filter :=
    .first _ rfl
  have hparse := Downstream.next _ .parse hfilter List.mem_cons_self
  have hload := fun i => Downstream.next _ (Job.load i) hparse List.mem_cons_self
  have hfork := Downstream.next _ .fork (hload 0) List.mem_cons_self
  have hparagraph := Downstream.next _ .paragraph hfork List.mem_cons_self
  have htags := Downstream.next _ .tags hparagraph List.mem_cons_self
  have hsplit := Downstream.next _ .split htags List.mem_cons_self
  cases k with
  | filter => exact hfilter
  | parse => exact hparse
  | load i => exact hload i
  | fork => exact hfork
  | href => exact .next _ _ hfork (List.mem_cons_of_mem _ List.mem_cons_self)
  | paragraph => exact hparagraph
  | tags => exact htags
  | split => exact hsplit
  | count => exact .next _ _ hsplit List.mem_cons_self

/-- If no journey can go on before the urls are closed, all wait. -/
lemma idle_of_stuck (hL : Led first s) (hclosed : s.closed .url = false) (x : Net ε E)
    (hstuck : ∀ a : Action ε E, a.isShut = false → (∀ v, a ≠ .feed v) → s.step a = none) :
    Idle s := by
  intro k
  have hleft : ¬ (s.phase k).Left := by
    intro hk
    have := (hL.closed _ (hL.closing.src k hk)).1
    rw [hclosed] at this
    cases this
  cases hk : s.phase k with
  | looping rest =>
    cases rest with
    | nil =>
      refine ⟨rfl, ?_⟩
      have hsrc : (node lib rx filter maxUrls k : Node Chan.Value (Net ε E) (Memory k)).src =
        k.src := src_node k
      rw [← hsrc]
      cases hq : s.queue (node lib rx filter maxUrls k).src with
      | nil => rfl
      | cons v q =>
        have := hstuck (.take k) rfl (by simp)
        rw [(Rule.take k v q hk hq).step] at this
        cases this
    | cons v rest =>
      have := hstuck (.emit k) rfl (by simp)
      rw [(Rule.emit k v rest hk).step] at this
      cases this
  | holding v =>
    have := hstuck (.call k x) rfl (by simp)
    rw [(Rule.call k x v hk).step] at this
    cases this
  | leaving cs =>
    rw [hk] at hleft
    exact absurd trivial hleft
  | gone =>
    rw [hk] at hleft
    exact absurd trivial hleft

lemma gone_of_stuck (h : (machine lib rx filter maxUrls).ReachableBy (Main first) s) (x : Net ε E)
    (hstuck : ∀ a, Main first s a → s.step a = none) :
    s.closed .url = true ∧ ∀ k, s.phase k = .gone := by
  have hL := led h
  have hjourney : ∀ a : Action ε E, a.isShut = false → (∀ v, a ≠ .feed v) → s.step a = none := by
    intro a ha hfeed
    refine hstuck a ?_
    cases a with
    | feed v => exact absurd rfl (hfeed v)
    | shut c => cases ha
    | _ => trivial
  have hfeeds : s.feeds ≠ [] := by
    intro hnil
    have := hstuck (.feed ⟨.url, first⟩) ⟨hnil, rfl⟩
    cases this
  have hclosed : s.closed .url = true := by
    by_contra hopen
    have hopen : s.closed .url = false := by simpa using hopen
    have := hstuck (.shut .url) ⟨hfeeds, hopen, idle_of_stuck hL hopen x hjourney, rfl⟩
    cases this
  refine ⟨hclosed, fun k => hL.closing.gone_of_stays (fun k => ⟨?_, ?_, ?_⟩) hclosed (downstream k)⟩
  · exact hjourney _ rfl (by simp)
  · exact hjourney _ rfl (by simp)
  · exact hjourney _ rfl (by simp)

/-! ### Runs are bounded -/

/-- The searches find things that do not overlap and are not empty. -/
structure Finds (rx : Texts) : Prop where
  href : ∀ t, (rx.eHref t).length ≤ t.length
  paragraph : ∀ t, (rx.eParagraph t).length ≤ t.length
  part : ∀ t, ∀ p ∈ rx.eParagraph t, p.length ≤ t.length
  tag : ∀ t, (rx.eTag t).length ≤ t.length
  word : ∀ t, (rx.eWord t).length ≤ t.length

/-- A page is smaller. -/
def pageSize : ℕ := MAX_BUF_SIZE + READ_BUF_SIZE

lemma length_flatMap_le {α β : Type} {f : α → List β} {xs : List α} {n : ℕ}
    (h : ∀ x ∈ xs, (f x).length ≤ n) : (xs.flatMap f).length ≤ xs.length * n := by
  induction xs with
  | nil => simp
  | cons x xs ih =>
    have hx := h x List.mem_cons_self
    have hrest := ih fun y hy => h y (List.mem_cons_of_mem _ hy)
    rw [List.flatMap_cons, List.length_append, List.length_cons, Nat.succ_mul]
    omega

lemma length_between (para : Str) (s : ℕ) (tags : List (ℕ × ℕ)) :
    (between para s tags).length = tags.length + 1 := by
  induction tags generalizing s with
  | nil => rfl
  | cons t tags ih => rw [between, List.length_cons, ih, List.length_cons]

lemma length_le_of_mem_between {para p : Str} {s : ℕ} {tags : List (ℕ × ℕ)}
    (h : p ∈ between para s tags) : p.length ≤ para.length := by
  induction tags generalizing s with
  | nil =>
    rw [between, List.mem_singleton] at h
    rw [h, List.length_drop]
    omega
  | cons t tags ih =>
    rw [between] at h
    rcases List.mem_cons.mp h with rfl | h
    · rw [List.length_drop, List.length_take]
      omega
    · exact ih h

lemma length_takeWhile_le {α : Type} (p : α → Bool) (xs : List α) :
    (xs.takeWhile p).length ≤ xs.length :=
  (List.takeWhile_prefix p).length_le

/-- The lengths of the texts that are passed on. -/
structure Small (s : State lib rx filter maxUrls ε E) : Prop where
  content : ∀ page ∈ given .content s.runs, page.2.length ≤ pageSize
  contentText : ∀ t ∈ given .contentText s.runs, t.length ≤ pageSize
  contentParagraph : ∀ t ∈ given .contentParagraph s.runs, t.length ≤ pageSize
  text : ∀ t ∈ given .text s.runs, t.length ≤ pageSize

lemma small (hrx : Finds rx) (h : (machine lib rx filter maxUrls).ReachableBy (Main first) s) :
    Small s := by
  have hS := stages h
  have hcontent : ∀ page ∈ given .content s.runs, page.2.length ≤ pageSize := by
    intro page hp
    rw [hS.content] at hp
    obtain ⟨l, hl, hp⟩ := List.mem_flatMap.mp hp
    rw [hS.loads l hl] at hp
    cases hc : loadContent lib l.net l.url with
    | error e =>
      rw [hc] at hp
      cases hp
    | ok r =>
      rw [hc] at hp
      obtain rfl : page = r := List.mem_singleton.mp hp
      exact (loadContent_length_lt hc).le
  have htext : ∀ t ∈ given .contentText s.runs, t.length ≤ pageSize := by
    intro t ht
    rw [hS.contentText] at ht
    obtain ⟨page, hp, rfl⟩ := List.mem_map.mp ht
    exact hcontent page (given_of_taken h (by simp) hp)
  have hpara : ∀ t ∈ given .contentParagraph s.runs, t.length ≤ pageSize := by
    intro t ht
    rw [hS.contentParagraph] at ht
    obtain ⟨c, hc, ht⟩ := List.mem_flatMap.mp ht
    exact (hrx.part c t ht).trans (htext c (given_of_taken h (by simp) hc))
  refine ⟨hcontent, htext, hpara, fun t ht => ?_⟩
  rw [hS.text] at ht
  obtain ⟨c, hc, ht⟩ := List.mem_flatMap.mp ht
  exact (length_le_of_mem_between ht).trans (hpara c (given_of_taken h (by simp) hc))

/-- How many items are put at most, if the filter lets `n` urls pass. -/
def itemBound (n : ℕ) : ℕ :=
  1 + n * pageSize + 5 * n + n * pageSize + n * pageSize * (pageSize + 1) +
    n * pageSize * (pageSize + 1) * pageSize

lemma length_taken_le (h : (machine lib rx filter maxUrls).ReachableBy (Main first) s) (c : Chan) :
    (taken c s.runs).length ≤ (on c s.puts).length :=
  Multiset.card_le_card (bag_on_le (balanced h).le.1 c)

lemma length_puts_le (h : (machine lib rx filter maxUrls).ReachableBy (Main first) s) (c : Chan) :
    (on c s.puts).length ≤ (on c s.feeds).length + (given c s.runs).length := by
  have := Multiset.card_le_card (bag_on_le (balanced h).le.2 c)
  rwa [on_append, Multiset.coe_card, Multiset.coe_card, List.length_append] at this

lemma puts_le (hrx : Finds rx) (h : (machine lib rx filter maxUrls).ReachableBy (Main first) s) :
    s.puts.length ≤ itemBound maxUrls := by
  have hS := stages h
  have hF := filtered h
  have hsmall := small hrx h
  have hput : ∀ c, c ≠ .url → (on c s.puts).length ≤ (given c s.runs).length := by
    intro c hc
    have := length_puts_le h c
    rwa [on_feeds (led h) hc, List.length_nil, Nat.zero_add] at this
  have htake := fun c hc => (length_taken_le h c).trans (hput c hc)
  have hfiltered : (given .filteredUrl s.runs).length ≤ maxUrls := by
    rw [hF.given]
    exact (List.length_filter_le _ _).trans hF.length_le
  have hparsed : (given .parsedUrl s.runs).length ≤ maxUrls := by
    rw [hS.parsedUrl]
    refine (List.length_filter_le _ _).trans ?_
    rw [List.length_map]
    exact (htake _ (by simp)).trans hfiltered
  have hcontent : (given .content s.runs).length ≤ maxUrls := by
    rw [hS.content]
    refine (length_flatMap_le (n := 1) fun l hl => ?_).trans ?_
    · rw [hS.loads l hl]
      exact Option.length_toList_le
    · have hcalled := congrArg List.length hS.called
      rw [List.length_map] at hcalled
      rw [Nat.mul_one, hcalled]
      exact (htake _ (by simp)).trans hparsed
  have hhref : (given .contentHref s.runs).length ≤ maxUrls := by
    rw [hS.contentHref]
    exact (htake _ (by simp)).trans hcontent
  have htext : (given .contentText s.runs).length ≤ maxUrls := by
    rw [hS.contentText, List.length_map]
    exact (htake _ (by simp)).trans hcontent
  have hurl : (given .url s.runs).length ≤ maxUrls * pageSize := by
    rw [hS.url]
    refine (length_flatMap_le (n := pageSize) fun page hp => ?_).trans
      (Nat.mul_le_mul_right _ ((htake _ (by simp)).trans hhref))
    have hp := given_of_taken h (by simp) hp
    rw [hS.contentHref] at hp
    have hsize := hsmall.content page (given_of_taken h (by simp) hp)
    rw [parseHref, List.length_map]
    exact ((length_takeWhile_le _ _).trans (hrx.href _)).trans hsize
  have hpara : (given .contentParagraph s.runs).length ≤ maxUrls * pageSize := by
    rw [hS.contentParagraph]
    refine (length_flatMap_le (n := pageSize) fun t ht => ?_).trans
      (Nat.mul_le_mul_right _ ((htake _ (by simp)).trans htext))
    exact (hrx.paragraph t).trans (hsmall.contentText t (given_of_taken h (by simp) ht))
  have hplain : (given .text s.runs).length ≤ maxUrls * pageSize * (pageSize + 1) := by
    rw [hS.text]
    refine (length_flatMap_le (n := pageSize + 1) fun t ht => ?_).trans
      (Nat.mul_le_mul_right _ ((htake _ (by simp)).trans hpara))
    rw [excludeTags, length_between]
    exact Nat.succ_le_succ
      ((hrx.tag t).trans (hsmall.contentParagraph t (given_of_taken h (by simp) ht)))
  have hwords : (given .words s.runs).length ≤ maxUrls * pageSize * (pageSize + 1) * pageSize := by
    rw [hS.words]
    refine (length_flatMap_le (n := pageSize) fun t ht => ?_).trans
      (Nat.mul_le_mul_right _ ((htake _ (by simp)).trans hplain))
    exact (hrx.word t).trans (hsmall.text t (given_of_taken h (by simp) ht))
  have hfirst : (on .url s.puts).length ≤ 1 + maxUrls * pageSize := by
    have hle := length_puts_le h .url
    have hfeeds : (on .url s.feeds).length ≤ 1 := by
      rcases (led h).feeds with hf | hf <;> rw [hf]
      · exact Nat.zero_le _
      · exact (List.length_filterMap_le _ _)
    omega
  have hsum : s.puts.length = ∑ c, (on c s.puts).length := length_eq_sum_on _
  have hchan : (Finset.univ : Finset Chan) = {.url, .filteredUrl, .parsedUrl, .content,
    .contentHref, .contentText, .contentParagraph, .text, .words} := rfl
  rw [hsum, hchan]
  simp only [Finset.mem_insert, Finset.mem_singleton, reduceCtorEq, or_self, not_false_eq_true,
    Finset.sum_insert, Finset.sum_singleton]
  have h₁ := (hput .filteredUrl (by simp)).trans hfiltered
  have h₂ := (hput .parsedUrl (by simp)).trans hparsed
  have h₃ := (hput .content (by simp)).trans hcontent
  have h₄ := (hput .contentHref (by simp)).trans hhref
  have h₅ := (hput .contentText (by simp)).trans htext
  have h₆ := (hput .contentParagraph (by simp)).trans hpara
  have h₇ := (hput .text (by simp)).trans hplain
  have h₈ := (hput .words (by simp)).trans hwords
  rw [itemBound]
  generalize maxUrls * pageSize * (pageSize + 1) * pageSize = x₁ at *
  generalize maxUrls * pageSize * (pageSize + 1) = x₂ at *
  generalize maxUrls * pageSize = x₃ at *
  omega

/-! ### The end -/

lemma closed_mono (hs : s.step a = some s') (hc : s.closed c = true) : s'.closed c = true := by
  have hshut : ∀ d, Function.update s.closed d true c = true := by
    intro d
    rw [Function.update_apply]
    split_ifs
    · rfl
    · exact hc
  cases rule_of_step hs with
  | close k d cs hk => exact hshut d
  | shut d => exact hshut d
  | _ => exact hc

/-- The main thread closes the urls once. -/
lemma countP_isShut_le {as : List (Action ε E)}
    (hm : (machine lib rx filter maxUrls).Along (Main first) s as)
    (he : (machine lib rx filter maxUrls).exec s as = some s') :
    as.countP Dataflow.Action.isShut + (s.closed .url).toNat ≤ 1 := by
  induction as generalizing s with
  | nil =>
    have := (s.closed .url).toNat_le
    simpa using this
  | cons a as ih =>
    obtain ⟨u, hu, he⟩ := Option.bind_eq_some_iff.mp he
    rw [Machine.along_cons] at hm
    have hrest := ih (hm.2 u hu) he
    have hmono : (s.closed .url).toNat ≤ (u.closed .url).toNat := by
      cases hc : s.closed .url with
      | false => exact Nat.zero_le _
      | true => rw [closed_mono hu hc]
    rw [List.countP_cons]
    cases ha : a.isShut with
    | false =>
      simp only [Bool.false_eq_true, if_false]
      omega
    | true =>
      cases a with
      | shut c =>
        obtain ⟨-, hopen, -, rfl⟩ := hm.1
        obtain rfl : s.shut .url = u := Option.some.inj hu
        have hclosed : (s.shut .url).closed .url = true := by
          show Function.update s.closed .url true .url = true
          exact Function.update_self ..
        rw [hclosed, Bool.toNat_true] at hrest
        rw [hopen, Bool.toNat_false, if_pos rfl]
        omega
      | _ => cases ha

/-- If each call of `loadContent` returns or throws, a run is bounded, and as long as it can be:
when neither a journey nor the main thread can go on, the urls are closed and every journey has
left. A server that stays silent would keep a call, and is no part of the network here. -/
theorem crawl_ends (hrx : Finds rx) (x : Net ε E) {as : List (Action ε E)}
    (hm : (machine lib rx filter maxUrls).Along (Main first) { mem := memory } as)
    (he : (machine lib rx filter maxUrls).exec { mem := memory } as = some s) :
    as.length ≤ 3 * itemBound maxUrls + 4 * Fintype.card Job + 1 ∧
    ((∀ a, Main first s a → s.step a = none) →
      s.closed .url = true ∧ ∀ k, s.phase k = .gone) := by
  have h₀ : (machine lib rx filter maxUrls : Machine (State _ _ _ _ ε E) _).ReachableBy (Main first)
    { mem := memory } := .init rfl
  have h := h₀.exec hm he
  refine ⟨?_, gone_of_stuck h x⟩
  have hcalm : (machine lib rx filter maxUrls).Along Calm { mem := memory } as := by
    refine along_of_led ?_ hm
    exact led h₀
  have hlen := length_le_work (led h₀).closing hcalm he
  have hwork := work_le (balanced h)
  have hputs := puts_le hrx h
  have hshut := countP_isShut_le hm he
  have hleave : ∑ k, ((node lib rx filter maxUrls k : Node Chan.Value (Net ε E) _).shuts.length +
      2) ≤ Fintype.card Job * 4 := by
    refine Finset.sum_le_card_nsmul Finset.univ _ 4 fun k _ => ?_
    cases k <;> simp [node, piping1toMany, piping1to1, piping1to01]
  omega

lemma finds_front : Finds frontTexts := by
  refine ⟨fun t => Nat.zero_le _, fun t => ?_, fun t p hp => ?_, fun t => Nat.zero_le _,
    fun t => ?_⟩
  · show (if t = para then [text "Hi"] else []).length ≤ _
    split_ifs with ht
    · rw [ht]
      decide
    · exact Nat.zero_le _
  · have hp : p ∈ if t = para then [text "Hi"] else [] := hp
    split_ifs at hp with ht
    · rw [ht, List.mem_singleton.mp hp]
      decide
    · cases hp
  · show (if t = text "Hi" then [t] else []).length ≤ _
    split_ifs with ht
    · rw [ht]
      decide
    · exact Nat.zero_le _

theorem crawl_ends_visit : ∃ s, crawler.exec { mem := memory } visit = some s ∧
    visit.length ≤ 3 * itemBound 1000 + 4 * Fintype.card Job + 1 := by
  have he : crawler.exec { mem := memory } visit = some _ := rfl
  exact ⟨_, he, (crawl_ends finds_front front visit_main he).1⟩

end

end Crawl

end Synca
