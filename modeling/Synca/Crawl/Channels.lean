import Synca.Crawl.Ending
import Synca.Data.Rest

/-!
# The crawler on channels

The journeys of `processing` with real channels for their queues. The main thread puts the first
url; each of its waits returns when no task is left. Whatever the steps inside the calls, each state
is shown by a state of the network of `Synca.Crawl.Pages`, reached with the main thread doing what
is said there.
-/

namespace Synca

namespace Crawl

open Transition Dataflow Data

section

variable {ε E : Type} (lib : Lib) (rx : Texts) (filter : Str) (maxUrls : ℕ)

abbrev Channels (ε E : Type) :=
  Fabric (node lib rx filter maxUrls : ∀ k, Node Chan.Value (Net ε E) (Memory k))

def channels (journey : Job → ℕ) : Machine (Channels lib rx filter maxUrls ε E)
    (Fabric.Action Job (Net ε E) Chan.Value) :=
  Fabric.machine (node lib rx filter maxUrls) journey memory

variable {lib rx filter maxUrls}

/-- What the main thread does. It closes the urls when its first wait has returned. -/
def Told (first : Str) (s : Channels lib rx filter maxUrls ε E) :
    Fabric.Action Job (Net ε E) Chan.Value → Prop
  | .feed v => s.feeds = [] ∧ v = ⟨.url, first⟩
  | .shut c => s.feeds ≠ [] ∧ s.Idle ∧ c = .url
  | _       => True

variable {first : Str} {journey : Job → ℕ} {s s' : Channels lib rx filter maxUrls ε E}
  {d : State lib rx filter maxUrls ε E} {a : Fabric.Action Job (Net ε E) Chan.Value}
  {x : Option (Chan × ℕ)} {y : Place Chan.Value}

/-- The first wait has returned, and the urls are not closed. -/
structure Ready (s : Channels lib rx filter maxUrls ε E) (x : Option (Chan × ℕ)) : Prop where
  quiet : s.Quiet x
  fed : s.feeds ≠ []
  opened : (s.chan .url).closed = false

/-- Where the main thread stands. -/
def Stands (s : Channels lib rx filter maxUrls ε E) : Place Chan.Value → Prop
  | .looping _ | .putting _ _ _ => (s.chan .url).closed = false
  | .leaving cs =>
    cs = [.url] ∧ Ready s none ∨ cs = [] ∧ (s.chan .url).closed = true
  | .closing c p cs => c = .url ∧ cs = [] ∧
    ((s.chan .url).call p = .closing ∧ Ready s (some (.url, p)) ∨
      (s.chan .url).call p ≠ .closing ∧ (s.chan .url).closed = true)
  | _ => False

structure Guided (first : Str) (s : Channels lib rx filter maxUrls ε E) : Prop where
  feeds : s.feeds = [] ∨ s.feeds = [⟨.url, first⟩]
  stands : Stands s (s.post none)

/-- Only the main thread closes the urls, as long as they are open. -/
lemma exists_closing (hS : s.Sound)
    (hd : (machine lib rx filter maxUrls).ReachableBy (Main first) d) (hshown : s.Shown d)
    (hopen : (s.chan .url).closed = false)
    (hs : Fabric.step journey s a = some s') (hc : (s'.chan .url).closed = true) :
    ∃ p cs, s.post none = .closing .url p cs := by
  rcases Fabric.closed_of_step hs hc with hc | ⟨p, hp⟩
  · rw [hopen] at hc
    cases hc
  have hdeal : (s.lanes .url).deal p = .closing := Channel.deal_of_closing hp
  obtain ⟨o, cs, ho⟩ := hS.seated.closer _ _ hdeal
  cases o with
  | none => exact ⟨p, cs, ho⟩
  | some k =>
    -- a journey that closes the urls has left after they were closed
    have hphase : d.phase k = .leaving (.url :: cs) := by
      rw [hshown.phase, ho, Fabric.view, hdeal]
    have hL := led hd
    have hurl := (hL.closed _ (hL.closing.src k (by rw [hphase]; trivial))).1
    rw [hshown.closed] at hurl
    cases hopen.symm.trans hurl

/-- Where the main thread does nothing, it stands as before. -/
lemma Stands.step (h : Stands s (s.post none)) (hS : s.Sound)
    (hd : (machine lib rx filter maxUrls).ReachableBy (Main first) d) (hshown : s.Shown d)
    (hs : Fabric.step journey s a = some s') (hpost : s'.post none = s.post none) :
    Stands s' (s'.post none) := by
  have hclosed : (s.chan .url).closed = true → (s'.chan .url).closed = true := hS.closed_step hs
  have hopen : (s.chan .url).closed = false → (∀ p cs, s.post none ≠ .closing .url p cs) →
      (s'.chan .url).closed = false := by
    intro ho hne
    by_contra hc
    obtain ⟨p, cs, hp⟩ := exists_closing hS hd hshown ho hs (by simpa using hc)
    exact hne p cs hp
  rw [hpost]
  cases hy : s.post none with
  | looping rest =>
    rw [hy] at h
    exact hopen h (by simp [hy])
  | putting v p rest =>
    rw [hy] at h
    exact hopen h (by simp [hy])
  | leaving cs =>
    rw [hy] at h
    rcases h with ⟨rfl, hr⟩ | ⟨rfl, hc⟩
    · rcases hr.quiet.step hs with hne | ⟨c, p, b, hx, -⟩
      · exact absurd hpost hne
      · cases hx
    · exact .inr ⟨rfl, hclosed hc⟩
  | closing c p cs =>
    rw [hy] at h
    obtain ⟨rfl, rfl, ⟨hp, hr⟩ | ⟨hp, hc⟩⟩ := h
    · -- nothing goes on but the section of the call
      rcases hr.quiet.step hs with hne | ⟨c, q, b, hx, rfl, hlock⟩
      · exact absurd hpost hne
      · obtain ⟨rfl, rfl⟩ := Prod.mk.inj (Option.some_injective _ hx)
        obtain rfl := hlock hp
        cases Fabric.Rule.of_step hs with
        | channel _ _ u hb hu =>
          have hu' := Channel.closed_of_lock hu hp
          rw [← Fabric.chan_setChan s .url u] at hu'
          exact ⟨rfl, rfl, .inr hu'.symm⟩
    · exact ⟨rfl, rfl, .inr ⟨fun hp' => hp (hS.closing_of_step hs hy hp'), hclosed hc⟩⟩
  | _ =>
    rw [hy] at h
    exact h.elim

/-- What the main thread does keeps where it stands. -/
lemma guided_step (h : Guided first s) (hS : s.Sound)
    (hd : (machine lib rx filter maxUrls).ReachableBy (Main first) d) (hshown : s.Shown d)
    (ht : Told first s a) (hs : Fabric.step journey s a = some s') : Guided first s' := by
  have hstay : s'.post none = s.post none → s'.feeds = s.feeds → Guided first s' :=
    fun hpost hfeeds => ⟨hfeeds ▸ h.feeds, h.stands.step hS hd hshown hs hpost⟩
  have hstands := h.stands
  cases Fabric.Rule.of_step hs with
  | put o p v rest ho hp =>
    cases o with
    | some k => exact hstay rfl rfl
    | none =>
      rw [ho] at hstands
      refine ⟨h.feeds, ?_⟩
      rw [Fabric.post_setPost]
      by_contra hc
      obtain ⟨p, cs, hp⟩ := exists_closing hS hd hshown hstands hs (by simpa [Stands] using hc)
      cases ho.symm.trans hp
  | putDone o v p rest ho hp =>
    cases o with
    | some k => exact hstay rfl rfl
    | none =>
      rw [ho] at hstands
      refine ⟨h.feeds, ?_⟩
      rw [Fabric.post_setPost]
      exact hstands
  | close o p c cs ho hp =>
    cases o with
    | some k => exact hstay rfl rfl
    | none =>
      rw [ho] at hstands
      obtain ⟨he, hr⟩ | ⟨he, -⟩ := hstands
      · obtain ⟨rfl, rfl⟩ := List.cons_eq_cons.mp he
        refine ⟨h.feeds, ?_⟩
        rw [Fabric.post_setPost]
        have hurl := Fabric.chan_setChan s .url ((s.chan .url).make p .closing)
        refine ⟨rfl, rfl, .inl ⟨(congrArg (Channel.call · p) hurl).trans ?_,
          (hr.quiet.close hp).setPost _, hr.fed, (congrArg Channel.closed hurl).trans ?_⟩⟩
        · simp [Channel.make]
        · rw [Channel.closed_make, hr.opened]
      · cases he
  | closeDone o c p cs ho hp =>
    cases o with
    | some k => exact hstay rfl rfl
    | none =>
      rw [ho] at hstands
      obtain ⟨rfl, rfl, ⟨hp', -⟩ | ⟨-, hc⟩⟩ := hstands
      · cases hp.symm.trans hp'
      · refine ⟨h.feeds, ?_⟩
        rw [Fabric.post_setPost]
        exact .inr ⟨rfl, hc⟩
  | feed v ho =>
    obtain ⟨hnil, rfl⟩ := ht
    rw [ho] at hstands
    refine ⟨.inr (by simp [hnil]), ?_⟩
    show Stands _ ((s.setPost none _).post none)
    rw [Fabric.post_setPost]
    exact hstands
  | shut c ho =>
    obtain ⟨hfed, hidle, rfl⟩ := ht
    rw [ho] at hstands
    refine ⟨h.feeds, ?_⟩
    rw [Fabric.post_setPost]
    exact .inl ⟨rfl, hidle.setPost _, hfed, hstands⟩
  | _ => exact hstay rfl rfl

lemma outer_main :
    Fabric.Outer (Main first : State lib rx filter maxUrls ε E → Action ε E → Prop) := by
  intro d a hfeed hshut
  cases a with
  | feed v => exact absurd rfl (hfeed v)
  | shut c => exact absurd rfl (hshut c)
  | _ => trivial

/-- At rest, before the urls are closed, all journeys wait. -/
lemma idle_of_atRest (hd : (machine lib rx filter maxUrls).ReachableBy (Main first) d)
    (hopen : d.closed .url = false) (hrest : d.AtRest) : Idle d := by
  have hL := led hd
  intro k
  rcases hrest k with hk | ⟨hk, hq, -⟩
  · have := (hL.closed _ (hL.closing.src k (by rw [hk]; trivial))).1
    cases hopen.symm.trans this
  · rw [src_node] at hq
    exact ⟨by rw [hk]; rfl, by rw [hq]; rfl⟩

/-- The sections of the calls of the main thread are where the network lets it feed and close. -/
lemma meets_main (h : Guided first s) (hS : s.Sound)
    (hd : (machine lib rx filter maxUrls).ReachableBy (Main first) d) (hshown : s.Shown d) :
    s.Meets (Main first) d a := by
  have hstands := h.stands
  have hfeeds := hshown.feeds
  cases a with
  | channel c b =>
    cases b with
    | lock p =>
      refine ⟨fun v rest ho hp => ?_, fun cs ho hp => ?_⟩
      · have howed : Fabric.owed s.lanes (s.post none) = ⟨c, v⟩ :: rest := by
          rw [ho, Fabric.owed, show (s.lanes c).deal p = .put v from Channel.deal_of_put hp]
        rw [howed] at hfeeds
        rcases h.feeds with hf | hf
        · rw [hf] at hfeeds
          simp at hfeeds
        · rw [hf, List.append_eq_singleton_iff] at hfeeds
          rcases hfeeds with ⟨hnil, hv⟩ | ⟨-, hv⟩
          · exact ⟨hnil, (List.cons_eq_cons.mp hv).1⟩
          · cases hv
      · rw [ho] at hstands hfeeds
        obtain ⟨rfl, rfl, ⟨-, hr⟩ | ⟨hp', -⟩⟩ := hstands
        · have hd' : d.feeds = s.feeds := (List.append_nil _).symm.trans hfeeds
          have hopen : d.closed .url = false := (hshown.closed _).trans hr.opened
          have hrest := hS.atRest hshown (fun c q hx => ?_) hr.quiet
          · exact ⟨hd' ▸ hr.fed, hopen, idle_of_atRest hd hopen hrest, rfl⟩
          · obtain ⟨rfl, rfl⟩ := Prod.mk.inj (Option.some_injective _ hx)
            exact hp
        · exact absurd hp hp'
    | _ => trivial
  | _ => trivial

/-- Every state of the crawler on channels is shown by a state of the network: the channels hold
the same and have been given the same, the journeys remember the same and have processed the same
items in the same order. When no task is left, the network is at rest; and if the urls are closed
then, all journeys have left. -/
theorem shown_of_channels
    (h : (channels lib rx filter maxUrls journey).ReachableBy (Told first) s) :
    ∃ d : State lib rx filter maxUrls ε E,
      (machine lib rx filter maxUrls).ReachableBy (Main first) d ∧
      (∀ c, d.queue c = (s.chan c).queue ∧ d.closed c = (s.chan c).closed ∧
        on c d.puts = (s.chan c).puts) ∧
      d.mem = s.mem ∧ d.runs = s.runs ∧ (s.Idle → d.AtRest) ∧
      (s.Idle → (s.chan .url).closed = true → ∀ k, s.post (some k) = .gone) := by
  obtain ⟨hS, -, d, hd, hshown⟩ := Fabric.shown_of_reachable (I := Guided first) outer_main
    ⟨.inl rfl, rfl⟩ (fun _ _ _ _ hS hd hshown h ht hs => guided_step h hS hd hshown ht hs)
    (fun _ _ _ hS hd hshown h => meets_main h hS hd hshown) h
  have hrest : s.Idle → d.AtRest := hS.atRest hshown (by simp)
  refine ⟨d, hd, fun c => ⟨hshown.queue c, hshown.closed c, ?_⟩, hshown.mem, hshown.runs, hrest,
    fun hidle hc k => ?_⟩
  · exact (hshown.puts c).trans (hS.still c).values.conserved.symm
  · have hgone := (led hd).closing.gone_of_atRest (hrest hidle) ((hshown.closed _).trans hc)
      (downstream k)
    rcases hidle.workers k with hk | ⟨g, hk, hg⟩
    · exact hk
    · rw [hshown.phase, hk, Fabric.view] at hgone
      split at hgone <;> cases hgone

end

end Crawl

end Synca
