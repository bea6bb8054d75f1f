import Synca.Runtime.Step

/-!
# Rules of the runtime

The step function as a relation, one rule for each action, and the two ways `handleEvents` can end.
-/

namespace Synca

open Transition

namespace Runtime

/-- The rules: the condition of an action and the state it leads to. -/
inductive Rule (s : Runtime) : Action → Runtime → Prop where
  | dispatch (t : ℕ) (k : Task) (h : s.Takes t k) : Rule s (.dispatch t k) (s.dispatch t k)
  | leave (t j : ℕ) (op : Op) (h : s.Runs t j (.resumed op)) :
      Rule s (.leave t j) (s.leave t j op)
  | jump (t j : ℕ) (h : s.stage t j = some .switched) : Rule s (.jump t j) (s.jump t j)
  | exit (t j : ℕ) (fails : Bool) (h : s.stage t j = some .exiting) :
      Rule s (.exit t j fails) (s.onExit0 t j fails)
  | launch (t j k : ℕ) (h : s.stage t j = some (.loop k)) : Rule s (.launch t j) (s.launch t k)
  | finish (t j : ℕ) (x : Exec) (hx : (s.thread t).exec = some x) (hj : x.journey = j)
      (h : x.stage = .finishing) : Rule s (.finish t j) (s.finish t j x)
  | go (t : ℕ) (d : Option ℕ) (d' : ℕ) (h : s.MayCall t) (hd : (d <|> s.dflt) = some d') :
      Rule s (.go t d) (s.create d' none)
  | request (t j : ℕ) (r : Request) (h : s.Calls t j) (hr : r.Accepted) :
      Rule s (.request t j r) (s.request t j r)
  | get (t j c : ℕ) (h : s.Calls t j) (hm : (s.channel c).mutex = none) :
      Rule s (.get t j c) (s.get t j c)
  | portal (t j d : ℕ) (h : s.Calls t j) : Rule s (.portal t j d)
      (s.teleport t j d (.portal (s.journey j).sched (s.via t)))
  | timeout (t j : ℕ) (h : s.Calls t j) : Rule s (.timeout t j) (s.openTimeout j)
  | guard (t j : ℕ) (h : s.Calls t j) : Rule s (.guard t j) (s.disableEvents t j true)
  | destructor (t j : ℕ) (h : s.Runs t j .user) : Rule s (.destructor t j) (s.openDestructor j)
  | closeScope (t j : ℕ) (f : Frame) (fs : List Frame) (h : s.Runs t j .user)
      (hf : (s.journey j).frames = f :: fs) : Rule s (.closeScope t j)
        ((s.mapJourney j fun x => { x with frames := fs }).closeScope t j f)
  | poll (t j k : ℕ) (h : s.Runs t j (.polling k)) : Rule s (.poll t j) (s.poll t j k)
  | handleEvents (t j : ℕ) (h : s.Calls t j) : Rule s (.handleEvents t j) (s.checkEvents t j)
  | disableEvents (t j : ℕ) (h : s.Calls t j) :
      Rule s (.disableEvents t j) (s.disableEvents t j false)
  | enableEvents (t j : ℕ) (h : s.Calls t j) :
      Rule s (.enableEvents t j) ((s.allowEvents j).checkEvents t j)
  | throw (t j : ℕ) (e : Exn) (h : s.Calls t j) :
      Rule s (.throw t j e) ((s.addUncaught t 1).fly j e)
  | catching (t j : ℕ) (h : s.Runs t j .user) (he : (s.journey j).flight ≠ none) :
      Rule s (.catching t j) ((s.addUncaught t (-1)).mapJourney j fun x =>
        { x with flight := none })
  | ret (t j : ℕ) (v : Option ℕ) (h : s.Calls t j) (hf : (s.journey j).frames = []) :
      Rule s (.ret t j v) (s.ret j v)
  | escape (t j : ℕ) (e : Exn) (h : s.Runs t j .user) (he : (s.journey j).flight = some e)
      (hf : (s.journey j).frames = []) : Rule s (.escape t j)
        ((s.addUncaught t (-1)).mapJourney j fun x =>
          { x with ctx := .closing, flight := none, coro := { x.coro with exc := e = .other } })
  | endCoro (t j : ℕ) (h : s.Runs t j .closing) : Rule s (.endCoro t j) (s.endCoro t j)
  | put (t c v : ℕ) (h : s.MayCall t) (hm : (s.channel c).mutex = none) :
      Rule s (.put t c v) (s.put t c v)
  | handOff (t v w : ℕ) (h : (s.thread t).call = .handing v w) :
      Rule s (.handOff t) ((s.setCall t .idle).fire w (some v))
  | opening (t c : ℕ) (h : s.MayCall t) (hm : (s.channel c).mutex = none) :
      Rule s (.opening t c) (s.mapChannel c fun x => { x with closed := false })
  | close (t c : ℕ) (h : s.MayCall t) (hm : (s.channel c).mutex = none) :
      Rule s (.close t c) (s.close t c)
  | closeNext (t w : ℕ) (ws : List ℕ) (h : (s.thread t).call = .walking (w :: ws)) :
      Rule s (.closeNext t) ((s.setCall t (.walking ws)).fire w none)
  | closeEnd (t : ℕ) (h : (s.thread t).call = .walking []) :
      Rule s (.closeNext t) (s.setCall t .idle)
  | cancel (j : ℕ) (h : 0 < j ∧ j ≤ s.created) : Rule s (.cancel j) (s.cancel j)
  | expire (k : ℕ) (h : (s.timer k).phase = .armed) :
      Rule s (.expire k) (s.mapTimer k fun x => { x with phase := .due })
  | callback (k : ℕ) (h : (s.timer k).phase = .due) : Rule s (.callback k) (s.callback k)
  | complete (i : ℕ) (error : Bool) (h : (s.io i).pending = true) :
      Rule s (.complete i error) (s.complete i error)
  | attach (d : Option ℕ) : Rule s (.attach d) { s with dflt := d }

lemma Rule.of_stepLive {s s' : Runtime} {a : Action} (h : s.stepLive a = some s') :
    Rule s a s' := by
  cases a with
  | leave t j =>
    simp only [stepLive] at h
    split at h
    case h_2 => cases h
    case h_1 op hc =>
      split_ifs at h with hr
      cases h
      exact .leave t j op hr
  | launch t j =>
    simp only [stepLive] at h
    split at h <;> cases h
    exact .launch t j _ ‹_›
  | finish t j =>
    simp only [stepLive] at h
    split at h
    case h_2 => cases h
    case h_1 x hx =>
      split_ifs at h with hg
      cases h
      exact .finish t j x hx hg.1 hg.2
  | go t d =>
    simp only [stepLive] at h
    split at h
    case h_2 => cases h
    case h_1 d' hd =>
      split_ifs at h with hg
      cases h
      exact .go t d d' hg hd
  | closeScope t j =>
    simp only [stepLive] at h
    split at h
    case h_2 => cases h
    case h_1 f fs hf =>
      split_ifs at h with hr
      cases h
      exact .closeScope t j f fs hr hf
  | poll t j =>
    simp only [stepLive] at h
    split at h
    case h_2 => cases h
    case h_1 k hc =>
      split_ifs at h with hr
      cases h
      exact .poll t j k hr
  | escape t j =>
    simp only [stepLive] at h
    split at h
    case h_2 => cases h
    case h_1 e he hf =>
      split_ifs at h with hr
      cases h
      exact .escape t j e hr he hf
  | handOff t =>
    simp only [stepLive] at h
    split at h <;> cases h
    exact .handOff t _ _ ‹_›
  | closeNext t =>
    simp only [stepLive] at h
    split at h <;> cases h
    · exact .closeNext t _ _ ‹_›
    · exact .closeEnd t ‹_›
  | attach d =>
    cases h
    exact .attach d
  | dispatch t k | jump t j | exit t j f | portal t j d | timeout t j | guard t j
  | destructor t j | handleEvents t j | disableEvents t j | enableEvents t j | throw t j e
  | endCoro t j | cancel j | expire k | callback k | complete i e =>
    simp only [stepLive] at h
    split_ifs at h with hg
    cases h
    constructor
    exact hg
  | request t j r | get t j c | catching t j | ret t j v | put t c v | opening t c | close t c =>
    simp only [stepLive] at h
    split_ifs at h with hg
    cases h
    constructor
    · exact hg.1
    · exact hg.2

lemma Rule.of_step {s s' : Runtime} {a : Action} (h : step s a = some s') : Rule s a s' := by
  unfold step at h
  split_ifs at h
  exact .of_stepLive h

variable {s s' : Runtime} {t j : ℕ}

/-- After `std::terminate` there is no step. -/
lemma live_of_step {a : Action} (h : step s a = some s') : s.terminated = false := by
  by_contra ht
  rw [step, if_pos (.inl (by simpa using ht))] at h
  cases h

lemma via_of_exec {x : Exec} (hx : (s.thread t).exec = some x) : s.via t = x.via := by
  rw [via, hx]

/-! ### Polls -/

lemma handleEvents_of_not_deliverable
    (h : ¬ (s.journey j).events.Deliverable (s.uncaught t)) : s.handleEvents t j = (none, s) := by
  unfold handleEvents
  rw [Events.handleEvents_of_not_deliverable h]
  simp [mapJourney]

lemma handleEvents_of_deliverable (h : (s.journey j).events.Deliverable (s.uncaught t)) :
    s.handleEvents t j = (some (.event ⟨(s.journey j).events.gr.status⟩),
      s.deliver t j { (s.journey j).events with gr := {} }) := by
  unfold handleEvents
  rw [Events.handleEvents_of_deliverable h]

end Runtime

end Synca
