import Mathlib.Data.List.Nodup
import Synca.Client.Caches
import Synca.Network.Session

/-!
# What the UI is given

Whatever is handed to the UI for a key was loaded for this key and is in the memory cache; the two
caches are given the same, but for requests that are between their two writes, although events may
end a request at any other point. Once a key is in the memory cache and no request for it is under
way, it is not loaded again, and every later result is the value in the cache. With the server of
the examples, the results are greetings.
-/

namespace Synca

namespace Client

open Transition

variable {s s' : Client} {i j : ℕ} {k v : Str} {c : Cache}

lemma Kept.got_of_stored (h : s.Kept) (hj : ⟨j, k, .stored c v⟩ ∈ s.log) :
    ⟨j, k, .got v⟩ ∈ s.log := by
  obtain ⟨val, hshape⟩ := (h.good j).tale.shape
  obtain ⟨k', hk'⟩ := mem_own.mp (hshape.got_of_stored (mem_own.mpr ⟨k, hj⟩))
  obtain rfl : k = k' := (h.keys _ hj).trans (h.keys _ hk').symm
  exact hk'

/-- The first request loads the value, the second one finds it. -/
def loads : List Action :=
  [.handleKey Hello.hi, .act 0 .ask, .act 0 (.look .disk), .act 0 (.look .mem),
    .act 0 (.report .mem), .act 0 (.report .disk), .act 0 .resume, .act 0 .enter,
    .act 0 (.get (Hello.hi ++ Hello.world)), .act 0 .leave, .act 0 .guard, .act 0 (.store .mem),
    .act 0 (.store .disk), .act 0 .unguard, .act 0 .handleResult, .act 0 .finish]

def finds : List Action :=
  [.handleKey Hello.hi, .act 1 .ask, .act 1 (.look .mem), .act 1 (.look .disk),
    .act 1 (.report .mem), .act 1 .resume, .act 1 .handleResult]

/-- What the memory cache holds for a key and what is handed to the UI for it was loaded from the
network for this key, and written to the memory cache, by one request; a request that has loaded a
value itself has written it to both caches before. All a request loads, writes and hands over is
one value, and each once at most. -/
theorem coherent (h : machine.Reachable s) :
    (∀ k v, s.map k = some v → ∃ j, ⟨j, k, .got v⟩ ∈ s.log ∧ ⟨j, k, .stored .mem v⟩ ∈ s.log) ∧
    (∀ i k v, ⟨i, k, .result v⟩ ∈ s.log →
      (∃ j, ⟨j, k, .got v⟩ ∈ s.log ∧ ⟨j, k, .stored .mem v⟩ ∈ s.log) ∧
      ∀ w, .got w ∈ s.own i → ∀ c, .stored c v ∈ s.own i) ∧
    ∀ i, (s.own i).Nodup ∧ ∃ val, ∀ e ∈ s.own i, e.val = val := by
  have hK := inductive_kept.holds h
  have hstored : ∀ k v, s.Stored k v →
      ∃ j, ⟨j, k, .got v⟩ ∈ s.log ∧ ⟨j, k, .stored .mem v⟩ ∈ s.log :=
    fun k v hv => hv.imp fun j hj => ⟨hK.got_of_stored hj, hj⟩
  refine ⟨fun k v hm => hstored k v (hK.map k v hm), fun i k v hr => ⟨?_, fun w hw c => ?_⟩,
    fun i => ?_⟩
  · exact hstored k v (hK.results i k v hr)
  · obtain ⟨val, hshape⟩ := (hK.good i).tale.shape
    exact hshape.stored_of_result (mem_own.mpr ⟨k, hr⟩) hw c
  · obtain ⟨val, hshape⟩ := (hK.good i).tale.shape
    exact ⟨hshape.nodup, val, fun e => hshape.val_eq⟩

theorem coherent_finds : ∃ s, machine.exec {} (loads ++ finds) = some s ∧
    ∃ j, ⟨j, Hello.hi, .got (Hello.hi ++ Hello.world)⟩ ∈ s.log := by
  have he : machine.exec {} (loads ++ finds) = some _ := rfl
  obtain ⟨⟨j, hj, -⟩, -⟩ := (coherent (.of_exec rfl he)).2.1 1 Hello.hi (Hello.hi ++ Hello.world)
    (by decide)
  exact ⟨_, he, j, hj⟩

/-- The writes to a cache: the request, the key and the value. -/
def written (s : Client) (c : Cache) : List (ℕ × Str × Str) :=
  s.log.filterMap fun x =>
    if x.effect = .stored c x.effect.val then some (x.request, x.key, x.effect.val) else none

lemma mem_written : (i, k, v) ∈ s.written c ↔ ⟨i, k, .stored c v⟩ ∈ s.log := by
  simp only [written, List.mem_filterMap, Option.ite_none_right_eq_some, Option.some.injEq]
  constructor
  · rintro ⟨⟨_, _, e⟩, hx, he, hv⟩
    obtain ⟨rfl, rfl, rfl⟩ := hv
    exact he ▸ hx
  · exact fun hx => ⟨_, hx, rfl, rfl⟩

lemma nodup_written (h : s.log.Nodup) : (s.written c).Nodup := by
  refine List.Nodup.filterMap (fun x y b hx hy => ?_) h
  simp only [Option.mem_def, Option.ite_none_right_eq_some, Option.some.injEq] at hx hy
  obtain ⟨hx, rfl⟩ := hx
  obtain ⟨hy, hb⟩ := hy
  obtain ⟨_, _, e⟩ := x
  obtain ⟨_, _, d⟩ := y
  obtain ⟨rfl, hb⟩ := Prod.mk.inj hb
  obtain ⟨rfl, hb⟩ := Prod.mk.inj hb
  simp only at hx hy hb
  rw [hx, hy, hb]

/-- The two caches were given the same by the same requests, exactly when no request is between its
two writes. -/
theorem caches_agree (h : machine.Reachable s) :
    (s.written .disk).Perm (s.written .mem) ↔
      ∀ i val done, (s.request i).pos = .storing val done → done .disk = done .mem := by
  have hK := inductive_kept.holds h
  rw [List.perm_ext_iff_of_nodup (nodup_written hK.nodup) (nodup_written hK.nodup)]
  constructor
  · intro hw i val done hp
    have htale := (hK.good i).tale
    rw [hp] at htale
    have hstored : ∀ c, (i, (s.request i).key, val) ∈ s.written c ↔ done c = true := by
      intro c
      rw [mem_written, hK.mem_log_iff, htale.stored_of_storing]
      simp
    exact Bool.eq_iff_iff.mpr ((hstored _).symm.trans ((hw _).trans (hstored _)))
  · rintro hs ⟨i, k, v⟩
    have hiff := (hK.good i).tale.stored_iff (hs i) v
    rw [mem_written, mem_written, hK.mem_log_iff, hK.mem_log_iff, hiff]

theorem caches_agree_loads : ∃ s, machine.exec {} loads = some s ∧
    (s.written .disk).Perm (s.written .mem) ∧
    s.written .disk = [(0, Hello.hi, Hello.hi ++ Hello.world)] := by
  have he : machine.exec {} loads = some _ := rfl
  refine ⟨_, he, (caches_agree (.of_exec rfl he)).mpr fun i val done hp => ?_, rfl⟩
  rcases i with _ | i <;> cases hp

/-! ### Greetings -/

section

variable {signed : Bool} {cap : ℕ}

/-- What `Network::get` returns is what a session with the server has given it. -/
def Networked (signed : Bool) (cap : ℕ) (s : Client) : Action → Prop
  | .act i (.get val) => ∃ c, (Hello.session signed cap (s.request i).key).Reachable c ∧
      (c.party false).pos = .inl (.returned val)
  | _ => True

/-- What a step adds to the log. -/
lemma log_of_step {a : Action} (hs : s.step a = some s') : s'.log = s.log ∨
    ∃ i b r e, a = .act i b ∧
      (s.request i).step (s.map (s.request i).key) b = some (.goes r (some e)) ∧
      s'.log = s.log ++ [⟨i, (s.request i).key, e⟩] := by
  cases a with
  | handleKey key =>
    simp only [step] at hs
    split_ifs at hs
    cases hs
    exact .inl rfl
  | act i b =>
    simp only [step] at hs
    split_ifs at hs
    obtain ⟨o, ho, rfl⟩ := Option.map_eq_some_iff.mp hs
    cases o with
    | terminates | faults => exact .inl rfl
    | goes r e =>
      cases e with
      | none => exact .inl rfl
      | some e =>
        refine .inr ⟨i, b, r, e, rfl, ho, ?_⟩
        show s.log ++ [⟨i, ((s.setRequest i r).request i).key, e⟩] = _
        rw [Kept.key_setRequest (Request.key_of_step ho)]

/-- What a session gives for a key that is not too long. -/
lemma got_greets (h : machine.ReachableBy (Networked signed cap) s) (hv : ⟨i, k, .got v⟩ ∈ s.log)
    (hk : k.length ≤ Hello.limit signed) : v = k ++ Hello.world := by
  induction h with
  | init h₀ =>
    obtain rfl : _ = ({} : Client) := h₀
    cases hv
  | step _ hC hs ih =>
    rcases log_of_step hs with hlog | ⟨j, b, r, e, rfl, hr, hlog⟩
    · exact ih (hlog ▸ hv)
    · rw [hlog, List.mem_append, List.mem_singleton] at hv
      rcases hv with hv | hv
      · exact ih hv
      · obtain ⟨rfl, rfl, rfl⟩ := Entry.mk.inj hv
        cases Request.rule_of_step hr with
        | get val hp =>
          obtain ⟨c, hc, hval⟩ := hC
          exact (Hello.returned_of_sound (Hello.sound_session hc) hval).2.mpr hk

/-- The client and the server together: what is handed to the UI for a key that is not too long, and
what the memory cache holds for it, is the key and `" world!"`. -/
theorem results_greet (h : machine.ReachableBy (Networked signed cap) s)
    (hk : k.length ≤ Hello.limit signed) :
    (∀ i v, ⟨i, k, .result v⟩ ∈ s.log → v = k ++ Hello.world) ∧
    ∀ v, s.map k = some v → v = k ++ Hello.world := by
  have hK := inductive_kept.holds h.reachable
  have hstored : ∀ v, s.Stored k v → v = k ++ Hello.world := by
    rintro v ⟨j, hj⟩
    exact got_greets h (hK.got_of_stored hj) hk
  exact ⟨fun i v hr => hstored v (hK.results i k v hr), fun v hm => hstored v (hK.map k v hm)⟩

theorem results_greet_finds : ∃ s, machine.exec {} (loads ++ finds) = some s ∧
    s.map Hello.hi = some (Hello.hi ++ Hello.world) := by
  have he : machine.exec {} (loads ++ finds) = some _ := rfl
  have hsession : ∃ c, (Hello.session true 10 Hello.hi).Reachable c ∧
      (c.party false).pos = .inl (.returned (Hello.hi ++ Hello.world)) := by
    have he : (Hello.session true 10 Hello.hi).exec
      (Dialogue.start (Hello.begins (.writeSize Hello.hi))) Hello.greets = some _ := rfl
    exact ⟨_, .of_exec rfl he, rfl⟩
  have hC : machine.Along (Networked true 10) {} (loads ++ finds) :=
    ⟨trivial, trivial, trivial, trivial, trivial, trivial, trivial, trivial, hsession, trivial,
      trivial, trivial, trivial, trivial, trivial, trivial, trivial, trivial, trivial, trivial,
      trivial, trivial, trivial, trivial⟩
  have hgreet := results_greet (.exec (.init rfl) hC he) (k := Hello.hi) (by decide)
  exact ⟨_, he, congrArg some (hgreet.1 1 _ (by decide))⟩

end

/-! ### A key that is in the cache -/

/-- A child has found the value, or is going to. -/
def Child.Finds (v : Str) : Cache → Child → Prop
  | .mem,  x => x = .apart ∨ x = .has (some v) ∨ x = .over
  | .disk, x => x = .apart ∨ x = .has none ∨ x = .over

/-- A request that has the value `v`, or is going to find it. -/
def Request.Settled (v : Str) (r : Request) : Prop :=
  match r.pos with
  | .absent    => True
  | .fresh     => r.answer = none ∧ ∀ c, r.child c = .unmade
  | .asking    => (∀ c, (r.child c).Finds v c) ∧
    (r.answer = none ∧ r.child .mem ≠ .over ∨ r.answer = some (some v))
  | .showing w => w = v
  | .shown     => True
  | .ended     => True
  | _          => False

structure Settled (k v : Str) (s : Client) : Prop where
  map : s.map k = some v
  request : ∀ i, (s.request i).key = k → (s.request i).Settled v

namespace Request

variable {r r' : Request} {a : Turn} {e : Option Effect}

lemma Settled.of_pos (h : r.Settled v) (hp : r'.pos = r.pos) (ha : r.pos ≠ .asking)
    (hf : r.pos ≠ .fresh) : r'.Settled v := by
  unfold Settled at h ⊢
  rw [hp]
  cases hr : r.pos with
  | asking => exact absurd hr ha
  | fresh => exact absurd hr hf
  | _ =>
    rw [hr] at h
    exact h

lemma settled_asking (hp : r.pos = .asking) : r.Settled v ↔ (∀ c, (r.child c).Finds v c) ∧
    (r.answer = none ∧ r.child .mem ≠ .over ∨ r.answer = some (some v)) := by
  simp only [Settled, hp]

@[simp] lemma pos_tryProceed (r : Request) (res : Option Str) :
    (r.tryProceed res).pos = r.pos := by
  unfold tryProceed
  split_ifs <;> rfl

@[simp] lemma pos_release (r : Request) (c : Cache) : (r.release c).pos = r.pos := by
  unfold release
  split_ifs <;> simp [setChild]

lemma tryProceed_of_answer {res res' : Option Str} (h : r.answer = some res') :
    r.tryProceed res = r := by
  simp [Request.tryProceed, h]

/-- A child that is over does not change what was answered. -/
lemma release_of_answer {c : Cache} {res : Option Str} (h : r.answer = some res) :
    r.release c = r.setChild c .over := by
  unfold release
  split_ifs
  · exact tryProceed_of_answer h
  · rfl

lemma finds_setChild {c : Cache} {x : Child} (h : ∀ d, (r.child d).Finds v d) (hx : x.Finds v c)
    (d : Cache) : ((r.setChild c x).child d).Finds v d := by
  simp only [setChild, Function.update_apply]
  split_ifs with hd
  · exact hd ▸ hx
  · exact h d

lemma Settled.report {c : Cache} {val : Str} (h : r.Settled v) (hc : r.child c = .has (some val)) :
    ((r.tryProceed (some val)).release c).Settled v := by
  by_cases hp : r.pos = .asking
  · obtain ⟨hfinds, hans⟩ := (settled_asking hp).mp h
    obtain rfl : val = v := by
      have hf := hfinds c
      rw [hc] at hf
      cases c with
      | disk => simp [Child.Finds] at hf
      | mem => simpa [Child.Finds] using hf
    -- whoever answers, the answer is the value
    have hanswer : (r.tryProceed (some val)).answer = some (some val) := by
      rcases hans with ⟨hn, -⟩ | hs
      · simp [Request.tryProceed, hn]
      · rw [tryProceed_of_answer hs, hs]
    have hchild : (r.tryProceed (some val)).child = r.child := by
      unfold Request.tryProceed
      split_ifs <;> rfl
    rw [release_of_answer hanswer]
    refine (settled_asking (by simpa [setChild] using hp)).mpr ⟨?_, .inr hanswer⟩
    refine finds_setChild (fun d => hchild ▸ hfinds d) ?_
    cases c <;> simp [Child.Finds]
  · refine h.of_pos (by simp) hp fun hf => ?_
    rw [Settled, hf] at h
    cases (h.2 c).symm.trans hc

lemma Settled.reportNone {c : Cache} (h : r.Settled v) (hc : r.child c = .has none) :
    (r.release c).Settled v := by
  by_cases hp : r.pos = .asking
  · obtain ⟨hfinds, hans⟩ := (settled_asking hp).mp h
    obtain rfl : c = .disk := by
      have hf := hfinds c
      rw [hc] at hf
      cases c
      · rfl
      · simp [Child.Finds] at hf
    have hset : (r.setChild .disk .over).Settled v := by
      have hp' : (r.setChild .disk .over).pos = .asking := hp
      refine (settled_asking hp').mpr ⟨finds_setChild hfinds ?_, by simpa [setChild] using hans⟩
      simp [Child.Finds]
    rcases hans with ⟨hn, hm⟩ | hs
    · have hne : ¬ ∀ d, (r.setChild .disk .over).child d = .over :=
        fun hall => hm (by simpa [setChild] using hall .mem)
      rwa [Request.release, if_neg hne]
    · rwa [release_of_answer hs]
  · refine h.of_pos (by simp) hp fun hf => ?_
    rw [Settled, hf] at h
    cases (h.2 c).symm.trans hc

lemma Settled.step (h : r.Settled v) (hs : r.step (some v) a = some (.goes r' e)) :
    r'.Settled v ∧ (e = none ∨ e = some (.result v)) := by
  cases rule_of_step hs with
  | set e hp =>
    refine ⟨?_, .inl rfl⟩
    unfold Settled at h ⊢
    exact h
  | thrown a ev hp hs => exact ⟨trivial, .inl rfl⟩
  | ask ev hp =>
    simp only [Settled, hp] at h
    refine ⟨⟨fun c => ?_, .inl ⟨h.1, ?_⟩⟩, .inl rfl⟩
    · cases c <;> exact .inl rfl
    · simp
  | look c hc hp =>
    obtain ⟨hfinds, hans⟩ := (settled_asking hp).mp h
    have hp' : (r.setChild c (.has (lookup (some v) c))).pos = .asking := hp
    refine ⟨(settled_asking hp').mpr ⟨finds_setChild hfinds ?_, ?_⟩, .inl rfl⟩
    · cases c <;> simp [Child.Finds, lookup]
    · refine hans.imp_left fun hn => ⟨hn.1, ?_⟩
      cases c <;> simp [setChild, hn.2]
  | report c val hc => exact ⟨h.report hc, .inl rfl⟩
  | reportNone c hc => exact ⟨h.reportNone hc, .inl rfl⟩
  | resume ev val hp ha =>
    obtain ⟨-, ⟨hn, -⟩ | hs⟩ := (settled_asking hp).mp h
    · cases hn.symm.trans ha
    · have hval : val = v := by simpa [hs] using ha.symm
      exact ⟨hval, .inl rfl⟩
  | miss ev hp ha =>
    obtain ⟨-, ⟨hn, -⟩ | hs⟩ := (settled_asking hp).mp h
    · cases hn.symm.trans ha
    · cases hs.symm.trans ha
  | handleResult ev val hp =>
    simp only [Settled, hp] at h
    exact ⟨trivial, .inr (by rw [h])⟩
  | finish ev hp => exact ⟨trivial, .inl rfl⟩
  | enter ev hp | get val hp | leave ev val hp | guard ev val hp =>
    simp only [Settled, hp] at h
  | store c val done hp hc => simp only [Settled, hp] at h
  | unguard ev val done hp hd hm => simp only [Settled, hp] at h

end Request

lemma map_effect_of_ne {e : Effect} (hk : k ≠ (s.request i).key) :
    (s.effect i e).map k = s.map k := by
  unfold effect
  split
  · exact Function.update_of_ne hk _ _
  · rfl

lemma Settled.setRequest {r : Request} (h : s.Settled k v) (hr : r.key = k → r.Settled v) :
    (s.setRequest i r).Settled k v where
  map := h.map
  request j hj := by
    rw [request_setRequest] at hj ⊢
    split_ifs at hj ⊢
    · exact hr hj
    · exact h.request j hj

/-- A step adds nothing for the key but results, which are the value. -/
lemma Settled.step {a : Action} (h : s.Settled k v) (hs : s.step a = some s') :
    s'.Settled k v ∧ ∀ x ∈ s'.log, x.key = k → x ∈ s.log ∨ x.effect = .result v := by
  cases a with
  | handleKey key =>
    simp only [Client.step] at hs
    split_ifs at hs
    cases hs
    have hset := h.setRequest (i := s.requests) (r := { key := key, pos := .fresh })
      fun _ => ⟨rfl, fun _ => rfl⟩
    exact ⟨⟨hset.map, hset.request⟩, fun x hx _ => .inl hx⟩
  | act i b =>
    simp only [Client.step] at hs
    split_ifs at hs
    obtain ⟨o, ho, rfl⟩ := Option.map_eq_some_iff.mp hs
    cases o with
    | terminates | faults => exact ⟨⟨h.map, h.request⟩, fun x hx _ => .inl hx⟩
    | goes r e =>
      have hkey := Request.key_of_step ho
      have hturn : r.key = k → r.Settled v ∧ (e = none ∨ e = some (.result v)) := by
        intro hk
        rw [← hkey, hk, h.map] at ho
        exact (h.request i (hkey ▸ hk)).step ho
      have hset : (s.setRequest i r).Settled k v := h.setRequest fun hk => (hturn hk).1
      cases e with
      | none => exact ⟨hset, fun x hx _ => .inl hx⟩
      | some e =>
        have hkeyr : ((s.setRequest i r).request i).key = r.key := by simp
        by_cases hk : r.key = k
        · obtain he | he := (hturn hk).2
          · cases he
          obtain rfl := Option.some_injective _ he
          refine ⟨⟨hset.map, hset.request⟩, fun x hx _ => ?_⟩
          refine (List.mem_append.mp hx).imp_right fun hx => ?_
          rw [List.mem_singleton.mp hx]
        · refine ⟨⟨?_, hset.request⟩, fun x hx hxk => ?_⟩
          · exact (map_effect_of_ne (hkeyr ▸ Ne.symm hk)).trans hset.map
          · refine (List.mem_append.mp hx).imp_right fun hx => ?_
            rw [List.mem_singleton.mp hx, hkeyr] at hxk
            exact absurd hxk hk

/-- Once a key is in the memory cache and no request for it is under way, it is never loaded or
written again, and every later result for it is the value in the cache. -/
theorem settled_of_exec {as : List Action} (hm : s.map k = some v)
    (hr : ∀ i, (s.request i).key = k →
      (s.request i).pos = .absent ∨ (s.request i).pos = .shown ∨ (s.request i).pos = .ended)
    (he : machine.exec s as = some s') :
    s'.map k = some v ∧ ∀ x ∈ s'.log, x.key = k → x ∈ s.log ∨ x.effect = .result v := by
  have hset : s.Settled k v := by
    refine ⟨hm, fun i hi => ?_⟩
    rcases hr i hi with h | h | h <;> simp only [Request.Settled, h]
  clear hm hr
  induction as generalizing s with
  | nil =>
    obtain rfl : s = s' := by simpa using he
    exact ⟨hset.map, fun x hx _ => .inl hx⟩
  | cons a as ih =>
    obtain ⟨u, hu, he⟩ := Option.bind_eq_some_iff.mp he
    obtain ⟨hset', hlog⟩ := hset.step hu
    obtain ⟨hmap, hrest⟩ := ih he hset'
    refine ⟨hmap, fun x hx hk => ?_⟩
    rcases hrest x hx hk with hx | hx
    · exact hlog x hx hk
    · exact .inr hx

/-- The client after the first request. -/
def loaded : Client := (machine.exec {} loads).getD {}

theorem settled_of_exec_finds : ∃ s, machine.exec loaded finds = some s ∧ ∀ x ∈ s.log,
    x.key = Hello.hi → x ∈ loaded.log ∨ x.effect = .result (Hello.hi ++ Hello.world) := by
  have he : machine.exec loaded finds = some _ := rfl
  refine ⟨_, he, (settled_of_exec rfl (fun i _ => ?_) he).2⟩
  rcases i with _ | i
  · exact .inr (.inr rfl)
  · exact .inl rfl

end Client

end Synca
