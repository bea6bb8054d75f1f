import Mathlib.Data.List.Count
import Mathlib.Data.List.Infix
import Mathlib.Data.List.Perm.Basic
import Synca.Client.Machine

/-!
# What the caches hold

The effects of one request come in a fixed order: what the network gave, the two writes to the
caches in either order, the result. Only the program's end interrupts the writes. So a value is
shown only after it was written to the memory cache, it was written only after it was got for this
key, and the two caches are given the same.
-/

namespace Synca

namespace Client

open Transition

/-! ### The effects of a request -/

/-- The writes that are done. -/
def writes (val : Str) (done : Cache → Bool) : List Effect :=
  (if done .disk then [.stored .disk val] else []) ++ if done .mem then [.stored .mem val] else []

/-- What was got was written to both caches, or nothing was got. -/
def Whole (val : Str) (es : List Effect) : Prop :=
  es = [] ∨ ∃ ws, es = .got val :: ws ∧ ws.Perm (writes val fun _ => true)

/-- The effects of a request that stands at a position. -/
def Pos.Tale : Pos → List Effect → Prop
  | .absent,           es => es = []
  | .fresh,            es => es = []
  | .asking,           es => es = []
  | .missed,           es => es = []
  | .loading,          es => es = []
  | .loaded val,       es => es = [.got val]
  | .unguarded val,    es => es = [.got val]
  | .storing val done, es => ∃ ws, es = .got val :: ws ∧ ws.Perm (writes val done)
  | .showing val,      es => Whole val es
  | .shown,            es => ∃ ds val, Whole val ds ∧ es = ds ++ [.result val]
  | .ended,            es => ∃ val, es = [.got val] ∨ Whole val es ∨
    ∃ ds, Whole val ds ∧ es = ds ++ [.result val]

/-- An exception leaves no write undone. -/
lemma Pos.Tale.thrown {p : Pos} {es : List Effect} (h : p.Tale es)
    (hp : ∀ val done, p ≠ .storing val done) : Pos.ended.Tale es := by
  cases p with
  | storing val done => exact absurd rfl (hp val done)
  | loaded val | unguarded val => exact ⟨val, .inl h⟩
  | showing val => exact ⟨val, .inr (.inl h)⟩
  | shown =>
    obtain ⟨ds, val, hds, rfl⟩ := h
    exact ⟨val, .inr (.inr ⟨ds, hds, rfl⟩)⟩
  | ended => exact h
  | absent | fresh | asking | missed | loading => exact ⟨[], .inr (.inl (.inl h))⟩

/-- All the effects of a request have one value. -/
inductive Shape (val : Str) : List Effect → Prop where
  | nothing : Shape val []
  | result : Shape val [.result val]
  | loaded (done : Cache → Bool) (ws : List Effect) (hws : ws.Perm (writes val done)) :
      Shape val (.got val :: ws)
  | full (ws : List Effect) (hws : ws.Perm (writes val fun _ => true)) :
      Shape val (.got val :: ws ++ [.result val])

lemma Whole.shape {val : Str} {es : List Effect} (h : Whole val es) :
    Shape val es ∧ Shape val (es ++ [.result val]) := by
  rcases h with rfl | ⟨ws, rfl, hws⟩
  · exact ⟨.nothing, .result⟩
  · exact ⟨.loaded _ ws hws, .full ws hws⟩

lemma Pos.Tale.shape {p : Pos} {es : List Effect} (h : p.Tale es) : ∃ val, Shape val es := by
  cases p with
  | absent | fresh | asking | missed | loading =>
    obtain rfl : es = [] := h
    exact ⟨[], .nothing⟩
  | loaded val | unguarded val =>
    obtain rfl : es = [.got val] := h
    exact ⟨val, .loaded (fun _ => false) [] (.refl _)⟩
  | storing val done =>
    obtain ⟨ws, rfl, hws⟩ := h
    exact ⟨val, .loaded done ws hws⟩
  | showing val => exact ⟨val, Whole.shape h |>.1⟩
  | shown =>
    obtain ⟨ds, val, hds, rfl⟩ := h
    exact ⟨val, hds.shape.2⟩
  | ended =>
    obtain ⟨val, rfl | h | ⟨ds, hds, rfl⟩⟩ := h
    · exact ⟨val, .loaded (fun _ => false) [] (.refl _)⟩
    · exact ⟨val, h.shape.1⟩
    · exact ⟨val, hds.shape.2⟩

def Effect.val : Effect → Str
  | .got val      => val
  | .stored _ val => val
  | .result val   => val

lemma mem_writes {val : Str} {done : Cache → Bool} {e : Effect} :
    e ∈ writes val done ↔ ∃ c, done c = true ∧ e = .stored c val := by
  simp only [writes, List.mem_append, List.mem_ite_nil_right, List.mem_singleton]
  constructor
  · rintro (⟨hc, rfl⟩ | ⟨hc, rfl⟩)
    exacts [⟨_, hc, rfl⟩, ⟨_, hc, rfl⟩]
  · rintro ⟨c, hc, rfl⟩
    cases c
    exacts [.inl ⟨hc, rfl⟩, .inr ⟨hc, rfl⟩]

lemma nodup_writes (val : Str) (done : Cache → Bool) : (writes val done).Nodup := by
  cases hd : done .disk <;> cases hm : done .mem <;> simp [writes, hd, hm]

namespace Shape

variable {val v : Str} {es : List Effect}

lemma val_eq (h : Shape val es) {e : Effect} (he : e ∈ es) : e.val = val := by
  have hwrites : ∀ {done : Cache → Bool} {ws : List Effect}, ws.Perm (writes val done) →
      ∀ e ∈ ws, e.val = val := by
    intro done ws hws e he
    obtain ⟨c, -, rfl⟩ := mem_writes.mp (hws.mem_iff.mp he)
    rfl
  cases h with
  | nothing => cases he
  | result =>
    obtain rfl := List.mem_singleton.mp he
    rfl
  | loaded done ws hws =>
    rcases List.mem_cons.mp he with rfl | he
    · rfl
    · exact hwrites hws e he
  | full ws hws =>
    rcases List.mem_append.mp he with he | he
    · rcases List.mem_cons.mp he with rfl | he
      · rfl
      · exact hwrites hws e he
    · obtain rfl := List.mem_singleton.mp he
      rfl

lemma nodup (h : Shape val es) : es.Nodup := by
  have hgot : ∀ {done : Cache → Bool} {ws : List Effect}, ws.Perm (writes val done) →
      (Effect.got val :: ws).Nodup := by
    intro done ws hws
    refine List.nodup_cons.mpr ⟨fun hmem => ?_, hws.nodup_iff.mpr (nodup_writes val done)⟩
    obtain ⟨c, -, hc⟩ := mem_writes.mp (hws.mem_iff.mp hmem)
    cases hc
  cases h with
  | nothing => exact .nil
  | result => simp
  | loaded done ws hws => exact hgot hws
  | full ws hws =>
    refine List.nodup_append.mpr ⟨hgot hws, by simp, fun e he d hd => ?_⟩
    obtain rfl := List.mem_singleton.mp hd
    rintro rfl
    have hd : Effect.result val ∈ ws := (List.mem_cons.mp he).resolve_left (by simp)
    obtain ⟨c, -, hc⟩ := mem_writes.mp (hws.mem_iff.mp hd)
    cases hc

/-- What was written was got. -/
lemma got_of_stored (h : Shape val es) {c : Cache} (hc : .stored c v ∈ es) : .got v ∈ es := by
  obtain rfl : v = val := h.val_eq hc
  cases h with
  | nothing => cases hc
  | result => cases List.mem_singleton.mp hc
  | loaded done ws hws => exact List.mem_cons_self
  | full ws hws => exact List.mem_append_left _ List.mem_cons_self

/-- What was got was written to both caches, if there is a result. -/
lemma stored_of_result (h : Shape val es) {w : Str} (hv : .result v ∈ es) (hw : .got w ∈ es)
    (c : Cache) : .stored c v ∈ es := by
  obtain rfl : v = val := h.val_eq hv
  cases h with
  | nothing => cases hv
  | result => cases List.mem_singleton.mp hw
  | loaded done ws hws =>
    have hmem : Effect.result v ∈ ws := (List.mem_cons.mp hv).resolve_left (by simp)
    obtain ⟨c, -, hc⟩ := mem_writes.mp (hws.mem_iff.mp hmem)
    cases hc
  | full ws hws =>
    refine List.mem_append_left _ (List.mem_cons_of_mem _ (hws.mem_iff.mpr (mem_writes.mpr ?_)))
    exact ⟨c, rfl, rfl⟩

end Shape

/-- In `goWait`, a cache was given the value if its child has done so. -/
lemma Pos.Tale.stored_of_storing {val v : Str} {done : Cache → Bool} {c : Cache}
    {es : List Effect} (h : (Pos.storing val done).Tale es) :
    Effect.stored c v ∈ es ↔ done c = true ∧ v = val := by
  obtain ⟨ws, rfl, hws⟩ := h
  rw [List.mem_cons, or_iff_right (by simp), hws.mem_iff, mem_writes]
  constructor
  · rintro ⟨d, hd, he⟩
    obtain ⟨rfl, rfl⟩ := Effect.stored.inj he
    exact ⟨hd, rfl⟩
  · rintro ⟨hd, rfl⟩
    exact ⟨c, hd, rfl⟩

/-- Of a request that is not between the two writes, the caches were given the same. -/
lemma Pos.Tale.stored_iff {p : Pos} {es : List Effect} (h : p.Tale es)
    (hp : ∀ val done, p = .storing val done → done .disk = done .mem) (v : Str) :
    Effect.stored .disk v ∈ es ↔ Effect.stored .mem v ∈ es := by
  by_cases hs : ∃ val done, p = .storing val done
  · obtain ⟨val, done, rfl⟩ := hs
    rw [h.stored_of_storing, h.stored_of_storing, hp val done rfl]
  have hwhole : ∀ {val : Str} {ds : List Effect}, Whole val ds →
      (Effect.stored .disk v ∈ ds ↔ Effect.stored .mem v ∈ ds) := by
    rintro val ds (rfl | ⟨ws, rfl, hws⟩)
    · simp
    · simp [hws.mem_iff, writes]
  obtain ⟨val, rfl | hds | ⟨ds, hds, rfl⟩⟩ := h.thrown fun val done he => hs ⟨val, done, he⟩
  · simp
  · exact hwhole hds
  · simpa using hwhole hds

/-- One more write. -/
lemma perm_writes {val : Str} {done : Cache → Bool} {c : Cache} {ws : List Effect}
    (h : ws.Perm (writes val done)) (hc : done c = false) :
    (ws ++ [Effect.stored c val]).Perm (writes val (Function.update done c true)) := by
  refine (h.append_right _).trans ?_
  cases c
  · cases hm : done .mem <;> simp [writes, hc, hm]
    exact List.Perm.swap _ _ _
  · simp [writes, hc]

namespace Request

variable {found : Option Str} {known : Str → Prop} {r r' : Request} {es : List Effect}
  {a : Turn} {e : Option Effect}

/-- The effects of the request so far are `es`; the values it was given are `known`. -/
structure Good (known : Str → Prop) (r : Request) (es : List Effect) : Prop where
  tale : r.pos.Tale es
  child : ∀ c val, r.child c = .has (some val) → known val
  answer : ∀ val, r.answer = some (some val) → known val
  showing : ∀ val, r.pos = .showing val → known val

lemma Good.move (h : r.Good known es) {ev : Events} {p : Pos} {ds : List Effect} (ht : p.Tale ds)
    (hp : ∀ val, p = .showing val → known val) :
    Good known { r with events := ev, pos := p } ds :=
  ⟨ht, h.child, h.answer, hp⟩

lemma Good.setChild (h : r.Good known es) (c : Cache) {x : Child}
    (hx : ∀ val, x = .has (some val) → known val) : (r.setChild c x).Good known es where
  tale    := h.tale
  answer  := h.answer
  showing := h.showing
  child d val hd := by
    simp only [Request.setChild, Function.update_apply] at hd
    split_ifs at hd with hdc
    · exact hx val hd
    · exact h.child d val hd

lemma Good.tryProceed (h : r.Good known es) {res : Option Str}
    (hres : ∀ val, res = some val → known val) : (r.tryProceed res).Good known es := by
  unfold Request.tryProceed
  split_ifs
  · exact ⟨h.tale, h.child, fun val ha => hres val (Option.some_injective _ ha), h.showing⟩
  · exact h

lemma Good.release (h : r.Good known es) (c : Cache) : (r.release c).Good known es := by
  have hover : (r.setChild c .over).Good known es := h.setChild c fun val hx => by cases hx
  unfold Request.release
  split_ifs
  · exact hover.tryProceed fun val hx => by cases hx
  · exact hover

/-- What a turn does to the effects. -/
lemma Good.step (h : r.Good known es) (hfound : ∀ val, found = some val → known val)
    (hes : ∀ val, Effect.stored .mem val ∈ es → known val)
    (hs : r.step found a = some (.goes r' e)) : r'.Good known (es ++ e.toList) := by
  have ht := h.tale
  cases rule_of_step hs with
  | set e hp => simpa using ⟨h.tale, h.child, h.answer, h.showing⟩
  | thrown a ev hp hstoring => simpa using h.move (ht.thrown hstoring) (by simp)
  | ask ev hp =>
    rw [hp] at ht
    have hgood : Good known { r with events := ev, pos := .asking } es :=
      h.move (p := .asking) ht (by simp)
    simpa using ⟨hgood.tale, by simp, hgood.answer, hgood.showing⟩
  | look c hc hp =>
    have hlook : ∀ val, Child.has (lookup found c) = .has (some val) → known val := by
      cases c <;> simp [lookup]
      exact hfound
    simpa using h.setChild c hlook
  | report c val hc =>
    have hval : ∀ v, some val = some v → known v := fun v hv => by
      cases hv
      exact h.child c val hc
    simpa using (h.tryProceed hval).release c
  | reportNone c hc => simpa using h.release c
  | resume ev val hp ha =>
    rw [hp] at ht
    have hval : ∀ v, Pos.showing val = .showing v → known v := fun v hv => by
      cases hv
      exact h.answer val ha
    simpa using h.move (p := .showing val) (Or.inl ht) hval
  | miss ev hp ha =>
    rw [hp] at ht
    simpa using h.move (p := .missed) ht (by simp)
  | enter ev hp =>
    rw [hp] at ht
    simpa using h.move (p := .loading) ht (by simp)
  | get val hp =>
    rw [hp] at ht
    obtain rfl : es = [] := ht
    exact h.move (p := .loaded val) rfl (by simp)
  | leave ev val hp =>
    rw [hp] at ht
    simpa using h.move (p := .unguarded val) ht (by simp)
  | guard ev val hp =>
    rw [hp] at ht
    simpa using h.move (p := .storing val fun _ => false) ⟨[], ht, .refl _⟩ (by simp)
  | store c val done hp hc =>
    rw [hp] at ht
    obtain ⟨ws, rfl, hws⟩ := ht
    exact h.move (p := .storing val _) ⟨_, rfl, perm_writes hws hc⟩ (by simp)
  | unguard ev val done hp hd hm =>
    rw [hp] at ht
    obtain ⟨ws, rfl, hws⟩ := ht
    obtain rfl : done = fun _ => true := funext fun c => by cases c <;> assumption
    have hval : ∀ v, Pos.showing val = .showing v → known v := fun v hv => by
      cases hv
      refine hes val (List.mem_cons_of_mem _ (hws.mem_iff.mpr ?_))
      simp [writes]
    simpa using h.move (p := .showing val) (Or.inr ⟨ws, rfl, hws⟩) hval
  | handleResult ev val hp =>
    rw [hp] at ht
    exact h.move (p := .shown) ⟨es, val, ht, rfl⟩ (by simp)
  | finish ev hp =>
    rw [hp] at ht
    obtain ⟨ds, val, hds, rfl⟩ := ht
    simpa using h.move (p := .ended) ⟨val, .inr (.inr ⟨ds, hds, rfl⟩)⟩ (by simp)

lemma Good.mono {known' : Str → Prop} (h : r.Good known es) (hk : ∀ val, known val → known' val) :
    r.Good known' es :=
  ⟨h.tale, fun c val hc => hk val (h.child c val hc), fun val ha => hk val (h.answer val ha),
    fun val hp => hk val (h.showing val hp)⟩

lemma key_release (r : Request) (c : Cache) : (r.release c).key = r.key := by
  unfold release tryProceed
  split_ifs <;> rfl

lemma key_of_step (hs : r.step found a = some (.goes r' e)) : r'.key = r.key := by
  cases rule_of_step hs with
  | report c val hc =>
    rw [key_release]
    unfold tryProceed
    split_ifs <;> rfl
  | reportNone c hc => exact key_release r c
  | _ => rfl

lemma step_absent (found : Option Str) (a : Turn) : ({} : Request).step found a = none := by
  cases a <;> rfl

end Request

/-! ### The caches -/

variable {s s' : Client} {i j : ℕ} {k v : Str} {c : Cache}

/-- The effects of request `i`. -/
def own (s : Client) (i : ℕ) : List Effect :=
  s.log.filterMap fun x => if x.request = i then some x.effect else none

/-- The value was written to the memory cache. -/
def Stored (s : Client) (k v : Str) : Prop := ∃ j, ⟨j, k, .stored .mem v⟩ ∈ s.log

lemma mem_own {e : Effect} : e ∈ s.own i ↔ ∃ k, ⟨i, k, e⟩ ∈ s.log := by
  simp only [own, List.mem_filterMap, Option.ite_none_right_eq_some, Option.some.injEq]
  constructor
  · rintro ⟨⟨_, k, _⟩, hx, rfl, rfl⟩
    exact ⟨k, hx⟩
  · rintro ⟨k, hx⟩
    exact ⟨_, hx, rfl, rfl⟩

structure Kept (s : Client) : Prop where
  good : ∀ i, (s.request i).Good (s.Stored (s.request i).key) (s.own i)
  map : ∀ k v, s.map k = some v → s.Stored k v
  keys : ∀ x ∈ s.log, x.key = (s.request x.request).key
  results : ∀ i k v, ⟨i, k, .result v⟩ ∈ s.log → s.Stored k v
  nodup : s.log.Nodup
  absent : ∀ i, s.requests ≤ i → s.request i = {}

@[simp] lemma own_effect (s : Client) (i j : ℕ) (e : Effect) :
    (s.effect i e).own j = s.own j ++ if i = j then [e] else [] := by
  show List.filterMap _ (s.log ++ [_]) = _
  rw [List.filterMap_append]
  by_cases h : i = j <;> simp [own, h]

lemma Stored.effect (h : s.Stored k v) (i : ℕ) (e : Effect) : (s.effect i e).Stored k v :=
  h.imp fun _ hj => List.mem_append_left _ hj

lemma stored_effect (s : Client) (i : ℕ) (v : Str) :
    (s.effect i (.stored .mem v)).Stored (s.request i).key v :=
  ⟨i, List.mem_append_right _ (List.mem_singleton_self _)⟩

@[simp] lemma request_setRequest (s : Client) (i : ℕ) (r : Request) (j : ℕ) :
    (s.setRequest i r).request j = if j = i then r else s.request j :=
  Function.update_apply _ _ _ _

/-- What `set` of the memory cache adds. -/
lemma map_effect {e : Effect} (h : (s.effect i e).map k = some v) :
    s.map k = some v ∨ k = (s.request i).key ∧ e = .stored .mem v := by
  unfold effect at h
  split at h
  next val =>
    simp only [Function.update_apply] at h
    split_ifs at h with hk
    · exact .inr ⟨hk, by rw [Option.some_injective _ h]⟩
    · exact .inl h
  next => exact .inl h

namespace Kept

lemma own_absent (h : s.Kept) (hi : s.requests ≤ i) : s.own i = [] := by
  have ht := (h.good i).tale
  rwa [h.absent i hi] at ht

/-- A request is made. -/
lemma handleKey (h : s.Kept) (key : Str) :
    Kept { s.setRequest s.requests { key := key, pos := .fresh } with
      requests := s.requests + 1 } where
  map     := h.map
  results := h.results
  nodup   := h.nodup
  good i := by
    show Request.Good (s.Stored ((s.setRequest s.requests _).request i).key)
      ((s.setRequest s.requests _).request i) (s.own i)
    rw [request_setRequest]
    split_ifs with hi
    · rw [hi, h.own_absent (Nat.le_refl _)]
      exact ⟨rfl, by simp, by simp, by simp⟩
    · exact h.good i
  keys x hx := by
    have hne : x.request ≠ s.requests := fun he => by
      have hown : x.effect ∈ s.own s.requests := mem_own.mpr ⟨x.key, he ▸ hx⟩
      rw [h.own_absent (Nat.le_refl _)] at hown
      cases hown
    show x.key = ((s.setRequest s.requests _).request x.request).key
    simpa [hne] using h.keys x hx
  absent i hi := by
    show (s.setRequest s.requests _).request i = {}
    simpa [(Nat.lt_of_succ_le hi).ne'] using h.absent i (Nat.le_of_succ_le hi)

lemma key_setRequest {r : Request} (hkey : r.key = (s.request i).key) (j : ℕ) :
    ((s.setRequest i r).request j).key = (s.request j).key := by
  rw [request_setRequest]
  split_ifs with hj
  · rw [hj, hkey]
  · rfl

/-- A turn without an effect. -/
lemma quiet (h : s.Kept) {r : Request} (hr : r.Good (s.Stored (s.request i).key) (s.own i))
    (hkey : r.key = (s.request i).key) (hi : i < s.requests) : (s.setRequest i r).Kept where
  map     := h.map
  results := h.results
  nodup   := h.nodup
  good j := by
    rw [key_setRequest hkey, request_setRequest]
    split_ifs with hj
    · subst hj
      exact hr
    · exact h.good j
  keys x hx := by
    rw [key_setRequest hkey]
    exact h.keys x hx
  absent j hj := by
    rw [request_setRequest, if_neg (hi.trans_le hj).ne']
    exact h.absent j hj

/-- A turn with an effect. -/
lemma loud (h : s.Kept) {r : Request} {e : Effect}
    (hr : r.Good ((s.effect i e).Stored (s.request i).key) (s.own i ++ [e]))
    (hkey : r.key = (s.request i).key) (hi : i < s.requests)
    (he : ∀ v, e = .result v → s.Stored (s.request i).key v) :
    ((s.setRequest i r).effect i e).Kept := by
  have hkeys := key_setRequest hkey
  have hstored : ∀ k v, ((s.setRequest i r).effect i e).Stored k v ↔ (s.effect i e).Stored k v := by
    intro k v
    simp only [Stored, effect, hkeys]
    rfl
  have hlog : ((s.setRequest i r).effect i e).log = s.log ++ [⟨i, (s.request i).key, e⟩] := by
    simp only [effect, hkeys]
    rfl
  refine ⟨fun j => ?_, fun k v hm => ?_, fun x hx => ?_, fun j k v hj => ?_, ?_, fun j hj => ?_⟩
  · have hown : ((s.setRequest i r).effect i e).own j = s.own j ++ if i = j then [e] else [] :=
      own_effect _ i j e
    have hmono : ∀ v, s.Stored (s.request j).key v →
        ((s.setRequest i r).effect i e).Stored (s.request j).key v :=
      fun v hv => (hstored _ _).mpr (hv.effect i e)
    show Request.Good (((s.setRequest i r).effect i e).Stored ((s.setRequest i r).request j).key)
      ((s.setRequest i r).request j) _
    rw [hkeys, hown, request_setRequest]
    by_cases hj : j = i
    · subst hj
      rw [if_pos rfl, if_pos rfl]
      exact hr.mono fun v hv => (hstored _ _).mpr hv
    · rw [if_neg hj, if_neg (Ne.symm hj), List.append_nil]
      exact (h.good j).mono hmono
  · rw [hstored]
    rcases map_effect hm with hm | ⟨rfl, rfl⟩
    · exact (h.map k v hm).effect i e
    · rw [hkeys]
      exact stored_effect s i v
  · rw [hlog, List.mem_append, List.mem_singleton] at hx
    refine Eq.trans ?_ (hkeys _).symm
    rcases hx with hx | rfl
    · exact h.keys x hx
    · rfl
  · rw [hstored]
    rw [hlog, List.mem_append, List.mem_singleton] at hj
    rcases hj with hj | hj
    · exact (h.results j k v hj).effect i e
    · obtain ⟨rfl, rfl, rfl⟩ := Entry.mk.inj hj
      exact (he v rfl).effect _ _
  · rw [hlog]
    refine List.nodup_append.mpr ⟨h.nodup, by simp, fun x hx y hy => ?_⟩
    obtain rfl := List.mem_singleton.mp hy
    rintro rfl
    obtain ⟨val, hshape⟩ := hr.tale.shape
    have hdisj := (List.nodup_append.mp hshape.nodup).2.2
    exact hdisj e (mem_own.mpr ⟨_, hx⟩) e (List.mem_singleton_self e) rfl
  · show (s.setRequest i r).request j = {}
    rw [request_setRequest, if_neg (hi.trans_le hj).ne']
    exact h.absent j hj

lemma act (h : s.Kept) {a : Turn} {o : Outcome}
    (hs : (s.request i).step (s.map (s.request i).key) a = some o) : (s.after i o).Kept := by
  have hi : i < s.requests := by
    by_contra hi
    rw [h.absent i (Nat.le_of_not_lt hi), Request.step_absent] at hs
    cases hs
  have hfound := h.map (s.request i).key
  have hes : ∀ v, Effect.stored .mem v ∈ s.own i → s.Stored (s.request i).key v := by
    intro v hv
    obtain ⟨k, hk⟩ := mem_own.mp hv
    exact ⟨i, h.keys _ hk ▸ hk⟩
  cases o with
  | terminates | faults => exact ⟨h.good, h.map, h.keys, h.results, h.nodup, h.absent⟩
  | goes r e =>
    have hgood := (h.good i).step hfound hes hs
    have hkey := Request.key_of_step hs
    cases e with
    | none =>
      rw [Option.toList_none, List.append_nil] at hgood
      exact h.quiet hgood hkey hi
    | some e =>
      refine h.loud (hgood.mono fun v hv => hv.effect i e) hkey hi ?_
      rintro v rfl
      cases Request.rule_of_step hs with
      | handleResult ev val hp => exact (h.good i).showing v hp

end Kept

/-- The key of an entry is that of its request. -/
lemma Kept.mem_log_iff (h : s.Kept) {e : Effect} :
    ⟨i, k, e⟩ ∈ s.log ↔ k = (s.request i).key ∧ e ∈ s.own i := by
  rw [mem_own]
  constructor
  · exact fun hx => ⟨h.keys _ hx, k, hx⟩
  · rintro ⟨hk, k', hx⟩
    obtain rfl : k' = k := (h.keys _ hx).trans hk.symm
    exact hx

theorem inductive_kept : machine.Inductive (fun _ _ => True) Kept where
  init s hs := by
    obtain rfl : s = {} := hs
    refine ⟨fun i => ⟨rfl, ?_, ?_, ?_⟩, ?_, ?_, ?_, .nil, fun _ _ => rfl⟩ <;> simp
  step s a s' h _ hs := by
    cases a with
    | handleKey key =>
      simp only [machine, step] at hs
      split_ifs at hs
      cases hs
      exact h.handleKey key
    | act i a =>
      simp only [machine, step] at hs
      split_ifs at hs
      obtain ⟨o, ho, rfl⟩ := Option.map_eq_some_iff.mp hs
      exact h.act ho

end Client

end Synca
