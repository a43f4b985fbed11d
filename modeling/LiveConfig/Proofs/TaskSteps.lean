import LiveConfig.Proofs.Following
import LiveConfig.Watch.Task

/-!
# Steps of a watch task

What a task can do in one step is listed once (`Task.Does`), and what a step keeps is read off the
list: a task that follows its store goes on following it, it remembers only versions that were given
out, and its memory changes only together with a change that it is about to forward.

As long as no stream breaks, a task that remembers that an object is gone, while the object exists,
has still to read that it exists (`Task.Expects`).

## Main definitions

* `Task.Does` — what a step of a task can do
* `Task.inFlight` — the change that a task is about to put into the queue
* `Task.Follows`, `Task.Expects` — what steps keep

## Main results

* `Task.does_step` — every step is one of the list
* `Task.Does.follows`, `Task.Does.news` — what is followed, and what is forwarded
-/

namespace LiveConfig.Watch

namespace Task

/-- The stream that a task has. -/
def stream? (t : Task) : Option Subscription :=
  match t.activity with
  | .reading sub => some sub
  | .sending _ sub => some sub
  | _ => none

/-- What a step of a task can do: the task, the store and the changes put into the queue that it can
lead to. -/
inductive Does (i : Interest) (s : Store) (t : Task) : Task → Store → List Change → Prop where
  | opens (ha : t.activity = .opening) :
      Does i s t ⟨t.follower, .reading (s.opened t.follower.scope)⟩
        { s with subscriptions := s.subscriptions + 1 } []
  /-- The stream broke or ended, or could not be opened. -/
  | loses {f : Follower} {a : Activity}
      (ha : t.activity = .opening ∨ ∃ sub r sub', t.activity = .reading sub ∧
        sub.next s.feed = (r, sub') ∧ (∀ e, r ≠ .event e) ∧ r ≠ .pending)
      (hscope : f.scope = t.follower.scope) (hmemory : f.memory = t.follower.memory)
      (hnone : a = .opening ∨ ∃ m, a = .waiting m) : Does i s t ⟨f, a⟩ s []
  /-- An event was read that is news. -/
  | forwards {sub sub' : Subscription} {e : Event} (ha : t.activity = .reading sub)
      (hnext : sub.next s.feed = (.event e, sub'))
      (hnew : t.follower.memory.get? e.key ≠ judged i e) :
      Does i s t ⟨(t.follower.receive i e).2, .sending (.ofEvent e) sub'⟩ s []
  /-- An event was read that is none. -/
  | ignores {sub sub' : Subscription} {e : Event} (ha : t.activity = .reading sub)
      (hnext : sub.next s.feed = (.event e, sub'))
      (hold : t.follower.memory.get? e.key = judged i e)
      (hsame : (t.follower.receive i e).2.memory = t.follower.memory) :
      Does i s t ⟨(t.follower.receive i e).2, .reading sub'⟩ s []
  | rests {sub sub' : Subscription} (ha : t.activity = .reading sub)
      (hnext : sub.next s.feed = (.pending, sub')) : Does i s t ⟨t.follower, .reading sub'⟩ s []
  | sends {c : Change} {sub : Subscription} (ha : t.activity = .sending c sub) :
      Does i s t ⟨t.follower, .reading sub⟩ s [c]
  | wakes {m : Nat} (ha : t.activity = .waiting m) : Does i s t ⟨t.follower, .opening⟩ s []
  | waits : Does i s t t s []

theorem does_lose {i : Interest} {s : Store} {t : Task}
    (ha : t.activity = .opening ∨ ∃ sub r sub', t.activity = .reading sub ∧
      sub.next s.feed = (r, sub') ∧ (∀ e, r ≠ .event e) ∧ r ≠ .pending)
    (now : Nat) (fault : LinkFault) : Does i s t (t.lose now s fault).task s [] := by
  refine .loses ha rfl rfl ?_
  by_cases h : (t.follower.lose fault).1 = 0
  · exact Or.inl (if_pos h)
  · exact Or.inr ⟨_, if_neg h⟩

/-- A change that is forwarded is put into the queue next. -/
theorem receive_of_forward {i : Interest} {t : Task} {e : Event} {c : Change} (s : Store)
    (sub : Subscription) (hv : (t.follower.memory.observe i e).1 = .forward c) :
    (t.receive i s sub e).task = ⟨(t.follower.receive i e).2, .sending c sub⟩ := by
  simp only [receive, Follower.receive, hv]

/-- After any other event the stream is read on. -/
theorem receive_of_quiet {i : Interest} {t : Task} {e : Event} (s : Store) (sub : Subscription)
    (hv : ∀ c, (t.follower.memory.observe i e).1 ≠ .forward c) :
    (t.receive i s sub e).task = ⟨(t.follower.receive i e).2, .reading sub⟩ := by
  cases hverdict : (t.follower.memory.observe i e).1 with
  | forward c => exact absurd hverdict (hv c)
  | _ => simp only [receive, Follower.receive, hverdict]

theorem does_receive {i : Interest} {s : Store} {t : Task} {sub sub' : Subscription} {e : Event}
    (ha : t.activity = .reading sub) (hnext : sub.next s.feed = (.event e, sub')) :
    Does i s t (t.receive i s sub' e).task s [] := by
  rcases t.follower.memory.observe_cases i e with ⟨hv, hnew⟩ | ⟨hv, hsame, hold⟩
  · rw [receive_of_forward s sub' hv]
    exact .forwards ha hnext hnew
  · rw [receive_of_quiet s sub' hv]
    exact .ignores ha hnext hold hsame

/-- **Every step of a task is one of these.** -/
theorem does_step (i : Interest) (now : Nat) (room : Bool) (s : Store) (t : Task) :
    Does i s t (t.step i now room s).task (t.step i now room s).store
      (t.step i now room s).sent := by
  cases ha : t.activity with
  | opening =>
    simp only [step, ha]
    rcases s.subscribe_eq t.follower.scope with hsub | ⟨f, hsub⟩
    · rw [hsub]
      exact .opens ha
    · rw [hsub]
      exact does_lose (Or.inl ha) now _
  | reading sub =>
    simp only [step, ha]
    rcases hnext : sub.next s.feed with ⟨r, sub'⟩
    cases r with
    | event e => exact does_receive ha hnext
    | broken f => exact does_lose (Or.inr ⟨sub, _, sub', ha, hnext, nofun, nofun⟩) now _
    | pending => exact .rests ha hnext
    | ended => exact does_lose (Or.inr ⟨sub, _, sub', ha, hnext, nofun, nofun⟩) now _
  | sending c sub =>
    simp only [step, ha]
    cases room with
    | true => exact .sends ha
    | false => exact .waits
  | waiting m =>
    simp only [step, ha]
    by_cases hm : m ≤ now
    · rw [if_pos hm]
      exact .wakes ha
    · rw [if_neg hm]
      exact .waits

/-- The change that a task is about to put into the queue. -/
def inFlight (t : Task) : List Change :=
  match t.activity with
  | .sending c _ => [c]
  | _ => []

/-- A task follows a store if it does so through its stream, as long as it has one. -/
def Follows (i : Interest) (s₀ : Store) (m₀ : Memory) (s : Store) (t : Task) : Prop :=
  ∀ sub, t.stream? = some sub → Watch.Follows i s₀ m₀ s t.follower sub

namespace Does

variable {i : Interest} {s s' : Store} {t t' : Task} {sent : List Change}

theorem store_eq (h : t.Does i s t' s' sent) :
    s'.objects = s.objects ∧ s'.version = s.version ∧ s'.feed = s.feed := by
  cases h <;> exact ⟨rfl, rfl, rfl⟩

theorem scope_eq (h : t.Does i s t' s' sent) : t'.follower.scope = t.follower.scope := by
  cases h with
  | loses _ hscope _ _ => exact hscope
  | _ => rfl

/-- A task that follows goes on following. A stream that it opens begins to follow anew. -/
theorem follows (h : t.Does i s t' s' sent) (hs : s.Sound) {s₀ : Store} {m₀ : Memory}
    (hf : t.Follows i s₀ m₀ s) :
    t'.Follows i (if t.activity = .opening then s else s₀)
      (if t.activity = .opening then t.follower.memory else m₀) s' := by
  have hstream : ∀ {sub}, t.activity = .reading sub → t.activity ≠ .opening ∧
      Watch.Follows i s₀ m₀ s t.follower sub := fun ha =>
    ⟨by rw [ha]; exact nofun, hf _ (by rw [stream?, ha])⟩
  cases h with
  | opens ha =>
    rw [if_pos ha, if_pos ha]
    rintro sub ⟨⟩
    exact (Watch.Follows.opened hs i t.follower).congr rfl rfl rfl
  | loses _ _ _ hnone =>
    rcases hnone with rfl | ⟨m, rfl⟩ <;> exact nofun
  | forwards ha hnext _ =>
    obtain ⟨hne, hf⟩ := hstream ha
    rw [if_neg hne, if_neg hne]
    rintro sub ⟨⟩
    obtain ⟨hahead, hlive, -⟩ := hf.live.next_event hnext
    exact hf.receive hahead hlive
  | ignores ha hnext _ _ =>
    obtain ⟨hne, hf⟩ := hstream ha
    rw [if_neg hne, if_neg hne]
    rintro sub ⟨⟩
    obtain ⟨hahead, hlive, -⟩ := hf.live.next_event hnext
    exact hf.receive hahead hlive
  | rests ha hnext =>
    obtain ⟨hne, hf⟩ := hstream ha
    rw [if_neg hne, if_neg hne]
    rintro sub ⟨⟩
    obtain ⟨hnil, hnil', hlive, -⟩ := hf.live.next_pending hnext
    exact hf.reread (hnil.trans hnil'.symm) hlive
  | sends ha =>
    have hne : t.activity ≠ .opening := by rw [ha]; exact nofun
    rw [if_neg hne, if_neg hne]
    rintro sub ⟨⟩
    exact hf _ (by rw [stream?, ha])
  | wakes ha => exact nofun
  | waits =>
    by_cases ha : t.activity = .opening
    · intro sub hsub
      rw [stream?, ha] at hsub
      cases hsub
    · rw [if_neg ha, if_neg ha]
      exact hf

/-- **What a task remembers changes only with a change that it is about to forward**, and all that
it was about to forward, it forwards. -/
theorem news (h : t.Does i s t' s' sent) :
    t'.follower.memory = t.follower.memory ∧ sent ++ t'.inFlight = t.inFlight ∨
      ∃ e sub sub', t.activity = .reading sub ∧ sub.next s.feed = (.event e, sub') ∧
        t'.follower.memory = (t.follower.memory.observe i e).2 ∧
        t.follower.memory.get? e.key ≠ judged i e ∧
        sent = [] ∧ t.inFlight = [] ∧ t'.inFlight = [.ofEvent e] := by
  cases h with
  | @forwards sub sub' e ha hnext hnew =>
    exact Or.inr ⟨e, sub, sub', ha, hnext, rfl, hnew, rfl, by rw [inFlight, ha], rfl⟩
  | ignores ha _ _ hsame => exact Or.inl ⟨hsame, by rw [inFlight, inFlight, ha]; rfl⟩
  | loses ha _ hmemory hnone =>
    refine Or.inl ⟨hmemory, ?_⟩
    have ht : t.inFlight = [] := by
      rcases ha with ha | ⟨sub, r, sub', ha, -⟩ <;> rw [inFlight, ha]
    rw [ht]
    rcases hnone with rfl | ⟨m, rfl⟩ <;> rfl
  | opens ha => exact Or.inl ⟨rfl, by rw [inFlight, inFlight, ha]; rfl⟩
  | rests ha hnext => exact Or.inl ⟨rfl, by rw [inFlight, inFlight, ha]; rfl⟩
  | sends ha => exact Or.inl ⟨rfl, by rw [inFlight, inFlight, ha]; rfl⟩
  | wakes ha => exact Or.inl ⟨rfl, by rw [inFlight, inFlight, ha]; rfl⟩
  | waits => exact Or.inl ⟨rfl, rfl⟩

/-- What is remembered has been given out. -/
theorem issuedBy (h : t.Does i s t' s' sent) {s₀ : Store} {m₀ : Memory} (hf : t.Follows i s₀ m₀ s)
    (hm : t.follower.memory.IssuedBy s.version) : t'.follower.memory.IssuedBy s'.version := by
  rw [h.store_eq.2.1]
  rcases h.news with ⟨hsame, -⟩ | ⟨e, sub, sub', ha, hnext, hmem, -⟩
  · rwa [hsame]
  · rw [hmem]
    refine hm.observe i fun o ho => ?_
    have hf := hf sub (by rw [stream?, ha])
    refine hf.issued (hf.mem_heard_of_ahead ?_)
    rw [(hf.live.next_event hnext).1, ho]
    exact List.mem_cons_self

/-- A stream has nothing unread after a step that it had read before, and a new one has nothing
unread. -/
theorem unread_subset (h : t.Does i s t' s' sent) {s₀ : Store} {m₀ : Memory}
    (hf : t.Follows i s₀ m₀ s) {sub' : Subscription} (hsub' : t'.stream? = some sub') :
    sub'.unread s'.feed = [] ∨
      ∃ sub, t.stream? = some sub ∧ sub'.unread s'.feed ⊆ sub.unread s.feed := by
  rw [h.store_eq.2.2]
  cases h with
  | opens ha =>
    cases hsub'
    exact Or.inl (s.unread_opened _)
  | loses _ _ _ hnone => rcases hnone with rfl | ⟨m, rfl⟩ <;> cases hsub'
  | forwards ha hnext _ =>
    cases hsub'
    have hsub := show t.stream? = some _ by rw [stream?, ha]
    exact Or.inr ⟨_, hsub, ((hf _ hsub).live.next_event hnext).2.2⟩
  | ignores ha hnext _ _ =>
    cases hsub'
    have hsub := show t.stream? = some _ by rw [stream?, ha]
    exact Or.inr ⟨_, hsub, ((hf _ hsub).live.next_event hnext).2.2⟩
  | rests ha hnext =>
    cases hsub'
    have hsub := show t.stream? = some _ by rw [stream?, ha]
    exact Or.inr ⟨_, hsub, ((hf _ hsub).live.next_pending hnext).2.2.2⟩
  | sends ha =>
    cases hsub'
    exact Or.inr ⟨_, by rw [stream?, ha], fun _ hx => hx⟩
  | wakes ha => cases hsub'
  | waits => exact Or.inr ⟨sub', hsub', fun _ hx => hx⟩

/-! Steps in which no stream breaks. -/

/-- A task that has no stream after a step had none before, and remembers what it remembered. -/
theorem stream?_eq_none (h : t.Does i s t' s' sent) {s₀ : Store} {m₀ : Memory}
    (hf : t.Follows i s₀ m₀ s)
    (hu : ∀ sub, t.activity = .reading sub → ∀ f, (sub.next s.feed).1 ≠ .broken f)
    (ht' : t'.stream? = none) :
    t.stream? = none ∧ t'.follower.memory = t.follower.memory := by
  cases h with
  | loses ha hscope hmemory hnone =>
    refine ⟨?_, hmemory⟩
    rcases ha with ha | ⟨sub, r, sub', ha, hnext, hevent, hpending⟩
    · rw [stream?, ha]
    · have hf := hf sub (by rw [stream?, ha])
      rcases hf.live.next_cases with ⟨e, u, hn, -⟩ | ⟨u, hn, -⟩ | ⟨f, u, hn, -⟩
      · exact absurd (congrArg Prod.fst (hnext.symm.trans hn)) (hevent e)
      · exact absurd (congrArg Prod.fst (hnext.symm.trans hn)) hpending
      · exact absurd (congrArg Prod.fst hn) (hu sub ha f)
  | wakes ha => exact ⟨by rw [stream?, ha], rfl⟩
  | waits => exact ⟨ht', rfl⟩
  | _ => cases ht'

end Does

/-- A task that remembers that an object is gone has still to be told that it exists. -/
def Expects (k : ObjectKey) (s : Store) (t : Task) : Prop :=
  t.follower.memory.get? k = some none →
    ∃ sub o, t.stream? = some sub ∧ o.key = k ∧ .applied o ∈ sub.ahead s.feed

theorem Expects.perform {i : Interest} {s₀ s : Store} {m₀ : Memory} {t : Task} {k : ObjectKey}
    (h : t.Expects k s) (hf : t.Follows i s₀ m₀ s) (x : Store.Step) :
    t.Expects k (s.perform x).1 := by
  intro hm
  obtain ⟨sub, o, hsub, hok, hmem⟩ := h hm
  obtain ⟨l, hl, -⟩ := s.feed_perform x
  refine ⟨sub, o, hsub, hok, ?_⟩
  rw [hl, Subscription.ahead_append (hf sub hsub).live.position_le]
  exact List.mem_append_left _ hmem

theorem Does.expects {i : Interest} {s s' : Store} {t t' : Task} {sent : List Change}
    (h : t.Does i s t' s' sent) {s₀ : Store} {m₀ : Memory} (hf : t.Follows i s₀ m₀ s)
    (hu : ∀ sub, t.activity = .reading sub → ∀ f, (sub.next s.feed).1 ≠ .broken f)
    (hsame : t'.follower.memory = t.follower.memory) {k : ObjectKey}
    (hk : i.keys.contains k = true) (he : t.Expects k s) : t'.Expects k s' := by
  intro hm
  rw [hsame] at hm
  obtain ⟨sub, o, hsub, hok, hmem⟩ := he hm
  have hstream : t'.stream? ≠ none := fun hnone => by
    rw [(h.stream?_eq_none hf hu hnone).1] at hsub
    cases hsub
  cases h with
  | opens ha => rw [stream?, ha] at hsub; cases hsub
  | loses _ _ _ hnone => rcases hnone with rfl | ⟨m, rfl⟩ <;> exact absurd rfl hstream
  | @forwards u u' e ha hnext hnew =>
    refine absurd ?_ hnew
    have hobserve := Memory.get?_observe i t.follower.memory e e.key
    rw [if_pos rfl] at hobserve
    rw [← hobserve]
    exact (congrArg (SortedMap.get? · e.key) hsame).symm
  | @ignores u u' e ha hnext hold _ =>
    obtain rfl : u = sub := by rw [stream?, ha] at hsub; exact Option.some.inj hsub
    refine ⟨u', o, rfl, hok, ?_⟩
    rw [((hf u hsub).live.next_event hnext).1] at hmem
    rcases List.mem_cons.mp hmem with rfl | hmem
    · -- it would not have been ignored
      obtain rfl : o.key = k := hok
      rw [show t.follower.memory.get? o.key = _ from hold, judged_of_key hk] at hm
      cases hm
    · exact hmem
  | @rests u u' ha hnext =>
    obtain rfl : u = sub := by rw [stream?, ha] at hsub; exact Option.some.inj hsub
    rw [((hf u hsub).live.next_pending hnext).1] at hmem
    cases hmem
  | @sends c u ha =>
    obtain rfl : u = sub := by rw [stream?, ha] at hsub; exact Option.some.inj hsub
    exact ⟨u, o, rfl, hok, hmem⟩
  | wakes ha => rw [stream?, ha] at hsub; cases hsub
  | waits => exact ⟨sub, o, hsub, hok, hmem⟩

end Task

end LiveConfig.Watch
