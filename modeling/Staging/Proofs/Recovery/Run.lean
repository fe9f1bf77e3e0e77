import Mathlib
import Staging.Recovery.Task
import Staging.Proofs.Repository.Operations

/-!
Runs of a recovery task. Cycles go on step by step; between any two steps there may be calls on the
repository, halts, resumes and restarts, and every step may fail. A whole cycle is such a run, also
when the collaborators call the repository themselves.
-/

namespace Staging

variable {σ : Type}

structure Station (σ : Type) where
  task : Task
  cycle : Option Cycle
  bench : Bench σ

namespace Station

def fresh (t : Task) (s : Shelf) (outside : σ) : Station σ := ⟨t, none, ⟨⟨s, true, outside⟩, .empty⟩⟩

def shelf (p : Station σ) : Shelf := p.bench.desk.shelf

def withShelf (p : Station σ) (s : Shelf) : Station σ :=
  { p with bench := { p.bench with desk := { p.bench.desk with shelf := s } } }

def staged (p : Station σ) (id : String) : Option Bytes :=
  Assoc.get? (p.task.repository.keySpace.completedKey id) p.shelf.entries

theorem staged_eq {p : Station σ} {t : Table} (h : p.shelf.Holds t) (id : String) :
    p.staged id = t.get? (p.task.repository.keySpace.completedKey id) := by
  rw [staged, h.entries_eq]
  rfl

/-- A visit of the exchange is past its read. -/
def Visiting (p : Station σ) (id : String) : Prop :=
  ∃ c, p.cycle = some c ∧
    ((∃ e, c.phase = .redelivering id e) ∨ (∃ e, c.phase = .escalating id e) ∨
      c.phase = .confirming id)

end Station

inductive Deed
  | read (id : String) (e : Exchange)
  | redelivered (id : String) (e : Exchange) (x : Except DeliveryError Unit)
  | sent (id destination : String) (e : Exchange) (x : Except DeliveryError Unit)
  | confirmed (id : String) (x : Except RepositoryError Bool)

inductive Event
  | call (c : Call) (a : Answer)
  | begin
  | step (d : Option Deed)
  | drop
  | halt
  | resume
  | restart

def Event.Outside : Event → Prop
  | call _ _ | halt | resume => True
  | begin | step _ | drop | restart => False

structure Collaborators.Aloof (k : Collaborators σ) : Prop where
  redeliver : ∀ e d, (k.redeliver e d).2.shelf = d.shelf
  send : ∀ destination e d, (k.send destination e d).2.shelf = d.shelf

namespace Task

def deed (t : Task) (k : Collaborators σ) (c : Cycle) (b : Bench σ) : Option Deed :=
  match c.phase with
  | .reading id =>
    match (t.repository.recover id b.desk.shelf).1 with
    | .ok (some e) => some (.read id e)
    | _ => none
  | .redelivering id e => some (.redelivered id e (k.redeliver e b.desk).1)
  | .escalating id e => some (.sent id t.destination e (k.send t.destination e b.desk).1)
  | .confirming id => some (.confirmed id (t.repository.confirm id b.desk.shelf).1)
  | _ => none

def route (t : Task) (id : String) (e : Exchange) (attempt : UInt32) : Phase :=
  let maximum := t.repository.settings.maxRedeliveries
  let e := e.stamp attempt maximum
  if maximum.toInt < attempt.toNat then .escalating id e else .redelivering id e

inductive Steps (t : Task) (c : Cycle) (s : Shelf) (n : Counters) :
    Option Deed → Cycle → Shelf → Counters → Prop
  | ended {cursor s'} (hp : c.phase = .fetching) (hx : c.cursor.next s = (none, cursor, s')) :
      Steps t c s n none { c with cursor := cursor, phase := .finished } s' (n.keep c.visited)
  | passed {x cursor s'} (hp : c.phase = .fetching) (hx : c.cursor.next s = (some x, cursor, s'))
      (hid : t.repository.completedId? x = none) : Steps t c s n none { c with cursor := cursor } s' n
  | found {x y cursor s'} (hp : c.phase = .fetching) (hx : c.cursor.next s = (some x, cursor, s'))
      (hid : t.repository.completedId? x = some y) :
      Steps t c s n none { c with cursor := cursor, phase := .deciding y } s' n
  | stopped {y report} (hp : c.phase = .deciding y) :
      Steps t c s n none { c with report := report, phase := .finished } s n
  | taken {id report} (hp : c.phase = .deciding (.ok id)) :
      Steps t c s n none { c with report := report, phase := .reading id } s n
  | unread {id e s'} (hp : c.phase = .reading id)
      (hx : t.repository.recover id s = (.error e, s')) :
      Steps t c s n none (leave c id c.report.fail) s' n
  | gone {id s'} (hp : c.phase = .reading id) (hx : t.repository.recover id s = (.ok none, s')) :
      Steps t c s n none (leave c id c.report) s' (n.erase id)
  | read {id e s'} (hp : c.phase = .reading id)
      (hx : t.repository.recover id s = (.ok (some e), s')) :
      Steps t c s n (some (.read id e)) { c with phase := t.route id e (n.increment id).1 } s'
        (n.increment id).2
  | redelivered {id e x report} (hp : c.phase = .redelivering id e) :
      Steps t c s n (some (.redelivered id e x)) (leave c id report) s n
  | sent {id e} (hp : c.phase = .escalating id e) :
      Steps t c s n (some (.sent id t.destination e (.ok ()))) { c with phase := .confirming id } s n
  | unsent {id e err report} (hp : c.phase = .escalating id e) :
      Steps t c s n (some (.sent id t.destination e (.error err))) (leave c id report) s n
  | confirmed {id x s' report} (hp : c.phase = .confirming id)
      (hx : t.repository.confirm id s = (.ok x, s')) :
      Steps t c s n (some (.confirmed id (.ok x))) (leave c id report) s' (n.erase id)
  | unconfirmed {id e s' report} (hp : c.phase = .confirming id)
      (hx : t.repository.confirm id s = (.error e, s')) :
      Steps t c s n (some (.confirmed id (.error e))) (leave c id report) s' n
  | rested (hp : c.phase = .finished) : Steps t c s n none c s n

theorem steps {k : Collaborators σ} (hk : k.Aloof) (t : Task) (c : Cycle) (b : Bench σ) :
    t.Steps c b.desk.shelf b.counters (t.deed k c b) (t.step k c b).1
      (t.step k c b).2.desk.shelf (t.step k c b).2.counters := by
  cases hp : c.phase with
  | fetching =>
    rcases hx : c.cursor.next b.desk.shelf with ⟨found, cursor, s'⟩
    cases found with
    | none =>
      simp only [step, deed, hp, Bench.onShelf, hx]
      exact .ended hp hx
    | some x =>
      cases hid : t.repository.completedId? x with
      | none =>
        simp only [step, deed, hp, Bench.onShelf, hx, hid]
        exact hp ▸ .passed hp hx hid
      | some y =>
        simp only [step, deed, hp, Bench.onShelf, hx, hid]
        exact .found hp hx hid
  | deciding y =>
    cases hr : b.desk.runAllowed with
    | false =>
      simp only [step, deed, hp, hr]
      exact .stopped hp
    | true =>
      cases y with
      | ok id =>
        simp only [step, deed, hp, hr]
        exact .taken hp
      | error e =>
        simp only [step, deed, hp, hr]
        exact .stopped hp
  | reading id =>
    rcases hx : t.repository.recover id b.desk.shelf with ⟨x, s'⟩
    rcases x with e | _ | e
    · simp only [step, deed, hp, Bench.onShelf, hx]
      exact .unread hp hx
    · simp only [step, deed, hp, Bench.onShelf, hx]
      exact .gone hp hx
    · simp only [step, deed, hp, Bench.onShelf, hx]
      exact .read hp hx
  | redelivering id e =>
    have hs := hk.redeliver e b.desk
    rcases hx : k.redeliver e b.desk with ⟨x, d⟩
    simp only [hx] at hs
    cases x with
    | ok _ =>
      simp only [step, deed, hp, Bench.onDesk, hx]
      exact hs ▸ .redelivered hp
    | error err =>
      simp only [step, deed, hp, Bench.onDesk, hx]
      exact hs ▸ .redelivered hp
  | escalating id e =>
    have hs := hk.send t.destination e b.desk
    rcases hx : k.send t.destination e b.desk with ⟨x, d⟩
    simp only [hx] at hs
    cases x with
    | ok _ =>
      simp only [step, deed, hp, Bench.onDesk, hx]
      exact hs ▸ .sent hp
    | error err =>
      simp only [step, deed, hp, Bench.onDesk, hx]
      exact hs ▸ .unsent hp
  | confirming id =>
    rcases hx : t.repository.confirm id b.desk.shelf with ⟨x, s'⟩
    cases x with
    | ok x =>
      simp only [step, deed, hp, Bench.onShelf, hx]
      exact .confirmed hp hx
    | error e =>
      simp only [step, deed, hp, Bench.onShelf, hx]
      exact .unconfirmed hp hx
  | finished =>
    simp only [step, deed, hp]
    exact .rested hp

end Task

namespace Station

/-- What may happen next. A step may be made with any collaborators, so any of their failures may
occur; which calls on the store fail is up to the store. -/
inductive Moves : Station σ → Event → Station σ → Prop
  | call (p : Station σ) (c : Call) :
      Moves p (.call c (p.task.repository.run p.shelf c).1)
        (p.withShelf (p.task.repository.run p.shelf c).2)
  | begin (p : Station σ) (hc : p.cycle = none) :
      Moves p .begin { p with cycle := some p.task.begin }
  | step (p : Station σ) {k : Collaborators σ} (hk : k.Aloof) {c : Cycle} (hc : p.cycle = some c) :
      Moves p (.step (p.task.deed k c p.bench))
        ⟨p.task, some (p.task.step k c p.bench).1, (p.task.step k c p.bench).2⟩
  | drop (p : Station σ) : Moves p .drop { p with cycle := none }
  | halt (p : Station σ) : Moves p .halt { p with bench := p.bench.halt }
  | resume (p : Station σ) : Moves p .resume { p with bench := p.bench.resume }
  | restart (p : Station σ) (t : Task) (d : Desk σ)
      (hk : t.repository.keySpace = p.task.repository.keySpace)
      (hh : ∀ u, p.shelf.Holds u → d.shelf.Holds u)
      (hu : p.shelf.Unbounded → d.shelf.Unbounded) :
      Moves p .restart ⟨t, none, ⟨d, .empty⟩⟩

theorem Moves.steps {p q : Station σ} {d : Option Deed} (h : Moves p (.step d) q) :
    ∃ c c', p.cycle = some c ∧ q.cycle = some c' ∧
      p.task.Steps c p.shelf p.bench.counters d c' q.shelf q.bench.counters := by
  generalize he : Event.step d = e at h
  cases h with
  | @step k hk c hc =>
    cases he
    exact ⟨c, _, hc, rfl, Task.steps hk p.task c p.bench⟩
  | _ => cases he

inductive Run (P : Station σ → Prop) : Station σ → List Event → Station σ → Prop
  | start {p : Station σ} (hp : P p) : Run P p [] p
  | move {p q q' : Station σ} {es : List Event} {e : Event} (h : Run P p es q) (hm : Moves q e q')
      (hq : P q') : Run P p (es ++ [e]) q'

def OnCompleted (t : Task) (c : Cycle) : Prop :=
  c.cursor.Placed ∧ c.cursor.start = t.repository.keySpace.completedPrefix

structure Fit (p : Station σ) : Prop where
  legible : ∃ t, p.shelf.Holds t
  onCompleted : ∀ c, p.cycle = some c → OnCompleted p.task c

theorem Fit.steps {t : Task} {c c' : Cycle} {s s' : Shelf} {n n' : Counters} {d : Option Deed}
    (hst : t.Steps c s n d c' s' n') {u : Table} (hs : s.Holds u) (hc : OnCompleted t c) :
    (∃ w, s'.Holds w) ∧ OnCompleted t c' := by
  have fetched {x : Option (Except StoreError Entry)} {cursor : Cursor} {s' : Shelf}
      (hx : c.cursor.next s = (x, cursor, s')) :
      (∃ w, s'.Holds w) ∧ cursor.Placed ∧ cursor.start = t.repository.keySpace.completedPrefix := by
    obtain ⟨hplaced, hstart, hs'⟩ := hc.1.next hs hx
    exact ⟨⟨u, hs'⟩, hplaced, hstart.trans hc.2⟩
  cases hst with
  | ended _ hx => exact fetched hx
  | passed _ hx => exact fetched hx
  | found _ hx => exact fetched hx
  | unread _ hx | gone _ hx | read _ hx => exact ⟨⟨u, (t.repository.recover_keeps hs hx).1⟩, hc⟩
  | @confirmed i _ _ _ _ hx | @unconfirmed i _ _ _ _ hx =>
    obtain ⟨w, hw⟩ := t.repository.run_legible hs (.confirm i)
    exact ⟨⟨w, by simpa [Repository.run, hx] using hw⟩, hc⟩
  | stopped | taken | redelivered | sent | unsent | rested => exact ⟨⟨u, hs⟩, hc⟩

theorem Fit.moves {p q : Station σ} {e : Event} (h : p.Fit) (hm : Moves p e q) : q.Fit := by
  obtain ⟨t, ht⟩ := h.legible
  cases hm with
  | call c => exact ⟨p.task.repository.run_legible ht c, h.onCompleted⟩
  | begin hc =>
    refine ⟨⟨t, ht⟩, ?_⟩
    rintro c hc
    cases hc
    exact ⟨Cursor.placed_new _, rfl⟩
  | step hk hc =>
    obtain ⟨hl, hcomp⟩ := Fit.steps (Task.steps hk p.task _ p.bench) ht (h.onCompleted _ hc)
    refine ⟨hl, ?_⟩
    rintro c hc
    cases hc
    exact hcomp
  | drop => exact ⟨⟨t, ht⟩, by simp⟩
  | halt => exact ⟨⟨t, ht⟩, h.onCompleted⟩
  | resume => exact ⟨⟨t, ht⟩, h.onCompleted⟩
  | restart t' d hk hh hu => exact ⟨⟨t, hh t ht⟩, by simp⟩

namespace Run

variable {P : Station σ → Prop} {p q r : Station σ} {es fs : List Event}

theorem trans (h : Run P p es q) (h' : Run P q fs r) : Run P p (es ++ fs) r := by
  induction h' with
  | start => rwa [List.append_nil]
  | move _ hm hq ih =>
    rw [← List.append_assoc]
    exact .move ih hm hq

theorem single {e : Event} (hp : P p) (hm : Moves p e q) (hq : P q) : Run P p [e] q :=
  .move (.start hp) hm hq

theorem here (h : Run P p es q) : P q := by
  cases h with
  | start hp => exact hp
  | move _ _ hq => exact hq

theorem first (h : Run P p es q) : P p := by
  induction h with
  | start hp => exact hp
  | move _ _ _ ih => exact ih

theorem split {e : Event} (h : Run P p (es ++ e :: fs) q) :
    ∃ p₁ p₂, Run P p es p₁ ∧ Moves p₁ e p₂ ∧ Run P p₂ fs q := by
  generalize hl : es ++ e :: fs = l at h
  induction h generalizing fs with
  | start => simp at hl
  | move h hm hq ih =>
    rcases List.eq_nil_or_concat fs with rfl | ⟨fs, e', rfl⟩
    · obtain ⟨rfl, he⟩ := List.append_inj' hl rfl
      cases he
      exact ⟨_, _, h, hm, .start hq⟩
    · rw [List.concat_eq_append, ← List.cons_append, ← List.append_assoc] at hl
      obtain ⟨rfl, he⟩ := List.append_inj' hl rfl
      cases he
      obtain ⟨p₁, p₂, h₁, hm', h₂⟩ := ih rfl
      exact ⟨p₁, p₂, h₁, hm', by simpa using Run.move h₂ hm hq⟩

end Run

end Station

def Repository.shelfAfter (r : Repository) (calls : List Call) (s : Shelf) : Shelf :=
  calls.foldl (fun s c => (r.run s c).2) s

structure Collaborators.Through (k : Collaborators σ) (r : Repository) : Prop where
  redeliver : ∀ e d, ∃ calls, (k.redeliver e d).2.shelf = r.shelfAfter calls d.shelf
  send : ∀ destination e d, ∃ calls,
    (k.send destination e d).2.shelf = r.shelfAfter calls d.shelf

namespace Script

theorem act_through (r : Repository) (l : List Action) (d : Desk Boxes) :
    ∃ calls, (act r l d).2.shelf = r.shelfAfter calls d.shelf := by
  induction l generalizing d with
  | nil => exact ⟨[], rfl⟩
  | cons a l ih =>
    cases a with
    | halt => exact ih { d with runAllowed := false }
    | confirm id =>
      obtain ⟨calls, h⟩ := ih { d with shelf := (r.confirm id d.shelf).2 }
      exact ⟨.confirm id :: calls, h⟩
    | stage key e =>
      obtain ⟨calls, h⟩ := ih { d with shelf := (r.remove key e (r.add key e d.shelf).2).2 }
      exact ⟨.add key e :: .remove key e :: calls, h⟩
    | reject => exact ⟨[], rfl⟩

theorem through_collaborators (r : Repository) (onRedeliver onDead : Script) :
    (collaborators r onRedeliver onDead).Through r where
  redeliver e d := by
    obtain ⟨calls, h⟩ := act_through r (onRedeliver.actions e.id) d
    refine ⟨calls, ?_⟩
    rw [← h]
    simp only [collaborators]
    split <;> rfl
  send destination e d := by
    obtain ⟨calls, h⟩ := act_through r (onDead.actions e.id) d
    refine ⟨calls, ?_⟩
    rw [← h]
    simp only [collaborators]
    split <;> rfl

end Script

def Task.runCycles (t : Task) (ks : List (Collaborators σ)) (b : Bench σ) : Bench σ :=
  ks.foldl (fun b k => (t.runCycle k b).2) b

def Collaborators.told (x : Except DeliveryError Unit) (d : Desk σ) : Collaborators σ where
  redeliver _ d' := (x, { d with shelf := d'.shelf })
  send _ _ d' := (x, { d with shelf := d'.shelf })
  maxStaged := 0

namespace Station

theorem aloof_told (x : Except DeliveryError Unit) (d : Desk σ) : (Collaborators.told x d).Aloof :=
  ⟨fun _ _ => rfl, fun _ _ _ => rfl⟩

theorem run_calls (p : Station σ) (calls : List Call) :
    ∃ es, Run (fun _ => True) p es (p.withShelf (p.task.repository.shelfAfter calls p.shelf)) ∧
      .restart ∉ es := by
  induction calls generalizing p with
  | nil => exact ⟨[], .start trivial, by simp⟩
  | cons c calls ih =>
    obtain ⟨es, h, hes⟩ := ih (p.withShelf (p.task.repository.run p.shelf c).2)
    exact ⟨_, (Run.single trivial (.call p c) trivial).trans h, by simpa using hes⟩

theorem run_step (p : Station σ) {k : Collaborators σ} (hk : k.Through p.task.repository) {c : Cycle}
    (hc : p.cycle = some c) :
    ∃ es, Run (fun _ => True) p es
      ⟨p.task, some (p.task.step k c p.bench).1, (p.task.step k c p.bench).2⟩ ∧
      .restart ∉ es := by
  have after {x : Except DeliveryError Unit} {d : Desk σ} (calls : List Call)
      (hstep : p.task.step k c p.bench = p.task.step (.told x d) c
        (p.withShelf (p.task.repository.shelfAfter calls p.shelf)).bench) :
      ∃ es, Run (fun _ => True) p es
        ⟨p.task, some (p.task.step k c p.bench).1, (p.task.step k c p.bench).2⟩ ∧
        .restart ∉ es := by
    obtain ⟨es, h, hes⟩ := p.run_calls calls
    rw [hstep]
    exact ⟨_, h.trans (Run.single trivial (.step _ (aloof_told x d) hc) trivial), by simpa using hes⟩
  cases hp : c.phase with
  | redelivering id e =>
    obtain ⟨calls, hd⟩ := hk.redeliver e p.bench.desk
    apply after (x := (k.redeliver e p.bench.desk).1) (d := (k.redeliver e p.bench.desk).2) calls
    simp only [Task.step, hp, Bench.onDesk, Collaborators.told, withShelf]
    rw [show p.task.repository.shelfAfter calls p.shelf = _ from hd.symm]
  | escalating id e =>
    obtain ⟨calls, hd⟩ := hk.send p.task.destination e p.bench.desk
    apply after (x := (k.send p.task.destination e p.bench.desk).1)
      (d := (k.send p.task.destination e p.bench.desk).2) calls
    simp only [Task.step, hp, Bench.onDesk, Collaborators.told, withShelf]
    rw [show p.task.repository.shelfAfter calls p.shelf = _ from hd.symm]
  | _ =>
    apply after (x := .ok ()) (d := p.bench.desk) []
    simp only [Task.step, hp, withShelf]
    rfl

theorem run_runUpTo (p : Station σ) {k : Collaborators σ} (hk : k.Through p.task.repository)
    {c : Cycle} (hc : p.cycle = some c) (fuel : Nat) :
    ∃ es, Run (fun _ => True) p es
      ⟨p.task, some (p.task.runUpTo k fuel c p.bench).1, (p.task.runUpTo k fuel c p.bench).2⟩ ∧
      .restart ∉ es := by
  induction fuel generalizing p c with
  | zero => exact ⟨[], by rw [Task.runUpTo, ← hc]; exact .start trivial, by simp⟩
  | succ fuel ih =>
    have next := p.run_step hk hc
    cases hp : c.phase with
    | finished =>
      exact ⟨[], by simp only [Task.runUpTo, hp]; rw [← hc]; exact .start trivial, by simp⟩
    | _ =>
      obtain ⟨es, h, hes⟩ := next
      obtain ⟨fs, h', hfs⟩ := ih ⟨p.task, some (p.task.step k c p.bench).1, _⟩ hk rfl
      refine ⟨es ++ fs, ?_, by simp [hes, hfs]⟩
      simp only [Task.runUpTo, hp]
      exact h.trans h'

theorem run_runCycle (p : Station σ) {k : Collaborators σ} (hk : k.Through p.task.repository)
    (hc : p.cycle = none) :
    ∃ es, Run (fun _ => True) p es { p with bench := (p.task.runCycle k p.bench).2 } ∧
      .restart ∉ es := by
  have hbegin := Run.single (P := fun _ => True) trivial (.begin p hc) trivial
  obtain ⟨es, h, hes⟩ := run_runUpTo { p with cycle := some p.task.begin } hk rfl
    (Task.stepBound k p.bench)
  have hrun := (hbegin.trans h).trans (Run.single trivial (.drop _) trivial)
  refine ⟨[.begin] ++ es ++ [.drop], ?_, by simpa using hes⟩
  simpa only [Task.runCycle, hc] using hrun

theorem run_runCycles (p : Station σ) {ks : List (Collaborators σ)}
    (hk : ∀ k ∈ ks, k.Through p.task.repository) (hc : p.cycle = none) :
    ∃ es, Run (fun _ => True) p es { p with bench := p.task.runCycles ks p.bench } ∧
      .restart ∉ es := by
  induction ks generalizing p with
  | nil => exact ⟨[], .start trivial, List.not_mem_nil⟩
  | cons k ks ih =>
    obtain ⟨hfirst, hrest⟩ := List.forall_mem_cons.mp hk
    obtain ⟨es, h, hes⟩ := p.run_runCycle hfirst hc
    obtain ⟨fs, h', hfs⟩ := ih { p with bench := (p.task.runCycle k p.bench).2 } hrest hc
    exact ⟨es ++ fs, h.trans h', by simp [hes, hfs]⟩

def smallKeySpace : KeySpace := ⟨"orders", KeySpace.isName_orders⟩

def smallTask : Task where
  repository := ⟨{ Settings.named "orders" with maxRedeliveries := 1, deadLetterUri := some "dead" },
    smallKeySpace, ⟨fun _ e => .ok (Bytes.ofString e.id),
      fun _ => .ok ⟨"a", ⟨1970, 1, 1, 0, 0, 0, 0, by decide, by decide⟩, .null, .empty, .empty⟩⟩⟩
  destination := "dead"

def small : Station Unit :=
  fresh smallTask ⟨.memory ⟨MemoryStore.Contents.empty.insert (smallKeySpace.completedKey "a") [1],
    true, none⟩, .empty, .none⟩ ()

end Station

end Staging
