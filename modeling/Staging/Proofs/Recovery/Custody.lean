import Mathlib
import Staging.Proofs.Recovery.Run

namespace Staging

variable {σ : Type}

namespace Station

/-- The last thing that a cycle did was to send these bytes, decoded and stamped, to the task's
destination for dead letters, which took them. -/
def Escalated (t : Task) (id : String) (b : Bytes) (es : List Event) : Prop :=
  ∃ es₁ x n es₂, t.repository.unmarshal id b = .ok x ∧
    es = es₁ ++ .step (some (.sent id t.destination
      (x.stamp n t.repository.settings.maxRedeliveries) (.ok ()))) :: es₂ ∧
    ∀ e ∈ es₂, e.Outside

theorem Escalated.append {t : Task} {id : String} {b : Bytes} {es : List Event} {e : Event}
    (h : Escalated t id b es) (he : e.Outside) : Escalated t id b (es ++ [e]) := by
  obtain ⟨es₁, x, n, es₂, hx, rfl, hes⟩ := h
  refine ⟨es₁, x, n, es₂ ++ [e], hx, by simp, ?_⟩
  intro e' he'
  rcases List.mem_append.mp he' with he' | he'
  · exact hes e' he'
  · rwa [List.mem_singleton.mp he']

inductive Released (id : String) (b : Bytes) (es : List Event) (p p' : Station σ) : Event → Prop
  | confirmed : Released id b es p p' (.call (.confirm id) (.flag (.ok true)))
  | escalated (h : Escalated p.task id b es) :
      Released id b es p p' (.step (some (.confirmed id (.ok true))))
  | replaced {key : String} {x : Exchange} {v : Bytes} (hid : x.id = id)
      (hm : p.task.repository.marshal key x = .ok v) (hs : p'.staged id = some v) :
      Released id b es p p' (.call (.remove key x) (.done (.ok ())))

/-- What a visit of the exchange has in hand comes from its bytes. -/
def InHand (t : Task) (id : String) (b : Bytes) (es : List Event) : Phase → Prop
  | .redelivering i e | .escalating i e => i = id → ∃ x n, t.repository.unmarshal id b = .ok x ∧
      e = x.stamp n t.repository.settings.maxRedeliveries
  | .confirming i => i = id → Escalated t id b es
  | _ => True

theorem InHand.append {t : Task} {id : String} {b : Bytes} {es : List Event} {e : Event} {f : Phase}
    (h : InHand t id b es f) (he : e.Outside) : InHand t id b (es ++ [e]) f := by
  cases f with
  | confirming i => exact fun hi => (h hi).append he
  | redelivering => exact h
  | escalating => exact h
  | _ => trivial

theorem inHand_route {t : Task} {id : String} {b : Bytes} {x : Exchange}
    (hx : t.repository.unmarshal id b = .ok x) (es : List Event) (n : UInt32) :
    InHand t id b es (t.route id x n) := by
  unfold Task.route
  dsimp only
  split
  · exact fun _ => ⟨x, n, hx, rfl⟩
  · exact fun _ => ⟨x, n, hx, rfl⟩

theorem inHand_route_of_ne {t : Task} {id i : String} {b : Bytes} (hi : i ≠ id) (x : Exchange)
    (es : List Event) (n : UInt32) : InHand t id b es (t.route i x n) := by
  unfold Task.route
  dsimp only
  split
  · exact fun h => absurd h hi
  · exact fun h => absurd h hi

structure Kept (id : String) (b : Bytes) (es : List Event) (k : Task) (c : Option Cycle)
    (s : Shelf) : Prop where
  holds : ∃ t, s.Holds t ∧ t.get? (k.repository.keySpace.completedKey id) = some b
  unbounded : s.Unbounded
  inHand : ∀ c', c = some c' → InHand k id b es c'.phase

variable {id : String} {b : Bytes} {es : List Event}

theorem Kept.staged {p : Station σ} (h : Kept id b es p.task p.cycle p.shelf) :
    p.staged id = some b := by
  obtain ⟨t, ht, hb⟩ := h.holds
  rw [staged_eq ht, hb]

theorem Kept.look {k : Task} {c c' : Cycle} {s s' : Shelf} {es' : List Event}
    (h : Kept id b es k (some c) s) (hs : ∀ t, s.Holds t → s'.Holds t ∧ s.Like s')
    (hc : InHand k id b es' c'.phase) : Kept id b es' k (some c') s' := by
  obtain ⟨t, ht, hb⟩ := h.holds
  obtain ⟨ht', hl⟩ := hs t ht
  refine ⟨⟨t, ht', hb⟩, hl.unbounded h.unbounded, ?_⟩
  intro c'' hc''
  cases hc''
  exact hc

theorem Kept.call {k : Task} {c : Option Cycle} {s : Shelf} (h : Kept id b es k c s) (x : Call) :
    Kept id b (es ++ [.call x (k.repository.run s x).1]) k c (k.repository.run s x).2 ∨
      (x = .confirm id ∧ (k.repository.run s x).1 = .flag (.ok true)) ∨
      ∃ key e v, x = .remove key e ∧ e.id = id ∧ (k.repository.run s x).1 = .done (.ok ()) ∧
        k.repository.marshal key e = .ok v ∧ ∃ u, (k.repository.run s x).2.Holds u ∧
          u.get? (k.repository.keySpace.completedKey id) = some v := by
  obtain ⟨t, ht, hb⟩ := h.holds
  obtain ⟨u, hu, hl, hx | ⟨hx, ha⟩ | ⟨key, e, v, hx, hid, ha, hm, hv⟩⟩ :=
    k.repository.run_completed ht h.unbounded x id
  · left
    refine ⟨⟨u, hu, by rw [hx, hb]⟩, hl.unbounded h.unbounded, ?_⟩
    intro c' hc'
    exact (h.inHand c' hc').append trivial
  · right; left
    rw [hb] at ha
    exact ⟨hx, ha⟩
  · right; right
    exact ⟨key, e, v, hx, hid, ha, hm, u, hu, hv⟩

theorem Kept.confirm {k : Task} {c c' : Cycle} {s s' : Shelf} {es' : List Event} {i : String}
    {x : Except RepositoryError Bool} (h : Kept id b es k (some c) s)
    (hx : k.repository.confirm i s = (x, s')) (hc : InHand k id b es' c'.phase) :
    Kept id b es' k (some c') s' ∨ i = id ∧ x = .ok true := by
  obtain ⟨t, ht, hb⟩ := h.holds
  have hrun : k.repository.run s (.confirm i) = (.flag x, s') := by simp [Repository.run, hx]
  obtain ⟨u, hu, hl, hsame | ⟨hi, ha⟩ | ⟨_, _, _, hi, _⟩⟩ :=
    k.repository.run_completed ht h.unbounded (.confirm i) id
  · rw [hrun] at hu hl
    refine Or.inl ⟨⟨u, hu, by rw [hsame, hb]⟩, hl.unbounded h.unbounded, ?_⟩
    rintro c'' hc''
    cases hc''
    exact hc
  · right
    cases hi
    rw [hrun, hb] at ha
    cases ha
    exact ⟨rfl, rfl⟩
  · cases hi

theorem Kept.steps {k : Task} {c c' : Cycle} {s s' : Shelf} {n n' : Counters} {d : Option Deed}
    (hst : k.Steps c s n d c' s' n') (h : Kept id b es k (some c) s) :
    Kept id b (es ++ [.step d]) k (some c') s' ∨
      d = some (.confirmed id (.ok true)) ∧ Escalated k id b es := by
  have hand := h.inHand c rfl
  have untouched (t : Table) (ht : s.Holds t) : s.Holds t ∧ s.Like s := ⟨ht, .refl s⟩
  have fetched {x : Option (Except StoreError Entry)} {cursor : Cursor} {s' : Shelf}
      (hx : c.cursor.next s = (x, cursor, s')) (t : Table) (ht : s.Holds t) :
      s'.Holds t ∧ s.Like s' := by
    simpa [hx] using c.cursor.next_keeps ht
  cases hst with
  | ended hp hx => exact Or.inl (h.look (fetched hx) trivial)
  | passed hp hx => exact Or.inl (h.look (fetched hx) (by simp [InHand, hp]))
  | found hp hx => exact Or.inl (h.look (fetched hx) trivial)
  | stopped => exact Or.inl (h.look untouched trivial)
  | taken => exact Or.inl (h.look untouched trivial)
  | unread hp hx | gone hp hx =>
    exact Or.inl (h.look (fun _ ht => k.repository.recover_keeps ht hx) trivial)
  | @read i e _ hp hx =>
    refine Or.inl (h.look (fun _ ht => k.repository.recover_keeps ht hx) ?_)
    by_cases hi : i = id
    · subst hi
      obtain ⟨t, ht, hb⟩ := h.holds
      apply inHand_route
      exact k.repository.unmarshal_of_recover ht hb hx
    · exact inHand_route_of_ne hi e _ _
  | redelivered => exact Or.inl (h.look untouched trivial)
  | @sent i e hp =>
    refine Or.inl (h.look untouched ?_)
    rintro rfl
    simp only [hp, InHand] at hand
    obtain ⟨x, m, hx, rfl⟩ := hand trivial
    exact ⟨es, x, m, [], hx, rfl, by simp⟩
  | unsent => exact Or.inl (h.look untouched trivial)
  | confirmed hp hx =>
    refine Or.imp_right ?_ (h.confirm hx trivial)
    rintro ⟨rfl, hx'⟩
    cases hx'
    rw [hp] at hand
    exact ⟨rfl, hand rfl⟩
  | unconfirmed hp hx =>
    refine Or.imp_right ?_ (h.confirm hx trivial)
    rintro ⟨_, hx'⟩
    cases hx'
  | rested hp => exact Or.inl (h.look untouched (by simp [InHand, hp]))

theorem Kept.moves {p p' : Station σ} {e : Event} (h : Kept id b es p.task p.cycle p.shelf)
    (hm : Moves p e p') :
    Kept id b (es ++ [e]) p'.task p'.cycle p'.shelf ∨ Released id b es p p' e := by
  cases hm with
  | call x =>
    rcases h.call x with h' | ⟨rfl, ha⟩ | ⟨key, y, v, rfl, hid, ha, hmar, u, hu, hv⟩
    · exact Or.inl h'
    · rw [ha]
      exact Or.inr .confirmed
    · rw [ha]
      refine Or.inr (.replaced hid hmar ?_)
      exact (staged_eq (p := p.withShelf (p.task.repository.run p.shelf (.remove key y)).2) hu id).trans hv
  | begin hc =>
    refine Or.inl ⟨h.holds, h.unbounded, ?_⟩
    rintro c' hc'
    cases hc'
    trivial
  | step hk hc =>
    rw [hc] at h
    rcases h.steps (Task.steps hk p.task _ p.bench) with h' | ⟨hd, hesc⟩
    · exact Or.inl h'
    · rw [hd]
      exact Or.inr (.escalated hesc)
  | drop => exact Or.inl ⟨h.holds, h.unbounded, by simp⟩
  | halt => exact Or.inl ⟨h.holds, h.unbounded, fun c' hc' => (h.inHand c' hc').append trivial⟩
  | resume => exact Or.inl ⟨h.holds, h.unbounded, fun c' hc' => (h.inHand c' hc').append trivial⟩
  | restart t d hk hh hu =>
    obtain ⟨u, hu', hb⟩ := h.holds
    refine Or.inl ⟨⟨u, hh u hu', by rw [hk, hb]⟩, hu h.unbounded, by simp⟩

theorem Kept.start {p : Station σ} {t : Table} (ht : p.shelf.Holds t) (hu : p.shelf.Unbounded)
    (hs : p.staged id = some b)
    (hand : ∀ c, p.cycle = some c → InHand p.task id b [] c.phase) :
    Kept id b [] p.task p.cycle p.shelf :=
  ⟨⟨t, ht, by rw [← staged_eq ht, hs]⟩, hu, hand⟩

theorem Kept.untilReleased {p q : Station σ} (h : Kept id b [] p.task p.cycle p.shelf)
    (hrun : Run (fun _ => True) p es q) :
    Run (fun p => p.staged id = some b) p es q ∧ Kept id b es q.task q.cycle q.shelf ∨
      ∃ es₁ e es₂ p₁ p₂, es = es₁ ++ e :: es₂ ∧
        Run (fun p => p.staged id = some b) p es₁ p₁ ∧ Moves p₁ e p₂ ∧
        Run (fun _ => True) p₂ es₂ q ∧ Released id b es₁ p₁ p₂ e := by
  induction hrun with
  | start => exact Or.inl ⟨.start h.staged, h⟩
  | move _ hm _ ih =>
    rcases ih with ⟨hr, hk⟩ | ⟨es₁, e, es₂, p₁, p₂, rfl, hr, hm', hr', hrel⟩
    · rcases hk.moves hm with hk' | hrel
      · exact Or.inl ⟨.move hr hm hk'.staged, hk'⟩
      · exact Or.inr ⟨_, _, [], _, _, rfl, hr, hm, .start trivial, hrel⟩
    · refine Or.inr ⟨es₁, e, _, p₁, p₂, ?_, hr, hm', .move hr' hm trivial, hrel⟩
      rw [List.append_assoc, List.cons_append]

theorem staged_until_released {p q : Station σ} {t : Table} (hrun : Run (fun _ => True) p es q)
    (ht : p.shelf.Holds t) (hu : p.shelf.Unbounded) (hs : p.staged id = some b)
    (hv : ¬ p.Visiting id) :
    Run (fun p => p.staged id = some b) p es q ∨
      ∃ es₁ e es₂ p₁ p₂, es = es₁ ++ e :: es₂ ∧
        Run (fun p => p.staged id = some b) p es₁ p₁ ∧ Moves p₁ e p₂ ∧
        Run (fun _ => True) p₂ es₂ q ∧ Released id b es₁ p₁ p₂ e := by
  have hand : ∀ c, p.cycle = some c → InHand p.task id b [] c.phase := by
    intro c hc
    cases hp : c.phase with
    | redelivering i e => exact fun hi => absurd ⟨c, hc, Or.inl ⟨e, hi ▸ hp⟩⟩ hv
    | escalating i e => exact fun hi => absurd ⟨c, hc, Or.inr (Or.inl ⟨e, hi ▸ hp⟩)⟩ hv
    | confirming i => exact fun hi => absurd ⟨c, hc, Or.inr (Or.inr (hi ▸ hp))⟩ hv
    | _ => trivial
  exact ((Kept.start ht hu hs hand).untilReleased hrun).imp_left And.left

section Troubled

def troubled : Station Boxes :=
  fresh smallTask ⟨.memory ⟨MemoryStore.Contents.empty.insert (smallKeySpace.completedKey "a") [1],
    true, none⟩, .empty, FaultPlan.none.inject .delete 0 (some 1)⟩ .empty

/-- The second cycle's send is refused, and the delete after the third one's fails. -/
def fourCycles : List (Collaborators Boxes) :=
  [[], [("a", [.reject])], [], []].map (Script.collaborators smallTask.repository [])

def afterCycles (n : Nat) : Station Boxes :=
  { troubled with bench := smallTask.runCycles (fourCycles.take n) troubled.bench }

def deliveries (p : Station Boxes) : Nat × Nat :=
  (p.bench.desk.outside.inbox.count "a", p.bench.desk.outside.dead.count "a")

theorem staged_until_released_troubled :
    ∃ es q, Run (fun _ => True) troubled es q ∧ q = afterCycles 4 ∧
      (List.range 5).map (fun n => deliveries (afterCycles n)) =
        [(0, 0), (1, 0), (1, 0), (1, 1), (1, 2)] ∧
      (List.range 5).map (fun n => (afterCycles n).staged "a") =
        [some [1], some [1], some [1], some [1], none] ∧
      troubled.shelf.Unbounded ∧ troubled.staged "a" = some [1] ∧ ¬ troubled.Visiting "a" ∧
      (Run (fun p => p.staged "a" = some [1]) troubled es q ∨
        ∃ es₁ e es₂ p₁ p₂, es = es₁ ++ e :: es₂ ∧
          Run (fun p => p.staged "a" = some [1]) troubled es₁ p₁ ∧ Moves p₁ e p₂ ∧
          Run (fun _ => True) p₂ es₂ q ∧ Released "a" [1] es₁ p₁ p₂ e) := by
  have hthrough : ∀ k ∈ fourCycles, k.Through troubled.task.repository := by
    intro k hk
    obtain ⟨onDead, -, rfl⟩ := List.mem_map.mp hk
    exact Script.through_collaborators _ _ _
  obtain ⟨es, hrun, -⟩ := troubled.run_runCycles hthrough rfl
  have hs : troubled.staged "a" = some [1] := by decide +kernel
  have hv : ¬ troubled.Visiting "a" := by
    rintro ⟨c, hc, _⟩
    cases hc
  exact ⟨es, _, hrun, rfl, by decide +kernel, by decide +kernel, rfl, hs, hv,
    staged_until_released hrun rfl rfl hs hv⟩

end Troubled

theorem staged_until_released_of_idle {p q : Station σ} {t : Table}
    (hrun : Run (fun _ => True) p es q) (ht : p.shelf.Holds t) (hu : p.shelf.Unbounded)
    (hs : p.staged id = some b) (hc : p.cycle = none) :
    Run (fun p => p.staged id = some b) p es q ∨
      ∃ es₁ e es₂ p₁ p₂, es = es₁ ++ e :: es₂ ∧
        Run (fun p => p.staged id = some b) p es₁ p₁ ∧ Moves p₁ e p₂ ∧
        Run (fun _ => True) p₂ es₂ q ∧ Released id b es₁ p₁ p₂ e :=
  ((Kept.start ht hu hs (by simp [hc])).untilReleased hrun).imp_left And.left

end Station

end Staging
