import Mathlib
import Staging.Store.Shelf
import Staging.Proofs.Store.Memory

/-!
What a store holds, and what each call on it does to that. A call either has its full effect or
fails and has none.
-/

namespace Staging

def Disk.NamedInUse (d : Disk) : Prop :=
  ∀ name t n, d.named.get? name = some (t, n) → n ≠ 0

theorem Disk.namedInUse_empty : Disk.empty.NamedInUse := by
  intro name t n h
  simp [Disk.empty] at h

theorem Disk.NamedInUse.keepNamed {d : Disk} (h : d.NamedInUse) (name : Bytes) (t : Table)
    (connections : Nat) : (d.keepNamed name t connections).NamedInUse := by
  intro other u n hn
  simp only [Disk.keepNamed] at hn
  split_ifs at hn with hzero
  · rw [SortedMap.get?_erase] at hn
    split_ifs at hn
    exact h other u n hn
  · rw [SortedMap.get?_insert] at hn
    split_ifs at hn
    · cases hn
      exact hzero
    · exact h other u n hn

namespace Source

theorem table_setTable {s : Source} {d : Disk} {t : Table} (hd : d.NamedInUse)
    (ht : s.table d = .ok t) (hw : s.isReadOnly = false) (u : Table) :
    (s.setTable d u).1.table (s.setTable d u).2 = .ok u ∧
      (s.setTable d u).1.isReadOnly = false ∧ (s.setTable d u).2.NamedInUse ∧
      (s.setTable d u).2.shared = d.shared := by
  cases s with
  | own _ => exact ⟨rfl, rfl, hd, rfl⟩
  | frozen _ => simp [isReadOnly] at hw
  | file p readOnly logging =>
    simp only [table] at ht
    split at ht
    · rename_i f hf
      split at ht
      · split at ht
        · simp at ht
        · rename_i hlog
          have hput : (d.put p (.table (f.write u))).tableFile? p = some (f.write u) := by
            simp [Disk.put, Disk.tableFile?]
          have hset : setTable (.file p readOnly logging) d u =
              (.file p readOnly logging, d.put p (.table (f.write u))) := by
            simp [setTable, Disk.changeTable, hf]
          rw [hset]
          refine ⟨?_, hw, hd, rfl⟩
          simp only [table, hput, TableFile.table_write]
          simpa [TableFile.write] using hlog
      · simp at ht
    · simp at ht
  | named name readOnly seen =>
    cases seen with
    | some _ => simp [isReadOnly] at hw
    | none =>
      simp only [table] at ht
      split at ht
      · rename_i t' n hn
        have hpos := hd _ _ _ hn
        have hset : setTable (.named name readOnly none) d u =
            (.named name readOnly none, d.keepNamed name u n) := by
          simp [setTable, hn]
        rw [hset]
        exact ⟨by simp [table, Disk.keepNamed, hpos], hw, hd.keepNamed name u n, rfl⟩
      · simp at ht

end Source

namespace Connection

theorem lookup_share (d : Disk) (name : SharedName) (s : Source) (holders : Nat) :
    (d.share name s holders).shared.lookup name = some (s, holders) := by
  simp [Disk.share]

theorem table_share (s : Source) (d : Disk) (name : SharedName) (s' : Source) (holders : Nat) :
    s.table (d.share name s' holders) = s.table d := by
  cases s <;> rfl

theorem table_setTable {c : Connection} {d : Disk} {t : Table} (hd : d.NamedInUse)
    (ht : c.table d = .ok t) (hw : c.isReadOnly d = false) (u : Table) :
    (c.setTable d u).1.table (c.setTable d u).2 = .ok u ∧
      (c.setTable d u).1.isReadOnly (c.setTable d u).2 = false ∧
      (c.setTable d u).2.NamedInUse := by
  cases c with
  | alone s =>
    obtain ⟨h₁, h₂, h₃, _⟩ := Source.table_setTable hd ht (by simpa [isReadOnly, source?] using hw) u
    exact ⟨h₁, by simpa [setTable, isReadOnly, source?] using h₂, h₃⟩
  | shared name =>
    cases hl : d.shared.lookup name with
    | none => simp [table, source?, hl] at ht
    | some p =>
      obtain ⟨s, holders⟩ := p
      simp only [table, source?, hl, Option.map_some] at ht
      simp only [isReadOnly, source?, hl, Option.map_some, Option.any_some] at hw
      obtain ⟨h₁, h₂, h₃, _⟩ := Source.table_setTable hd ht hw u
      have hset : (Connection.shared name).setTable d u =
          (.shared name, (s.setTable d u).2.share name (s.setTable d u).1 holders) := by
        simp [setTable, hl]
      rw [hset]
      refine ⟨?_, ?_, h₃⟩
      · simp only [table, source?, lookup_share, Option.map_some, table_share]
        exact h₁
      · simpa [isReadOnly, source?, lookup_share] using h₂

end Connection

namespace DurableStore

theorem writeBatch_cases {s : DurableStore} {d : Disk} {t : Table} (hd : d.NamedInUse)
    (ht : s.table d = .ok t) {b : Batch} (hb : b ≠ []) :
    (∃ s' d', s.writeBatch d b = (.ok (), s', d') ∧ s'.table d' = .ok (t.writeAll b) ∧
      s'.isReadOnly d' = false ∧ d'.NamedInUse ∧ s'.isOpen = s.isOpen) ∨
    (s.isReadOnly d = true ∧ s.writeBatch d b = (.error .database, s, d)) := by
  cases hr : s.isReadOnly d with
  | true =>
    right
    exact ⟨rfl, by simp [writeBatch, ht, hr, hb]⟩
  | false =>
    left
    cases hc : s.connection with
    | none => simp [table, hc] at ht
    | some c =>
      have hct : c.table d = .ok t := by simpa [table, hc] using ht
      have hcr : c.isReadOnly d = false := by simpa [isReadOnly, hc] using hr
      obtain ⟨h₁, h₂, h₃⟩ := Connection.table_setTable hd hct hcr (t.writeAll b)
      refine ⟨{ s with connection := some (c.setTable d (t.writeAll b)).1 },
        (c.setTable d (t.writeAll b)).2, ?_, h₁, ?_, h₃, ?_⟩
      · simp [writeBatch, ht, hr, setTable, hc, hb]
      · simpa [isReadOnly] using h₂
      · simp [isOpen, hc]

end DurableStore

namespace Shelf

/-- The store has this table: an open durable store reads it, and a store in memory keeps it. -/
def Holds (s : Shelf) (t : Table) : Prop :=
  match s.backend with
  | .memory m => m.contents.toTable = t
  | .durable d => d.table s.disk = .ok t ∧ s.disk.NamedInUse

def Unbounded (s : Shelf) : Prop :=
  match s.backend with
  | .memory m => m.bound = none
  | .durable _ => True

def ReadOnly (s : Shelf) : Prop :=
  match s.backend with
  | .memory _ => False
  | .durable d => d.isReadOnly s.disk = true

structure Sound (s : Shelf) : Prop where
  isOpen : s.isOpen = true
  writable : ¬ s.ReadOnly
  faultless : ∀ calls p, s.faults.reason calls p = none

structure Like (s s' : Shelf) : Prop where
  unbounded : s.Unbounded → s'.Unbounded
  sound : s.Sound → s'.Sound

theorem Like.refl (s : Shelf) : s.Like s := ⟨id, id⟩

theorem Like.trans {s s' s'' : Shelf} (h : s.Like s') (h' : s'.Like s'') : s.Like s'' :=
  ⟨h'.unbounded ∘ h.unbounded, h'.sound ∘ h.sound⟩

/-- A call gives the answer `a` and leaves the table `u`; or it fails and leaves `t`, which does not
happen on a sound store. -/
def Answers {ε α : Type} (s : Shelf) (t u : Table) (a : Except ε α) (x : Except ε α × Shelf) :
    Prop :=
  (∃ s', x = (a, s') ∧ s'.Holds u ∧ s.Like s') ∨
    ¬ s.Sound ∧ ∃ e s', x = (.error e, s') ∧ s'.Holds t ∧ s.Like s'

theorem Holds.unique {s : Shelf} {t u : Table} (ht : s.Holds t) (hu : s.Holds u) : t = u := by
  obtain ⟨backend, disk, faults⟩ := s
  cases backend with
  | memory m => exact ht.symm.trans hu
  | durable d => exact Except.ok.inj (ht.1.symm.trans hu.1)

theorem Holds.entries_eq {s : Shelf} {t : Table} (h : s.Holds t) : s.entries = t.entries := by
  obtain ⟨backend, disk, faults⟩ := s
  cases backend with
  | memory m => exact congrArg SortedMap.entries h
  | durable d => simp only [entries, h.1]

def counted (s : Shelf) (p : Primitive) : Shelf := { s with faults := s.faults.count p }

theorem Holds.counted {s : Shelf} {t : Table} (h : s.Holds t) (p : Primitive) :
    (s.counted p).Holds t := h

theorem like_counted (s : Shelf) (p : Primitive) : s.Like (s.counted p) :=
  ⟨id, fun h => ⟨h.isOpen, h.writable, h.faultless⟩⟩

def planned (s : Shelf) (p : Primitive) : Option String := s.faults.reason s.faults.calls p

theorem call_planned {α : Type} {s : Shelf} {p : Primitive} {reason : String}
    (h : s.planned p = some reason) (act : Shelf → Except StoreError α × Shelf) :
    s.call p act = (.error (.backend reason), s.counted p) := by
  rw [planned] at h
  simp only [call, h, counted]

theorem call_unplanned {α : Type} {s : Shelf} {p : Primitive} (h : s.planned p = none)
    (act : Shelf → Except StoreError α × Shelf) : s.call p act = act (s.counted p) := by
  rw [planned] at h
  simp only [call, h, counted]

theorem call_cases {α : Type} (s : Shelf) (p : Primitive)
    (act : Shelf → Except StoreError α × Shelf) :
    s.call p act = act (s.counted p) ∨ ¬ s.Sound ∧ ∃ e, s.call p act = (.error e, s.counted p) := by
  cases hp : s.planned p with
  | none => exact Or.inl (call_unplanned hp act)
  | some reason =>
    right
    refine ⟨fun h => ?_, .backend reason, call_planned hp act⟩
    have hnone : s.planned p = none := h.faultless s.faults.calls p
    cases hp.symm.trans hnone

theorem look_cases {α : Type} {s : Shelf} {t : Table} {a : α}
    {onMemory : MemoryStore → Except StoreError α}
    {onDurable : DurableStore → Disk → Except StoreError α} (h : s.Holds t)
    (hm : ∀ m, m.contents.toTable = t → m.isOpen = true → onMemory m = .ok a)
    (hc : ∀ m, m.isOpen = false → onMemory m = .error .closed)
    (hd : ∀ d disk, d.table disk = .ok t → onDurable d disk = .ok a) :
    look onMemory onDurable s = (.ok a, s) ∨
      ¬ s.Sound ∧ look onMemory onDurable s = (.error .closed, s) := by
  obtain ⟨backend, disk, faults⟩ := s
  cases backend with
  | memory m =>
    cases ho : m.isOpen with
    | true => exact Or.inl (by simp [look, hm m h ho])
    | false =>
      refine Or.inr ⟨fun hs => ?_, by simp [look, hc m ho]⟩
      have := hs.isOpen
      simp [isOpen, ho] at this
  | durable d => exact Or.inl (by simp [look, hd d disk h.1])

theorem look_holds {α : Type} {s : Shelf} {t : Table} {a : α} {p : Primitive}
    {onMemory : MemoryStore → Except StoreError α}
    {onDurable : DurableStore → Disk → Except StoreError α} (h : s.Holds t)
    (hm : ∀ m, m.contents.toTable = t → m.isOpen = true → onMemory m = .ok a)
    (hc : ∀ m, m.isOpen = false → onMemory m = .error .closed)
    (hd : ∀ d disk, d.table disk = .ok t → onDurable d disk = .ok a) :
    s.Answers t t (.ok a) (s.call p (look onMemory onDurable)) := by
  have hl := s.like_counted p
  rcases s.call_cases p (look onMemory onDurable) with hcall | ⟨hns, e, hcall⟩
  · rcases look_cases (h.counted p) hm hc hd with hlook | ⟨hns, hlook⟩
    · exact Or.inl ⟨_, hcall.trans hlook, h.counted p, hl⟩
    · exact Or.inr ⟨fun hs => hns (hl.sound hs), _, _, hcall.trans hlook, h.counted p, hl⟩
  · exact Or.inr ⟨hns, e, _, hcall, h.counted p, hl⟩

theorem look_counted {α : Type} (s : Shelf) (p : Primitive)
    (onMemory : MemoryStore → Except StoreError α)
    (onDurable : DurableStore → Disk → Except StoreError α) :
    (s.call p (look onMemory onDurable)).2 = s.counted p := by
  obtain ⟨backend, disk, faults⟩ := s
  unfold call look
  cases faults.reason faults.calls p <;> cases backend <;> rfl

theorem Answers.done_or_undone {ε α : Type} {s : Shelf} {t u : Table} {a : Except ε α}
    {x : Except ε α × Shelf} (h : s.Answers t u a x) :
    s.Like x.2 ∧ (x.1 = a ∧ x.2.Holds u ∨ x.2.Holds t) := by
  rcases h with ⟨s', rfl, hs, hl⟩ | ⟨_, e, s', rfl, hs, hl⟩
  · exact ⟨hl, Or.inl ⟨rfl, hs⟩⟩
  · exact ⟨hl, Or.inr hs⟩

theorem Answers.told {ε α : Type} {s s' : Shelf} {t u : Table} {a : Except ε α} {y : α}
    (h : s.Answers t u a (.ok y, s')) : a = .ok y ∧ s'.Holds u := by
  rcases h with ⟨s'', hx, hs, -⟩ | ⟨-, e, s'', hx, -⟩
  · cases hx
    exact ⟨rfl, hs⟩
  · cases hx

theorem Answers.keeps {ε α : Type} {s : Shelf} {t : Table} {a : Except ε α}
    {x : Except ε α × Shelf} (h : s.Answers t t a x) : x.2.Holds t ∧ s.Like x.2 := by
  obtain ⟨hl, ⟨-, hs⟩ | hs⟩ := h.done_or_undone
  · exact ⟨hs, hl⟩
  · exact ⟨hs, hl⟩

theorem Holds.get {s : Shelf} {t : Table} (h : s.Holds t) (key : Bytes) :
    s.Answers t t (.ok (t.get? key)) (s.get key) := by
  apply look_holds h
  · intro m hm ho
    simp [MemoryStore.get, ho, ← hm, MemoryStore.Contents.get?_toTable]
  · intro m ho
    simp [MemoryStore.get, ho]
  · intro d disk hd
    simp [DurableStore.get, hd]

theorem change_holds {s : Shelf} {t : Table} {b : Batch} {p : Primitive}
    {onMemory : MemoryStore → Except StoreError Unit × MemoryStore} {hasRoom : MemoryStore → Prop}
    (hm : MemoryStore.Performs onMemory b hasRoom) (h : s.Holds t)
    (hr : ∀ m, s.backend = .memory m → hasRoom m) (hb : b ≠ []) :
    s.Answers t (t.writeAll b) (.ok ()) (s.call p (change onMemory (·.writeBatch · b))) := by
  have hl := s.like_counted p
  rcases s.call_cases p (change onMemory (·.writeBatch · b)) with hcall | ⟨hns, e, hcall⟩
  · rw [Answers, hcall]
    obtain ⟨backend, disk, faults⟩ := s
    cases backend with
    | memory m =>
      cases ho : m.isOpen with
      | true =>
        obtain ⟨c, hm, hct⟩ := hm.opened m ho (hr m rfl)
        have ht : c.toTable = t.writeAll b := hct.trans (congrArg (·.writeAll b) h)
        refine Or.inl ⟨⟨.memory { m with contents := c }, disk, faults.count p⟩,
          by simp [change, counted, hm], ht, id, fun hs => ⟨hs.isOpen, id, hs.faultless⟩⟩
      | false =>
        refine Or.inr ⟨fun hs => ?_, .closed, ⟨.memory m, disk, faults.count p⟩,
          by simp [change, counted, hm.closed m ho], h, hl⟩
        have := hs.isOpen
        simp [isOpen, ho] at this
    | durable d =>
      rcases DurableStore.writeBatch_cases h.2 h.1 hb with
        ⟨d', disk', hw, ht, hro, hn, ho⟩ | ⟨hro, hw⟩
      · refine Or.inl ⟨⟨.durable d', disk', faults.count p⟩, by simp [change, counted, hw],
          ⟨ht, hn⟩, id, fun hs => ⟨ho.trans hs.isOpen, ?_, hs.faultless⟩⟩
        simp [ReadOnly, hro]
      · exact Or.inr ⟨fun hs => hs.writable hro, .database, ⟨.durable d, disk, faults.count p⟩,
          by simp [change, counted, hw], h, hl⟩
  · exact Or.inr ⟨hns, e, _, hcall, h.counted p, hl⟩

theorem Unbounded.memory {s : Shelf} (h : s.Unbounded) {m : MemoryStore}
    (hb : s.backend = .memory m) : m.Unbounded := by
  rw [Unbounded, hb] at h
  exact h

theorem Holds.put {s : Shelf} {t : Table} (h : s.Holds t) (hu : s.Unbounded)
    (key value : Bytes) : s.Answers t (t.insert key value) (.ok ()) (s.put key value) :=
  change_holds (MemoryStore.performs_put key value) h (fun _ => hu.memory) (List.cons_ne_nil _ _)

theorem Holds.delete {s : Shelf} {t : Table} (h : s.Holds t) (key : Bytes) :
    s.Answers t (t.erase key) (.ok ()) (s.delete key) :=
  change_holds (MemoryStore.performs_delete key) h (fun _ _ => trivial) (List.cons_ne_nil _ _)

theorem Holds.writeBatch {s : Shelf} {t : Table} (h : s.Holds t) (hu : s.Unbounded) {b : Batch}
    (hb : b ≠ []) : s.Answers t (t.writeAll b) (.ok ()) (s.writeBatch b) :=
  change_holds (MemoryStore.performs_writeBatch b) h (fun _ => hu.memory) hb

theorem change_legible {s : Shelf} {t : Table} {p : Primitive}
    {onMemory : MemoryStore → Except StoreError Unit × MemoryStore}
    {onDurable : DurableStore → Disk → Except StoreError Unit × DurableStore × Disk} (h : s.Holds t)
    (hd : s.Unbounded → ∃ u, (s.call p (change onMemory onDurable)).2.Holds u) :
    ∃ u, (s.call p (change onMemory onDurable)).2.Holds u := by
  obtain ⟨backend, disk, faults⟩ := s
  cases backend with
  | memory m =>
    rcases call_cases ⟨.memory m, disk, faults⟩ p (change onMemory onDurable) with hx | ⟨_, e, hx⟩
    · exact ⟨(onMemory m).2.contents.toTable, by rw [hx]; rfl⟩
    · exact ⟨t, by rw [hx]; exact h⟩
  | durable d => exact hd trivial

theorem Answers.legible {ε α : Type} {s : Shelf} {t u : Table} {a : Except ε α}
    {x : Except ε α × Shelf} (h : s.Answers t u a x) : ∃ w, x.2.Holds w := by
  obtain ⟨-, ⟨-, hs⟩ | hs⟩ := h.done_or_undone
  · exact ⟨u, hs⟩
  · exact ⟨t, hs⟩

theorem put_legible {s : Shelf} {t : Table} (h : s.Holds t) (key value : Bytes) :
    ∃ u, (s.put key value).2.Holds u :=
  change_legible h (fun hu => (h.put hu key value).legible)

theorem writeBatch_legible {s : Shelf} {t : Table} (h : s.Holds t) {b : Batch} (hb : b ≠ []) :
    ∃ u, (s.writeBatch b).2.Holds u :=
  change_legible h (fun hu => (h.writeBatch hu hb).legible)

end Shelf

end Staging
