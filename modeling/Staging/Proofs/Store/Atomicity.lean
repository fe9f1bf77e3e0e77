import Mathlib
import Staging.Proofs.Store.Holding

namespace Staging

namespace DurableStore

theorem writeBatch_failed {s : DurableStore} {d : Disk} {b : Batch} {e : StoreError}
    (h : (s.writeBatch d b).1 = .error e) : (s.writeBatch d b).2 = (s, d) := by
  unfold writeBatch at h ⊢
  cases ht : s.table d with
  | error err => rfl
  | ok t =>
    rw [ht] at h
    dsimp only at h ⊢
    split_ifs at h ⊢
    · rfl

theorem writeBatch_done {s : DurableStore} {d : Disk} {b : Batch} (hd : d.NamedInUse) (hb : b ≠ [])
    (h : (s.writeBatch d b).1 = .ok ()) :
    (s.writeBatch d b).2.1.table (s.writeBatch d b).2.2 = (·.writeAll b) <$> s.table d := by
  cases ht : s.table d with
  | error e => simp [writeBatch, ht] at h
  | ok t =>
    rcases writeBatch_cases hd ht hb with ⟨s', d', hw, ht', -⟩ | ⟨-, hw⟩
    · rw [hw]
      exact ht'
    · simp [hw] at h

end DurableStore

namespace Shelf

structure Same (s s' : Shelf) : Prop where
  backend : s'.backend = s.backend
  disk : s'.disk = s.disk

structure Looked (s s' : Shelf) : Prop where
  same : s.Same s'
  reason : s'.faults.reason = s.faults.reason

def table (s : Shelf) : Except StoreError Table :=
  match s.backend with
  | .memory m => .ok m.contents.toTable
  | .durable d => d.table s.disk

def Retains (s : Shelf) : Prop :=
  match s.backend with
  | .memory m => m.Retains
  | .durable _ => s.disk.NamedInUse

def crashAfter (s : Shelf) (n : Nat) : Shelf := { s with faults := s.faults.crashAfter n }

variable {ε ε' α β : Type} {s s' s'' : Shelf}

theorem Same.refl (s : Shelf) : s.Same s := ⟨rfl, rfl⟩

theorem Same.trans (h : s.Same s') (h' : s'.Same s'') : s.Same s'' :=
  ⟨h'.backend.trans h.backend, h'.disk.trans h.disk⟩

theorem Same.table_eq (h : s.Same s') : s'.table = s.table := by
  rw [table, table, h.backend, h.disk]

theorem Same.retains (h : s.Same s') (hs : s.Retains) : s'.Retains := by
  rwa [Retains, h.backend, h.disk]

theorem same_counted (s : Shelf) (p : Primitive) : s.Same (s.counted p) := ⟨rfl, rfl⟩

theorem same_crashAfter (s : Shelf) (n : Nat) : s.Same (s.crashAfter n) := ⟨rfl, rfl⟩

theorem Looked.refl (s : Shelf) : s.Looked s := ⟨.refl s, rfl⟩

theorem Looked.trans (h : s.Looked s') (h' : s'.Looked s'') : s.Looked s'' :=
  ⟨h.same.trans h'.same, h'.reason.trans h.reason⟩

theorem looked_counted (s : Shelf) (p : Primitive) : s.Looked (s.counted p) :=
  ⟨s.same_counted p, rfl⟩

theorem looked_look (s : Shelf) (p : Primitive) (onMemory : MemoryStore → Except StoreError α)
    (onDurable : DurableStore → Disk → Except StoreError α) :
    s.Looked (s.call p (look onMemory onDurable)).2 := by
  rw [look_counted]
  exact s.looked_counted p

section Crash

variable {p : Primitive} {act : Shelf → Except StoreError α × Shelf}

def Blind (act : Shelf → Except StoreError α × Shelf) : Prop :=
  ∀ s f, act { s with faults := f } = ((act s).1, { (act s).2 with faults := f })

theorem blind_look (onMemory : MemoryStore → Except StoreError α)
    (onDurable : DurableStore → Disk → Except StoreError α) : Blind (look onMemory onDurable) := by
  rintro ⟨backend, disk, faults⟩ f
  cases backend <;> rfl

theorem blind_change (onMemory : MemoryStore → Except StoreError Unit × MemoryStore)
    (onDurable : DurableStore → Disk → Except StoreError Unit × DurableStore × Disk) :
    Blind (change onMemory onDurable) := by
  rintro ⟨backend, disk, faults⟩ f
  cases backend <;> rfl

theorem call_crashAfter_zero (s : Shelf) (p : Primitive)
    (act : Shelf → Except StoreError α × Shelf) :
    (s.crashAfter 0).call p act = (.error (.backend "crash"), (s.crashAfter 0).counted p) := by
  simp [call, crashAfter, FaultPlan.crashAfter, FaultPlan.crashAt, counted]

theorem crashAfter_counted (s : Shelf) (p : Primitive) (n : Nat) :
    (s.crashAfter (n + 1)).counted p = (s.counted p).crashAfter n := by
  have hlast : s.faults.calls.length + (n + 1) = (s.faults.calls.length + 1) + n := by omega
  exact congrArg (fun k => (⟨s.backend, s.disk, (s.faults.count p).crashAt k⟩ : Shelf)) hlast

theorem call_crashAfter_succ (h : Blind act) (s : Shelf) (p : Primitive) (n : Nat) :
    (s.crashAfter (n + 1)).call p act = ((s.call p act).1, (s.call p act).2.crashAfter n) := by
  have hfaults : (act (s.counted p)).2.faults = (s.counted p).faults :=
    congrArg (·.2.faults) (h (s.counted p) (s.counted p).faults)
  have hreason : (s.crashAfter (n + 1)).faults.reason (s.crashAfter (n + 1)).faults.calls p =
      s.faults.reason s.faults.calls p := by
    simp [crashAfter, FaultPlan.crashAfter, FaultPlan.crashAt]
  have hcounted := s.crashAfter_counted p n
  simp only [counted] at hcounted hfaults
  simp only [call, hreason]
  cases s.faults.reason s.faults.calls p with
  | some reason => exact congrArg (Prod.mk _) hcounted
  | none =>
    dsimp only
    rw [hcounted]
    refine (h _ _).trans ?_
    rw [crashAfter, hfaults]

end Crash

/-- A crash among the calls of an operation comes after all of them, or fails it before anything is
written. -/
def Cuts (s : Shelf) (f : Shelf → Except ε α × Shelf) : Prop :=
  ∀ n, (∃ k, f (s.crashAfter n) = ((f s).1, (f s).2.crashAfter k)) ∨
    ∃ e s', f (s.crashAfter n) = (.error e, s') ∧ s.Same s'

theorem cuts_call {act : Shelf → Except StoreError α × Shelf} (h : Blind act) (s : Shelf)
    (p : Primitive) : s.Cuts (·.call p act) := by
  intro n
  cases n with
  | zero =>
    refine Or.inr ⟨_, _, s.call_crashAfter_zero p act, ?_⟩
    exact (s.same_crashAfter 0).trans ((s.crashAfter 0).same_counted p)
  | succ n => exact Or.inl ⟨n, call_crashAfter_succ h s p n⟩

structure Atomic (s : Shelf) (f : Shelf → Except ε α × Shelf) (effect : Table → Table) :
    Prop where
  failed : ∀ e, (f s).1 = .error e → s.Same (f s).2
  done : ∀ a, (f s).1 = .ok a → (f s).2.table = effect <$> s.table
  crashed : ∀ n, s.Same (f (s.crashAfter n)).2 ∨ (f s).2.Same (f (s.crashAfter n)).2

theorem atomic_of_same {f : Shelf → Except ε α × Shelf} {effect : Table → Table}
    (h : ∀ s : Shelf, s.Same (f s).2) (he : effect <$> s.table = s.table) : s.Atomic f effect where
  failed _ _ := h s
  done _ _ := (h s).table_eq.trans he.symm
  crashed n := Or.inl ((s.same_crashAfter n).trans (h _))

theorem Cuts.map {f : Shelf → Except ε α × Shelf} (h : s.Cuts f)
    (answer : Except ε α → Except ε' β) (ha : ∀ e, ∃ e', answer (.error e) = .error e') :
    s.Cuts (fun s => (answer (f s).1, (f s).2)) := by
  intro n
  rcases h n with ⟨k, hx⟩ | ⟨e, s', hx, hsame⟩
  · exact Or.inl ⟨k, by simp only [hx]⟩
  · obtain ⟨e', ha⟩ := ha e
    exact Or.inr ⟨e', s', by simp only [hx, ha], hsame⟩

theorem Cuts.crashed {f : Shelf → Except ε α × Shelf} (h : s.Cuts f) (n : Nat) :
    s.Same (f (s.crashAfter n)).2 ∨ (f s).2.Same (f (s.crashAfter n)).2 := by
  rcases h n with ⟨k, hx⟩ | ⟨e, s', hx, hsame⟩
  · rw [hx]
    exact Or.inr ((f s).2.same_crashAfter k)
  · rw [hx]
    exact Or.inl hsame

section Change

variable {b : Batch} {onMemory : MemoryStore → Except StoreError Unit × MemoryStore}

theorem change_failed (hm : MemoryStore.Writes onMemory b) {e : StoreError}
    (h : (change onMemory (·.writeBatch · b) s).1 = .error e) :
    s.Same (change onMemory (·.writeBatch · b) s).2 := by
  obtain ⟨backend, disk, faults⟩ := s
  cases backend with
  | memory m => exact ⟨congrArg Backend.memory (hm.failed m e h), rfl⟩
  | durable d =>
    have hw := DurableStore.writeBatch_failed h
    exact ⟨congrArg (fun x : DurableStore × Disk => Backend.durable x.1) hw, congrArg Prod.snd hw⟩

theorem change_done (hm : MemoryStore.Writes onMemory b) (hb : b ≠ []) (hs : s.Retains)
    (h : (change onMemory (·.writeBatch · b) s).1 = .ok ()) :
    (change onMemory (·.writeBatch · b) s).2.table = (·.writeAll b) <$> s.table := by
  obtain ⟨backend, disk, faults⟩ := s
  cases backend with
  | memory m =>
    obtain ⟨c, hact, hc⟩ := hm.done m hs h
    have hafter : (onMemory m).2.contents.toTable = m.contents.toTable.writeAll b := by
      rw [hact, hc]
    exact congrArg Except.ok hafter
  | durable d => exact DurableStore.writeBatch_done hs hb h

theorem atomic_write (hm : MemoryStore.Writes onMemory b) (hb : b ≠ []) (hs : s.Retains)
    (p : Primitive) :
    s.Atomic (·.call p (change onMemory (·.writeBatch · b))) (·.writeAll b) where
  failed e h := by
    dsimp only [call] at h ⊢
    split at h
    · exact s.same_counted p
    · exact (s.same_counted p).trans (change_failed hm h)
  done _ h := by
    dsimp only [call] at h ⊢
    split at h
    · cases h
    · exact change_done hm hb hs h
  crashed := (cuts_call (blind_change _ _) s p).crashed

end Change

theorem Atomic.map {f : Shelf → Except ε α × Shelf} {effect : Table → Table} (h : s.Atomic f effect)
    (answer : Except ε α → Except ε' β) (ha : ∀ e, ∃ e', answer (.error e) = .error e')
    (hb : ∀ a, ∃ b, answer (.ok a) = .ok b) :
    s.Atomic (fun s => (answer (f s).1, (f s).2)) effect where
  failed e he := by
    cases hx : (f s).1 with
    | error err => exact h.failed err hx
    | ok a =>
      obtain ⟨b, hb⟩ := hb a
      simp [hx, hb] at he
  done b hok := by
    cases hx : (f s).1 with
    | error err =>
      obtain ⟨e', ha⟩ := ha err
      simp [hx, ha] at hok
    | ok a => exact h.done a hx
  crashed := h.crashed

theorem Atomic.congr {f : Shelf → Except ε α × Shelf} {effect effect' : Table → Table}
    (h : s.Atomic f effect) (he : ∀ t, s.table = .ok t → effect t = effect' t) :
    s.Atomic f effect' where
  failed := h.failed
  done a ha := by
    rw [h.done a ha]
    cases ht : s.table with
    | error _ => rfl
    | ok t => exact congrArg Except.ok (he t ht)
  crashed := h.crashed

def andThen (read : Shelf → Except ε α × Shelf) (rest : α → Shelf → Except ε β × Shelf)
    (s : Shelf) : Except ε β × Shelf :=
  match read s with
  | (.ok a, s) => rest a s
  | (.error e, s) => (.error e, s)

theorem Atomic.andThen {read : Shelf → Except ε α × Shelf} {rest : α → Shelf → Except ε β × Shelf}
    {effect : Table → Table} (hsame : ∀ s : Shelf, s.Same (read s).2) (hcuts : s.Cuts read)
    (h : ∀ a, (read s).1 = .ok a → (read s).2.Atomic (rest a) effect) :
    s.Atomic (andThen read rest) effect := by
  have hs := hsame s
  rcases hx : read s with ⟨e | a, s'⟩
  · rw [hx] at hs
    have hthen : Shelf.andThen read rest s = (.error e, s') := by simp only [Shelf.andThen, hx]
    -- nothing is written then, wherever the crash is
    refine ⟨fun _ _ => hthen ▸ hs, fun a ha => by simp [hthen] at ha, fun n => Or.inl ?_⟩
    rcases hcuts n with ⟨k, hk⟩ | ⟨err, s'', hk, hs''⟩
    · rw [hx] at hk
      simp only [Shelf.andThen, hk]
      exact hs.trans (s'.same_crashAfter k)
    · simp only [Shelf.andThen, hk]
      exact hs''
  · rw [hx] at hs
    have hrest := h a (by rw [hx])
    rw [hx] at hrest
    have hthen : Shelf.andThen read rest s = rest a s' := by simp only [Shelf.andThen, hx]
    refine ⟨fun e he => ?_, fun b hb => ?_, fun n => ?_⟩
    · rw [hthen] at he ⊢
      exact hs.trans (hrest.failed e he)
    · rw [hthen] at hb ⊢
      rw [hrest.done b hb, hs.table_eq]
    · rw [hthen]
      rcases hcuts n with ⟨k, hk⟩ | ⟨err, s'', hk, hs''⟩
      · rw [hx] at hk
        simp only [Shelf.andThen, hk]
        exact (hrest.crashed k).imp_left hs.trans
      · simp only [Shelf.andThen, hk]
        exact Or.inl hs''

end Shelf

end Staging
