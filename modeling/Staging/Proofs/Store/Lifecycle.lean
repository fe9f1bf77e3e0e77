import Mathlib
import Staging.Proofs.Store.Atomicity
import Staging.Proofs.Store.Reopening

namespace Staging

theorem DurableStore.table_closed {d : DurableStore} (h : d.isOpen = false) (disk : Disk) :
    d.table disk = .error .closed := by
  have hnone : d.connection = none := by simpa [isOpen] using h
  rw [table, hnone]

namespace Shelf

theorem shut_ok (s : Shelf) : s.shut = (.ok (), s.release) := by
  obtain ⟨backend, disk, faults⟩ := s
  cases backend <;> rfl

theorem isOpen_release (s : Shelf) : s.release.isOpen = false := by
  obtain ⟨backend, disk, faults⟩ := s
  cases backend with
  | memory m => rfl
  | durable d =>
    simp only [release, shut, change, isOpen, DurableStore.isOpen, DurableStore.close]
    cases hc : d.connection with
    | none => simp [hc]
    | some c => rfl

theorem closeStore_planned {s : Shelf} {reason : String} (h : s.planned .closing = some reason) :
    s.closeStore = (.error (.backend reason), s.counted .closing) :=
  call_planned h shut

theorem closeStore_unplanned {s : Shelf} (h : s.planned .closing = none) :
    s.closeStore = (.ok (), (s.counted .closing).release) :=
  (call_unplanned h shut).trans (shut_ok _)

variable {s s' s'' : Shelf}

theorem Same.isOpen_eq (h : s.Same s') : s'.isOpen = s.isOpen := by
  rw [isOpen, isOpen, h.backend]

theorem Same.release (h : s.Same s') : s.release.Same s'.release := by
  obtain ⟨backend, disk, faults⟩ := s
  obtain ⟨backend', disk', faults'⟩ := s'
  obtain ⟨rfl, rfl⟩ := h
  cases backend' <;> exact ⟨rfl, rfl⟩

theorem openStore_open (h : s.isOpen = true) (hp : s.planned .opening = none) :
    s.openStore = (.ok (), s.counted .opening) := by
  rw [openStore, call_unplanned hp]
  obtain ⟨backend, disk, faults⟩ := s
  cases backend with
  | memory m =>
    have hm : m.opened = m := by
      cases m
      cases h
      rfl
    simp only [change, counted, hm]
  | durable d =>
    have hd : d.isOpen = true := h
    simp only [change, counted, DurableStore.openOn, hd, if_true]

theorem faults_openStore (s : Shelf) : s.openStore.2.faults = s.faults.count .opening := by
  obtain ⟨backend, disk, faults⟩ := s
  unfold openStore call
  split
  · rfl
  · cases backend <;> rfl

structure Restored (s s' : Shelf) : Prop where
  backend : s'.backend = s.backend
  tables : s.disk.SameTables s'.disk
  used : s.isOpen = true → s'.disk = s.disk

theorem Same.restored (h : s.Same s') : s.Restored s' :=
  ⟨h.backend, h.disk ▸ .refl s.disk, fun _ => h.disk⟩

theorem Restored.same (h : s.Restored s') (ho : s.isOpen = true) : s.Same s' :=
  ⟨h.backend, h.used ho⟩

theorem Restored.isOpen_eq (h : s.Restored s') : s'.isOpen = s.isOpen := by
  rw [isOpen, isOpen, h.backend]

theorem Restored.andSame (h : s.Restored s') (h' : s'.Same s'') : s.Restored s'' where
  backend := h'.backend.trans h.backend
  tables := h'.disk ▸ h.tables
  used ho := h'.disk.trans (h.used ho)

theorem restored_openStore {e : StoreError} (hd : s.disk.InUse)
    (h : s.openStore = (.error e, s')) : s.Restored s' := by
  cases hp : s.planned .opening with
  | some reason =>
    rw [openStore, call_planned hp] at h
    cases h
    exact (s.same_counted .opening).restored
  | none =>
    rw [openStore, call_unplanned hp] at h
    obtain ⟨backend, disk, faults⟩ := s
    cases backend with
    | memory m => cases h
    | durable d =>
      rcases hx : d.openOn disk with ⟨x, d', disk'⟩
      simp only [change, counted, hx] at h
      cases h
      obtain ⟨rfl, htables⟩ := DurableStore.openOn_error hd hx
      refine ⟨rfl, htables, fun ho => ?_⟩
      have hopen : d'.isOpen = true := ho
      simp [DurableStore.openOn, hopen] at hx

theorem restored_release (hd : s.disk.InUse) (hclosed : s.isOpen = false)
    (h : s.openStore = (.ok (), s')) : s.Restored s'.release := by
  cases hp : s.planned .opening with
  | some reason =>
    rw [openStore, call_planned hp] at h
    cases h
  | none =>
    rw [openStore, call_unplanned hp] at h
    obtain ⟨backend, disk, faults⟩ := s
    cases backend with
    | memory m =>
      cases m
      cases hclosed
      cases h
      exact ⟨rfl, .refl disk, fun _ => rfl⟩
    | durable d =>
      rcases hx : d.openOn disk with ⟨x, d', disk'⟩
      simp only [change, counted, hx] at h
      cases h
      obtain ⟨hback, htables⟩ := DurableStore.close_openOn hd hclosed hx
      refine ⟨congrArg Backend.durable hback, htables, fun ho => ?_⟩
      rw [hclosed] at ho
      cases ho

section Closed

variable {ε ε' α β : Type} {act : Shelf → Except StoreError α × Shelf}

def NeedsOpen (act : Shelf → Except StoreError α × Shelf) : Prop :=
  ∀ s, s.isOpen = false → act s = (.error .closed, s)

theorem needsOpen_look {onMemory : MemoryStore → Except StoreError α}
    {onDurable : DurableStore → Disk → Except StoreError α}
    (hm : ∀ m, m.isOpen = false → onMemory m = .error .closed)
    (hd : ∀ d disk, d.table disk = .error .closed → onDurable d disk = .error .closed) :
    NeedsOpen (look onMemory onDurable) := by
  rintro ⟨backend, disk, faults⟩ h
  cases backend with
  | memory m => exact congrArg (·, _) (hm m h)
  | durable d => exact congrArg (·, _) (hd d disk (DurableStore.table_closed h disk))

theorem needsOpen_write {onMemory : MemoryStore → Except StoreError Unit × MemoryStore} {b : Batch}
    {hasRoom : MemoryStore → Prop} (hm : MemoryStore.Performs onMemory b hasRoom) :
    NeedsOpen (change onMemory (·.writeBatch · b)) := by
  rintro ⟨backend, disk, faults⟩ h
  cases backend with
  | memory m => simp only [change, hm.closed m h]
  | durable d => simp only [change, DurableStore.writeBatch, DurableStore.table_closed h disk]

theorem needsOpen_get (key : Bytes) : NeedsOpen (look (·.get key) (·.get · key)) := by
  apply needsOpen_look
  · intro m hm
    simp [MemoryStore.get, hm]
  · intro d disk hd
    simp [DurableStore.get, hd]

theorem needsOpen_page (start : Bytes) (after : Option Bytes) (limit : Nat) :
    NeedsOpen (look (·.scanPage start after limit) (·.scanPage · start after limit)) := by
  apply needsOpen_look
  · intro m hm
    simp [MemoryStore.scanPage, hm]
  · intro d disk hd
    simp [DurableStore.scanPage, hd]

theorem call_closed (hact : NeedsOpen act) (h : s.isOpen = false) (p : Primitive) :
    ∃ e, s.call p act = (.error e, s.counted p) := by
  cases hp : s.planned p with
  | some reason => exact ⟨_, call_planned hp act⟩
  | none => exact ⟨_, (call_unplanned hp act).trans (hact _ h)⟩

structure ClosedAlike (s s' : Shelf) : Prop where
  left : s.isOpen = false
  right : s'.isOpen = false
  faults : s'.faults = s.faults

def Alike (f : Shelf → α × Shelf) : Prop :=
  ∀ s s', s.ClosedAlike s' → (f s').1 = (f s).1 ∧ (f s).2.ClosedAlike (f s').2

theorem alike_call (hact : NeedsOpen act) (p : Primitive) : Alike (·.call p act) := by
  intro s s' h
  have hcounted : (s.counted p).ClosedAlike (s'.counted p) :=
    ⟨h.left, h.right, congrArg (FaultPlan.count · p) h.faults⟩
  have hplanned : s'.planned p = s.planned p := by rw [planned, planned, h.faults]
  dsimp only
  cases hp : s.planned p with
  | some reason =>
    rw [call_planned hp, call_planned (hplanned.trans hp)]
    exact ⟨rfl, hcounted⟩
  | none =>
    rw [call_unplanned hp, call_unplanned (hplanned.trans hp), hact _ hcounted.left,
      hact _ hcounted.right]
    exact ⟨rfl, hcounted⟩

theorem alike_pure (a : α) : Alike (fun s => (a, s)) := fun _ _ h => ⟨rfl, h⟩

theorem Alike.map {f : Shelf → α × Shelf} (h : Alike f) (answer : α → β) :
    Alike (fun s => (answer (f s).1, (f s).2)) :=
  fun s s' hs => ⟨congrArg answer (h s s' hs).1, (h s s' hs).2⟩

theorem Alike.andThen {read : Shelf → Except ε α × Shelf} {rest : α → Shelf → Except ε β × Shelf}
    (h : Alike read) (hrest : ∀ a, Alike (rest a)) : Alike (andThen read rest) := by
  intro s s' hs
  obtain ⟨hanswer, hafter⟩ := h s s' hs
  unfold Shelf.andThen
  rcases hx : read s with ⟨x, u⟩
  rcases hx' : read s' with ⟨x', u'⟩
  rw [hx, hx'] at hanswer hafter
  obtain rfl : x' = x := hanswer
  cases x' with
  | error e => exact ⟨rfl, hafter⟩
  | ok a => exact hrest a u u' hafter

end Closed

end Shelf

end Staging
