import Mathlib
import Staging.Proofs.Repository.Atomicity
import Staging.Proofs.Store.Lifecycle

namespace Staging

namespace Cursor

theorem next_closed {s : Shelf} (h : s.isOpen = false) (start : Bytes) :
    ∃ e, s.scanPage start none defaultPageSize = (.error e, s.counted .scan) ∧
      (new start).next s =
        (some (.error e), { new start with exhausted := true }, s.counted .scan) := by
  obtain ⟨e, hpage⟩ := Shelf.call_closed (Shelf.needsOpen_page start none defaultPageSize) h .scan
  have hpage' : s.scanPage start none defaultPageSize = (.error e, s.counted .scan) := hpage
  refine ⟨e, hpage', ?_⟩
  simp [next, new, hpage']

theorem collect_closed {s : Shelf} (h : s.isOpen = false) (start : Bytes) :
    (new start).collect s = s.scanPage start none defaultPageSize := by
  obtain ⟨e, hpage, hnext⟩ := next_closed h start
  rw [collect, collectUpTo, hnext, hpage]

theorem alike_scanPage (start : Bytes) :
    Shelf.Alike (·.scanPage start none defaultPageSize) :=
  Shelf.alike_call (Shelf.needsOpen_page start none defaultPageSize) .scan

end Cursor

namespace Repository

variable (r : Repository)

theorem alike_fetch (raw : Bytes) (key : String) : Shelf.Alike (r.fetch raw key) := by
  rw [fetch_eq]
  have hget := Shelf.alike_call (Shelf.needsOpen_get raw) .get
  exact hget.map (Except.mapError (r.storeError key))

theorem alike_fetchExchange (raw : Bytes) (key : String) :
    Shelf.Alike (r.fetchExchange raw key) := by
  rw [fetchExchange_eq]
  exact (r.alike_fetch raw key).map (·.bind (Ledger.decode r key))

theorem alike_readOld (key : String) : Shelf.Alike (r.readOld key) := by
  unfold readOld
  cases r.settings.returnOld with
  | true => exact r.alike_fetchExchange _ key
  | false => exact Shelf.alike_pure _

theorem alike_add (key : String) (e : Exchange) : Shelf.Alike (r.add key e) := by
  cases hm : r.marshal key e with
  | error err =>
    rw [r.add_refused hm]
    exact Shelf.alike_pure _
  | ok b =>
    rw [r.add_eq hm]
    apply (r.alike_readOld key).andThen
    intro old
    have hput := Shelf.alike_call (Shelf.needsOpen_write
      (MemoryStore.performs_put (r.keySpace.liveKey key) b)) .put
    exact hput.map fun x => (x.map (fun _ => old)).mapError (r.storeError key)

theorem alike_remove (key : String) (e : Exchange) : Shelf.Alike (r.remove key e) := by
  cases hm : r.marshal key e with
  | error err =>
    rw [r.remove_refused hm]
    exact Shelf.alike_pure _
  | ok b =>
    rw [r.remove_eq hm]
    apply (r.alike_fetch _ key).andThen
    intro v
    cases v with
    | none => exact Shelf.alike_pure _
    | some _ =>
      have hbatch := Shelf.alike_call (Shelf.needsOpen_write
        (MemoryStore.performs_writeBatch (r.handOff key e.id b))) .batch
      exact hbatch.map (·.mapError (r.storeError key))

theorem alike_confirm (i : String) : Shelf.Alike (r.confirm i) := by
  rw [confirm_eq]
  apply (r.alike_fetch _ i).andThen
  intro v
  cases v with
  | none => exact Shelf.alike_pure _
  | some _ =>
    have hdelete := Shelf.alike_call (Shelf.needsOpen_write
      (MemoryStore.performs_delete (r.keySpace.completedKey i))) .delete
    exact hdelete.map fun x => (x.map (fun _ => true)).mapError (r.storeError i)

theorem alike_scan (start : Bytes) : Shelf.Alike (r.scan start) := by
  intro s s' h
  rw [scan, scan, Cursor.collect_closed h.left, Cursor.collect_closed h.right]
  exact (Cursor.alike_scanPage start).map (Except.mapError (r.storeError allKeys)) s s' h

def refused : Except StoreError (List Entry) → List (Except RepositoryError String)
  | .error e => [.error (r.storeError allKeys e)]
  | .ok _ => []

theorem completedIds_closed {s : Shelf} (h : s.isOpen = false) (count : Nat) :
    r.completedIds (count + 1) s =
      (s.scanPage r.keySpace.completedPrefix none Cursor.defaultPageSize).map r.refused id := by
  obtain ⟨e, hpage, hnext⟩ := Cursor.next_closed h r.keySpace.completedPrefix
  have hspent : Cursor.Spent { r.completedCursor with exhausted := true } := ⟨rfl, rfl⟩
  have hrest := r.completedIds_go_spent hspent (s.size + 1) count (s.counted .scan)
  rw [completedCursor] at hrest
  simp only [completedIds, completedCursor, completedIds.go, hnext, completedId?, hrest, hpage]
  rfl

theorem alike_completedIds (count : Nat) : Shelf.Alike (r.completedIds count) := by
  cases count with
  | zero =>
    have hzero : r.completedIds 0 = fun s => ([], s) := by
      funext s
      simp [completedIds, completedIds.go]
    rw [hzero]
    exact Shelf.alike_pure _
  | succ count =>
    intro s s' h
    rw [r.completedIds_closed h.left, r.completedIds_closed h.right]
    exact (Cursor.alike_scanPage _).map r.refused s s' h

theorem alike_run (c : Call) : Shelf.Alike (r.run · c) := by
  cases c with
  | add key e => exact (r.alike_add key e).map Answer.exchange
  | get key => exact (r.alike_fetchExchange _ key).map Answer.exchange
  | remove key e => exact (r.alike_remove key e).map Answer.done
  | confirm i => exact (r.alike_confirm i).map Answer.flag
  | recover i =>
    have hrecover : Shelf.Alike (r.recover i) := by
      unfold recover
      cases r.settings.useRecovery with
      | true => exact r.alike_fetchExchange _ i
      | false => exact Shelf.alike_pure _
    exact hrecover.map Answer.exchange
  | keys =>
    exact (r.alike_scan r.keySpace.livePrefix).map fun x =>
      Answer.texts (x.map (fun es => es.filterMap (fun e => r.keySpace.decodeLive? e.1)))
  | completed =>
    exact (r.alike_scan r.keySpace.completedPrefix).map fun x =>
      Answer.texts (x.map (fun es => es.filterMap (fun e => r.keySpace.decodeCompleted? e.1)))
  | completedIds count => exact (r.alike_completedIds count).map Answer.yields
  | size =>
    exact (r.alike_scan r.keySpace.livePrefix).map fun x => Answer.number (x.map List.length)
  | completedSize =>
    exact (r.alike_scan r.keySpace.completedPrefix).map fun x => Answer.number (x.map List.length)

theorem runAll_closed {ι : Type} (r : ι → Repository) (calls : List (ι × Call)) :
    Shelf.Alike (runAll r calls) := by
  induction calls with
  | nil => exact Shelf.alike_pure []
  | cons x calls ih =>
    obtain ⟨i, c⟩ := x
    intro s s' h
    obtain ⟨hanswer, hafter⟩ := (r i).alike_run c s s' h
    obtain ⟨hanswers, hend⟩ := ih _ _ hafter
    exact ⟨congrArg₂ List.cons hanswer hanswers, hend⟩

theorem looked_size (s : Shelf) : s.Looked (r.size s).2 := r.looked_scan _ s

theorem looked_completedSize (s : Shelf) : s.Looked (r.completedSize s).2 := r.looked_scan _ s

theorem looked_inventory (s : Shelf) : s.Looked (r.inventory s).2 := by
  have hlive := r.looked_size s
  rcases hx : r.size s with ⟨_ | n, s'⟩
  · rw [hx] at hlive
    simpa only [inventory, hx] using hlive
  · rw [hx] at hlive
    have hcompleted := hlive.trans (r.looked_completedSize s')
    rcases hy : r.completedSize s' with ⟨_ | m, s''⟩
    · rw [hy] at hcompleted
      simpa only [inventory, hx, hy] using hcompleted
    · rw [hy] at hcompleted
      simpa only [inventory, hx, hy] using hcompleted

def Closable (s : Shelf) : Prop := ∀ calls, s.faults.reason calls .closing = none

def FindsOpen (settings : Settings) (s : Shelf) : Prop :=
  s.isOpen = true ∧ (∃ k, settings.validate = .ok k) ∧ s.planned .opening = none

section Failed

variable {settings : Settings} {codec : Codec} {s s' : Shelf} {e : RepositoryError}

theorem openOn_cases (h : openOn settings codec s = (.error e, s')) :
    (∃ err, settings.validate = .error err) ∧ s' = s ∨
      ∃ k, settings.validate = .ok k ∧ ((∃ err, s.openStore = (.error err, s')) ∨
        ∃ u v, s.openStore = (.ok (), u) ∧ u.Looked v ∧ s' = v.closeStore.2) := by
  cases hv : settings.validate with
  | error err =>
    simp only [openOn, hv] at h
    cases h
    exact Or.inl ⟨⟨err, rfl⟩, rfl⟩
  | ok k =>
    refine Or.inr ⟨k, rfl, ?_⟩
    rcases ho : s.openStore with ⟨err | ⟨⟨⟩⟩, u⟩
    · simp only [openOn, hv, ho] at h
      cases h
      exact Or.inl ⟨err, rfl⟩
    · have hlooked := looked_inventory ⟨settings, k, codec⟩ u
      rcases hi : inventory ⟨settings, k, codec⟩ u with ⟨err | n, v⟩
      · simp only [openOn, hv, ho, hi] at h
        cases h
        rw [hi] at hlooked
        exact Or.inr ⟨u, v, rfl, hlooked, rfl⟩
      · simp only [openOn, hv, ho, hi] at h
        cases h

theorem closed_after_inventory {u v : Shelf} (hclose : Closable s) (ho : s.openStore = (.ok (), u))
    (hv : u.Looked v) : u.release.Same v.closeStore.2 := by
  have hreason : u.faults.reason = s.faults.reason := by
    have hfaults := s.faults_openStore
    rw [ho] at hfaults
    rw [hfaults]
    rfl
  have hplanned : v.planned .closing = none := by
    rw [Shelf.planned, hv.reason, hreason]
    exact hclose _
  rw [Shelf.closeStore_unplanned hplanned]
  exact (hv.same.trans (v.same_counted .closing)).release

theorem restored_openOn (h : openOn settings codec s = (.error e, s')) (hd : s.disk.InUse)
    (hclose : Closable s) (hfound : ¬ FindsOpen settings s) : s.Restored s' := by
  rcases openOn_cases h with ⟨-, rfl⟩ | ⟨k, hk, ⟨err, ho⟩ | ⟨u, v, ho, hv, rfl⟩⟩
  · exact (Shelf.Same.refl s').restored
  · exact Shelf.restored_openStore hd ho
  · have hclosed : s.isOpen = false := by
      by_contra hopen
      have hopen' : s.isOpen = true := by simpa using hopen
      cases hp : s.planned .opening with
      | some reason =>
        rw [Shelf.openStore, Shelf.call_planned hp] at ho
        cases ho
      | none => exact hfound ⟨hopen', ⟨k, hk⟩, hp⟩
    exact (Shelf.restored_release hd hclosed ho).andSame (closed_after_inventory hclose ho hv)

theorem released_openOn (h : openOn settings codec s = (.error e, s')) (hclose : Closable s)
    (hfound : FindsOpen settings s) : s.release.Same s' := by
  obtain ⟨hopen, ⟨k, hk⟩, hp⟩ := hfound
  have ho := Shelf.openStore_open hopen hp
  rcases openOn_cases h with ⟨⟨err, hk'⟩, -⟩ | ⟨-, -, ⟨err, ho'⟩ | ⟨u, v, ho', hv, rfl⟩⟩
  · cases hk.symm.trans hk'
  · cases ho.symm.trans ho'
  · have hclosed := closed_after_inventory hclose ho' hv
    cases ho.symm.trans ho'
    exact (s.same_counted .opening).release.trans hclosed

theorem runAll_restored {ι : Type} (h : s.Restored s') (r : ι → Repository)
    (calls : List (ι × Call)) (f : FaultPlan) :
    (runAll r calls { s' with faults := f }).1 = (runAll r calls { s with faults := f }).1 := by
  cases ho : s.isOpen with
  | true =>
    obtain ⟨hbackend, hdisk⟩ := h.same ho
    rw [hbackend, hdisk]
  | false =>
    exact (runAll_closed r calls { s with faults := f } { s' with faults := f }
      ⟨ho, h.isOpen_eq.trans ho, rfl⟩).1

theorem get_closed (r : Repository) (h : s.isOpen = false) (key : String) :
    (r.get key { s with faults := .none }).1 = .error (.store r.name key .closed) := by
  let faultless : Shelf := { s with faults := .none }
  have hget : faultless.get (r.keySpace.liveKey key) = (.error .closed, faultless.counted .get) :=
    (Shelf.call_unplanned rfl _).trans (Shelf.needsOpen_get _ (faultless.counted .get) h)
  change (r.get key faultless).1 = _
  rw [get, fetchExchange_eq, fetch_eq]
  simp only [hget]
  rfl

theorem openOn_failed (h : openOn settings codec s = (.error e, s')) (hd : s.disk.InUse)
    (hclose : Closable s) :
    (s'.isOpen = s.isOpen ↔ ¬ FindsOpen settings s) ∧
    (¬ FindsOpen settings s → s.Restored s' ∧
      ∀ {ι : Type} (r : ι → Repository) (calls : List (ι × Call)) (f : FaultPlan),
        (runAll r calls { s' with faults := f }).1 = (runAll r calls { s with faults := f }).1) ∧
    (FindsOpen settings s → s.release.Same s' ∧
      ∀ (r : Repository) (key : String),
        (r.get key { s' with faults := .none }).1 = .error (.store r.name key .closed)) := by
  have hrestored := restored_openOn h hd hclose
  have hreleased := released_openOn h hclose
  have hclosed (hfound : FindsOpen settings s) : s'.isOpen = false :=
    (hreleased hfound).isOpen_eq.trans s.isOpen_release
  refine ⟨⟨fun ho hfound => ?_, fun hfound => (hrestored hfound).isOpen_eq⟩, ?_, ?_⟩
  · rw [hclosed hfound, hfound.1] at ho
    cases ho
  · exact fun hfound => ⟨hrestored hfound, runAll_restored (hrestored hfound)⟩
  · exact fun hfound => ⟨hreleased hfound, fun r => r.get_closed (hclosed hfound)⟩

end Failed

def stocked (isOpen : Bool) : Shelf :=
  ⟨.memory ⟨MemoryStore.Contents.empty.insert (Bytes.ofString "orders" ++ [0, 107]) [1], isOpen,
    none⟩, .empty, FaultPlan.none.inject .scan 0 (some 1)⟩

def archived (isOpen : Bool) : Except RepositoryError Repository × Shelf :=
  openOn (.named "archive") idCodec (stocked isOpen)

theorem openOn_failed_stocked :
    (archived true).2.isOpen = false ∧
      (∀ (r : Repository) (key : String), (r.get key { (archived true).2 with faults := .none }).1 =
        .error (.store r.name key .closed)) ∧
      (stocked false).Restored (archived false).2 := by
  have hclose (isOpen : Bool) : Closable (stocked isOpen) := fun _ => rfl
  have hfailed (isOpen : Bool) : openOn (.named "archive") idCodec (stocked isOpen) =
      (.error (.store "archive" "*" (.backend "injected scan failure")), (archived isOpen).2) := by
    cases isOpen <;> rfl
  obtain ⟨-, -, hfound⟩ := openOn_failed (hfailed true) Disk.inUse_empty (hclose true)
  obtain ⟨-, hspared, -⟩ := openOn_failed (hfailed false) Disk.inUse_empty (hclose false)
  have hopen : FindsOpen (.named "archive") (stocked true) := ⟨rfl, ⟨_, rfl⟩, rfl⟩
  have hshut : ¬ FindsOpen (.named "archive") (stocked false) := fun h => nomatch h.1
  obtain ⟨hreleased, hget⟩ := hfound hopen
  exact ⟨hreleased.isOpen_eq.trans (Shelf.isOpen_release _), hget, (hspared hshut).1⟩

end Repository

end Staging
