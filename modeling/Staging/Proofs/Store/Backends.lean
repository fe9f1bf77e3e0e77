import Mathlib
import Staging.Proofs.Store.OnFile
import Staging.Proofs.Store.Paging

namespace Staging

namespace Shelf

inductive Request
  | openStore
  | closeStore
  | isOpen
  | get (key : Bytes)
  | put (key value : Bytes)
  | delete (key : Bytes)
  | batch (b : Batch)
  | page (start : Bytes) (after : Option Bytes) (limit : Nat)

def Request.needsOpen : Request → Bool
  | openStore | closeStore | isOpen => false
  | _ => true

inductive Reply
  | done (r : Except StoreError Unit)
  | flag (b : Bool)
  | value (r : Except StoreError (Option Bytes))
  | page (r : Except StoreError (List Entry))

def Reply.error? : Reply → Option StoreError
  | done (.error e) | value (.error e) | page (.error e) => some e
  | _ => none

def serve (s : Shelf) : Request → Reply × Shelf
  | .openStore => s.openStore.map .done id
  | .closeStore => s.closeStore.map .done id
  | .isOpen => (.flag s.isOpen, s)
  | .get key => (s.get key).map .value id
  | .put key value => (s.put key value).map .done id
  | .delete key => (s.delete key).map .done id
  | .batch b => (s.writeBatch b).map .done id
  | .page start after limit => (s.scanPage start after limit).map .page id

inductive Event
  | request (q : Request)
  | loss (how : DurableStore.Loss) (sync : Bool) (busyTimeoutMs : Nat)

def replace (s : Shelf) (how : DurableStore.Loss) (sync : Bool) (busyTimeoutMs : Nat) :
    Reply × Shelf :=
  match s.backend with
  | .memory _ => (.done (.ok ()), s)
  | .durable d =>
    let s' : Shelf :=
      ⟨.durable ⟨d.path, sync, busyTimeoutMs, none⟩, d.lose s.disk how, s.faults⟩
    if d.isOpen then s'.serve .openStore else (.done (.ok ()), s')

def meet (s : Shelf) : Event → Reply × Shelf
  | .request q => s.serve q
  | .loss how sync busyTimeoutMs => s.replace how sync busyTimeoutMs

def meetAll (s : Shelf) : List Event → List Reply × Shelf
  | [] => ([], s)
  | e :: r =>
    let (a, s) := s.meet e
    let (as, s) := s.meetAll r
    (a :: as, s)

end Shelf

structure PlainStore where
  isOpen : Bool
  table : Table

namespace PlainStore

def new : PlainStore := ⟨false, .empty⟩

def guarded {α : Type} (x : PlainStore) (a : α) : Except StoreError α :=
  if x.isOpen then .ok a else .error .closed

def change (x : PlainStore) (b : Batch) : PlainStore :=
  if x.isOpen then { x with table := x.table.writeAll b } else x

def reply (x : PlainStore) : Shelf.Request → Shelf.Reply
  | .openStore | .closeStore => .done (.ok ())
  | .isOpen => .flag x.isOpen
  | .get key => .value (x.guarded (x.table.get? key))
  | .put _ _ | .delete _ | .batch _ => .done (x.guarded ())
  | .page start after limit => .page (x.guarded (x.table.page start after limit))

def next (x : PlainStore) : Shelf.Request → PlainStore
  | .openStore => { x with isOpen := true }
  | .closeStore => { x with isOpen := false }
  | .put key value => x.change [.put key value]
  | .delete key => x.change [.delete key]
  | .batch b => x.change b
  | .isOpen | .get _ | .page _ _ _ => x

theorem error?_reply (x : PlainStore) (q : Shelf.Request) :
    (x.reply q).error? = if q.needsOpen && !x.isOpen then some .closed else none := by
  obtain ⟨isOpen, t⟩ := x
  cases isOpen <;> cases q <;> rfl

end PlainStore

namespace Shelf

def Faultless (s : Shelf) : Prop := ∀ calls p, s.faults.reason calls p = none

theorem call_of_faultless {α : Type} {s : Shelf} (h : s.Faultless) (p : Primitive)
    (act : Shelf → Except StoreError α × Shelf) : s.call p act = act (s.counted p) :=
  call_unplanned (h s.faults.calls p) act

structure InMemory (s : Shelf) (m : MemoryStore) (x : PlainStore) : Prop where
  backend : s.backend = .memory m
  unbounded : m.Unbounded
  isOpen : m.isOpen = x.isOpen
  table : m.contents.toTable = x.table
  faultless : s.Faultless

section InMemory

variable {s : Shelf} {m : MemoryStore} {x : PlainStore} {p : Primitive}

theorem InMemory.look {α : Type} {a : α} {onMemory : MemoryStore → Except StoreError α}
    {onDurable : DurableStore → Disk → Except StoreError α} (h : s.InMemory m x)
    (hm : onMemory m = x.guarded a) :
    (s.call p (look onMemory onDurable)).1 = x.guarded a ∧
      ∃ m', (s.call p (look onMemory onDurable)).2.InMemory m' x := by
  rw [call_of_faultless h.faultless]
  simp only [Shelf.look, counted, h.backend]
  exact ⟨hm, m, rfl, h.unbounded, h.isOpen, h.table, h.faultless⟩

theorem InMemory.change {b : Batch} {hasRoom : MemoryStore → Prop}
    {onMemory : MemoryStore → Except StoreError Unit × MemoryStore}
    {onDurable : DurableStore → Disk → Except StoreError Unit × DurableStore × Disk}
    (hm : MemoryStore.Performs onMemory b hasRoom) (h : s.InMemory m x) (hr : hasRoom m) :
    (s.call p (change onMemory onDurable)).1 = x.guarded () ∧
      ∃ m', (s.call p (change onMemory onDurable)).2.InMemory m' (x.change b) := by
  rw [call_of_faultless h.faultless]
  simp only [Shelf.change, counted, h.backend, PlainStore.guarded, PlainStore.change]
  cases ho : x.isOpen with
  | false =>
    rw [hm.closed m (h.isOpen.trans ho)]
    exact ⟨rfl, m, rfl, h.unbounded, h.isOpen, h.table, h.faultless⟩
  | true =>
    obtain ⟨c, hact, hc⟩ := hm.opened m (h.isOpen.trans ho) hr
    rw [hact]
    refine ⟨rfl, { m with contents := c }, rfl, h.unbounded, h.isOpen.trans ho, ?_, h.faultless⟩
    rw [hc, h.table, if_pos rfl]

theorem InMemory.serve (h : s.InMemory m x) (q : Request) :
    (s.serve q).1 = x.reply q ∧ ∃ m', (s.serve q).2.InMemory m' (x.next q) := by
  cases q with
  | openStore =>
    simp only [Shelf.serve, openStore, call_of_faultless h.faultless, Shelf.change, counted,
      h.backend]
    exact ⟨rfl, m.opened, rfl, h.unbounded, rfl, h.table, h.faultless⟩
  | closeStore =>
    simp only [Shelf.serve, closeStore, shut, call_of_faultless h.faultless, Shelf.change, counted,
      h.backend]
    exact ⟨rfl, m.closed, rfl, h.unbounded, rfl, h.table, h.faultless⟩
  | isOpen =>
    have ho : s.isOpen = x.isOpen := by
      rw [Shelf.isOpen, h.backend]
      exact h.isOpen
    exact ⟨congrArg Reply.flag ho, m, h⟩
  | get key =>
    have hget : m.get key = x.guarded (x.table.get? key) := by
      rw [MemoryStore.get, PlainStore.guarded, ← h.isOpen, ← h.table,
        MemoryStore.Contents.get?_toTable]
    exact (h.look hget).imp_left (congrArg Reply.value)
  | put key value =>
    exact (h.change (MemoryStore.performs_put key value) h.unbounded).imp_left (congrArg Reply.done)
  | delete key =>
    exact (h.change (MemoryStore.performs_delete key) trivial).imp_left (congrArg Reply.done)
  | batch b =>
    exact (h.change (MemoryStore.performs_writeBatch b) h.unbounded).imp_left (congrArg Reply.done)
  | page start after limit =>
    have hpage : m.scanPage start after limit = x.guarded (x.table.page start after limit) := by
      cases ho : m.isOpen with
      | true =>
        rw [m.scanPage_eq h.table ho, PlainStore.guarded, ← h.isOpen, ho, if_pos rfl]
      | false => simp [MemoryStore.scanPage, PlainStore.guarded, ← h.isOpen, ho]
    exact (h.look hpage).imp_left (congrArg Reply.page)

end InMemory

structure OnFile (s : Shelf) (name : String) (p : Path) (x : PlainStore) (d : DurableStore) :
    Prop where
  backend : s.backend = .durable d
  keeps : d.Keeps s.disk name p x.isOpen x.table
  faultless : s.Faultless

section OnFile

variable {s : Shelf} {name : String} {p : Path} {x : PlainStore} {d : DurableStore}
  {c : Primitive}

theorem OnFile.look {α : Type} {a : α} {onMemory : MemoryStore → Except StoreError α}
    {onDurable : DurableStore → Disk → Except StoreError α} (h : s.OnFile name p x d)
    (hd : onDurable d s.disk = x.guarded a) :
    (s.call c (look onMemory onDurable)).1 = x.guarded a ∧
      ∃ d', (s.call c (look onMemory onDurable)).2.OnFile name p x d' := by
  rw [call_of_faultless h.faultless]
  simp only [Shelf.look, counted, h.backend]
  exact ⟨hd, d, rfl, h.keeps, h.faultless⟩

theorem OnFile.change {onMemory : MemoryStore → Except StoreError Unit × MemoryStore}
    (h : s.OnFile name p x d) (b : Batch) :
    (s.call c (change onMemory (·.writeBatch · b))).1 = x.guarded () ∧
      ∃ d', (s.call c (change onMemory (·.writeBatch · b))).2.OnFile name p (x.change b) d' := by
  have hk := h.keeps
  rw [call_of_faultless h.faultless]
  simp only [Shelf.change, counted, h.backend, PlainStore.guarded, PlainStore.change]
  cases ho : x.isOpen with
  | false =>
    rw [ho] at hk
    rw [hk.writeBatch_closed b]
    exact ⟨rfl, d, rfl, h.keeps, h.faultless⟩
  | true =>
    rw [ho] at hk
    obtain ⟨disk, hw, hk'⟩ := hk.writeBatch b
    rw [hw]
    exact ⟨rfl, d, rfl, hk', h.faultless⟩

theorem OnFile.openStore (hn : NamesFile name p) (h : s.OnFile name p x d) :
    s.openStore.1 = .ok () ∧ ∃ d', s.openStore.2.OnFile name p { x with isOpen := true } d' := by
  obtain ⟨d', disk, hopen, hk⟩ := h.keeps.openOn hn
  simp only [Shelf.openStore, call_of_faultless h.faultless, Shelf.change, counted, h.backend]
  rw [hopen]
  exact ⟨rfl, d', rfl, hk, h.faultless⟩

theorem OnFile.serve (hn : NamesFile name p) (h : s.OnFile name p x d) (q : Request) :
    (s.serve q).1 = x.reply q ∧ ∃ d', (s.serve q).2.OnFile name p (x.next q) d' := by
  cases q with
  | openStore => exact (h.openStore hn).imp_left (congrArg Reply.done)
  | closeStore =>
    simp only [Shelf.serve, closeStore, shut, call_of_faultless h.faultless, Shelf.change, counted,
      h.backend]
    exact ⟨rfl, (d.close s.disk).1, rfl, h.keeps.close, h.faultless⟩
  | isOpen =>
    have ho : s.isOpen = x.isOpen := by
      rw [Shelf.isOpen, h.backend]
      exact h.keeps.isOpen_eq
    exact ⟨congrArg Reply.flag ho, d, h⟩
  | get key =>
    have hget : d.get s.disk key = x.guarded (x.table.get? key) := by
      rw [DurableStore.get, h.keeps.table_eq, PlainStore.guarded]
      cases x.isOpen <;> rfl
    exact (h.look hget).imp_left (congrArg Reply.value)
  | put key value => exact (h.change [.put key value]).imp_left (congrArg Reply.done)
  | delete key => exact (h.change [.delete key]).imp_left (congrArg Reply.done)
  | batch b => exact (h.change b).imp_left (congrArg Reply.done)
  | page start after limit =>
    have hpage : d.scanPage s.disk start after limit =
        x.guarded (x.table.page start after limit) := by
      have ht := h.keeps.table_eq
      rw [PlainStore.guarded]
      cases ho : x.isOpen with
      | true =>
        rw [ho, if_pos rfl] at ht
        exact d.scanPage_eq ht start after limit
      | false =>
        rw [ho] at ht
        simp [DurableStore.scanPage, ht]
    exact (h.look hpage).imp_left (congrArg Reply.page)

theorem OnFile.replace (hn : NamesFile name p) (h : s.OnFile name p x d) (how : DurableStore.Loss)
    (sync : Bool) (busyTimeoutMs : Nat) :
    (s.replace how sync busyTimeoutMs).1 = .done (.ok ()) ∧
      ∃ d', (s.replace how sync busyTimeoutMs).2.OnFile name p x d' := by
  have hk := h.keeps.lose how sync busyTimeoutMs
  simp only [Shelf.replace, h.backend, h.keeps.isOpen_eq]
  obtain ⟨isOpen, t⟩ := x
  cases isOpen with
  | false => exact ⟨rfl, _, rfl, hk, h.faultless⟩
  | true =>
    have hlost : OnFile ⟨.durable ⟨d.path, sync, busyTimeoutMs, none⟩, d.lose s.disk how, s.faults⟩
        name p ⟨false, t⟩ ⟨d.path, sync, busyTimeoutMs, none⟩ := ⟨rfl, hk, h.faultless⟩
    exact (hlost.openStore hn).imp_left (congrArg Reply.done)

end OnFile

theorem meetAll_agree {s m : Shelf} {name : String} {p : Path} {x : PlainStore} {d : DurableStore}
    {mem : MemoryStore} (hn : NamesFile name p) (hs : s.OnFile name p x d) (hm : m.InMemory mem x)
    (events : List Event) :
    (s.meetAll events).1 = (m.meetAll events).1 ∧
      ∃ x d mem, (s.meetAll events).2.OnFile name p x d ∧ (m.meetAll events).2.InMemory mem x := by
  induction events generalizing s m x d mem with
  | nil => exact ⟨rfl, x, d, mem, hs, hm⟩
  | cons e events ih =>
    have hstep : ∃ x d mem, (s.meet e).1 = (m.meet e).1 ∧ (s.meet e).2.OnFile name p x d ∧
        (m.meet e).2.InMemory mem x := by
      cases e with
      | request q =>
        obtain ⟨hreply, d', hs'⟩ := hs.serve hn q
        obtain ⟨hreply', mem', hm'⟩ := hm.serve q
        exact ⟨x.next q, d', mem', hreply.trans hreply'.symm, hs', hm'⟩
      | loss how sync busyTimeoutMs =>
        obtain ⟨hreply, d', hs'⟩ := hs.replace hn how sync busyTimeoutMs
        have hunchanged : m.meet (.loss how sync busyTimeoutMs) = (.done (.ok ()), m) := by
          simp only [meet, replace, hm.backend]
        rw [hunchanged]
        exact ⟨x, d', mem, hreply, hs', hm⟩
    obtain ⟨x', d', mem', hreply, hs', hm'⟩ := hstep
    obtain ⟨hreplies, hend⟩ := ih hs' hm'
    exact ⟨congrArg₂ List.cons hreply hreplies, hend⟩

end Shelf

def Disk.FreshPath (d : Disk) (name : String) : Prop :=
  ∃ p, NamesFile name p ∧ d.Leads name p ∧ d.files.get? p = none

theorem Shelf.file_answers_as_memory {disk : Disk} {name : String} (h : disk.FreshPath name)
    (sync : Bool) (busyTimeoutMs : Nat) (other : Disk) (events : List Event) :
    let s : Shelf := ⟨.durable (.onFile name sync busyTimeoutMs), disk, .none⟩
    let m : Shelf := ⟨.memory .new, other, .none⟩
    (s.meetAll events).1 = (m.meetAll events).1 ∧
      (s.meetAll events).2.isOpen = (m.meetAll events).2.isOpen ∧
      ∀ q, ((s.meetAll events).2.serve q).1.error? =
        if q.needsOpen && !(s.meetAll events).2.isOpen then some .closed else none := by
  intro s m
  obtain ⟨p, hn, hleads, habsent⟩ := h
  have hs : s.OnFile name p .new (.onFile name sync busyTimeoutMs) :=
    ⟨rfl, ⟨rfl, rfl, hleads, Or.inl ⟨habsent, rfl⟩, by simp [PlainStore.new]⟩, fun _ _ => rfl⟩
  have hm : m.InMemory .new .new := ⟨rfl, rfl, rfl, rfl, fun _ _ => rfl⟩
  obtain ⟨hreplies, x, d, mem, hs', hm'⟩ := meetAll_agree hn hs hm events
  have hopen : (s.meetAll events).2.isOpen = x.isOpen := by
    have := (hs'.serve hn .isOpen).1
    exact Reply.flag.inj this
  have hopen' : (m.meetAll events).2.isOpen = x.isOpen := by
    have := (hm'.serve .isOpen).1
    exact Reply.flag.inj this
  refine ⟨hreplies, hopen.trans hopen'.symm, fun q => ?_⟩
  rw [(hs'.serve hn q).1, x.error?_reply, hopen]

theorem Shelf.file_answers_as_memory_killed :
    Disk.empty.FreshPath "data/o.db" ∧
      (Shelf.meetAll ⟨.durable (.onFile "data/o.db" false 50), .empty, .none⟩
        [.request .openStore, .request (.put [1] [2]), .loss .killed true 50,
          .request (.page [] (some [0]) 9), .request .closeStore, .request (.get [1])]).1 =
        [.done (.ok ()), .done (.ok ()), .done (.ok ()), .page (.ok [([1], [2])]), .done (.ok ()),
          .value (.error .closed)] := by
  have h : Disk.empty.FreshPath "data/o.db" := by
    refine ⟨[Bytes.ofString "data", Bytes.ofString "o.db"], ⟨?_, ?_, ?_⟩, ?_, rfl⟩
    · decide +kernel
    · decide +kernel
    · decide +kernel
    · exact ⟨Disk.empty.addDirectory [Bytes.ofString "data"], by decide +kernel, by decide +kernel⟩
  exact ⟨h, (file_answers_as_memory h false 50 .empty _).1.trans rfl⟩

end Staging
